import Mathlib

/-! Reasoning about computations that carry a state and may stop with an error. The state
survives an error, as it does in code that returns early from a half-done update. -/

namespace Vds.StateError

variable {ε σ α β : Type}

/-- The state in which a computation stops, whether it returns or fails. -/
def final : EStateM.Result ε σ α → σ
  | .ok _ s => s
  | .error _ s => s

@[simp] theorem final_ok (a : α) (s : σ) : final (.ok a s : EStateM.Result ε σ α) = s := rfl

@[simp] theorem final_error (e : ε) (s : σ) : final (.error e s : EStateM.Result ε σ α) = s := rfl

/-- The value of a computation that returns. -/
def returned : EStateM.Result ε σ α → Option α
  | .ok a _ => some a
  | .error _ _ => none

theorem eq_ok_of_returned {r : EStateM.Result ε σ α} {a : α} (h : returned r = some a) :
    r = .ok a (final r) := by
  cases r with
  | ok b s =>
    cases h
    rfl
  | error e s => cases h

/-- The error of a computation that fails. -/
def failure : EStateM.Result ε σ α → Option ε
  | .ok _ _ => none
  | .error e _ => some e

theorem eq_error_of_failure {r : EStateM.Result ε σ α} {e : ε} (h : failure r = some e) :
    r = .error e (final r) := by
  cases r with
  | ok a s => cases h
  | error e' s =>
    cases h
    rfl

theorem bind_eq_ok {x : EStateM ε σ α} {f : α → EStateM ε σ β} {s s'' : σ} {b : β} :
    (x >>= f) s = .ok b s'' ↔ ∃ a s', x s = .ok a s' ∧ f a s' = .ok b s'' := by
  change EStateM.bind x f s = _ ↔ _
  unfold EStateM.bind
  cases h : x s with
  | ok a s' => exact ⟨fun hf => ⟨a, s', rfl, hf⟩, by rintro ⟨_, _, ⟨⟩, hf⟩; exact hf⟩
  | error e s' => exact ⟨fun hf => (nomatch hf), by rintro ⟨_, _, h', _⟩; exact (nomatch h')⟩

theorem bind_eq_error {x : EStateM ε σ α} {f : α → EStateM ε σ β} {s s'' : σ} {e : ε} :
    (x >>= f) s = .error e s'' ↔
      x s = .error e s'' ∨ ∃ a s', x s = .ok a s' ∧ f a s' = .error e s'' := by
  change EStateM.bind x f s = _ ↔ _
  unfold EStateM.bind
  cases h : x s with
  | ok a s' =>
    refine ⟨fun hf => .inr ⟨a, s', rfl, hf⟩, ?_⟩
    rintro (h' | ⟨_, _, ⟨⟩, hf⟩)
    · exact (nomatch h')
    · exact hf
  | error e' s' =>
    refine ⟨fun hf => .inl (by cases hf; rfl), ?_⟩
    rintro (h' | ⟨_, _, h', _⟩)
    · cases h'; rfl
    · exact (nomatch h')

theorem bind_of_ok {x : EStateM ε σ α} {f : α → EStateM ε σ β} {s s' : σ} {a : α}
    (h : x s = .ok a s') : (x >>= f) s = f a s' := by
  change EStateM.bind x f s = _
  simp only [EStateM.bind, h]

theorem bind_of_error {x : EStateM ε σ α} {f : α → EStateM ε σ β} {s s' : σ} {e : ε}
    (h : x s = .error e s') : (x >>= f) s = .error e s' := by
  change EStateM.bind x f s = _
  simp only [EStateM.bind, h]

@[simp] theorem pure_apply (a : α) (s : σ) : (pure a : EStateM ε σ α) s = .ok a s := rfl

@[simp] theorem throw_apply (e : ε) (s : σ) :
    (throw e : EStateM ε σ α) s = .error e s := rfl

@[simp] theorem get_apply (s : σ) : (get : EStateM ε σ σ) s = .ok s s := rfl

@[simp] theorem set_apply (s s' : σ) : (set s' : EStateM ε σ PUnit) s = .ok () s' := rfl

@[simp] theorem modify_apply (f : σ → σ) (s : σ) :
    (modify f : EStateM ε σ PUnit) s = .ok () (f s) := rfl

/-- An error that is caught and dropped leaves the state in which it happened. -/
theorem final_tryCatch (x : EStateM ε σ Unit) (s : σ) :
    final ((tryCatch x fun _ => pure ()) s) = final (x s) := by
  change final (EStateM.tryCatch x (fun _ => pure ()) s) = final (x s)
  unfold EStateM.tryCatch
  cases h : x s with
  | ok a s' => simp only [h]
  | error e s' =>
    simp only [h]
    rfl

theorem forM_concat (f : α → EStateM ε σ PUnit) (xs : List α) (x : α) :
    (xs ++ [x]).forM f = (xs.forM f >>= fun _ => f x) := by
  induction xs with
  | nil =>
    change (f x >>= fun _ => pure ()) = (pure () >>= fun _ => f x)
    rw [pure_bind]
    exact bind_pure_unit
  | cons y ys ih =>
    change (f y >>= fun _ => (ys ++ [x]).forM f) = ((f y >>= fun _ => ys.forM f) >>= fun _ => f x)
    rw [ih, bind_assoc]

/-! ### What every run of a computation does to its state -/

/-- Every run of `x`, also one that fails, relates its first state to its last by `R`. -/
def Moves (R : σ → σ → Prop) (x : EStateM ε σ α) : Prop := ∀ s, R s (final (x s))

section Moves

variable {R : σ → σ → Prop}

theorem Moves.ok {x : EStateM ε σ α} (h : Moves R x) {s s' : σ} {a : α}
    (hx : x s = .ok a s') : R s s' := by
  have := h s
  rwa [hx] at this

theorem Moves.error {x : EStateM ε σ α} (h : Moves R x) {s s' : σ} {e : ε}
    (hx : x s = .error e s') : R s s' := by
  have := h s
  rwa [hx] at this

theorem Moves.pure [Std.Refl R] (a : α) : Moves R (pure a : EStateM ε σ α) := fun s => refl_of R s

theorem Moves.throw [Std.Refl R] (e : ε) : Moves R (throw e : EStateM ε σ α) := fun s => refl_of R s

theorem Moves.get [Std.Refl R] : Moves R (get : EStateM ε σ σ) := fun s => refl_of R s

theorem Moves.bind [IsTrans σ R] {x : EStateM ε σ α} {f : α → EStateM ε σ β} (hx : Moves R x)
    (hf : ∀ a, Moves R (f a)) : Moves R (x >>= f) := by
  intro s
  cases h : x s with
  | ok a s' =>
    rw [bind_of_ok h]
    exact trans_of R (hx.ok h) (hf a s')
  | error e s' =>
    rw [bind_of_error h]
    exact hx.error h

/-- A later step may use what the earlier one returned from the state it left. -/
theorem Moves.bindDep [IsTrans σ R] {x : EStateM ε σ α} {f : α → EStateM ε σ β} (hx : Moves R x)
    (hf : ∀ s a s', x s = .ok a s' → R s' (final (f a s'))) : Moves R (x >>= f) := by
  intro s
  cases h : x s with
  | ok a s' =>
    rw [bind_of_ok h]
    exact trans_of R (hx.ok h) (hf s a s' h)
  | error e s' =>
    rw [bind_of_error h]
    exact hx.error h

theorem Moves.ite {p : Prop} [Decidable p] {x y : EStateM ε σ α} (hx : p → Moves R x)
    (hy : ¬p → Moves R y) : Moves R (if p then x else y) := by
  split_ifs with h
  · exact hx h
  · exact hy h

theorem Moves.forM [Std.Refl R] [IsTrans σ R] {f : α → EStateM ε σ PUnit} {xs : List α} (hf : ∀ x ∈ xs, Moves R (f x)) :
    Moves R (xs.forM f) := by
  induction xs with
  | nil => exact Moves.pure _
  | cons x xs ih =>
    exact (hf x (List.mem_cons_self ..)).bind
      fun _ => ih fun y hy => hf y (List.mem_cons_of_mem _ hy)

end Moves

/-- `x` leaves what `f` reads of the state as it was. -/
abbrev Frames {γ : Type} (f : σ → γ) (x : EStateM ε σ α) : Prop := Moves (fun s s' => f s' = f s) x

instance frames_refl {γ : Type} (f : σ → γ) : Std.Refl fun s s' : σ => f s' = f s := ⟨fun _ => rfl⟩

instance frames_trans {γ : Type} (f : σ → γ) : IsTrans σ fun s s' => f s' = f s :=
  ⟨fun _ _ _ h h' => h'.trans h⟩

/-- `I` holds after every run of `x` from a state in which it holds. -/
abbrev Keeps (I : σ → Prop) (x : EStateM ε σ α) : Prop := Moves (fun s s' => I s → I s') x

instance keeps_refl (I : σ → Prop) : Std.Refl fun s s' : σ => I s → I s' := ⟨fun _ h => h⟩

instance keeps_trans (I : σ → Prop) : IsTrans σ fun s s' => I s → I s' := ⟨fun _ _ _ h h' hs => h' (h hs)⟩

/-! ### Runs from related states -/

/-- Where `x` returns from a state, it returns the same from every related one. -/
def Transfers (R : σ → σ → Prop) (x : EStateM ε σ α) : Prop :=
  ∀ s u, R s u → ∀ a s', x s = .ok a s' → ∃ u', x u = .ok a u' ∧ R s' u'

section Transfers

variable {R : σ → σ → Prop}

theorem Transfers.pure (a : α) : Transfers R (pure a : EStateM ε σ α) := by
  intro s u hR b s' h
  cases h
  exact ⟨u, rfl, hR⟩

theorem Transfers.throw (e : ε) : Transfers R (throw e : EStateM ε σ α) := by
  intro s u hR a s' h
  cases h

theorem Transfers.bind {x : EStateM ε σ α} {f : α → EStateM ε σ β} (hx : Transfers R x)
    (hf : ∀ a, Transfers R (f a)) : Transfers R (x >>= f) := by
  intro s u hR b s'' h
  obtain ⟨a, s', hxs, hfs⟩ := bind_eq_ok.mp h
  obtain ⟨u', hxu, hR'⟩ := hx s u hR a s' hxs
  obtain ⟨u'', hfu, hR''⟩ := hf a s' u' hR' b s'' hfs
  exact ⟨u'', bind_eq_ok.mpr ⟨a, u', hxu, hfu⟩, hR''⟩

theorem Transfers.ite {p : Prop} [Decidable p] {x y : EStateM ε σ α} (hx : Transfers R x) (hy : Transfers R y) :
    Transfers R (if p then x else y) := by
  split_ifs
  · exact hx
  · exact hy

theorem Transfers.forM {f : α → EStateM ε σ PUnit} {xs : List α} (hf : ∀ x ∈ xs, Transfers R (f x)) :
    Transfers R (xs.forM f) := by
  induction xs with
  | nil => exact Transfers.pure _
  | cons x xs ih =>
    exact (hf x (List.mem_cons_self ..)).bind fun _ => ih fun y hy => hf y (List.mem_cons_of_mem _ hy)

/-- A value that is read and is the same in related states. -/
theorem Transfers.read {γ : Type} {g : σ → γ} {f : γ → EStateM ε σ β} (hg : ∀ s u, R s u → g s = g u)
    (hf : ∀ c, Transfers R (f c)) : Transfers R (do let s ← get; f (g s) : EStateM ε σ β) := by
  intro s u hR b s' h
  change f (g s) s = .ok b s' at h
  obtain ⟨u', hu, hR'⟩ := hf (g s) s u hR b s' h
  refine ⟨u', ?_, hR'⟩
  change f (g u) u = .ok b u'
  rw [← hg s u hR]
  exact hu

end Transfers

/-! ### Triples -/

/-- From a state with `P`, `x` returns with `Q` or fails with `E`. -/
def Triple (P : σ → Prop) (x : EStateM ε σ α) (Q : α → σ → Prop) (E : ε → σ → Prop) : Prop :=
  ∀ s, P s → match x s with
    | .ok a s' => Q a s'
    | .error e s' => E e s'

section Triple

variable {P P' : σ → Prop} {Q Q' : α → σ → Prop} {E E' : ε → σ → Prop}

theorem Triple.ok {x : EStateM ε σ α} (h : Triple P x Q E) {s s' : σ} {a : α} (hP : P s)
    (hx : x s = .ok a s') : Q a s' := by
  have := h s hP
  rwa [hx] at this

theorem Triple.error {x : EStateM ε σ α} (h : Triple P x Q E) {s s' : σ} {e : ε} (hP : P s)
    (hx : x s = .error e s') : E e s' := by
  have := h s hP
  rwa [hx] at this

/-- A triple from what is known of each single result. -/
theorem Triple.intro {x : EStateM ε σ α} (hok : ∀ s a s', P s → x s = .ok a s' → Q a s')
    (herr : ∀ s e s', P s → x s = .error e s' → E e s') : Triple P x Q E := by
  intro s hP
  cases h : x s with
  | ok a s' => exact hok s a s' hP h
  | error e s' => exact herr s e s' hP h

theorem Triple.conseq {x : EStateM ε σ α} (h : Triple P x Q E) (hP : ∀ s, P' s → P s)
    (hQ : ∀ a s, Q a s → Q' a s) (hE : ∀ e s, E e s → E' e s) : Triple P' x Q' E' :=
  Triple.intro (fun s a s' h' hx => hQ a s' (h.ok (hP s h') hx))
    fun s e s' h' hx => hE e s' (h.error (hP s h') hx)

theorem Triple.pure {a : α} (h : ∀ s, P s → Q a s) : Triple P (pure a : EStateM ε σ α) Q E := h

theorem Triple.throw {e : ε} (h : ∀ s, P s → E e s) : Triple P (throw e : EStateM ε σ α) Q E := h

theorem Triple.get {Q : σ → σ → Prop} (h : ∀ s, P s → Q s s) :
    Triple P (get : EStateM ε σ σ) Q E := h

theorem Triple.bind {x : EStateM ε σ α} {f : α → EStateM ε σ β} {R : β → σ → Prop}
    (hx : Triple P x Q E) (hf : ∀ a, Triple (Q a) (f a) R E) : Triple P (x >>= f) R E := by
  intro s hP
  cases h : x s with
  | ok a s' =>
    rw [bind_of_ok h]
    exact hf a s' (hx.ok hP h)
  | error e s' =>
    rw [bind_of_error h]
    exact hx.error hP h

theorem Triple.ite {p : Prop} [Decidable p] {x y : EStateM ε σ α}
    (hx : p → Triple P x Q E) (hy : ¬p → Triple P y Q E) :
    Triple P (if p then x else y) Q E := by
  split_ifs with h
  · exact hx h
  · exact hy h

/-- What follows may rely on the state that was read. -/
theorem Triple.getBind {f : σ → EStateM ε σ β} {R : β → σ → Prop}
    (h : ∀ s, P s → Triple (fun t => t = s) (f s) R E) : Triple P (MonadState.get >>= f) R E :=
  fun s hs => h s hs s rfl

/-- A fact that does not depend on the state. -/
theorem Triple.assume {p : Prop} {x : EStateM ε σ α} (h : p → Triple P x Q E) :
    Triple (fun s => P s ∧ p) x Q E := fun s hs => h hs.2 s hs.1

/-- Loop rule: `I` speaks of the items that are left. -/
theorem Triple.forM {f : α → EStateM ε σ PUnit} {I : List α → σ → Prop}
    (hf : ∀ x xs, Triple (I (x :: xs)) (f x) (fun _ => I xs) E) (xs : List α) :
    Triple (I xs) (xs.forM f) (fun _ => I []) E := by
  induction xs with
  | nil => exact Triple.pure fun _ h => h
  | cons x xs ih => exact (hf x xs).bind fun _ => ih

end Triple

theorem forM_cons_eq_ok {f : α → EStateM ε σ PUnit} {x : α} {xs : List α} {s s'' : σ} {u : PUnit} :
    (x :: xs).forM f s = .ok u s'' ↔
      ∃ s', f x s = .ok () s' ∧ xs.forM f s' = .ok u s'' := by
  change (f x >>= fun _ => xs.forM f) s = _ ↔ _
  rw [bind_eq_ok]
  exact ⟨fun ⟨_, s', h, h'⟩ => ⟨s', h, h'⟩, fun ⟨s', h, h'⟩ => ⟨(), s', h, h'⟩⟩

/-- Loop rule: a body that takes `I` of the remaining items to `I` of fewer items takes it
from the whole list to the empty one. -/
theorem forM_induct {f : α → EStateM ε σ PUnit} {I : List α → σ → Prop} {xs : List α} {s s' : σ}
    {u : PUnit} (h : xs.forM f s = .ok u s') (h0 : I xs s)
    (hstep : ∀ x xs s s', I (x :: xs) s → f x s = .ok () s' → I xs s') : I [] s' := by
  induction xs generalizing s with
  | nil =>
    cases h
    exact h0
  | cons x xs ih =>
    obtain ⟨s₁, hx, hxs⟩ := forM_cons_eq_ok.mp h
    exact ih hxs (hstep x xs s s₁ h0 hx)

end Vds.StateError
