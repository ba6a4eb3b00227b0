import Mathlib

/-! Runs of a machine whose steps are named by actions: a state and an action give the next
state, or nothing where the action is not possible. -/

namespace Vds.Library.LabelledRun

variable {σ α : Type}

/-- The state after the actions, taken one after another. -/
def run (step : σ → α → Option σ) (s : σ) (actions : List α) : Option σ := actions.foldlM step s

variable {step : σ → α → Option σ} {s s' : σ}

theorem run_concat_eq_some {actions : List α} {a : α} :
    run step s (actions ++ [a]) = some s' ↔
      ∃ t, run step s actions = some t ∧ step t a = some s' := by
  unfold run
  rw [List.foldlM_append, Option.bind_eq_bind, Option.bind_eq_some_iff]
  simp

/-- A step, and a run from where it leads. -/
theorem run_of_step {a : α} {actions : List α} {t : σ} (hstep : step s a = some t) (hrun : run step t actions = some s') :
    run step s (a :: actions) = some s' := by
  unfold run at hrun ⊢
  rw [List.foldlM_cons, hstep]
  exact hrun

/-- What holds at the start and is kept by each step, given the actions so far, holds at the end. -/
theorem run_induct {I : List α → σ → Prop} (hstart : I [] s)
    (hstep : ∀ actions t a t', I actions t → step t a = some t' → I (actions ++ [a]) t')
    {actions : List α} (h : run step s actions = some s') : I actions s' := by
  induction actions using List.reverseRecOn generalizing s' with
  | nil =>
    cases h
    exact hstart
  | append_singleton actions a ih =>
    obtain ⟨t, ht, hlast⟩ := run_concat_eq_some.1 h
    exact hstep actions t a s' (ih ht) hlast

/-- An invariant of each step is one of each run. -/
theorem run_invariant {I : σ → Prop} (hstart : I s)
    (hstep : ∀ t a t', I t → step t a = some t' → I t') {actions : List α}
    (h : run step s actions = some s') : I s' :=
  @run_induct σ α step s s' (fun _ t => I t) hstart (fun _ t a t' ht => hstep t a t' ht) actions h

/-- `P` holds of every state that the run comes to. -/
def Always (step : σ → α → Option σ) (s : σ) (actions : List α) (P : σ → Prop) : Prop :=
  ∀ done, done <+: actions → ∀ t, run step s done = some t → P t

/-- Each step of the run is taken under the condition `C`. -/
def EachStep (step : σ → α → Option σ) (s : σ) (actions : List α) (C : σ → α → Prop) : Prop :=
  ∀ done a, done ++ [a] <+: actions → ∀ t t', run step s done = some t → step t a = some t' → C t a

variable {I P : σ → Prop} {C : σ → α → Prop} {actions : List α}

/-- What a step under the condition keeps, a run of such steps keeps. -/
theorem always_of_eachStep (hstart : I s)
    (hstep : ∀ t a t', I t → C t a → step t a = some t' → I t')
    (h : EachStep step s actions C) : Always step s actions I := by
  intro done hdone
  induction done using List.reverseRecOn with
  | nil =>
    intro t ht
    cases ht
    exact hstart
  | append_singleton done a ih =>
    intro t' ht'
    obtain ⟨t, ht, hlast⟩ := run_concat_eq_some.1 ht'
    have hbefore : I t := ih ((List.prefix_append done [a]).trans hdone) t ht
    exact hstep t a t' hbefore (h done a hdone t t' ht hlast) hlast

/-- A step between two states of the run satisfies what `P` of the two says of it. -/
theorem eachStep_of_always (hstep : ∀ t a t', P t → P t' → step t a = some t' → C t a)
    (h : Always step s actions P) : EachStep step s actions C := by
  intro done a hdone t t' ht hlast
  have hbefore : P t := h done ((List.prefix_append done [a]).trans hdone) t ht
  have hafter : P t' := h (done ++ [a]) hdone t' (run_concat_eq_some.2 ⟨t, ht, hlast⟩)
  exact hstep t a t' hbefore hafter hlast

theorem eachStep_nil : EachStep step s [] C := by
  intro done a hdone
  have hlength := hdone.length_le
  simp at hlength

theorem eachStep_concat {a : α} : EachStep step s (actions ++ [a]) C ↔
    EachStep step s actions C ∧
      ∀ t t', run step s actions = some t → step t a = some t' → C t a := by
  constructor
  · intro h
    exact ⟨fun done b hdone => h done b (hdone.trans (List.prefix_append actions [a])),
      h actions a (List.prefix_refl _)⟩
  · rintro ⟨hbefore, hlast⟩ done b hdone
    rcases List.prefix_concat_iff.1 hdone with heq | hearlier
    · obtain ⟨rfl, hab⟩ := List.append_inj' heq rfl
      cases hab
      exact hlast
    · exact hbefore done b hearlier

theorem EachStep.imp {D : σ → α → Prop} (himp : ∀ t a, C t a → D t a) (h : EachStep step s actions C) :
    EachStep step s actions D := fun done a hdone t t' ht hlast => himp t a (h done a hdone t t' ht hlast)

theorem EachStep.shorten {done : List α} (hdone : done <+: actions) (h : EachStep step s actions C) :
    EachStep step s done C := fun before a hbefore => h before a (hbefore.trans hdone)

theorem Always.and {Q : σ → Prop} (hP : Always step s actions P) (hQ : Always step s actions Q) :
    Always step s actions fun t => P t ∧ Q t :=
  fun done hdone t ht => ⟨hP done hdone t ht, hQ done hdone t ht⟩

theorem Always.imp {Q : σ → Prop} (himp : ∀ t, P t → Q t) (h : Always step s actions P) :
    Always step s actions Q := fun done hdone t ht => himp t (h done hdone t ht)

/-- An invariant of each step holds all along. -/
theorem always_of_invariant (hstart : I s)
    (hstep : ∀ t a t', I t → step t a = some t' → I t') : Always step s actions I :=
  fun _ _ _ ht => run_invariant hstart hstep ht

/-- One of the actions, with the actions before it, is as `Q` says. -/
def Happened (Q : List α → α → Prop) (actions : List α) : Prop := ∃ done a, done ++ [a] <+: actions ∧ Q done a

variable {Q : List α → α → Prop}

theorem not_happened_nil : ¬Happened Q [] := by
  rintro ⟨done, a, hprefix, -⟩
  have hlength := hprefix.length_le
  simp at hlength

theorem happened_concat {a : α} : Happened Q (actions ++ [a]) ↔ Happened Q actions ∨ Q actions a := by
  constructor
  · rintro ⟨done, b, hprefix, hQ⟩
    rcases List.prefix_concat_iff.1 hprefix with heq | hearlier
    · obtain ⟨rfl, hab⟩ := List.append_inj' heq rfl
      cases hab
      exact .inr hQ
    · exact .inl ⟨done, b, hearlier, hQ⟩
  · rintro (⟨done, b, hprefix, hQ⟩ | hQ)
    · exact ⟨done, b, hprefix.trans (List.prefix_append actions [a]), hQ⟩
    · exact ⟨actions, a, List.prefix_refl _, hQ⟩

end Vds.Library.LabelledRun
