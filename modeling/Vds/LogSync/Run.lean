import Vds.LogSync.Simulation

/-! Runs of successful calls of `save`, and the rule for what holds in all their states. -/

namespace Vds.LogSync

open StateError

variable {sp : ServiceProvider}

/-- From `start`, calls of `save` have stored `blocks`, the last one first; `journal` is what
they did. -/
inductive Run (sp : ServiceProvider) (start : Database) :
    List ConstDataBuffer → List Event → Database → Prop
  | refl : Run sp start [] [] start
  | step {blocks journal db t n data allowRoot now id} (run : Run sp start blocks journal db)
      (saved : save sp n data allowRoot { db, journal, now } = .ok id t) :
      Run sp start (data :: blocks) t.journal t.db

/-- The machine at rest in a database. -/
def Config.rest (db : Database) : Config := { t := { db } }

theorem Run.steps {start db : Database} {blocks : List ConstDataBuffer} {journal : List Event}
    (h : Run sp start blocks journal db) :
    ∃ t, t.db = db ∧ t.journal = journal ∧ Rests sp (.rest start) [] t := by
  induction h with
  | refl => exact ⟨{ db := start }, rfl, rfl, [], [], .refl⟩
  | @step blocks journal db t n data allowRoot now id run saved ih =>
    obtain ⟨t₀, rfl, rfl, ps, pr, h⟩ := ih
    exact ⟨t, rfl, rfl, (save_triple n data allowRoot).ok ⟨ps, pr, h.tail (.tick now)⟩ saved⟩

/-- A call of `save` that fails after a run. -/
theorem Run.fails {start db : Database} {blocks : List ConstDataBuffer} {journal : List Event}
    (h : Run sp start blocks journal db) {n : Nat} {data : ConstDataBuffer} {allowRoot : Bool}
    {now : TimePoint} {e : Error} {t : DatabaseTransaction}
    (hs : save sp n data allowRoot { db, journal, now } = .error e t) : Fails sp (.rest start) t := by
  obtain ⟨t₀, rfl, rfl, ps, pr, h⟩ := h.steps
  exact (save_triple n data allowRoot).error ⟨ps, pr, h.tail (.tick now)⟩ hs

/-- Saves blocks one after the other, if they can all be saved. -/
def saveAll (sp : ServiceProvider) (n : Nat) :
    List ConstDataBuffer → DatabaseTransaction → Option DatabaseTransaction
  | [], t => some t
  | data :: blocks, t =>
    match save sp n data true t with
    | .ok _ t' => saveAll sp n blocks t'
    | .error .. => none

theorem Run.saveAll {start : Database} {n : Nat} {blocks blocks' : List ConstDataBuffer}
    {t t' : DatabaseTransaction} (h : Run sp start blocks t.journal t.db)
    (hs : saveAll sp n blocks' t = some t') :
    Run sp start (blocks'.reverse ++ blocks) t'.journal t'.db := by
  induction blocks' generalizing blocks t with
  | nil =>
    cases hs
    exact h
  | cons data blocks' ih =>
    unfold LogSync.saveAll at hs
    split at hs
    · next hsave =>
      rw [List.reverse_cons, List.append_assoc]
      exact ih (h.step hsave) hs
    · cases hs

/-! ### The journal -/

/-- The journal only grows. -/
def Grows (t t' : DatabaseTransaction) : Prop := ∀ e ∈ t.journal, e ∈ t'.journal

instance : Std.Refl Grows := ⟨fun _ _ h => h⟩

instance : IsTrans DatabaseTransaction Grows := ⟨fun _ _ _ h h' e he => h' e (h e he)⟩

theorem Moves.grows {α : Type} {x : LogM α} (h : Moves Quiet x) : Moves Grows x := fun t => (h t).grows

theorem grows_cons (e : Event) (t : DatabaseTransaction) :
    Grows t { t with journal := e :: t.journal } := fun _ => List.mem_cons_of_mem e

theorem writes_grows {K V : Type} (dbo : Dbo K V) : dbo.Writes Grows :=
  fun _ _ => fun _ h => h

theorem Step.grows {c c' : Config} (h : Step sp c c') : Grows c.t c'.t := by
  cases h with
  | tick | start | pass | reprocessed | finish | confirm | confirmInvalid | confirmed | rolledBack | skip =>
    exact fun _ h => h
  | store _ hi =>
    exact ((moves_insertBlock (writes_quiet _) (writes_quiet _) _ _).ok hi).grows
  | wait _ hj =>
    exact trans_of Grows (grows_cons _ _) ((moves_processBlock_quiet _).ok hj).grows
  | judge _ hj =>
    exact trans_of Grows (grows_cons _ _) ((moves_processBlock_quiet _).ok hj).grows
  | elect hw => exact ((moves_voteWalk_quiet _ _ _).ok hw).grows
  | propose hw =>
    exact trans_of Grows ((moves_voteWalk_quiet _ _ _).ok hw).grows (grows_cons _ _)
  | records _ hr =>
    exact (moves_consensusRecords (writes_grows _) _ fun t => grows_cons (.consensusRecords t.db _) t).ok hr
  | follow _ hp => exact ((moves_pushFollowers (writes_quiet _) _ _ _ _ _).ok hp).grows
  | rollback | retried => exact grows_cons _ _
  | undo _ hu ha =>
    exact trans_of Grows ((moves_undoRecords writesOthers_quiet (writes_quiet _) _).ok hu).grows
      (trans_of Grows (quiet_setState _ _ _).grows
        ((moves_rollbackAncestors (writes_quiet _) _ _ _).ok ha).grows)
  | again _ _ hi hj =>
    exact trans_of Grows ((moves_invalidBlock (writes_quiet _) _ _ _).ok hi).grows
      ((moves_processBlock_quiet _).ok hj).grows

/-- All events of the journal are `Good`. -/
def AllGood (Good : Event → Prop) (t : DatabaseTransaction) : Prop := ∀ e ∈ t.journal, Good e

/-- The rule for a property of all configurations that a run reaches while its events are
`Good`. -/
theorem Steps.invariant {Good : Event → Prop} {I : Config → Prop} {c₀ c : Config} (h0 : I c₀)
    (hstep : ∀ c c', AllGood Good c'.t → I c → Step sp c c' → I c') (h : Steps sp c₀ c)
    (hg : AllGood Good c.t) : I c := by
  induction h with
  | refl => exact h0
  | tail _ hs ih => exact hstep _ _ hg (ih fun e he => hg e (hs.grows e he)) hs

end Vds.LogSync
