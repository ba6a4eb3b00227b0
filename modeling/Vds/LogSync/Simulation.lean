import Vds.LogSync.Machine

/-! `save` refines the machine: a run of it is a run of the machine, and one that fails stops
in a step that fails. -/

namespace Vds.LogSync

open StateError Dbo

variable {sp : ServiceProvider} {c₀ : Config}

/-! ### How a run stops -/

/-- The journal grows, and `consensus_records` does not start. -/
structure Quiet (t t' : DatabaseTransaction) : Prop where
  grows : t.journal ⊆ t'.journal
  quiet : ∀ db id, .consensusRecords db id ∈ t'.journal → .consensusRecords db id ∈ t.journal

instance : Std.Refl Quiet := ⟨fun _ => ⟨List.Subset.refl _, fun _ _ h => h⟩⟩

instance : IsTrans DatabaseTransaction Quiet :=
  ⟨fun _ _ _ h h' => ⟨fun _ he => h'.grows (h.grows he), fun db id he => h.quiet db id (h'.quiet db id he)⟩⟩

theorem Quiet.of_eq {t t' : DatabaseTransaction} (h : t'.journal = t.journal) : Quiet t t' :=
  ⟨h ▸ List.Subset.refl _, fun _ _ he => h ▸ he⟩

theorem Quiet.event {t : DatabaseTransaction} {db : Database} {e : Event}
    (he : ∀ db id, e ≠ .consensusRecords db id) :
    Quiet t { t with db, journal := e :: t.journal } :=
  ⟨List.subset_cons_self _ _, fun _ _ h => (List.mem_cons.mp h).resolve_left fun h' => he _ _ h'.symm⟩

theorem quiet_setState (id : ConstDataBuffer) (state : RecordState) (t : DatabaseTransaction) :
    Quiet t (setState id state t) := Quiet.of_eq rfl

theorem writes_quiet {K V : Type} (dbo : Dbo K V) : dbo.Writes Quiet := fun _ _ => Quiet.of_eq rfl

theorem writesOthers_quiet : WritesOthers Quiet where
  memberUsers := writes_quiet _
  wallets := writes_quiet _
  nodeInfos := writes_quiet _
  votes := writes_quiet _
  channelMessages := writes_quiet _
  channelMessageSeq _ _ := Quiet.of_eq rfl
  replicaData := writes_quiet _
  replicaMap := writes_quiet _
  replicaPayments := writes_quiet _

/-- The run that fails in `t'` fails in the step from `c`. -/
def FailsAt (sp : ServiceProvider) (c : Config) (t' : DatabaseTransaction) : Prop :=
  Quiet c.t t' ∨ ∃ p next block e, c.phase = .records p next ∧
    TransactionBlock.create sp.crypto p.data = .ok block ∧
    consensusRecords sp block c.t = .error e t'

/-- Some run of the machine from `c₀` leads to a step that fails in `t'`. -/
def Fails (sp : ServiceProvider) (c₀ : Config) (t' : DatabaseTransaction) : Prop :=
  ∃ c, Steps sp c₀ c ∧ FailsAt sp c t'

/-- The machine has come from `c₀` to the configuration that `t` completes. -/
def At (sp : ServiceProvider) (c₀ : Config) (qs : List (List ConstDataBuffer))
    (ps : List (ConstDataBuffer × Pending)) (pr : List ConstDataBuffer) (phase : Phase)
    (t : DatabaseTransaction) : Prop :=
  Steps sp c₀ ⟨t, qs, ps, pr, phase⟩

section Phases

variable {qs : List (List ConstDataBuffer)} {ps : List (ConstDataBuffer × Pending)}
  {pr : List ConstDataBuffer}

theorem fails_of_quiet {t t₁ : DatabaseTransaction} {phase : Phase} (h : At sp c₀ qs ps pr phase t)
    (hq : Quiet t t₁) : Fails sp c₀ t₁ := ⟨_, h, .inl hq⟩

theorem moves_processBlock_quiet (block : TransactionBlock) :
    Moves Quiet (processBlock sp block) :=
  moves_processBlock (writes_quiet _) (writes_quiet _) writesOthers_quiet (writes_quiet _) block

theorem moves_voteWalk_quiet (block : TransactionBlock) (n : Nat) (w : VoteWalk) :
    Moves Quiet (voteWalk sp block n w) :=
  moves_voteWalk (writes_quiet _) (fun _ _ _ => Quiet.event fun _ _ h => nomatch h) block n w

/-! ### Confirmation -/

/-- `consensus_records` of `p`, then on to `next`. -/
theorem records_triple (p : Candidate) (next : Phase) :
    Triple (At sp c₀ qs ps pr (.records p next))
      (do
        let block ← getExpected (TransactionBlock.create sp.crypto p.data)
        consensusRecords sp block)
      (fun _ => At sp c₀ qs ps pr next) fun _ => Fails sp c₀ := by
  intro t h
  cases hb : TransactionBlock.create sp.crypto p.data with
  | error e => exact fails_of_quiet h (refl_of Quiet t)
  | ok block =>
    rw [bind_of_ok (getExpected_eq_ok.mpr ⟨rfl, rfl⟩)]
    cases hr : consensusRecords sp block t with
    | ok u t' => exact h.tail (.records hb hr)
    | error e t' => exact ⟨_, h, .inr ⟨p, next, block, e, rfl, hb, hr⟩⟩

theorem confirmCandidates_triple (block : TransactionBlock) (data : Pending) (w : VoteWalk)
    (todo : List Candidate) :
    Triple (At sp c₀ qs ps pr (.confirm block data w todo))
      (confirmCandidates sp w.haveInvalidConsensus todo)
      (fun _ => At sp c₀ qs ps pr (.confirm block data w [])) fun _ => Fails sp c₀ := by
  refine Triple.forM (I := fun todo => At sp c₀ qs ps pr (.confirm block data w todo))
    (fun p todo => ?_) todo
  intro t h
  rw [update_bind]
  by_cases hp : p.state = .processed ∨ p.state = .leaf
  · rw [if_pos hp]
    exact records_triple p _ (setConsensus p.id t) (h.tail (.confirm hp))
  · rw [if_neg hp]
    cases hw : w.haveInvalidConsensus with
    | true => exact h.tail (.confirmInvalid hp hw)
    | false => exact fails_of_quiet h (Quiet.of_eq rfl)

/-! ### Rollback -/

theorem rollbackLoop_triple (start : Database) (w : VoteWalk) (n : Nat) (walk : RollbackWalk) :
    Triple (At sp c₀ qs ps pr (.rollback start w walk)) (rollbackLoop sp w.minOrder n walk)
      (fun _ => At sp c₀ qs ps pr (.retry w.consensusCandidate)) fun _ => Fails sp c₀ := by
  induction n generalizing walk with
  | zero => exact Triple.throw fun t h => fails_of_quiet h (refl_of Quiet t)
  | succ n ih =>
    obtain ⟨notProcessed, processed⟩ := walk
    cases notProcessed with
    | nil => exact Triple.pure fun t h => h.tail .rolledBack
    | cons e rest =>
      obtain ⟨k, data⟩ := e
      intro t h
      cases hb : TransactionBlock.create sp.crypto data with
      | error e =>
        simp only [rollbackLoop, hb]
        exact fails_of_quiet h (refl_of Quiet t)
      | ok block =>
        simp only [rollbackLoop, hb]
        rw [bind_of_ok (getExpected_eq_ok.mpr ⟨rfl, rfl⟩)]
        have hundo : Moves Quiet (undoRecords sp block) :=
          moves_undoRecords writesOthers_quiet (writes_quiet _) block
        cases hu : undoRecords sp block t with
        | error e t₁ =>
          rw [bind_of_error hu]
          exact fails_of_quiet h (hundo.error hu)
        | ok u t₁ =>
          rw [bind_of_ok hu, bind_of_ok (show updateState block.id .validated t₁ =
            .ok () (setState block.id .validated t₁) from rfl)]
          have hanc : Moves Quiet (rollbackAncestors w.minOrder block.ancestors
              ⟨rest, block.id :: processed⟩) := moves_rollbackAncestors (writes_quiet _) _ _ _
          cases ha : rollbackAncestors w.minOrder block.ancestors ⟨rest, block.id :: processed⟩
              (setState block.id .validated t₁) with
          | error e t₂ =>
            rw [bind_of_error ha]
            exact fails_of_quiet h (trans_of Quiet (hundo.ok hu)
              (trans_of Quiet (quiet_setState _ _ _) (hanc.error ha)))
          | ok walk t₂ =>
            rw [bind_of_ok ha]
            exact ih walk t₂ (h.tail (.undo hb hu ha))

theorem rollbackAll_triple (block : TransactionBlock) (data : Pending) (w : VoteWalk) (n : Nat)
    (hw : w.haveInvalidConsensus = true) :
    Triple (At sp c₀ qs ps pr (.confirm block data w [])) (rollbackAll sp n w.minOrder)
      (fun _ => At sp c₀ qs ps pr (.retry w.consensusCandidate)) fun _ => Fails sp c₀ := by
  intro t h
  exact rollbackLoop_triple t.db w n _ _ (h.tail (.rollback hw))

theorem reprocessInvalid_triple (n : Nat) (todo : List Candidate) :
    Triple (At sp c₀ qs ps pr (.retry todo)) (reprocessInvalid sp n todo)
      (fun _ => At sp c₀ qs ps pr (.retry [])) fun _ => Fails sp c₀ := by
  refine Triple.forM (I := fun todo => At sp c₀ qs ps pr (.retry todo)) (fun p todo => ?_) todo
  intro t h
  cases hb : TransactionBlock.create sp.crypto p.data with
  | error e => exact fails_of_quiet h (refl_of Quiet t)
  | ok block =>
    rw [bind_of_ok (getExpected_eq_ok.mpr ⟨rfl, rfl⟩)]
    by_cases hp : p.state = .invalid
    · rw [if_pos hp]
      have hinv : Moves Quiet (invalidBlock n p.id false) := moves_invalidBlock (writes_quiet _) _ _ _
      cases hi : invalidBlock n p.id false t with
      | error e t₁ =>
        rw [bind_of_error hi]
        exact fails_of_quiet h (hinv.error hi)
      | ok u t₁ =>
        rw [bind_of_ok hi]
        cases hj : processBlock sp block t₁ with
        | error e t₂ =>
          rw [bind_of_error hj]
          exact fails_of_quiet h (trans_of Quiet (hinv.ok hi) ((moves_processBlock_quiet block).error hj))
        | ok state t₂ =>
          rw [bind_of_ok hj]
          by_cases hs : state = .leaf
          · subst hs
            have := records_triple p (.retry todo) t₂ (h.tail (.again hp hb hi hj))
            rw [bind_of_ok (getExpected_eq_ok.mpr ⟨hb, rfl⟩)] at this
            exact this
          · rw [if_pos hs]
            exact fails_of_quiet h (trans_of Quiet (hinv.ok hi) ((moves_processBlock_quiet block).ok hj))
    · rw [if_neg hp]
      exact h.tail (.skip hp)

end Phases

/-! ### The loops -/

/-- The machine has come from `c₀` to rest, with `qs` left to process again. -/
def Rests (sp : ServiceProvider) (c₀ : Config) (qs : List (List ConstDataBuffer))
    (t : DatabaseTransaction) : Prop :=
  ∃ ps pr, At sp c₀ qs ps pr .idle t

/-- `process` runs the machine from a worklist of one block to rest. -/
def ProcessSteps (sp : ServiceProvider) (c₀ : Config) (process : ProcessFollowers) : Prop :=
  ∀ qs p data, Triple (At sp c₀ qs [(p, data)] [] .loop) (process p data) (fun _ => Rests sp c₀ qs)
    fun _ => Fails sp c₀

theorem record_visit_bind {β : Type} (id : ConstDataBuffer)
    (rest : List (ConstDataBuffer × Pending)) (f : Unit → LogM β) (t : DatabaseTransaction) :
    (record (fun db => .visit db id (SortedMap.keys rest)) >>= f) t = f () (visited id rest t) := rfl

section Loops

variable {process : ProcessFollowers} (hprocess : ProcessSteps sp c₀ process)
include hprocess

theorem reprocessFollowers_triple (qs : List (List ConstDataBuffer))
    (ps : List (ConstDataBuffer × Pending)) (pr : List ConstDataBuffer) :
    Triple (At sp c₀ qs ps pr (.retry [])) (reprocessFollowers process) (fun _ => Rests sp c₀ qs)
      fun _ => Fails sp c₀ := by
  intro t h
  unfold reprocessFollowers
  rw [record_bind]
  cases hf : selectLeafFollowers (reprocessing t) with
  | error e t₁ => cases hf
  | ok fs t₁ =>
    obtain rfl : t₁ = reprocessing t := by
      cases hf
      rfl
    rw [show ({ t with journal := .reprocess t.db :: t.journal } : DatabaseTransaction) =
      reprocessing t from rfl, bind_of_ok hf]
    refine Triple.conseq (Triple.forM (I := fun todo => Rests sp c₀ (todo :: qs)) ?_ fs)
      (fun _ h => h) (fun _ t h => ?_) (fun _ _ h => h) (reprocessing t) ⟨ps, pr, h.tail (.retried hf)⟩
    · intro p todo t ⟨ps, pr, h⟩
      rw [find_bind]
      cases hr : t.db.logRecords.lookup p with
      | none =>
        simp only [Orm.transactionLogRecord_rows, hr]
        exact fails_of_quiet h (refl_of Quiet t)
      | some row =>
        simp only [Orm.transactionLogRecord_rows, hr]
        by_cases hs : row.state = .validated
        · rw [if_pos hs]
          exact hprocess (todo :: qs) p _ t (h.tail (.start hr hs))
        · rw [if_neg hs]
          exact ⟨ps, pr, h.tail (.pass hr hs)⟩
    · obtain ⟨ps, pr, h⟩ := h
      exact ⟨ps, pr, h.tail .reprocessed⟩

theorem updateConsensus_triple (n : Nat) (block : TransactionBlock) (data : Pending)
    (qs : List (List ConstDataBuffer)) (ps : List (ConstDataBuffer × Pending)) (pr : List ConstDataBuffer) :
    Triple (At sp c₀ qs ps pr (.vote block data)) (updateConsensus sp process n block data)
      (fun goOn t => if goOn then At sp c₀ qs ps pr (.followers block data) t else Rests sp c₀ qs t)
      fun _ => Fails sp c₀ := by
  intro t h
  unfold updateConsensus
  cases hw : voteWalk sp block n { notProcessed := [(block.id, data)] } t with
  | error e t₁ =>
    rw [bind_of_error hw]
    exact fails_of_quiet h ((moves_voteWalk_quiet block n _).error hw)
  | ok w t₁ =>
    rw [bind_of_ok hw]
    cases hc : w.consensusCandidate.isEmpty with
    | true => exact h.tail (.elect hw (List.isEmpty_iff.mp hc))
    | false =>
      have hne : w.consensusCandidate ≠ [] := fun he => by simp [he] at hc
      rw [if_neg Bool.false_ne_true, record_bind]
      refine Triple.bind (confirmCandidates_triple block data w w.consensusCandidate) (fun _ => ?_)
        _ (h.tail (.propose hw hne))
      cases hi : w.haveInvalidConsensus with
      | false => exact Triple.pure fun t h => h.tail (.confirmed hi)
      | true =>
        refine (rollbackAll_triple block data w n hi).bind fun _ => ?_
        refine (reprocessInvalid_triple n _).bind fun _ => ?_
        refine (reprocessFollowers_triple hprocess qs ps pr).bind fun _ => ?_
        exact Triple.pure fun t h => h

theorem followersLoop_triple (n m : Nat) (qs : List (List ConstDataBuffer))
    (ps : List (ConstDataBuffer × Pending)) (pr : List ConstDataBuffer) :
    Triple (At sp c₀ qs ps pr .loop) (followersLoop sp process n m ps pr) (fun _ => Rests sp c₀ qs)
      fun _ => Fails sp c₀ := by
  induction m generalizing ps pr with
  | zero => exact Triple.throw fun t h => fails_of_quiet h (refl_of Quiet t)
  | succ m ih =>
    cases ps with
    | nil => exact Triple.pure fun t h => ⟨_, _, h.tail .finish⟩
    | cons e rest =>
      obtain ⟨k, data⟩ := e
      intro t h
      cases hb : TransactionBlock.create sp.crypto data.data with
      | error e =>
        simp only [followersLoop, hb]
        exact fails_of_quiet h (refl_of Quiet t)
      | ok block =>
        simp only [followersLoop, hb]
        rw [bind_of_ok (getExpected_eq_ok.mpr ⟨rfl, rfl⟩), record_visit_bind]
        have hvisit : Quiet t (visited block.id rest t) := Quiet.event fun _ _ h => nomatch h
        cases hj : processBlock sp block (visited block.id rest t) with
        | error e t₁ =>
          rw [bind_of_error hj]
          exact fails_of_quiet h (trans_of Quiet hvisit ((moves_processBlock_quiet block).error hj))
        | ok state t₁ =>
          rw [bind_of_ok hj]
          by_cases hs : state = .validated
          · subst hs
            rw [if_pos rfl]
            exact ih rest _ t₁ (h.tail (.wait hb hj))
          · rw [if_neg hs]
            refine Triple.bind (updateConsensus_triple hprocess n block _ qs rest (block.id :: pr))
              (fun goOn => ?_) t₁ (h.tail (.judge hb hj hs))
            cases goOn with
            | false => exact Triple.pure fun t h => h
            | true =>
              intro t h
              have h : At sp c₀ qs rest (block.id :: pr) (.followers block { data with state }) t := h
              simp only [Bool.not_true, Bool.false_eq_true, if_false]
              cases hf : selectFollowers block.id t with
              | error e t₂ =>
                rw [bind_of_error hf]
                exact fails_of_quiet h ((moves_selectFollowers block.id).error hf)
              | ok fs t₂ =>
                obtain rfl : t = t₂ := by
                  have := hf
                  cases this
                  rfl
                rw [bind_of_ok hf]
                have hpush : Moves Quiet (pushFollowers n state (block.id :: pr) fs rest) :=
                  moves_pushFollowers (writes_quiet _) _ _ _ _ _
                cases hp : pushFollowers n state (block.id :: pr) fs rest t with
                | error e t₃ =>
                  rw [bind_of_error hp]
                  exact fails_of_quiet h (hpush.error hp)
                | ok ps' t₃ =>
                  rw [bind_of_ok hp]
                  exact ih ps' _ t₃ (h.tail (.follow hf hp))

end Loops

theorem processBlockWithFollowers_steps (n : Nat) :
    ProcessSteps sp c₀ (processBlockWithFollowers sp n) := by
  induction n with
  | zero =>
    intro qs p data
    exact Triple.throw fun t h => fails_of_quiet h (refl_of Quiet t)
  | succ n ih =>
    intro qs p data
    exact followersLoop_triple ih n n qs _ _

/-- A run of `save` is a run of the machine. -/
theorem save_triple (n : Nat) (blockData : ConstDataBuffer) (allowRoot : Bool) :
    Triple (Rests sp c₀ []) (save sp n blockData allowRoot) (fun _ => Rests sp c₀ [])
      fun _ => Fails sp c₀ := by
  intro t ⟨ps, pr, h⟩
  cases hb : TransactionBlock.create sp.crypto blockData with
  | error e =>
    simp only [save, hb]
    exact fails_of_quiet h (refl_of Quiet t)
  | ok block =>
    simp only [save, hb]
    rw [bind_of_ok (getExpected_eq_ok.mpr ⟨rfl, rfl⟩)]
    split_ifs
    · exact fails_of_quiet h (refl_of Quiet t)
    · rw [bind_of_ok (show block.blockExists t = _ from rfl)]
      have hinsert : Moves Quiet (insertBlock block blockData) :=
        moves_insertBlock (writes_quiet _) (writes_quiet _) _ _
      cases hi : insertBlock block blockData t with
      | error e t₁ =>
        rw [bind_of_error hi]
        exact fails_of_quiet h (hinsert.error hi)
      | ok u t₁ =>
        rw [bind_of_ok hi]
        refine Triple.bind (processBlockWithFollowers_steps n [] block.id _) (fun _ => ?_) t₁
          (h.tail (.store hb hi))
        exact Triple.pure fun t h => h

end Vds.LogSync
