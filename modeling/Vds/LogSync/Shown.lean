import Vds.LogSync.Effects

/-! The worklists and candidates of the machine show the blocks as they are stored, and a block is
applied only by a verdict, in every run. -/

namespace Vds.LogSync

open StateError Dbo

variable {sp : ServiceProvider} {crypto : Crypto}

/-- The worklist shows the stored blocks. -/
def Entries (db : Database) (ps : List (ConstDataBuffer × Pending)) : Prop :=
  ∀ k d, (k, d) ∈ ps → dataOf db k = some d.data

theorem Entries.stored {db : Database} {ps : List (ConstDataBuffer × Pending)} {k : ConstDataBuffer}
    {data : Pending} {block : TransactionBlock} (h : Entries db ps) (hw : WellFormed crypto db)
    (hk : (k, data) ∈ ps) (hb : TransactionBlock.create crypto data.data = .ok block) :
    block.id = k ∧ Stored crypto db k block := by
  have hs := stored_iff.mpr ⟨data.data, h k data hk, hb⟩
  exact ⟨hw.id_eq hs, hs⟩

/-- The candidates show the stored blocks. -/
def Shows (db : Database) (cs : List Candidate) : Prop := ∀ p ∈ cs, dataOf db p.id = some p.data

def ShownAt (db : Database) (ps : List (ConstDataBuffer × Pending)) : Phase → Prop
  | .idle => True
  | .loop => Entries db ps
  | .vote block data | .followers block data =>
    Entries db ps ∧ dataOf db block.id = some data.data
  | .confirm block data w todo =>
    (Entries db ps ∧ dataOf db block.id = some data.data) ∧ Shows db w.consensusCandidate ∧ Shows db todo
  | .records p next => dataOf db p.id = some p.data ∧ ShownAt db ps next
  | .rollback _ w walk =>
    Shows db w.consensusCandidate ∧ ∀ e ∈ walk.notProcessed, dataOf db e.1 = some e.2
  | .retry todo => Shows db todo

section Grows

variable {db db' : Database} (hd : DataGrows db db')
include hd

theorem Entries.mono {ps : List (ConstDataBuffer × Pending)} (h : Entries db ps) : Entries db' ps :=
  fun k d hk => hd k _ (h k d hk)

theorem Shows.mono {cs : List Candidate} (h : Shows db cs) : Shows db' cs :=
  fun p hp => hd _ _ (h p hp)

theorem ShownAt.mono {ps : List (ConstDataBuffer × Pending)} {phase : Phase}
    (h : ShownAt db ps phase) : ShownAt db' ps phase := by
  induction phase with
  | idle => trivial
  | loop => exact Entries.mono hd h
  | vote | followers => exact ⟨h.1.mono hd, hd _ _ h.2⟩
  | confirm => exact ⟨⟨h.1.1.mono hd, hd _ _ h.1.2⟩, h.2.1.mono hd, h.2.2.mono hd⟩
  | records p next ih => exact ⟨hd _ _ h.1, ih h.2⟩
  | rollback => exact ⟨h.1.mono hd, fun e he => hd _ _ (h.2 e he)⟩
  | retry => exact Shows.mono hd h

end Grows

/-! ### Every step keeps it -/

theorem Shows.of_voteWalk {t t' : DatabaseTransaction} {block : TransactionBlock} {data : Pending}
    {n : Nat} {w : VoteWalk} (hw : WellFormed sp.crypto t.db)
    (hb : dataOf t.db block.id = some data.data)
    (h : voteWalk sp block n { notProcessed := [(block.id, data)] } t = .ok w t') :
    Shows t.db w.consensusCandidate := by
  have hwalk : WalkOk (fun k d => dataOf t.db k = some d.data) w := by
    refine voteWalk_ok (fun k d b hd hb => ?_) (fun k row hr => ?_) ?_ h
    · exact hw.id_eq (stored_iff.mpr ⟨d.data, hd, hb⟩)
    · rw [dataOf, hr]
      rfl
    · refine ⟨fun k d hd => ?_, List.nodup_singleton _, by simp, by simp, by simp, by simp⟩
      cases List.mem_singleton.mp hd
      exact hb
  exact fun p hp => (hwalk.candidates p hp).1

theorem Entries.follow {t t' : DatabaseTransaction} {n : Nat} {s : RecordState}
    {pr fs : List ConstDataBuffer} {ps ps' : List (ConstDataBuffer × Pending)} (h : Entries t.db ps)
    (pushed : pushFollowers n s pr fs ps t = .ok ps' t') : Entries t'.db ps' := by
  by_cases hs : s = .leaf
  · rw [hs] at pushed
    obtain ⟨rfl, hp⟩ := pushFollowers_leaf pushed
    intro k d hk
    rcases hp.only k d hk with hk | ⟨-, -, row, hr, rfl⟩
    · exact h k d hk
    · rw [dataOf, hr]
      rfl
  · obtain ⟨rfl, hr⟩ := pushFollowers_induct (I := Restated .invalid t) hs pushed
      (Restated.refl _ t) fun _ x hr _ => hr.setState x
    intro k d hk
    rw [dataOf_congr hr.blocks]
    exact h k d hk

theorem mem_rollbackLeaves {minOrder : UInt64} {db : Database} {e : ConstDataBuffer × ConstDataBuffer}
    (h : e ∈ rollbackLeaves minOrder db) : ∃ row, db.logRecords.lookup e.1 = some row ∧
      e.2 = row.data ∧ row.state = .leaf ∧ minOrder.toInt64 ≤ row.orderNo ∧ row.consensus = false := by
  rcases SortedMap.mem_assigns bufferLess _ _ _ h with h | ⟨⟨k, row⟩, hm, rfl⟩
  · cases h
  · obtain ⟨hl, hsel⟩ := Table.mem_select.mp hm
    simp only [Bool.and_eq_true, decide_eq_true_eq, Bool.not_eq_true'] at hsel
    exact ⟨row, hl, rfl, hsel.1.1, hsel.1.2, hsel.2⟩

theorem Step.shown {c c' : Config} (h : Step sp c c') (hw : WellFormed sp.crypto c.t.db)
    (hs : ShownAt c.t.db c.pending c.phase) : ShownAt c'.t.db c'.pending c'.phase := by
  have hd := h.dataGrows
  cases h with
  | tick | pass | reprocessed | finish | retried => trivial
  | confirmed => exact hs.1
  | confirm =>
    obtain ⟨h₁, h₂, h₃⟩ := hs
    obtain ⟨hp, htodo⟩ := List.forall_mem_cons.mp (h₃.mono hd)
    exact ⟨hp, ⟨h₁.1.mono hd, hd _ _ h₁.2⟩, h₂.mono hd, htodo⟩
  | confirmInvalid =>
    obtain ⟨h₁, h₂, h₃⟩ := hs
    exact ⟨⟨h₁.1.mono hd, hd _ _ h₁.2⟩, h₂.mono hd, (List.forall_mem_cons.mp (h₃.mono hd)).2⟩
  | store parses inserted =>
    intro k d hk
    cases List.mem_singleton.mp hk
    exact dataOf_of_insertBlock inserted
  | start stored waits =>
    intro k d hk
    cases List.mem_singleton.mp hk
    rw [dataOf, stored]
    rfl
  | wait parses waits =>
    have he : Entries _ _ := Entries.mono hd hs
    exact fun k d hk => he k d (List.mem_cons_of_mem _ hk)
  | @judge t t' qs k data rest pr block state parses judged verdict =>
    have he : Entries _ _ := Entries.mono hd hs
    obtain ⟨rfl, -⟩ := Entries.stored hs hw (List.mem_cons_self ..) parses
    exact ⟨fun k d hk => he k d (List.mem_cons_of_mem _ hk), he _ data (List.mem_cons_self ..)⟩
  | elect walk => exact ⟨hs.1.mono hd, hd _ _ hs.2⟩
  | propose walk =>
    have hc := (Shows.of_voteWalk hw hs.2 walk).mono hd
    exact ⟨⟨hs.1.mono hd, hd _ _ hs.2⟩, hc, hc⟩
  | records parses done => exact ShownAt.mono hd hs.2
  | follow found pushed => exact Entries.follow hs.1 pushed
  | rollback invalid =>
    refine ⟨hs.2.1, fun e he => ?_⟩
    obtain ⟨row, hr, he, -⟩ := mem_rollbackLeaves he
    rw [dataOf, hr, he]
    rfl
  | @undo t t₁ t' _ _ _ _ _ _ _ _ _ _ block parses undone ancestors =>
    refine ⟨hs.1.mono hd, fun e he => ?_⟩
    rcases (rollbackAncestors_eq_ok ancestors).data e he with he | he
    · exact hd _ _ (hs.2 e (List.mem_cons_of_mem _ he))
    · obtain ⟨hl, -, -⟩ := undoRecords_keeps undone
      have hb := blocksOf_update t₁.db block.id (g := fun row => { row with state := .validated })
        fun _ => rfl
      refine hd _ _ ?_
      rw [← he]
      refine Eq.trans ?_ (congrFun (dataOf_congr hb) e.1).symm
      unfold dataOf
      rw [hl]
  | rolledBack => exact hs.1
  | skip => exact (List.forall_mem_cons.mp hs).2
  | again =>
    obtain ⟨hp, htodo⟩ := List.forall_mem_cons.mp (Shows.mono hd hs)
    exact ⟨hp, htodo⟩

/-! ### What applies a block -/

/-- The verdict that `id` has just got. -/
structure AppliedBy (sp : ServiceProvider) (id : ConstDataBuffer) (t t' : DatabaseTransaction) :
    Prop where
  judged : ∃ t₀ rows journal block, t₀ = { t with db := { t.db with logRecords := rows }, journal } ∧
    Stored sp.crypto t₀.db id block ∧ block.id = id ∧ Judged sp block t₀ .leaf t'

/-- Blocks get applied by a verdict, one at a time. -/
theorem Step.applied {c c' : Config} (h : Step sp c c') (hw : WellFormed sp.crypto c.t.db)
    (hs : ShownAt c.t.db c.pending c.phase) {x : ConstDataBuffer} (hx : Applied c'.t.db x) :
    Applied c.t.db x ∨ AppliedBy sp x c.t c'.t := by
  have hback : ∀ {t t' : DatabaseTransaction} {s : RecordState}, s.haveState = false →
      Restated s t t' → Applied t'.db x → Applied t.db x := by
    intro t t' s hst hr ha
    rcases hr.state x with he | he
    · unfold Applied at ha ⊢
      rwa [he] at ha
    · unfold Applied at ha
      rw [he] at ha
      cases s <;> simp_all [RecordState.haveState]
  cases h with
  | tick | start | pass | reprocessed | finish | confirmed | rollback | rolledBack | skip | retried =>
    exact .inl hx
  | @store t t' ps pr blockData block parses inserted =>
    refine .inl ?_
    have hne : x ≠ block.id := by
      rintro rfl
      exact not_applied_of_insertBlock inserted hx
    unfold Applied at hx
    rwa [stateOf_of_insertBlock inserted, if_neg hne] at hx
  | wait parses waits =>
    obtain ⟨-, rfl, -⟩ := (processBlock_eq_ok waits).resolve_right fun h => by
      rcases h.2.state_eq with h | h <;> cases h
    exact .inl hx
  | @judge t t' qs k data rest pr block state parses judged verdict =>
    obtain ⟨-, hj⟩ := (processBlock_eq_ok judged).resolve_left fun h => verdict h.1
    by_cases hne : x = block.id
    · subst hne
      have hleaf : state = .leaf := by
        by_contra hn
        exact hj.not_applied hn hx
      obtain ⟨rfl, hst⟩ := Entries.stored hs hw (List.mem_cons_self ..) parses
      rw [hleaf] at hj
      exact .inr ⟨visited block.id rest t, _, _, block, rfl, hst, rfl, hj⟩
    · exact .inl ((hj.applied_iff hne).mp hx)
  | elect walk | propose walk =>
    have hst : stateOf _ = stateOf _ := congrArg Prod.snd (OnlyVotes.voteWalk walk).shapeOf
    unfold Applied at hx ⊢
    exact .inl (by rwa [hst] at hx)
  | @confirm t _ _ _ _ _ _ p | @confirmInvalid t _ _ _ _ _ _ p =>
    have hst : stateOf (setConsensus p.id t).db = stateOf t.db :=
      congrArg Prod.snd (shapeOf_setConsensus p.id t)
    unfold Applied at hx ⊢
    exact .inl (by rwa [hst] at hx)
  | records parses done =>
    obtain ⟨hl, -⟩ := consensusRecords_keeps done
    unfold Applied stateOf at hx ⊢
    exact .inl (by rwa [hl] at hx)
  | @follow t t' _ _ _ _ _ data n fs found pushed =>
    by_cases hleaf : data.state = .leaf
    · rw [hleaf] at pushed
      obtain ⟨rfl, -⟩ := pushFollowers_leaf pushed
      exact .inl hx
    · obtain ⟨-, hr⟩ := pushFollowers_induct (I := Restated .invalid t) hleaf pushed
        (Restated.refl _ t) fun _ x hr _ => hr.setState x
      exact .inl (hback rfl hr hx)
  | @undo t t₁ t' qs ps pr start w k data rest processed walk block parses undone ancestors =>
    obtain ⟨hl, -⟩ := undoRecords_keeps undone
    have hr := rollbackAncestors_eq_ok ancestors
    have hst : ∀ y, stateOf (setState block.id .validated t₁).db y =
        if y = block.id then (stateOf t.db y).map fun _ => .validated else stateOf t.db y := by
      intro y
      have hy := stateOf_update t₁.db block.id y .validated
      have he : stateOf t₁.db = stateOf t.db := by
        unfold stateOf
        rw [hl]
      rwa [he] at hy
    refine .inl ?_
    rcases hr.state x with ⟨-, hin, hout⟩ | ⟨he, -⟩
    · -- a leaf that the rollback leaves behind was processed
      obtain ⟨hxa, hxr, -⟩ := ((hr.processed x).mp hin).resolve_left hout
      have hp := hr.applied x hxa hout hxr
      have hne : x ≠ block.id := fun h => hout (h ▸ List.mem_cons_self ..)
      rw [hst, if_neg hne] at hp
      exact .inl hp
    · unfold Applied at hx ⊢
      rw [he, hst] at hx
      split_ifs at hx with hne
      · cases hs : stateOf t.db x <;> rw [hs] at hx <;> simp at hx
      · exact hx
  | @again t t₁ t' qs ps pr p todo n block invalid parses cleared judged =>
    have hsn : ShownAt t.db ps (.retry (p :: todo)) := hs
    obtain ⟨-, hj⟩ := (processBlock_eq_ok judged).resolve_left fun h => (by cases h.1)
    have hr := invalidBlock_induct (I := fun t' => Restated .validated t t' ∧
        ∃ rows, t' = { t with db := { t.db with logRecords := rows } }) cleared
      ⟨(Restated.refl _ t).setState p.id, _, rfl⟩ fun t₂ x hr _ => ⟨hr.1.setState x, by
        obtain ⟨-, rows, rfl⟩ := hr
        exact ⟨_, rfl⟩⟩
    obtain ⟨hr, rows, hrows⟩ := hr
    by_cases hne : x = block.id
    · subst hne
      have hst : Stored sp.crypto t.db p.id block :=
        stored_iff.mpr ⟨p.data, (List.forall_mem_cons.mp hsn).1, parses⟩
      obtain hid := hw.id_eq hst
      rw [← hid] at hst
      exact .inr ⟨t₁, rows, t.journal, block, hrows, hst.of_blocksOf hr.blocks, rfl, hj⟩
    · exact .inl (hback rfl hr ((hj.applied_iff hne).mp hx))

/-- What the machine shows after a run. -/
structure Config.Shown (crypto : Crypto) (c : Config) : Prop where
  wellFormed : WellFormed crypto c.t.db
  shown : ShownAt c.t.db c.pending c.phase

theorem Config.Shown.step {c c' : Config} (h : c.Shown sp.crypto) (hs : Step sp c c') :
    c'.Shown sp.crypto := ⟨hs.wellFormed h.wellFormed, hs.shown h.wellFormed h.shown⟩

theorem Config.Shown.empty (crypto : Crypto) : (Config.rest {}).Shown crypto :=
  ⟨WellFormed.empty crypto, trivial⟩

end Vds.LogSync
