import Vds.Library.Worklist
import Vds.LogSync.Build
import Vds.LogSync.Shown

/-! No block is left waiting when all its ancestors are applied, as long as no block is taken from
the worklist before an ancestor that is still to be applied. -/

namespace Vds.LogSync

open StateError Dbo

variable {sp : ServiceProvider} {crypto : Crypto}

/-- The block waits, but for none of its ancestors. -/
def Ready (crypto : Crypto) (db : Database) (x : ConstDataBuffer) : Prop :=
  stateOf db x = some .validated ∧ ∀ a, IsAncestor crypto db a x → Applied db a

/-- An ancestor of the block has a number or a time that the block cannot follow. -/
def OutOfOrder (crypto : Crypto) (db : Database) (x : ConstDataBuffer) : Prop :=
  ∃ block, Stored crypto db x block ∧ ∃ a ∈ block.ancestors, ∃ row,
    db.logRecords.lookup a = some row ∧ ¬InOrder block row

/-- The block is not going to be applied while the worklist `pending` runs empty. -/
def StaysOut (crypto : Crypto) (db : Database) (pending : Set ConstDataBuffer)
    (x : ConstDataBuffer) : Prop :=
  Worklist.Stays (IsAncestor crypto db) {x | Applied db x} {x | OutOfOrder crypto db x} pending x

/-- A block that is taken and has to wait also waits for an ancestor that stays out, and after a
rollback the blocks that wait for nothing follow a leaf. -/
structure Unhurried (crypto : Crypto) (e : Event) : Prop where
  visit : ∀ db id pending, e = .visit db id pending → ∀ block, Stored crypto db id block →
    (∃ a ∈ block.ancestors, WaitsFor db block a) →
    ∃ a ∈ block.ancestors, StaysOut crypto db {k | k ∈ pending} a
  reprocess : ∀ db, e = .reprocess db → ∀ x, Ready crypto db x →
    ∃ a, IsAncestor crypto db a x ∧ stateOf db a = some .leaf

theorem WaitsFor.not_applied {db : Database} {block : TransactionBlock} {a : ConstDataBuffer}
    (h : WaitsFor db block a) : ¬Applied db a := by
  unfold Applied stateOf
  rcases h with hn | ⟨row, hr, -, hv⟩
  · simp [hn]
  · simp [hr, hv]

/-- A visit that leaves nothing on the worklist, or an event that is no visit. -/
def isAlone : Event → Bool
  | .visit _ _ pending => pending.isEmpty
  | .reprocess _ => false
  | _ => true

theorem Unhurried.of_isAlone {e : Event} (h : isAlone e = true) : Unhurried crypto e where
  visit db id pending he block hs hw := by
    subst he
    obtain ⟨a, ha, hw⟩ := hw
    refine ⟨a, ha, .unreached hw.not_applied fun k hk => ?_⟩
    rw [List.isEmpty_iff.mp h] at hk
    cases hk
  reprocess db he := by
    subst he
    cases h

/-! ### What is still to be looked at -/

/-- What holds while a worklist runs and the blocks `active` are still to be taken. -/
structure Progress (crypto : Crypto) (db : Database) (queued : List ConstDataBuffer)
    (active : Set ConstDataBuffer) (pr : List ConstDataBuffer) : Prop where
  ready : ∀ x, Ready crypto db x → x ∈ active ∨ x ∈ queued
  visited : ∀ x ∈ pr, stateOf db x = some .validated →
    ∃ a, IsAncestor crypto db a x ∧ StaysOut crypto db active a

/-- The worklist and the followers of `block`. -/
def activeOf (crypto : Crypto) (db : Database) (ps : List (ConstDataBuffer × Pending))
    (block : TransactionBlock) : Set ConstDataBuffer :=
  {x | x ∈ SortedMap.keys ps ∨ IsAncestor crypto db block.id x}

/-- `block` has got its verdict, and its followers are still to be taken. -/
structure Following (crypto : Crypto) (db : Database) (queued : List ConstDataBuffer)
    (ps : List (ConstDataBuffer × Pending)) (pr : List ConstDataBuffer) (block : TransactionBlock)
    (data : Pending) : Prop where
  progress : Progress crypto db queued (activeOf crypto db ps block) pr
  entries : Entries db ps
  state : ¬Applied db block.id ∨ data.state = .leaf
  verdict : data.state = .leaf ∨ data.state = .invalid

def ProgressAt (crypto : Crypto) (db : Database) (qs : List (List ConstDataBuffer))
    (ps : List (ConstDataBuffer × Pending)) (pr : List ConstDataBuffer) : Phase → Prop
  | .idle => ∀ x, Ready crypto db x → x ∈ qs.headD []
  | .loop => Progress crypto db (qs.headD []) {x | x ∈ SortedMap.keys ps} pr ∧ Entries db ps
  | .vote block data | .confirm block data _ _ | .followers block data =>
    Following crypto db (qs.headD []) ps pr block data
  | .records _ next => ProgressAt crypto db qs ps pr next
  | .rollback .. | .retry _ => True

/-! ### It depends on the shape of the log only -/

section Shape

variable {db db' : Database} (hs : shapeOf db' = shapeOf db)
include hs

theorem ready_of_shape (x : ConstDataBuffer) : Ready crypto db' x ↔ Ready crypto db x := by
  have hst : stateOf db' = stateOf db := congrArg Prod.snd hs
  simp only [Ready, Applied, hst, isAncestor_congr (congrArg Prod.fst hs)]

end Shape

/-- An ancestor out of order stays so. -/
theorem OutOfOrder.of_blocksOf {db db' : Database} (hb : blocksOf db' = blocksOf db)
    {x : ConstDataBuffer} (h : OutOfOrder crypto db x) : OutOfOrder crypto db' x := by
  obtain ⟨block, hs, a, ha, row, hr, ho⟩ := h
  obtain ⟨row', hr', hc⟩ := lookup_of_blocksOf hb hr
  simp only [LogRecord.core, Prod.mk.injEq] at hc
  refine ⟨block, hs.of_blocksOf hb, a, ha, row', hr', ?_⟩
  unfold InOrder
  rw [hc.2.1, hc.2.2]
  exact ho

/-- What stays out when the blocks are the same and no other is applied. -/
theorem StaysOut.mono {db db' : Database} {pending pending' : Set ConstDataBuffer}
    {x : ConstDataBuffer} (h : StaysOut crypto db pending x) (hb : blocksOf db' = blocksOf db)
    (ha : ∀ x, Applied db' x → Applied db x)
    (hreach : ∀ k ∈ pending', ∃ k₀ ∈ pending, Relation.ReflTransGen (IsAncestor crypto db) k₀ k) :
    StaysOut crypto db' pending' x :=
  have hsub : {x | Applied db' x} ⊆ {x | Applied db x} := fun x hx => ha x hx
  (Worklist.Stays.mono h hsub hreach).congr
    (fun _ _ => isAncestor_congr hb) fun _ hz => OutOfOrder.of_blocksOf hb hz

theorem Progress.mono {db db' : Database} {queued : List ConstDataBuffer}
    {active active' : Set ConstDataBuffer} {pr : List ConstDataBuffer}
    (h : Progress crypto db queued active pr) (hb : blocksOf db' = blocksOf db)
    (ha : ∀ x, Applied db' x → Applied db x)
    (hv : ∀ x, stateOf db' x = some .validated → stateOf db x = some .validated)
    (hready : ∀ x, Ready crypto db' x → x ∈ active → x ∈ active')
    (hreach : ∀ k ∈ active', ∃ k₀ ∈ active, Relation.ReflTransGen (IsAncestor crypto db) k₀ k) :
    Progress crypto db' queued active' pr where
  ready x hx := by
    have hx' : Ready crypto db x :=
      ⟨hv x hx.1, fun a he => ha a (hx.2 a ((isAncestor_congr hb).mpr he))⟩
    exact (h.ready x hx').imp_left (hready x hx)
  visited x hx hs := by
    obtain ⟨a, he, hst⟩ := h.visited x hx (hv x hs)
    exact ⟨a, (isAncestor_congr hb).mpr he, hst.mono hb ha hreach⟩

theorem Following.of_shape {db db' : Database} {queued : List ConstDataBuffer}
    {ps : List (ConstDataBuffer × Pending)} {pr : List ConstDataBuffer} {block : TransactionBlock}
    {data : Pending} (h : Following crypto db queued ps pr block data)
    (hs : shapeOf db' = shapeOf db) : Following crypto db' queued ps pr block data := by
  have hb : blocksOf db' = blocksOf db := congrArg Prod.fst hs
  have hst : stateOf db' = stateOf db := congrArg Prod.snd hs
  have ha : ∀ x, Applied db' x ↔ Applied db x := fun x => by rw [Applied, Applied, hst]
  have hact : activeOf crypto db' ps block = activeOf crypto db ps block :=
    Set.ext fun x => or_congr_right (isAncestor_congr hb)
  refine ⟨?_, fun k d hd => ?_, h.state.imp_left fun hn hx => hn ((ha _).mp hx), h.verdict⟩
  · rw [hact]
    exact h.progress.mono hb (fun x => (ha x).mp) (fun x hx => hst ▸ hx) (fun _ _ hx => hx)
      fun k hk => ⟨k, hk, .refl⟩
  · rw [dataOf_congr hb]
    exact h.entries k d hd

theorem ProgressAt.of_shape {db db' : Database} {qs : List (List ConstDataBuffer)}
    {ps : List (ConstDataBuffer × Pending)} {pr : List ConstDataBuffer} {phase : Phase}
    (h : ProgressAt crypto db qs ps pr phase) (hs : shapeOf db' = shapeOf db) :
    ProgressAt crypto db' qs ps pr phase := by
  have hb : blocksOf db' = blocksOf db := congrArg Prod.fst hs
  have hst : stateOf db' = stateOf db := congrArg Prod.snd hs
  have ha : ∀ x, Applied db' x → Applied db x := fun x hx => by rwa [Applied, hst] at hx
  induction phase with
  | idle => exact fun x hx => h x ((ready_of_shape hs x).mp hx)
  | loop =>
    refine ⟨h.1.mono hb ha (fun x hx => hst ▸ hx) (fun _ _ hx => hx) fun k hk => ⟨k, hk, .refl⟩, ?_⟩
    intro k d hd
    rw [dataOf_congr hb]
    exact h.2 k d hd
  | vote | confirm | followers => exact Following.of_shape h hs
  | records _ _ ih => exact ih h
  | rollback | retry => trivial

/-! ### Each step keeps it -/

theorem selectLeafFollowers_eq_ok {t : DatabaseTransaction} {fs : List ConstDataBuffer}
    (hw : WellFormed crypto t.db) (h : selectLeafFollowers t = .ok fs t) {a x : ConstDataBuffer}
    (he : IsAncestor crypto t.db a x) (ha : stateOf t.db a = some .leaf) : x ∈ fs := by
  cases h
  obtain ⟨row, hr⟩ := Option.isSome_iff_exists.mp ((hw.hierarchy a x).mpr he)
  rw [toSet, mem_foldl_emplace, List.mem_filter, List.mem_map, decide_eq_true_eq]
  refine .inr ⟨⟨((a, x), row), Table.mem_select.mpr ⟨hr, ?_⟩, rfl⟩, ?_⟩
  · obtain ⟨rec, hrec, hst⟩ := Option.map_eq_some_iff.mp ha
    simp [hrec, hst]
  · obtain ⟨block, hs, -⟩ := he
    have hid := hw.id_eq hs
    obtain ⟨row', -, hb⟩ := hs
    exact hid ▸ create_id_ne_nil hb

/-- No ancestor keeps a ready block waiting. -/
theorem Ready.not_waitsFor {db : Database} {x : ConstDataBuffer} {block : TransactionBlock}
    (h : Ready crypto db x) (hs : Stored crypto db x block) :
    ¬∃ a ∈ block.ancestors, WaitsFor db block a :=
  fun ⟨a, ha, hw⟩ => hw.not_applied (h.2 a (hs.isAncestor_iff.mpr ha))

theorem Progress.store {t t' : DatabaseTransaction} {block : TransactionBlock}
    {blockData : ConstDataBuffer} (parses : TransactionBlock.create crypto blockData = .ok block)
    (inserted : insertBlock block blockData t = .ok () t')
    (h : ∀ x, ¬Ready crypto t.db x) :
    Progress crypto t'.db [] {x | x ∈ SortedMap.keys [(block.id, (⟨blockData, .validated, false⟩ : Pending))]}
      [] where
  ready x hx := by
    by_cases hne : x = block.id
    · exact .inl (List.mem_singleton.mpr hne)
    · refine absurd ⟨?_, fun a he => ?_⟩ (h x)
      · have := hx.1
        rwa [stateOf_of_insertBlock inserted, if_neg hne] at this
      · have happ := hx.2 a ((isAncestor_of_insertBlock parses inserted a x).mpr (.inr he))
        have hna : a ≠ block.id := fun hid => not_applied_of_insertBlock inserted (hid ▸ happ)
        unfold Applied at happ
        rwa [stateOf_of_insertBlock inserted, if_neg hna] at happ
  visited x hx := by cases hx

section Round

variable {t t' : DatabaseTransaction} {k : ConstDataBuffer} {data : Pending} {queued : List ConstDataBuffer}
  {rest : List (ConstDataBuffer × Pending)} {pr : List ConstDataBuffer} {block : TransactionBlock}

theorem Progress.wait {db : Database}
    (h : Progress crypto db queued {x | x ∈ SortedMap.keys ((block.id, data) :: rest)} pr)
    (hst : Stored crypto db block.id block) (hw : ∃ a ∈ block.ancestors, WaitsFor db block a)
    (hs : ∃ a ∈ block.ancestors, StaysOut crypto db {x | x ∈ SortedMap.keys rest} a) :
    Progress crypto db queued {x | x ∈ SortedMap.keys rest} (block.id :: pr) where
  ready x hx := by
    refine (h.ready x hx).imp_left fun hk => ?_
    rcases List.mem_cons.mp hk with rfl | hk
    · exact absurd hw (hx.not_waitsFor hst)
    · exact hk
  visited x hx hv := by
    rcases List.mem_cons.mp hx with rfl | hx
    · obtain ⟨a, ha, hout⟩ := hs
      exact ⟨a, hst.isAncestor_iff.mpr ha, hout⟩
    · obtain ⟨a, he, hout⟩ := h.visited x hx hv
      exact ⟨a, he, hout.mono rfl (fun _ hx => hx)
        fun k hk => ⟨k, List.mem_cons_of_mem _ hk, .refl⟩⟩

theorem StaysOut.judged {s : RecordState} (hj : Judged sp block t s t')
    (hst : Stored sp.crypto t.db block.id block) {pending pending' : Set ConstDataBuffer}
    (hin : block.id ∈ pending) (hreach : ∀ k ∈ pending', ∃ k₀ ∈ pending,
      Relation.ReflTransGen (IsAncestor sp.crypto t.db) k₀ k) {x : ConstDataBuffer}
    (h : StaysOut sp.crypto t.db pending x) : StaysOut sp.crypto t'.db pending' x := by
  have hdone : ∀ z ∈ {x | Applied t'.db x}, z ≠ block.id → z ∈ {x | Applied t.db x} :=
    fun z hz hne => (hj.applied_iff hne).mp hz
  refine (Worklist.Stays.step h hin hdone (fun hnew _ => ?_) hreach).congr
    (fun _ _ => isAncestor_congr hj.blocksOf) fun _ hz => OutOfOrder.of_blocksOf hj.blocksOf hz
  obtain rfl : s = .leaf := by
    by_contra hs
    exact hj.not_applied hs hnew
  refine ⟨?_, fun a he => hj.applied_ancestors a (hst.isAncestor_iff.mp he)⟩
  rintro ⟨block', hs', a, ha, row, hr, ho⟩
  obtain rfl := hst.unique hs'
  cases hj with
  | applied good =>
    obtain ⟨row', hr', ho', -⟩ := good a ha
    cases hr.symm.trans hr'
    exact ho ho'

theorem Progress.judge {s : RecordState} (hj : Judged sp block t s t')
    (h : Progress sp.crypto t.db queued {x | x ∈ SortedMap.keys ((block.id, data) :: rest)} pr)
    (hst : Stored sp.crypto t.db block.id block) :
    Progress sp.crypto t'.db queued (activeOf sp.crypto t'.db rest block) (block.id :: pr) where
  ready x hx := by
    obtain ⟨hne, hv⟩ := hj.validated hx.1
    by_cases he : IsAncestor sp.crypto t.db block.id x
    · exact .inl (.inr ((isAncestor_congr hj.blocksOf).mpr he))
    · have hx' : Ready sp.crypto t.db x := by
        refine ⟨hv, fun a ha => ?_⟩
        have hna : a ≠ block.id := fun hid => he (hid ▸ ha)
        exact (hj.applied_iff hna).mp (hx.2 a ((isAncestor_congr hj.blocksOf).mpr ha))
      exact (h.ready x hx').imp_left fun hk => .inl ((List.mem_cons.mp hk).resolve_left hne)
  visited x hx hs := by
    obtain ⟨hne, hv⟩ := hj.validated hs
    obtain ⟨a, he, hout⟩ := h.visited x ((List.mem_cons.mp hx).resolve_left hne) hv
    refine ⟨a, (isAncestor_congr hj.blocksOf).mpr he,
      hout.judged hj hst (List.mem_cons_self ..) fun k hk => ?_⟩
    rcases hk with hk | hk
    · exact ⟨k, List.mem_cons_of_mem _ hk, .refl⟩
    · exact ⟨block.id, List.mem_cons_self .., .single ((isAncestor_congr hj.blocksOf).mp hk)⟩

theorem Following.follow {ps ps' : List (ConstDataBuffer × Pending)} {n : Nat}
    {fs : List ConstDataBuffer} (hw : WellFormed crypto t.db)
    (h : Following crypto t.db queued ps pr block data)
    (found : selectFollowers block.id t = .ok fs t)
    (pushed : pushFollowers n data.state pr fs ps t = .ok ps' t') :
    Progress crypto t'.db queued {x | x ∈ SortedMap.keys ps'} pr ∧ Entries t'.db ps' := by
  obtain ⟨fs', hfs', hmem⟩ := selectFollowers_apply (t := t) hw block.id
  obtain rfl : fs' = fs := by
    have := hfs'.symm.trans found
    cases this
    rfl
  by_cases hs : data.state = .leaf
  · rw [hs] at pushed
    obtain ⟨rfl, hp⟩ := pushFollowers_leaf pushed
    refine ⟨h.progress.mono rfl (fun _ hx => hx) (fun _ hx => hx) (fun x hx hact => ?_) fun k hk => ?_,
      fun k d hd => ?_⟩
    · rcases hact with hk | he
      · obtain ⟨d, hd⟩ := SortedMap.mem_keys.mp hk
        exact SortedMap.mem_keys.mpr ⟨d, hp.keeps _ hd⟩
      · refine (hp.pushed x ((hmem x).mpr he)).resolve_left fun hpr => ?_
        -- a follower that was taken before is not ready now
        obtain ⟨a, hea, hout⟩ := h.progress.visited x hpr hx.1
        exact hout.undone (hx.2 a hea)
    · obtain ⟨d, hd⟩ := SortedMap.mem_keys.mp hk
      refine ⟨k, ?_, .refl⟩
      rcases hp.only k d hd with hd | ⟨hk, -⟩
      · exact .inl (SortedMap.mem_keys.mpr ⟨d, hd⟩)
      · exact .inr ((hmem k).mp hk)
    · rcases hp.only k d hd with hd | ⟨-, -, row, hr, rfl⟩
      · exact h.entries k d hd
      · rw [dataOf, hr]
        rfl
  · obtain ⟨rfl, hr⟩ := pushFollowers_induct (I := Restated .invalid t) hs pushed
      (Restated.refl _ t) fun _ x hr _ => hr.setState x
    have hback : ∀ x st, st ≠ .invalid → stateOf t'.db x = some st → stateOf t.db x = some st := by
      intro x st hne hx
      rcases hr.state x with he | he
      · exact he ▸ hx
      · exact absurd (Option.some.inj (hx.symm.trans he)) hne
    have happ : ∀ x, Applied t'.db x → Applied t.db x :=
      fun x hx => hx.imp (hback x _ (by decide)) (hback x _ (by decide))
    refine ⟨h.progress.mono hr.blocks happ (fun x => hback x _ (by decide)) (fun x hx hact => ?_)
      (fun k hk => ⟨k, .inl hk, .refl⟩), fun k d hd => ?_⟩
    · refine hact.resolve_right fun he => ?_
      exact (h.state.resolve_right hs) (happ _ (hx.2 _ ((isAncestor_congr hr.blocks).mpr he)))
    · rw [dataOf_congr hr.blocks]
      exact h.entries k d hd

end Round

theorem ProgressAt.step {c c' : Config} (hg : AllGood (Unhurried sp.crypto) c'.t)
    (hw : WellFormed sp.crypto c.t.db)
    (hp : ProgressAt sp.crypto c.t.db c.queued c.pending c.processed c.phase) (hstep : Step sp c c') :
    ProgressAt sp.crypto c'.t.db c'.queued c'.pending c'.processed c'.phase := by
  cases hstep with
  | tick | confirmed => exact hp
  | store parses inserted =>
    refine ⟨Progress.store parses inserted fun x hx => List.not_mem_nil (hp x hx), fun k d hd => ?_⟩
    cases List.mem_singleton.mp hd
    exact dataOf_of_insertBlock inserted
  | start stored waits =>
    refine ⟨⟨fun x hx => ?_, fun _ hx => absurd hx List.not_mem_nil⟩, fun k d hd => ?_⟩
    · exact (List.mem_cons.mp (hp x hx)).imp_left List.mem_singleton.mpr
    · cases List.mem_singleton.mp hd
      rw [dataOf, stored]
      rfl
  | pass stored done =>
    intro x hx
    refine (List.mem_cons.mp (hp x hx)).resolve_left ?_
    rintro rfl
    have hv := hx.1
    rw [stateOf, stored, Option.map_some] at hv
    exact done (Option.some.inj hv)
  | reprocessed => exact fun x hx => absurd (hp x hx) List.not_mem_nil
  | finish => exact fun x hx => (hp.1.ready x hx).resolve_left List.not_mem_nil
  | @wait t t' qs k data rest pr block parses waits =>
    obtain ⟨-, rfl, hwait⟩ := (processBlock_eq_ok waits).resolve_right fun h => by
      rcases h.2.state_eq with h | h <;> cases h
    obtain ⟨rfl, hst⟩ := hp.2.stored hw (List.mem_cons_self ..) parses
    refine ⟨hp.1.wait hst hwait ?_, fun k d hd => hp.2 k d (List.mem_cons_of_mem _ hd)⟩
    exact (hg (.visit t.db block.id (SortedMap.keys rest)) (List.mem_cons_self ..)).visit
      _ _ _ rfl block hst hwait
  | @judge t t' qs k data rest pr block state parses judged verdict =>
    obtain ⟨-, hj⟩ := (processBlock_eq_ok judged).resolve_left fun h => verdict h.1
    obtain ⟨rfl, hst⟩ := hp.2.stored hw (List.mem_cons_self ..) parses
    refine ⟨hp.1.judge hj hst, fun k d hd => ?_, ?_, hj.state_eq⟩
    · rw [dataOf_congr hj.blocksOf]
      exact hp.2 k d (List.mem_cons_of_mem _ hd)
    · by_cases hs : state = .leaf
      · exact .inr hs
      · exact .inl (hj.not_applied hs)
  | elect walk | propose walk => exact Following.of_shape hp (OnlyVotes.voteWalk walk).shapeOf
  | confirm | confirmInvalid => exact Following.of_shape hp (shapeOf_setConsensus _ _)
  | records parses done =>
    obtain ⟨hl, hh⟩ := consensusRecords_keeps done
    exact ProgressAt.of_shape hp (shapeOf_of_eq hl hh)
  | follow found pushed => exact Following.follow hw hp found pushed
  | rollback | undo | rolledBack | skip | again => trivial
  | retried found =>
    intro x hx
    obtain ⟨a, he, ha⟩ := (hg _ (List.mem_cons_self ..)).reprocess _ rfl x hx
    exact selectLeafFollowers_eq_ok (t := reprocessing _) hw found he ha

/-! ### Runs -/

/-- The invariant of the machine. -/
structure Config.Unstuck (crypto : Crypto) (c : Config) : Prop where
  wellFormed : WellFormed crypto c.t.db
  progress : ProgressAt crypto c.t.db c.queued c.pending c.processed c.phase

theorem Config.Unstuck.empty (crypto : Crypto) : (Config.rest {}).Unstuck crypto where
  wellFormed := WellFormed.empty crypto
  progress _ hx := nomatch hx.1

/-- Block 3 follows 4 and 5, which follow 2. When 2 comes last, 3 is taken between them. -/
def diamondBlocks : List ConstDataBuffer :=
  [sampleRoot, sampleBlock 4 3 (sampleNode 1) [sampleId 2] [],
    sampleBlock 5 3 (sampleNode 1) [sampleId 2] [],
    sampleBlock 3 4 (sampleNode 1) [sampleId 4, sampleId 5] [],
    sampleBlock 2 2 (sampleNode 1) [sampleId 1] []]

end Vds.LogSync
