import Vds.LogSync.Effects

/-! The applied blocks of the log form a growing part of the graph of blocks, and the leaves
are its frontier, unless a rollback undoes a block under one that stays applied. -/

namespace Vds.LogSync

open StateError Dbo

variable {crypto : Crypto} {sp : ServiceProvider}

/-! ### Rollbacks -/

/-- The blocks that a rollback to `minOrder` undoes. -/
inductive Undone (crypto : Crypto) (db : Database) (minOrder : UInt64) : ConstDataBuffer → Prop
  | leaf {id row} (stored : db.logRecords.lookup id = some row) (state : row.state = .leaf)
      (order : minOrder.toInt64 ≤ row.orderNo) (consensus : row.consensus = false) :
      Undone crypto db minOrder id
  | ancestor {a d} (undone : Undone crypto db minOrder d) (edge : IsAncestor crypto db a d)
      (high : ¬Low minOrder db a) : Undone crypto db minOrder a

/-- The rollback undoes whatever is applied on a block that it undoes or makes a leaf. -/
def SafeRollback (crypto : Crypto) (db : Database) (minOrder : UInt64) : Prop :=
  ∀ d, Undone crypto db minOrder d → ∀ a, (a = d ∨ IsAncestor crypto db a d) →
    ∀ f, Applied db f → IsAncestor crypto db a f → Undone crypto db minOrder f

/-- Every rollback of the journal is safe. -/
def SafeRollbacks (crypto : Crypto) (e : Event) : Prop :=
  ∀ db minOrder, e = .rollback db minOrder → SafeRollback crypto db minOrder

theorem SafeRollbacks.of_isRollback {e : Event} (h : e.isRollback = false) : SafeRollbacks crypto e := by
  rintro db minOrder rfl
  cases h

/-! ### The frontier -/

def processedSet (db : Database) : Set ConstDataBuffer := {x | stateOf db x = some .processed}

def leafSet (db : Database) : Set ConstDataBuffer := {x | stateOf db x = some .leaf}

def FrontierOf (crypto : Crypto) (db : Database) : Prop :=
  Frontier (IsAncestor crypto db) (processedSet db) (leafSet db)

theorem applied_iff_mem {db : Database} {x : ConstDataBuffer} :
    Applied db x ↔ x ∈ processedSet db ∪ leafSet db := Iff.rfl

/-- The blocks and the sets of processed blocks and leaves are the same. -/
theorem FrontierOf.congr {db db' : Database} (h : FrontierOf crypto db)
    (hb : blocksOf db' = blocksOf db) (hp : processedSet db' = processedSet db)
    (hl : leafSet db' = leafSet db) : FrontierOf crypto db' := by
  unfold FrontierOf
  rw [hp, hl]
  exact Frontier.congr h fun d _ a => isAncestor_congr hb

theorem FrontierOf.of_shape {db db' : Database} (h : FrontierOf crypto db)
    (hs : shapeOf db' = shapeOf db) : FrontierOf crypto db' := by
  have hst : stateOf db' = stateOf db := congrArg Prod.snd hs
  refine h.congr (congrArg Prod.fst hs) ?_ ?_
  · unfold processedSet
    rw [hst]
  · unfold leafSet
    rw [hst]

theorem FrontierOf.marked {s : RecordState} {t t' : DatabaseTransaction} (h : FrontierOf crypto t.db)
    (hs : s.haveState = false) (hm : Marked s t t') : FrontierOf crypto t'.db := by
  have key : ∀ x st, (st = .processed ∨ st = .leaf) →
      (stateOf t'.db x = some st ↔ stateOf t.db x = some st) := by
    intro x st hst
    rcases hm.state x with hx | ⟨hn, hx⟩
    · rw [hx]
    · rw [hx]
      constructor
      · rintro ⟨⟩
        rcases hst with rfl | rfl <;> cases hs
      · intro h
        exact absurd (hst.imp (fun e => e ▸ h) fun e => e ▸ h) hn
  exact h.congr hm.blocks (Set.ext fun x => key x _ (.inl rfl)) (Set.ext fun x => key x _ (.inr rfl))

/-- A verdict on a block that is not applied. -/
theorem FrontierOf.judged {block : TransactionBlock} {s : RecordState} {t t' : DatabaseTransaction}
    (h : FrontierOf crypto t.db) (hs : Stored crypto t.db block.id block)
    (hn : ¬Applied t.db block.id) (hj : Judged sp block t s t') : FrontierOf crypto t'.db := by
  have hst := fun x => hj.stateOf x
  rcases hj.state_eq with rfl | rfl
  · have hanc := hj.applied_ancestors
    have hedge : ∀ a, IsAncestor crypto t.db a block.id ↔ a ∈ block.ancestors := fun a => hs.isAncestor_iff
    have hadd := Frontier.add h hn fun a ha => hanc a ((hedge a).mp ha)
    have hself : block.id ∉ block.ancestors := fun hm => hn (hanc _ hm)
    obtain ⟨data, hd, -⟩ := stored_iff.mp hs
    obtain ⟨row, hrow, -⟩ := Option.map_eq_some_iff.mp hd
    have hkst : stateOf t.db block.id = some row.state := by rw [stateOf, hrow, Option.map_some]
    unfold FrontierOf
    have hp : processedSet t'.db = processedSet t.db ∪ {a | IsAncestor crypto t.db a block.id} := by
      ext x
      simp only [processedSet, Set.mem_ofPred_eq, Set.mem_union, hst, hedge]
      cases hx : stateOf t.db x with
      | none =>
        refine iff_of_false (by simp) ?_
        rintro (h' | h')
        · cases h'
        · rcases hanc x h' with h' | h' <;> rw [hx] at h' <;> cases h'
      | some st =>
        by_cases hxa : x ∈ block.ancestors
        · have := hanc x hxa
          unfold Applied at this
          rw [hx] at this
          rcases this with this | this
          · cases this
            simp [hxa, show x ≠ block.id from fun e => hself (e ▸ hxa)]
          · cases this
            simp [hxa]
        · by_cases hxb : x = block.id
          · subst hxb
            refine iff_of_false (by simp [hxa]) ?_
            rintro (h' | h')
            · exact hn (.inl (hx.trans h'))
            · exact hxa h'
          · simp [hxa, hxb]
    have hl : leafSet t'.db =
        insert block.id (leafSet t.db \ {a | IsAncestor crypto t.db a block.id}) := by
      ext x
      simp only [leafSet, Set.mem_ofPred_eq, Set.mem_insert_iff, Set.mem_sdiff, hst, hedge]
      by_cases hxb : x = block.id
      · subst hxb
        simp [hkst, hself]
      · cases hx : stateOf t.db x with
        | none => simp [hxb]
        | some st =>
          by_cases hxa : x ∈ block.ancestors
          · by_cases hleaf : st = .leaf
            · simp [hxa, hxb, hleaf]
            · simp [hxa, hxb, hleaf]
          · simp [hxa, hxb]
    rw [hp, hl]
    exact Frontier.congr hadd fun d _ a => isAncestor_congr hj.blocksOf
  · have key : ∀ x st, (st = .processed ∨ st = .leaf) →
        (stateOf t'.db x = some st ↔ stateOf t.db x = some st) := by
      intro x st hx
      rw [hst]
      by_cases hxb : x = block.id
      · subst hxb
        refine iff_of_false ?_ fun h' => hn (by rcases hx with rfl | rfl; exacts [.inl h', .inr h'])
        cases stateOf t.db block.id with
        | none => simp
        | some st' => rcases hx with rfl | rfl <;> simp
      · cases stateOf t.db x with
        | none => simp
        | some st' => simp [hxb]
    exact h.congr hj.blocksOf (Set.ext fun x => key x _ (.inl rfl)) (Set.ext fun x => key x _ (.inr rfl))

/-! ### What holds in each phase -/

/-- The blocks of the worklist are stored and not applied. -/
structure Waiting (db : Database) (ps : List (ConstDataBuffer × Pending)) : Prop where
  nodup : (SortedMap.keys ps).Nodup
  entries : ∀ k d, (k, d) ∈ ps → dataOf db k = some d.data ∧ ¬Applied db k

/-- The block that `process_block` has just given a verdict on. -/
structure Current (crypto : Crypto) (db : Database) (block : TransactionBlock) (data : Pending) :
    Prop where
  stored : Stored crypto db block.id block
  data_eq : dataOf db block.id = some data.data
  state_eq : stateOf db block.id = some data.state
  verdict : data.state = .leaf ∨ data.state = .invalid

/-- The candidates show the stored blocks. -/
structure CandidatesOf (db : Database) (cs : List Candidate) : Prop where
  distinct : (cs.map (·.id)).Nodup
  stored : ∀ p ∈ cs, dataOf db p.id = some p.data ∧ stateOf db p.id = some p.state

/-- The candidates to try again. -/
structure RetryOf (db : Database) (cs : List Candidate) : Prop where
  distinct : (cs.map (·.id)).Nodup
  stored : ∀ p ∈ cs, dataOf db p.id = some p.data ∧ (p.state = .invalid → ¬Applied db p.id)

/-- A rollback from `start` on its way. -/
structure RollbackOf (crypto : Crypto) (start : Database) (w : VoteWalk) (walk : RollbackWalk)
    (db : Database) : Prop where
  wellFormed : WellFormed crypto start
  frontier : FrontierOf crypto start
  safe : SafeRollback crypto start w.minOrder
  candidates : CandidatesOf start w.consensusCandidate
  blocks : blocksOf db = blocksOf start
  consensus : ∀ x, consensusOf db x = consensusOf start x
  nodup : (SortedMap.keys walk.notProcessed).Nodup
  pending : ∀ k ∈ SortedMap.keys walk.notProcessed,
    Undone crypto start w.minOrder k ∧ k ∉ walk.processed
  data : ∀ e ∈ walk.notProcessed, dataOf start e.1 = some e.2
  undone : ∀ x ∈ walk.processed, Undone crypto start w.minOrder x → stateOf db x = some .validated
  boundary : ∀ x ∈ walk.processed, ¬Undone crypto start w.minOrder x → stateOf db x = some .leaf ∧
    ∃ d, Undone crypto start w.minOrder d ∧ IsAncestor crypto start x d
  other : ∀ x, x ∉ walk.processed → stateOf db x = stateOf start x
  leaves : ∀ x row, start.logRecords.lookup x = some row → row.state = .leaf →
    w.minOrder.toInt64 ≤ row.orderNo → row.consensus = false →
    x ∈ walk.processed ∨ x ∈ SortedMap.keys walk.notProcessed
  closed : ∀ d ∈ walk.processed, Undone crypto start w.minOrder d →
    ∀ a, IsAncestor crypto start a d → a ∈ walk.processed ∨ a ∈ SortedMap.keys walk.notProcessed

def PhaseInv (crypto : Crypto) (db : Database) (ps : List (ConstDataBuffer × Pending)) :
    Phase → Prop
  | .idle => FrontierOf crypto db
  | .loop => FrontierOf crypto db ∧ Waiting db ps
  | .vote block data | .followers block data =>
    FrontierOf crypto db ∧ Waiting db ps ∧ Current crypto db block data
  | .confirm block data w todo =>
    FrontierOf crypto db ∧ Waiting db ps ∧ Current crypto db block data ∧
      CandidatesOf db w.consensusCandidate ∧ todo ⊆ w.consensusCandidate
  | .records p next => dataOf db p.id = some p.data ∧ Applied db p.id ∧ PhaseInv crypto db ps next
  | .rollback start w walk => RollbackOf crypto start w walk db
  | .retry todo => FrontierOf crypto db ∧ RetryOf db todo

/-- The invariant of the machine. -/
structure Config.Inv (crypto : Crypto) (c : Config) : Prop where
  wellFormed : WellFormed crypto c.t.db
  phase : PhaseInv crypto c.t.db c.pending c.phase

/-! ### It depends on the shape of the log only -/

section Shape

variable {db db' : Database} (hs : shapeOf db' = shapeOf db)
include hs

theorem applied_of_shape (x : ConstDataBuffer) : Applied db' x ↔ Applied db x := by
  have hst : stateOf db' = stateOf db := congrArg Prod.snd hs
  unfold Applied
  rw [hst]

theorem dataOf_of_shape : dataOf db' = dataOf db := dataOf_congr (congrArg Prod.fst hs)

theorem stateOf_of_shape : stateOf db' = stateOf db := congrArg Prod.snd hs

theorem Waiting.of_shape {ps : List (ConstDataBuffer × Pending)} (h : Waiting db ps) :
    Waiting db' ps where
  nodup := h.nodup
  entries k d hd := by
    rw [dataOf_of_shape hs, applied_of_shape hs]
    exact h.entries k d hd

theorem Current.of_shape {block : TransactionBlock} {data : Pending}
    (h : Current crypto db block data) : Current crypto db' block data where
  stored := h.stored.of_blocksOf (congrArg Prod.fst hs)
  data_eq := dataOf_of_shape hs ▸ h.data_eq
  state_eq := stateOf_of_shape hs ▸ h.state_eq
  verdict := h.verdict

theorem CandidatesOf.of_shape {cs : List Candidate} (h : CandidatesOf db cs) : CandidatesOf db' cs where
  distinct := h.distinct
  stored p hp := by
    rw [dataOf_of_shape hs, stateOf_of_shape hs]
    exact h.stored p hp

theorem RetryOf.of_shape {cs : List Candidate} (h : RetryOf db cs) : RetryOf db' cs where
  distinct := h.distinct
  stored p hp := by
    rw [dataOf_of_shape hs, applied_of_shape hs]
    exact h.stored p hp

theorem PhaseInv.of_shape (hc : ∀ x, consensusOf db' x = consensusOf db x)
    {ps : List (ConstDataBuffer × Pending)} {phase : Phase} (h : PhaseInv crypto db ps phase) :
    PhaseInv crypto db' ps phase := by
  induction phase with
  | idle => exact FrontierOf.of_shape h hs
  | loop => exact ⟨h.1.of_shape hs, h.2.of_shape hs⟩
  | vote | followers => exact ⟨h.1.of_shape hs, h.2.1.of_shape hs, h.2.2.of_shape hs⟩
  | confirm =>
    exact ⟨h.1.of_shape hs, h.2.1.of_shape hs, h.2.2.1.of_shape hs, h.2.2.2.1.of_shape hs, h.2.2.2.2⟩
  | records p next ih =>
    exact ⟨dataOf_of_shape hs ▸ h.1, (applied_of_shape hs _).mpr h.2.1, ih h.2.2⟩
  | rollback start w walk =>
    have hst : stateOf db' = stateOf db := stateOf_of_shape hs
    exact { h with
      blocks := (congrArg Prod.fst hs).trans h.blocks
      consensus := fun x => (hc x).trans (h.consensus x)
      undone := hst ▸ h.undone
      boundary := hst ▸ h.boundary
      other := hst ▸ h.other }
  | retry => exact ⟨h.1.of_shape hs, h.2.of_shape hs⟩

end Shape

/-! ### Each step keeps it -/

section Store

variable {block : TransactionBlock} {blockData : ConstDataBuffer} {t t' : DatabaseTransaction}
  (hb : TransactionBlock.create crypto blockData = .ok block)
  (hi : insertBlock block blockData t = .ok () t')
include hi

include hb in
theorem FrontierOf.insertBlock (h : FrontierOf crypto t.db) : FrontierOf crypto t'.db := by
  have hn : ¬Applied t.db block.id := by
    unfold Applied stateOf
    rw [not_stored_of_insertBlock hi]
    rintro (h | h) <;> cases h
  have key : ∀ x st, st ≠ .validated →
      (stateOf t'.db x = some st ↔ stateOf t.db x = some st) := by
    intro x st hst
    rw [stateOf_of_insertBlock hi]
    split_ifs with hx
    · subst hx
      refine iff_of_false (fun h => hst (Option.some.inj h).symm) ?_
      unfold stateOf
      rw [not_stored_of_insertBlock hi]
      rintro ⟨⟩
    · rfl
  unfold FrontierOf
  rw [show processedSet t'.db = processedSet t.db from Set.ext fun x => key x _ (by decide),
    show leafSet t'.db = leafSet t.db from Set.ext fun x => key x _ (by decide)]
  refine Frontier.congr h fun d hd a => ?_
  rw [isAncestor_of_insertBlock hb hi]
  exact or_iff_right fun h' => hn (h'.1 ▸ hd)

end Store

theorem Waiting.one {db : Database} {k : ConstDataBuffer} {d : Pending}
    (hd : dataOf db k = some d.data) (hn : ¬Applied db k) : Waiting db [(k, d)] where
  nodup := List.nodup_singleton k
  entries k' d' h := by
    cases List.mem_singleton.mp h
    exact ⟨hd, hn⟩

section Judge

variable {block : TransactionBlock} {s : RecordState} {t t' : DatabaseTransaction}

theorem Waiting.judged {ps : List (ConstDataBuffer × Pending)} (h : Waiting t.db ps)
    (hj : Judged sp block t s t') (hk : block.id ∉ SortedMap.keys ps) : Waiting t'.db ps where
  nodup := h.nodup
  entries k d hd := by
    obtain ⟨hdata, hn⟩ := h.entries k d hd
    rw [dataOf_congr hj.blocksOf, hj.applied_iff fun he => hk (he ▸ SortedMap.mem_keys.mpr ⟨d, hd⟩)]
    exact ⟨hdata, hn⟩

theorem Current.of_judged {data : Pending} (hst : Stored crypto t.db block.id block)
    (hd : dataOf t.db block.id = some data.data) (hn : ¬Applied t.db block.id)
    (hj : Judged sp block t s t') : Current crypto t'.db block { data with state := s } where
  stored := hst.of_blocksOf hj.blocksOf
  data_eq := by
    rw [dataOf_congr hj.blocksOf]
    exact hd
  state_eq := by
    obtain ⟨row, hr, -⟩ := Option.map_eq_some_iff.mp hd
    have hs : stateOf t.db block.id = some row.state := by rw [stateOf, hr, Option.map_some]
    have hleaf : ¬(s = .leaf ∧ block.id ∈ block.ancestors ∧ row.state = .leaf) :=
      fun h => hn (.inr (h.2.2 ▸ hs))
    rw [hj.stateOf, hs, Option.map_some, if_neg hleaf, if_pos rfl]
  verdict := hj.state_eq

end Judge

/-- The entry of the worklist is a stored block. -/
theorem Waiting.stored {db : Database} {k : ConstDataBuffer} {d : Pending}
    {ps : List (ConstDataBuffer × Pending)} {block : TransactionBlock} (h : Waiting db ps)
    (hw : WellFormed crypto db) (hk : (k, d) ∈ ps)
    (hb : TransactionBlock.create crypto d.data = .ok block) :
    block.id = k ∧ Stored crypto db k block := by
  have hs := stored_iff.mpr ⟨d.data, (h.entries k d hk).1, hb⟩
  exact ⟨hw.id_eq hs, hs⟩

end Vds.LogSync
