import Vds.Library.Frontier
import Vds.LogSync.Apply

/-! What the tables of the log say of a block: whether it is stored, its state, and which
blocks it follows. -/

namespace Vds.LogSync

open StateError

def stateOf (db : Database) (id : ConstDataBuffer) : Option RecordState :=
  (db.logRecords.lookup id).map (·.state)

def consensusOf (db : Database) (id : ConstDataBuffer) : Bool :=
  (db.logRecords.lookup id).any (·.consensus)

/-- The records of the block are applied. -/
def Applied (db : Database) (id : ConstDataBuffer) : Prop :=
  stateOf db id = some .processed ∨ stateOf db id = some .leaf

instance (db : Database) (id : ConstDataBuffer) : Decidable (Applied db id) :=
  inferInstanceAs (Decidable (_ ∨ _))

variable (crypto : Crypto)

/-- The block is stored under `id`. -/
def Stored (db : Database) (id : ConstDataBuffer) (block : TransactionBlock) : Prop :=
  ∃ row, db.logRecords.lookup id = some row ∧ TransactionBlock.create crypto row.data = .ok block

/-- `d` is stored and names `a` as an ancestor. -/
def IsAncestor (db : Database) (a d : ConstDataBuffer) : Prop :=
  ∃ block, Stored crypto db d block ∧ a ∈ block.ancestors

theorem isAncestor_iff_any {db : Database} {a d : ConstDataBuffer} :
    IsAncestor crypto db a d ↔ ((db.logRecords.lookup d).any fun row =>
      (TransactionBlock.create crypto row.data).toOption.any fun block =>
        decide (a ∈ block.ancestors)) = true := by
  unfold IsAncestor Stored
  cases db.logRecords.lookup d with
  | none => simp
  | some row =>
    cases hb : TransactionBlock.create crypto row.data <;> simp [hb, Except.toOption]

instance (db : Database) (a d : ConstDataBuffer) : Decidable (IsAncestor crypto db a d) :=
  decidable_of_iff' _ (isAncestor_iff_any crypto)

/-- The rows of the log are those of the stored blocks. -/
structure WellFormed (db : Database) : Prop where
  block : ∀ id row, db.logRecords.lookup id = some row →
    ∃ block, TransactionBlock.create crypto row.data = .ok block ∧ block.id = id ∧
      row.orderNo = block.orderNo.toInt64 ∧ row.timePoint = toTimeT block.timePoint
  hierarchy : ∀ a d, (db.logHierarchy.lookup (a, d)).isSome ↔ IsAncestor crypto db a d

/-! ### The same blocks in other states -/

/-- The blocks that are stored, without their states. -/
def blocksOf (db : Database) :
    (ConstDataBuffer → Option (ConstDataBuffer × Int64 × Int64)) ×
      Table (ConstDataBuffer × ConstDataBuffer) Unit :=
  (fun id => (db.logRecords.lookup id).map LogRecord.core, db.logHierarchy)

section SameBlocks

variable {crypto} {db db' : Database}

theorem lookup_of_blocksOf (h : blocksOf db' = blocksOf db) {id : ConstDataBuffer} {row : LogRecord}
    (hr : db.logRecords.lookup id = some row) :
    ∃ row', db'.logRecords.lookup id = some row' ∧ row'.core = row.core := by
  have := congrFun (congrArg Prod.fst h) id
  simp only [blocksOf, hr, Option.map_some, Option.map_eq_some_iff] at this
  exact this

theorem Stored.of_blocksOf (h : blocksOf db' = blocksOf db) {id : ConstDataBuffer}
    {block : TransactionBlock} (hs : Stored crypto db id block) : Stored crypto db' id block := by
  obtain ⟨row, hr, hb⟩ := hs
  obtain ⟨row', hr', hc⟩ := lookup_of_blocksOf h hr
  have hd : row'.data = row.data := congrArg Prod.fst hc
  exact ⟨row', hr', hd ▸ hb⟩

theorem stored_congr (h : blocksOf db' = blocksOf db) {id : ConstDataBuffer}
    {block : TransactionBlock} : Stored crypto db' id block ↔ Stored crypto db id block :=
  ⟨Stored.of_blocksOf h.symm, Stored.of_blocksOf h⟩

theorem isAncestor_congr (h : blocksOf db' = blocksOf db) {a d : ConstDataBuffer} :
    IsAncestor crypto db' a d ↔ IsAncestor crypto db a d := by
  simp only [IsAncestor, stored_congr h]

theorem WellFormed.of_blocksOf (hw : WellFormed crypto db) (h : blocksOf db' = blocksOf db) :
    WellFormed crypto db' where
  block id row' hr' := by
    obtain ⟨row, hr, hc⟩ := lookup_of_blocksOf h.symm hr'
    obtain ⟨block, hb, hid, ho, ht⟩ := hw.block id row hr
    simp only [LogRecord.core, Prod.mk.injEq] at hc
    rw [← hc.1, ← hc.2.1, ← hc.2.2]
    exact ⟨block, hb, hid, ho, ht⟩
  hierarchy a d := by
    have hh : db'.logHierarchy = db.logHierarchy := congrArg Prod.snd h
    rw [hh, isAncestor_congr h]
    exact hw.hierarchy a d

end SameBlocks

section Stored

variable {crypto} {db : Database}

theorem Stored.unique {id : ConstDataBuffer} {block block' : TransactionBlock}
    (h : Stored crypto db id block) (h' : Stored crypto db id block') : block = block' := by
  obtain ⟨row, hr, hb⟩ := h
  obtain ⟨row', hr', hb'⟩ := h'
  cases hr.symm.trans hr'
  exact Except.ok.inj (hb.symm.trans hb')

theorem WellFormed.id_eq (hw : WellFormed crypto db) {id : ConstDataBuffer}
    {block : TransactionBlock} (h : Stored crypto db id block) : block.id = id := by
  obtain ⟨row, hr, hb⟩ := h
  obtain ⟨block', hb', hid, -⟩ := hw.block id row hr
  exact Except.ok.inj (hb.symm.trans hb') ▸ hid

theorem WellFormed.stored_of_state (hw : WellFormed crypto db) {id : ConstDataBuffer}
    {s : RecordState} (h : stateOf db id = some s) : ∃ block, Stored crypto db id block := by
  obtain ⟨row, hr, -⟩ := Option.map_eq_some_iff.mp h
  obtain ⟨block, hb, -⟩ := hw.block id row hr
  exact ⟨block, row, hr, hb⟩

theorem Stored.isAncestor_iff {a d : ConstDataBuffer} {block : TransactionBlock}
    (h : Stored crypto db d block) : IsAncestor crypto db a d ↔ a ∈ block.ancestors :=
  ⟨fun ⟨_, hs, ha⟩ => h.unique hs ▸ ha, fun ha => ⟨block, h, ha⟩⟩

end Stored

/-! ### Updates of the records -/

theorem stateOf_update (db : Database) (id x : ConstDataBuffer) (s : RecordState) :
    stateOf { db with logRecords := db.logRecords.update id fun row => { row with state := s } } x =
      if x = id then (stateOf db x).map fun _ => s else stateOf db x := by
  unfold stateOf
  rw [Table.lookup_update_eq]
  split_ifs with h
  · rw [Option.map_map, Option.map_map]
    rfl
  · rfl

theorem consensusOf_update (db : Database) (id x : ConstDataBuffer) (s : RecordState) :
    consensusOf { db with logRecords := db.logRecords.update id fun row => { row with state := s } } x =
      consensusOf db x := by
  unfold consensusOf
  rw [Table.lookup_update_eq]
  split_ifs
  · cases db.logRecords.lookup x <;> rfl
  · rfl

/-- The columns of a record that an update of its state keeps. -/
theorem blocksOf_update (db : Database) (id : ConstDataBuffer) {g : LogRecord → LogRecord}
    (hg : ∀ row, (g row).core = row.core) :
    blocksOf { db with logRecords := db.logRecords.update id g } = blocksOf db := by
  unfold blocksOf
  refine Prod.ext (funext fun x => ?_) rfl
  simp only [Table.lookup_update_eq]
  split_ifs
  · rw [Option.map_map]
    exact congrArg (fun f => Option.map f (db.logRecords.lookup x)) (funext hg)
  · rfl

end Vds.LogSync
