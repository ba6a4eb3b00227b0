import Vds.LogSync.Run

/-! What the steps of the machine do to the records of the log. -/

namespace Vds.LogSync

open StateError Dbo

variable {sp : ServiceProvider} {block : TransactionBlock} {t t' : DatabaseTransaction}

def dataOf (db : Database) (id : ConstDataBuffer) : Option ConstDataBuffer :=
  (db.logRecords.lookup id).map (·.data)

/-- The blocks and their states, without what is confirmed. -/
def shapeOf (db : Database) := (blocksOf db, stateOf db)

theorem dataOf_congr {db db' : Database} (h : blocksOf db' = blocksOf db) : dataOf db' = dataOf db := by
  funext id
  have := congrArg (Option.map Prod.fst) (congrFun (congrArg Prod.fst h) id)
  simpa [blocksOf, dataOf, LogRecord.core, Function.comp_def] using this

theorem shapeOf_of_eq {db db' : Database} (hl : db'.logRecords = db.logRecords)
    (hh : db'.logHierarchy = db.logHierarchy) : shapeOf db' = shapeOf db := by
  unfold shapeOf blocksOf stateOf
  rw [hl, hh]

theorem stored_iff {crypto : Crypto} {db : Database} {id : ConstDataBuffer}
    {block : TransactionBlock} : Stored crypto db id block ↔
      ∃ data, dataOf db id = some data ∧ TransactionBlock.create crypto data = .ok block := by
  simp only [Stored, dataOf, Option.map_eq_some_iff]
  constructor
  · rintro ⟨row, hr, hb⟩
    exact ⟨row.data, ⟨row, hr, rfl⟩, hb⟩
  · rintro ⟨_, ⟨row, hr, rfl⟩, hb⟩
    exact ⟨row, hr, hb⟩

theorem consensusOf_of_eq {db db' : Database} (hl : db'.logRecords = db.logRecords)
    (x : ConstDataBuffer) : consensusOf db' x = consensusOf db x := by
  unfold consensusOf
  rw [hl]

theorem shapeOf_setConsensus (id : ConstDataBuffer) (t : DatabaseTransaction) :
    shapeOf (setConsensus id t).db = shapeOf t.db := by
  refine Prod.ext (blocksOf_update t.db id fun row => rfl) (funext fun x => ?_)
  simp only [shapeOf, stateOf, setConsensus, Table.lookup_update_eq]
  split_ifs
  · rw [Option.map_map]
    rfl
  · rfl

/-! ### A verdict -/

section Decided

variable {s : RecordState} {db : Database} {rows : Table ConstDataBuffer LogRecord}

theorem Decided.blocksOf (h : Decided block s db rows) :
    blocksOf { db with logRecords := rows } = LogSync.blocksOf db := by
  refine Prod.ext (funext fun x => ?_) rfl
  simp only [LogSync.blocksOf, h x, Option.map_map]
  refine congrArg (fun f => Option.map f _) (funext fun row => ?_)
  simp only [Function.comp_apply]
  split_ifs <;> rfl

theorem Decided.stateOf (h : Decided block s db rows) (x : ConstDataBuffer) :
    stateOf { db with logRecords := rows } x = (LogSync.stateOf db x).map fun st =>
      if s = .leaf ∧ x ∈ block.ancestors ∧ st = .leaf then .processed
      else if x = block.id then s else st := by
  simp only [LogSync.stateOf, h x, Option.map_map]
  refine congrArg (fun f => Option.map f _) (funext fun row => ?_)
  simp only [Function.comp_apply]
  split_ifs <;> rfl

theorem Decided.consensusOf (h : Decided block s db rows) (x : ConstDataBuffer) :
    consensusOf { db with logRecords := rows } x = LogSync.consensusOf db x := by
  simp only [LogSync.consensusOf, h x]
  cases db.logRecords.lookup x with
  | none => rfl
  | some row =>
    simp only [Option.map_some, Option.any_some]
    split_ifs <;> rfl

end Decided

/-- What `processRecords` leaves alone. -/
theorem processRecords_keeps {b : Bool} (h : processRecords sp block t = .ok b t') :
    t'.db.logRecords = t.db.logRecords ∧ t'.db.logHierarchy = t.db.logHierarchy ∧
      t'.journal = t.journal := by
  have hf : Frames (fun t : DatabaseTransaction => (t.db.logRecords, t.db.logHierarchy, t.journal))
      (processRecords sp block) :=
    moves_processRecords (by constructor <;> exact fun _ _ => rfl) (fun _ _ => rfl) block
  have := hf.ok h
  simp only [Prod.mk.injEq] at this
  exact this

/-- What `consensusRecords` leaves alone. -/
theorem consensusRecords_keeps {u : Unit} (h : consensusRecords sp block t = .ok u t') :
    t'.db.logRecords = t.db.logRecords ∧ t'.db.logHierarchy = t.db.logHierarchy := by
  have hf : Frames (fun t : DatabaseTransaction => (t.db.logRecords, t.db.logHierarchy))
      (consensusRecords sp block) :=
    moves_consensusRecords (fun _ _ => rfl) block fun _ => rfl
  have := hf.ok h
  simp only [Prod.mk.injEq] at this
  exact this

/-- What `undoRecords` leaves alone. -/
theorem undoRecords_keeps {u : Unit} (h : undoRecords sp block t = .ok u t') :
    t'.db.logRecords = t.db.logRecords ∧ t'.db.logHierarchy = t.db.logHierarchy ∧
      t'.journal = t.journal := by
  have hf : Frames (fun t : DatabaseTransaction => (t.db.logRecords, t.db.logHierarchy, t.journal))
      (undoRecords sp block) :=
    moves_undoRecords (by constructor <;> exact fun _ _ => rfl) (fun _ _ => rfl) block
  have := hf.ok h
  simp only [Prod.mk.injEq] at this
  exact this

/-- The records after a verdict. -/
theorem Judged.decided {s : RecordState} (h : Judged sp block t s t') :
    Decided block s t.db t'.db.logRecords ∧ t'.db.logHierarchy = t.db.logHierarchy ∧
      t'.journal = t.journal := by
  cases h with
  | applied _ _ records rows_eq => exact ⟨rows_eq, (processRecords_keeps records).2⟩
  | refused _ _ records rows_eq => exact ⟨rows_eq, (processRecords_keeps records).2⟩
  | rejected _ _ rows_eq => exact ⟨rows_eq, rfl, rfl⟩

theorem Judged.blocksOf {s : RecordState} (h : Judged sp block t s t') :
    blocksOf t'.db = LogSync.blocksOf t.db := by
  obtain ⟨hd, hh, -⟩ := h.decided
  rw [← hd.blocksOf]
  unfold LogSync.blocksOf
  rw [hh]

theorem Judged.stateOf {s : RecordState} (h : Judged sp block t s t') (x : ConstDataBuffer) :
    stateOf t'.db x = (LogSync.stateOf t.db x).map fun st =>
      if s = .leaf ∧ x ∈ block.ancestors ∧ st = .leaf then .processed
      else if x = block.id then s else st := h.decided.1.stateOf x

theorem Judged.consensusOf {s : RecordState} (h : Judged sp block t s t') (x : ConstDataBuffer) :
    consensusOf t'.db x = LogSync.consensusOf t.db x := h.decided.1.consensusOf x

theorem Judged.state_eq {s : RecordState} (h : Judged sp block t s t') : s = .leaf ∨ s = .invalid := by
  cases h
  · exact .inl rfl
  · exact .inr rfl
  · exact .inr rfl

/-- A block can only be applied on applied ancestors. -/
theorem Judged.applied_ancestors (h : Judged sp block t .leaf t') :
    ∀ a ∈ block.ancestors, Applied t.db a := by
  intro a ha
  cases h with
  | applied good _ _ _ =>
    obtain ⟨row, hr, -, hs⟩ := good a ha
    unfold Applied LogSync.stateOf
    rw [hr]
    cases hst : row.state with
    | leaf => exact .inr (congrArg some hst)
    | processed => exact .inl (congrArg some hst)
    | validated => rw [hst] at hs; cases hs
    | invalid => rw [hst] at hs; cases hs

/-- A verdict applies no other block. -/
theorem Judged.applied_iff {s : RecordState} (hj : Judged sp block t s t') {x : ConstDataBuffer} (hx : x ≠ block.id) :
    Applied t'.db x ↔ Applied t.db x := by
  unfold Applied
  rw [hj.stateOf]
  cases LogSync.stateOf t.db x with
  | none => simp
  | some st =>
    simp only [Option.map_some, Option.some.injEq, if_neg hx]
    split_ifs with h
    · simp [h.2.2]
    · rfl

theorem Judged.not_applied {s : RecordState} (hj : Judged sp block t s t') (hs : s ≠ .leaf) :
    ¬Applied t'.db block.id := by
  have hst := hj.stateOf block.id
  rcases hj.state_eq with h | rfl
  · exact absurd h hs
  · unfold Applied
    rw [hst]
    cases LogSync.stateOf t.db block.id <;> simp

/-- A block that waits after a verdict on another one has waited before. -/
theorem Judged.validated {s : RecordState} (hj : Judged sp block t s t') {x : ConstDataBuffer}
    (h : LogSync.stateOf t'.db x = some .validated) :
    x ≠ block.id ∧ LogSync.stateOf t.db x = some .validated := by
  rw [hj.stateOf] at h
  obtain ⟨st, hst, he⟩ := Option.map_eq_some_iff.mp h
  have hs := hj.state_eq
  split_ifs at he with h₁ h₂
  · subst he
    simp at hs
  · exact ⟨h₂, he ▸ hst⟩

/-! ### A new block -/

theorem insertAncestors_eq_ok {as : List ConstDataBuffer} {id : ConstDataBuffer} {u : Unit}
    (h : (as.forM fun a => Orm.transactionLogHierarchy.insert (a, id) ()) t = .ok u t') :
    ∃ hier, t' = { t with db := { t.db with logHierarchy := hier } } ∧
      ∀ a d, (hier.lookup (a, d)).isSome ↔
        (t.db.logHierarchy.lookup (a, d)).isSome ∨ d = id ∧ a ∈ as := by
  induction as generalizing t with
  | nil =>
    cases h
    exact ⟨_, rfl, by simp⟩
  | cons b as ih =>
    obtain ⟨t₁, hi, h⟩ := forM_cons_eq_ok.mp h
    obtain ⟨-, rfl⟩ := (insert_eq_ok ..).mp hi
    obtain ⟨hier, rfl, hl⟩ := ih h
    refine ⟨hier, rfl, fun a d => ?_⟩
    rw [hl]
    simp only [Orm.transactionLogHierarchy_rows, Orm.transactionLogHierarchy_write,
      Table.lookup_insert_eq, Prod.mk.injEq, List.mem_cons]
    by_cases hb : a = b ∧ d = id
    · simp [hb]
    · rw [if_neg hb]
      tauto

theorem insertBlock_eq_ok {data : ConstDataBuffer} {u : Unit}
    (h : insertBlock block data t = .ok u t') :
    t.db.logRecords.lookup block.id = none ∧ ∃ hier, t' = { t with db := { t.db with
        logHierarchy := hier
        logRecords := t.db.logRecords.insert block.id
          { data, state := .validated, consensus := false, orderNo := block.orderNo.toInt64,
            timePoint := toTimeT block.timePoint } } } ∧
      ∀ a d, (hier.lookup (a, d)).isSome ↔
        (t.db.logHierarchy.lookup (a, d)).isSome ∨ d = block.id ∧ a ∈ block.ancestors := by
  obtain ⟨hn, h⟩ := (insert_bind_eq_ok ..).mp h
  obtain ⟨hier, rfl, hl⟩ := insertAncestors_eq_ok h
  exact ⟨hn, hier, rfl, hl⟩

section Store

variable {crypto : Crypto} {blockData : ConstDataBuffer}
  (hb : TransactionBlock.create crypto blockData = .ok block)
  (hi : insertBlock block blockData t = .ok () t')
include hi

/-- The row of a new block. -/
theorem lookup_of_insertBlock (x : ConstDataBuffer) : t'.db.logRecords.lookup x =
    if x = block.id then
      some ⟨blockData, .validated, false, block.orderNo.toInt64, toTimeT block.timePoint⟩
    else t.db.logRecords.lookup x := by
  obtain ⟨-, hier, rfl, -⟩ := insertBlock_eq_ok hi
  exact Table.lookup_insert_eq ..

theorem not_stored_of_insertBlock : t.db.logRecords.lookup block.id = none :=
  (insertBlock_eq_ok hi).1

theorem stateOf_of_insertBlock (x : ConstDataBuffer) :
    stateOf t'.db x = if x = block.id then some .validated else stateOf t.db x := by
  unfold stateOf
  rw [lookup_of_insertBlock hi]
  split_ifs <;> rfl

theorem dataOf_of_insertBlock : dataOf t'.db block.id = some blockData := by
  unfold dataOf
  rw [lookup_of_insertBlock hi, if_pos rfl]
  rfl

include hb in
theorem stored_of_insertBlock (x : ConstDataBuffer) (b : TransactionBlock) :
    Stored crypto t'.db x b ↔ x = block.id ∧ b = block ∨ Stored crypto t.db x b := by
  unfold Stored
  rw [lookup_of_insertBlock hi]
  split_ifs with hx
  · subst hx
    rw [not_stored_of_insertBlock hi]
    constructor
    · rintro ⟨row, hr, hc⟩
      cases hr
      exact .inl ⟨rfl, Except.ok.inj (hc.symm.trans hb)⟩
    · rintro (⟨-, rfl⟩ | ⟨row, hr, -⟩)
      · exact ⟨_, rfl, hb⟩
      · cases hr
  · exact ⟨.inr, fun h => h.resolve_left fun h => hx h.1⟩

include hb in
theorem isAncestor_of_insertBlock (a d : ConstDataBuffer) :
    IsAncestor crypto t'.db a d ↔ d = block.id ∧ a ∈ block.ancestors ∨ IsAncestor crypto t.db a d := by
  unfold IsAncestor
  simp only [stored_of_insertBlock hb hi]
  constructor
  · rintro ⟨b, ⟨hd, rfl⟩ | hs, ha⟩
    · exact .inl ⟨hd, ha⟩
    · exact .inr ⟨b, hs, ha⟩
  · rintro (⟨hd, ha⟩ | ⟨b, hs, ha⟩)
    · exact ⟨block, .inl ⟨hd, rfl⟩, ha⟩
    · exact ⟨b, .inr hs, ha⟩

include hb in
theorem WellFormed.insertBlock (hw : WellFormed crypto t.db) : WellFormed crypto t'.db where
  block id row hr := by
    rw [lookup_of_insertBlock hi] at hr
    split_ifs at hr with hx
    · cases hr
      exact ⟨block, hb, hx.symm, rfl, rfl⟩
    · exact hw.block id row hr
  hierarchy a d := by
    rw [isAncestor_of_insertBlock hb hi, ← hw.hierarchy]
    obtain ⟨-, hier, rfl, hh⟩ := insertBlock_eq_ok hi
    exact (hh a d).trans or_comm

theorem not_applied_of_insertBlock : ¬Applied t'.db block.id := by
  unfold Applied
  rw [stateOf_of_insertBlock hi, if_pos rfl]
  rintro (h | h) <;> cases h

end Store

/-! ### Blocks marked in a chain -/

/-- Blocks that are not applied have got the state `s`. -/
structure Marked (s : RecordState) (t t' : DatabaseTransaction) : Prop where
  records : ∃ rows, t' = { t with db := { t.db with logRecords := rows } }
  blocks : blocksOf t'.db = blocksOf t.db
  consensus : ∀ x, consensusOf t'.db x = consensusOf t.db x
  state : ∀ x, stateOf t'.db x = stateOf t.db x ∨ ¬Applied t.db x ∧ stateOf t'.db x = some s

section Marked

variable {s : RecordState}

theorem Marked.refl (t : DatabaseTransaction) : Marked s t t :=
  ⟨⟨_, rfl⟩, rfl, fun _ => rfl, fun _ => .inl rfl⟩

theorem Marked.applied (hs : s.haveState = false) (h : Marked s t t') (x : ConstDataBuffer) :
    Applied t'.db x ↔ Applied t.db x := by
  unfold Applied
  rcases h.state x with hx | ⟨hn, hx⟩
  · rw [hx]
  · refine iff_of_false ?_ hn
    rw [hx]
    cases s <;> simp_all [RecordState.haveState]

theorem Marked.trans (hs : s.haveState = false) {t'' : DatabaseTransaction} (h : Marked s t t')
    (h' : Marked s t' t'') : Marked s t t'' where
  records := by
    obtain ⟨rows, rfl⟩ := h.records
    obtain ⟨rows', rfl⟩ := h'.records
    exact ⟨rows', rfl⟩
  blocks := h'.blocks.trans h.blocks
  consensus x := (h'.consensus x).trans (h.consensus x)
  state x := by
    rcases h'.state x with hx | ⟨hn, hx⟩
    · rw [hx]
      exact h.state x
    · exact .inr ⟨fun ha => hn ((h.applied hs x).mpr ha), hx⟩

theorem Marked.setState {id : ConstDataBuffer} (h : ¬Applied t.db id) :
    Marked s t (setState id s t) where
  records := ⟨_, rfl⟩
  blocks := blocksOf_update t.db id fun _ => rfl
  consensus x := consensusOf_update t.db id x s
  state x := by
    have hx := stateOf_update t.db id x s
    change stateOf (LogSync.setState id s t).db x = _ at hx
    rw [hx]
    split_ifs with he
    · subst he
      cases hst : stateOf t.db x with
      | none => exact .inl rfl
      | some st => exact .inr ⟨h, rfl⟩
    · exact .inl rfl

end Marked

/-- Stored blocks have got the state `s`. -/
structure Restated (s : RecordState) (t t' : DatabaseTransaction) : Prop where
  blocks : blocksOf t'.db = blocksOf t.db
  state : ∀ x, stateOf t'.db x = stateOf t.db x ∨ stateOf t'.db x = some s

theorem Restated.refl (s : RecordState) (t : DatabaseTransaction) : Restated s t t :=
  ⟨rfl, fun _ => .inl rfl⟩

theorem Restated.setState {s : RecordState} (h : Restated s t t') (id : ConstDataBuffer) :
    Restated s t (setState id s t') where
  blocks := by
    have hb := blocksOf_update t'.db id (g := fun row => { row with state := s }) fun _ => rfl
    exact hb.trans h.blocks
  state x := by
    have hx := stateOf_update t'.db id x s
    change stateOf (LogSync.setState id s t').db x = _ at hx
    rw [hx]
    split_ifs
    · cases hst : stateOf t'.db x with
      | none =>
        refine .inl ?_
        rcases h.state x with he | he
        · rw [← he, hst, Option.map_none]
        · cases hst.symm.trans he
      | some st => exact .inr rfl
    · exact h.state x

theorem not_applied_of_state {db : Database} {id : ConstDataBuffer} {row : LogRecord}
    (hr : db.logRecords.lookup id = some row)
    (h : ¬(row.state = .leaf ∨ row.state = .processed ∨ row.consensus = true)) : ¬Applied db id := by
  unfold Applied stateOf
  rw [hr, Option.map_some, Option.some.injEq, Option.some.injEq]
  tauto

/-- What holds of `invalidBlock`, if it holds when the first block is marked and stays when a
block that is not applied is. -/
theorem invalidBlock_induct {I : DatabaseTransaction → Prop} {n : Nat} {id : ConstDataBuffer}
    {value : Bool} {u : Unit} (h : invalidBlock n id value t = .ok u t')
    (hid : I (setState id (if value then .invalid else .validated) t))
    (hmark : ∀ t x, I t → ¬Applied t.db x →
      I (setState x (if value then .invalid else .validated) t)) : I t' := by
  induction n generalizing id t t' with
  | zero => cases h
  | succ n ih =>
    obtain ⟨_, t₁, hu, h⟩ := bind_eq_ok.mp h
    obtain ⟨fs, t₂, hf, h⟩ := bind_eq_ok.mp h
    have ht₁ : I t₁ := by
      cases hu
      exact hid
    have ht₂ : t₁ = t₂ := by
      cases hf
      rfl
    subst ht₂
    refine forM_induct (I := fun _ => I) h ht₁ ?_
    intro p ps s s' hI hp
    rw [find_bind] at hp
    cases hr : s.db.logRecords.lookup p with
    | none =>
      simp only [Orm.transactionLogRecord_rows, hr] at hp
      cases hp
    | some row =>
      simp only [Orm.transactionLogRecord_rows, hr] at hp
      split_ifs at hp with hbad
      · cases hp
      · exact ih hp (hmark s p hI (not_applied_of_state hr hbad))

theorem invalidBlock_eq_ok {n : Nat} {id : ConstDataBuffer} {value : Bool} {u : Unit}
    (h : invalidBlock n id value t = .ok u t') (hid : ¬Applied t.db id) :
    Marked (if value then .invalid else .validated) t t' := by
  have hs : (if value then RecordState.invalid else .validated).haveState = false := by
    cases value <;> rfl
  exact invalidBlock_induct (I := Marked _ t) h (Marked.setState hid)
    fun _ _ hm hx => hm.trans hs (Marked.setState hx)

/-! ### Followers -/

theorem create_id_ne_nil {crypto : Crypto} {data : ConstDataBuffer} {block : TransactionBlock}
    (h : TransactionBlock.create crypto data = .ok block) : block.id ≠ [] := by
  have hid : block.id = crypto.sha256 data := by
    unfold TransactionBlock.create at h
    split at h
    · next b rest hb =>
      cases h
      unfold TransactionBlock.getBlock at hb
      obtain ⟨version, _, -, hb⟩ := bind_eq_ok.mp hb
      split_ifs at hb
      · cases hb
      · simp only [bind_eq_ok] at hb
        obtain ⟨_, _, -, _, _, -, _, _, -, _, _, -, _, _, -, _, _, -, hb⟩ := hb
        cases hb
        rfl
    · cases h
  rw [hid]
  intro hnil
  have := crypto.sha256_size data
  rw [hnil] at this
  cases this

theorem selectFollowers_apply {crypto : Crypto} (hw : WellFormed crypto t.db)
    (id : ConstDataBuffer) : ∃ fs, selectFollowers id t = .ok fs t ∧
      ∀ f, f ∈ fs ↔ IsAncestor crypto t.db id f := by
  refine ⟨_, rfl, fun f => ?_⟩
  rw [toSet, mem_foldl_emplace, List.mem_filter, List.mem_map, ← hw.hierarchy id f]
  simp only [List.not_mem_nil, false_or, decide_eq_true_eq]
  constructor
  · rintro ⟨⟨⟨⟨a, b⟩, row⟩, hm, rfl⟩, -⟩
    obtain ⟨hl, hk⟩ := Table.mem_select.mp hm
    have hk : a = id := by simpa using hk
    subst hk
    exact Option.isSome_iff_exists.mpr ⟨row, hl⟩
  · intro h
    obtain ⟨row, hr⟩ := Option.isSome_iff_exists.mp h
    refine ⟨⟨((id, f), row), Table.mem_select.mpr ⟨hr, by simp⟩, rfl⟩, ?_⟩
    obtain ⟨block, hs, -⟩ := (hw.hierarchy id f).mp h
    have hid := hw.id_eq hs
    obtain ⟨row', -, hb⟩ := hs
    exact hid ▸ create_id_ne_nil hb

/-- The worklist after the followers of an applied block have been pushed. -/
structure Pushed (db : Database) (pr fs : List ConstDataBuffer)
    (ps ps' : List (ConstDataBuffer × Pending)) : Prop where
  nodup : (SortedMap.keys ps).Nodup → (SortedMap.keys ps').Nodup
  keeps : ∀ e ∈ ps, e ∈ ps'
  pushed : ∀ f ∈ fs, f ∈ pr ∨ f ∈ SortedMap.keys ps'
  only : ∀ k d, (k, d) ∈ ps' → (k, d) ∈ ps ∨ k ∈ fs ∧ k ∉ pr ∧
    ∃ row, db.logRecords.lookup k = some row ∧ d = ⟨row.data, row.state, row.consensus⟩

theorem pushFollowers_leaf {n : Nat} {pr fs : List ConstDataBuffer}
    {ps ps' : List (ConstDataBuffer × Pending)}
    (h : pushFollowers n .leaf pr fs ps t = .ok ps' t') : t' = t ∧ Pushed t.db pr fs ps ps' := by
  induction fs generalizing ps with
  | nil =>
    cases h
    refine ⟨rfl, ?_⟩
    constructor <;> simp
  | cons f fs ih =>
    unfold pushFollowers at h
    simp only [if_true] at h
    split_ifs at h with hin
    · obtain ⟨rfl, hp⟩ := ih h
      refine ⟨rfl, hp.nodup, hp.keeps, ?_, ?_⟩
      · refine List.forall_mem_cons.mpr ⟨hin.imp_right fun hk => ?_, hp.pushed⟩
        obtain ⟨d, hd⟩ := SortedMap.mem_keys.mp hk
        exact SortedMap.mem_keys.mpr ⟨d, hp.keeps _ hd⟩
      · exact fun k d hd => (hp.only k d hd).imp_right fun h => ⟨List.mem_cons_of_mem f h.1, h.2⟩
    · rw [find_bind] at h
      cases hr : t.db.logRecords.lookup f with
      | none =>
        simp only [Orm.transactionLogRecord_rows, hr] at h
        cases h
      | some row =>
        simp only [Orm.transactionLogRecord_rows, hr] at h
        obtain ⟨rfl, hp⟩ := ih h
        have hkeys : f ∉ SortedMap.keys ps := fun hk => hin (.inr hk)
        refine ⟨rfl, fun hn => hp.nodup (SortedMap.nodup_keys_assign bufferLess hn), ?_, ?_, ?_⟩
        · intro e he
          refine hp.keeps e ((SortedMap.mem_assign bufferLess).mpr (.inr ⟨he, ?_⟩))
          rintro rfl
          exact hkeys (SortedMap.mem_keys.mpr ⟨e.2, he⟩)
        · refine List.forall_mem_cons.mpr ⟨.inr ?_, hp.pushed⟩
          exact SortedMap.mem_keys.mpr ⟨_, hp.keeps _ ((SortedMap.mem_assign bufferLess).mpr (.inl rfl))⟩
        · intro k d hd
          rcases hp.only k d hd with hd | hd
          · rcases (SortedMap.mem_assign bufferLess).mp hd with hd | ⟨hd, -⟩
            · cases hd
              exact .inr ⟨List.mem_cons_self .., fun hpr => hin (.inl hpr), row, hr, rfl⟩
            · exact .inl hd
          · exact .inr ⟨List.mem_cons_of_mem f hd.1, hd.2⟩

/-- What holds after the followers of a block that is not applied have been marked, if it stays
when one of them or a block that is not applied is. -/
theorem pushFollowers_induct {I : DatabaseTransaction → Prop} {n : Nat} {s : RecordState}
    (hs : s ≠ .leaf) {pr fs : List ConstDataBuffer} {ps ps' : List (ConstDataBuffer × Pending)}
    (h : pushFollowers n s pr fs ps t = .ok ps' t') (h0 : I t)
    (hmark : ∀ t x, I t → (x ∈ fs ∨ ¬Applied t.db x) → I (setState x .invalid t)) :
    ps' = ps ∧ I t' := by
  induction fs generalizing t with
  | nil =>
    cases h
    exact ⟨rfl, h0⟩
  | cons f fs ih =>
    have hmark' : ∀ t x, I t → (x ∈ fs ∨ ¬Applied t.db x) → I (setState x .invalid t) :=
      fun t x hI hx => hmark t x hI (hx.imp_left (List.mem_cons_of_mem f))
    unfold pushFollowers at h
    simp only [if_neg hs] at h
    split_ifs at h with hin
    · exact ih h h0 hmark'
    · rw [find_bind] at h
      cases hr : t.db.logRecords.lookup f with
      | none =>
        simp only [Orm.transactionLogRecord_rows, hr] at h
        cases h
      | some row =>
        simp only [Orm.transactionLogRecord_rows, hr] at h
        obtain ⟨_, t₁, hi, h⟩ := bind_eq_ok.mp h
        exact ih h (invalidBlock_induct hi (hmark t f h0 (.inl (List.mem_cons_self ..)))
          fun t x hI hx => hmark t x hI (.inr hx)) hmark'

theorem pushFollowers_invalid {n : Nat} {s : RecordState} (hs : s ≠ .leaf)
    {pr fs : List ConstDataBuffer} {ps ps' : List (ConstDataBuffer × Pending)}
    (h : pushFollowers n s pr fs ps t = .ok ps' t') (hf : ∀ f ∈ fs, ¬Applied t.db f) :
    ps' = ps ∧ Marked .invalid t t' := by
  refine pushFollowers_induct (I := Marked .invalid t) hs h (Marked.refl t) fun s x hm hx => ?_
  refine hm.trans rfl (Marked.setState (hx.elim (fun hxf ha => ?_) id))
  exact hf x hxf ((hm.applied rfl x).mp ha)

/-! ### The way back of a rollback -/

/-- A rollback to `minOrder` does not undo the block. -/
def Low (minOrder : UInt64) (db : Database) (id : ConstDataBuffer) : Prop :=
  ∃ row, db.logRecords.lookup id = some row ∧
    (row.orderNo.toUInt64 < minOrder ∨ row.consensus = true)

theorem Low.of_blocksOf {minOrder : UInt64} {db db' : Database} (hb : blocksOf db' = blocksOf db)
    {id : ConstDataBuffer} (hc : consensusOf db' id = consensusOf db id) (h : Low minOrder db id) :
    Low minOrder db' id := by
  obtain ⟨row, hr, hl⟩ := h
  obtain ⟨row', hr', hcore⟩ := lookup_of_blocksOf hb hr
  refine ⟨row', hr', hl.imp (fun h => ?_) fun h => ?_⟩
  · have ho : row'.orderNo = row.orderNo := congrArg (fun c => c.2.1) hcore
    rwa [ho]
  · unfold consensusOf at hc
    rw [hr, hr'] at hc
    exact hc.trans h

theorem low_congr {minOrder : UInt64} {db db' : Database} (hb : blocksOf db' = blocksOf db)
    (hc : ∀ x, consensusOf db' x = consensusOf db x) (id : ConstDataBuffer) :
    Low minOrder db' id ↔ Low minOrder db id :=
  ⟨Low.of_blocksOf hb.symm (hc id).symm, Low.of_blocksOf hb (hc id)⟩

/-- What the loop of `rollback_all` over the ancestors `as` of an undone block does. -/
structure Retreated (minOrder : UInt64) (as : List ConstDataBuffer) (w w' : RollbackWalk)
    (t t' : DatabaseTransaction) : Prop where
  records : ∃ rows, t' = { t with db := { t.db with logRecords := rows } }
  blocks : blocksOf t'.db = blocksOf t.db
  consensus : ∀ x, consensusOf t'.db x = consensusOf t.db x
  processed : ∀ x, x ∈ w'.processed ↔
    x ∈ w.processed ∨ x ∈ as ∧ x ∉ SortedMap.keys w.notProcessed ∧ Low minOrder t.db x
  notProcessed : ∀ x, x ∈ SortedMap.keys w'.notProcessed ↔
    x ∈ SortedMap.keys w.notProcessed ∨ x ∈ as ∧ x ∉ w.processed ∧ ¬Low minOrder t.db x
  nodup : (SortedMap.keys w.notProcessed).Nodup → (SortedMap.keys w'.notProcessed).Nodup
  data : ∀ e ∈ w'.notProcessed, e ∈ w.notProcessed ∨ dataOf t.db e.1 = some e.2
  applied : ∀ x ∈ as, x ∉ w.processed → x ∉ SortedMap.keys w.notProcessed →
    stateOf t.db x = some .processed
  state : ∀ x, stateOf t'.db x = some .leaf ∧ x ∈ w'.processed ∧ x ∉ w.processed ∨
    stateOf t'.db x = stateOf t.db x ∧ (x ∈ w'.processed → x ∈ w.processed)

theorem rollbackAncestors_eq_ok {minOrder : UInt64} {as : List ConstDataBuffer}
    {w w' : RollbackWalk} (h : rollbackAncestors minOrder as w t = .ok w' t') :
    Retreated minOrder as w w' t t' := by
  induction as generalizing w t with
  | nil =>
    cases h
    exact ⟨⟨_, rfl⟩, rfl, fun _ => rfl, by simp, by simp, id, fun _ he => .inl he, by simp,
      fun _ => .inr ⟨rfl, id⟩⟩
  | cons a as ih =>
    unfold rollbackAncestors at h
    split_ifs at h with hin
    · have hr := ih h
      refine ⟨hr.records, hr.blocks, hr.consensus, fun x => ?_, fun x => ?_, hr.nodup, hr.data, ?_, hr.state⟩
      · rw [hr.processed, List.mem_cons]
        constructor
        · tauto
        · rintro (hx | ⟨rfl | hx, hk⟩)
          · exact .inl hx
          · exact .inl (hin.resolve_right hk.1)
          · exact .inr ⟨hx, hk⟩
      · rw [hr.notProcessed, List.mem_cons]
        constructor
        · tauto
        · rintro (hx | ⟨rfl | hx, hk⟩)
          · exact .inl hx
          · exact .inl (hin.resolve_left hk.1)
          · exact .inr ⟨hx, hk⟩
      · refine List.forall_mem_cons.mpr ⟨fun hp hk => absurd hin ?_, hr.applied⟩
        tauto
    · rw [find_bind] at h
      cases hl : t.db.logRecords.lookup a with
      | none =>
        simp only [Orm.transactionLogRecord_rows, hl] at h
        cases h
      | some row =>
        simp only [Orm.transactionLogRecord_rows, hl] at h
        split_ifs at h with hs hlow
        · cases h
        · have hst : stateOf t.db a = some .processed := by
            rw [stateOf, hl, Option.map_some, not_ne_iff.mp hs]
          have ha : Low minOrder t.db a := ⟨row, hl, hlow⟩
          obtain ⟨hap, hak⟩ := not_or.mp hin
          have hr := ih (t := setState a .leaf t) h
          have hb : blocksOf (setState a .leaf t).db = blocksOf t.db := blocksOf_update _ _ fun _ => rfl
          have hc : ∀ x, consensusOf (setState a .leaf t).db x = consensusOf t.db x :=
            fun x => consensusOf_update t.db a x .leaf
          have hs' : ∀ x, stateOf (setState a .leaf t).db x =
              if x = a then some .leaf else stateOf t.db x := by
            intro x
            refine (stateOf_update t.db a x .leaf).trans (ite_congr rfl (fun hx => ?_) fun _ => rfl)
            rw [hx, hst]
            rfl
          refine ⟨?_, hr.blocks.trans hb, fun x => (hr.consensus x).trans (hc x), fun x => ?_,
            fun x => ?_, hr.nodup, fun e he => ?_, ?_, fun x => ?_⟩
          · obtain ⟨rows, rfl⟩ := hr.records
            exact ⟨rows, rfl⟩
          · rw [hr.processed, low_congr hb hc, List.mem_cons, List.mem_cons]
            by_cases hx : x = a
            · subst hx
              simp [hak, ha]
            · simp [hx]
          · rw [hr.notProcessed, low_congr hb hc, List.mem_cons, List.mem_cons]
            by_cases hx : x = a
            · subst hx
              simp [ha]
            · simp [hx]
          · exact (hr.data e he).imp_right fun h => dataOf_congr hb ▸ h
          · refine List.forall_mem_cons.mpr ⟨fun _ _ => hst, fun x hx hxp hxk => ?_⟩
            by_cases hxa : x = a
            · rw [hxa]
              exact hst
            · have := hr.applied x hx (by simp [hxa, hxp]) hxk
              rwa [hs', if_neg hxa] at this
          · rcases hr.state x with ⟨hx, hx', hxp⟩ | ⟨hx, hxp⟩
            · exact .inl ⟨hx, hx', fun h => hxp (List.mem_cons_of_mem a h)⟩
            · rw [hs'] at hx
              by_cases hxa : x = a
              · rw [if_pos hxa] at hx
                subst hxa
                exact .inl ⟨hx, (hr.processed x).mpr (.inl (List.mem_cons_self ..)), hap⟩
              · rw [if_neg hxa] at hx
                exact .inr ⟨hx, fun h => (List.mem_cons.mp (hxp h)).resolve_left hxa⟩
        · have hst : stateOf t.db a = some .processed := by
            rw [stateOf, hl, Option.map_some, not_ne_iff.mp hs]
          have ha : ¬Low minOrder t.db a := by
            rintro ⟨row', hl', h'⟩
            cases hl.symm.trans hl'
            exact hlow h'
          obtain ⟨hap, hak⟩ := not_or.mp hin
          have hr := ih h
          refine ⟨hr.records, hr.blocks, hr.consensus, fun x => ?_, fun x => ?_,
            fun hn => hr.nodup (SortedMap.nodup_keys_assign bufferLess hn), fun e he => ?_, ?_,
            hr.state⟩
          · rw [hr.processed, SortedMap.mem_keys_assign, List.mem_cons]
            by_cases hx : x = a
            · subst hx
              simp [ha]
            · simp [hx]
          · rw [hr.notProcessed, SortedMap.mem_keys_assign, List.mem_cons]
            by_cases hx : x = a
            · subst hx
              simp [ha, hap]
            · simp [hx]
          · rcases hr.data e he with he | he
            · rcases (SortedMap.mem_assign bufferLess).mp he with rfl | ⟨he, -⟩
              · exact .inr (by rw [dataOf, hl]; rfl)
              · exact .inl he
            · exact .inr he
          · refine List.forall_mem_cons.mpr ⟨fun _ _ => hst, fun x hx hxp hxk => ?_⟩
            by_cases hxa : x = a
            · rw [hxa]
              exact hst
            · exact hr.applied x hx hxp fun h =>
                ((SortedMap.mem_keys_assign bufferLess).mp h).elim hxa hxk

/-! ### The candidates of a walk -/

/-- What the walk adds to its worklist for the ancestors `as`. -/
structure Climbed (db : Database) (as : List ConstDataBuffer) (w w' : VoteWalk) : Prop where
  same : { w' with notProcessed := w.notProcessed } = w
  nodup : (SortedMap.keys w.notProcessed).Nodup → (SortedMap.keys w'.notProcessed).Nodup
  keys : ∀ x, x ∈ SortedMap.keys w'.notProcessed ↔
    x ∈ SortedMap.keys w.notProcessed ∨ x ∈ as ∧ x ∉ w.processed
  entries : ∀ k d, (k, d) ∈ w'.notProcessed → (k, d) ∈ w.notProcessed ∨ k ∈ as ∧
    ∃ row, db.logRecords.lookup k = some row ∧ d = ⟨row.data, row.state, row.consensus⟩

section Climbed

variable {db : Database} {as : List ConstDataBuffer} {w w' : VoteWalk} (h : Climbed db as w w')
include h

theorem Climbed.processed_eq : w'.processed = w.processed := by
  have := congrArg VoteWalk.processed h.same
  exact this

theorem Climbed.candidates_eq : w'.consensusCandidate = w.consensusCandidate := by
  have := congrArg VoteWalk.consensusCandidate h.same
  exact this

theorem Climbed.invalid_eq : w'.haveInvalidConsensus = w.haveInvalidConsensus := by
  have := congrArg VoteWalk.haveInvalidConsensus h.same
  exact this

end Climbed

theorem pushAncestors_eq_ok {as : List ConstDataBuffer} {w w' : VoteWalk}
    (h : pushAncestors as w t = .ok w' t') : t' = t ∧ Climbed t.db as w w' := by
  induction as generalizing w with
  | nil =>
    cases h
    exact ⟨rfl, rfl, id, by simp, fun _ _ h => .inl h⟩
  | cons a as ih =>
    unfold pushAncestors at h
    split_ifs at h with hin
    · obtain ⟨rfl, hc⟩ := ih h
      refine ⟨rfl, hc.same, hc.nodup, fun x => ?_, fun k d hd => ?_⟩
      · rw [hc.keys, List.mem_cons]
        constructor
        · tauto
        · rintro (hx | ⟨rfl | hx, hp⟩)
          · exact .inl hx
          · exact .inl (hin.resolve_left hp)
          · exact .inr ⟨hx, hp⟩
      · exact (hc.entries k d hd).imp_right fun h => ⟨List.mem_cons_of_mem a h.1, h.2⟩
    · obtain ⟨hap, hak⟩ := not_or.mp hin
      rw [find_bind] at h
      cases hl : t.db.logRecords.lookup a with
      | none =>
        simp only [Orm.transactionLogRecord_rows, hl] at h
        cases h
      | some row =>
        simp only [Orm.transactionLogRecord_rows, hl] at h
        obtain ⟨rfl, hc⟩ := ih h
        have hsame := congrArg (fun v : VoteWalk => { v with notProcessed := w.notProcessed }) hc.same
        refine ⟨rfl, hsame,
          fun hn => hc.nodup (SortedMap.nodup_keys_assign bufferLess hn), fun x => ?_,
          fun k d hd => ?_⟩
        · rw [hc.keys, SortedMap.mem_keys_assign, List.mem_cons]
          by_cases hx : x = a
          · subst hx
            simp [hap]
          · simp [hx]
        · rcases hc.entries k d hd with hd | hd
          · rcases (SortedMap.mem_assign bufferLess).mp hd with hd | ⟨hd, -⟩
            · cases hd
              exact .inr ⟨List.mem_cons_self .., row, hl, rfl⟩
            · exact .inl hd
          · exact .inr ⟨List.mem_cons_of_mem a hd.1, hd.2⟩

/-- The entries of the walk have `P`, and so have its candidates. -/
structure WalkOk (P : ConstDataBuffer → Pending → Prop) (w : VoteWalk) : Prop where
  pending : ∀ k d, (k, d) ∈ w.notProcessed → P k d
  nodup : (SortedMap.keys w.notProcessed).Nodup
  fresh : ∀ k ∈ SortedMap.keys w.notProcessed, k ∉ w.processed
  candidates : ∀ p ∈ w.consensusCandidate, P p.id p.toPending ∧ p.consensus = false ∧
    p.id ∈ w.processed
  distinct : (w.consensusCandidate.map (·.id)).Nodup
  invalid : w.haveInvalidConsensus = true ↔ ∃ p ∈ w.consensusCandidate, p.state = .invalid

/-- Only votes are written. -/
def OnlyVotes (t t' : DatabaseTransaction) : Prop := ∃ votes journal,
  t' = { t with db := { t.db with voteRequests := votes }, journal := journal }

instance : Std.Refl OnlyVotes := ⟨fun t => ⟨t.db.voteRequests, t.journal, rfl⟩⟩

instance : IsTrans DatabaseTransaction OnlyVotes :=
  ⟨by rintro _ _ _ ⟨votes, journal, rfl⟩ ⟨votes', journal', rfl⟩; exact ⟨votes', journal', rfl⟩⟩

theorem OnlyVotes.logRecords (h : OnlyVotes t t') : t'.db.logRecords = t.db.logRecords := by
  obtain ⟨votes, journal, rfl⟩ := h
  rfl

theorem OnlyVotes.shapeOf (h : OnlyVotes t t') : shapeOf t'.db = LogSync.shapeOf t.db := by
  obtain ⟨votes, journal, rfl⟩ := h
  rfl

theorem OnlyVotes.castVote {current : TransactionBlock} {consensus : Bool} {r : Option Bool}
    (h : castVote block current consensus t = .ok r t') : OnlyVotes t t' :=
  (moves_castVote (R := OnlyVotes) (fun rows t => ⟨rows, t.journal, rfl⟩)
    (fun t _ _ => ⟨t.db.voteRequests, _, rfl⟩) block current consensus).ok h

theorem OnlyVotes.voteWalk {n : Nat} {w w' : VoteWalk}
    (h : voteWalk sp block n w t = .ok w' t') : OnlyVotes t t' :=
  (moves_voteWalk (R := OnlyVotes) (fun rows t => ⟨rows, t.journal, rfl⟩)
    (fun t _ _ => ⟨t.db.voteRequests, _, rfl⟩) block n w).ok h

theorem checkConsensus_state {id : ConstDataBuffer} {b : Bool}
    (h : checkConsensus id t = .ok b t') : t' = t := by
  have hm : Moves (fun t t' => t' = t) (checkConsensus id) :=
    haveI : Std.Refl fun t t' : DatabaseTransaction => t' = t := ⟨fun _ => rfl⟩
    haveI : IsTrans DatabaseTransaction fun t t' => t' = t := ⟨fun _ _ _ h h' => h'.trans h⟩
    moves_checkConsensus id
  exact hm.ok h

theorem WalkOk.pop {P : ConstDataBuffer → Pending → Prop} {w : VoteWalk} {k : ConstDataBuffer}
    {d : Pending} {rest : List (ConstDataBuffer × Pending)} (h : WalkOk P w)
    (hw : w.notProcessed = (k, d) :: rest) :
    WalkOk P { w with notProcessed := rest, processed := k :: w.processed } where
  pending k' d' hd := h.pending k' d' (hw ▸ List.mem_cons_of_mem _ hd)
  nodup := by
    have := h.nodup
    rw [hw] at this
    exact (List.nodup_cons.mp this).2
  fresh k' hk' hp := by
    have hn := h.nodup
    rw [hw] at hn
    rcases List.mem_cons.mp hp with rfl | hp
    · exact (List.nodup_cons.mp hn).1 hk'
    · exact h.fresh k' (hw ▸ List.mem_cons_of_mem _ hk') hp
  candidates p hp := (h.candidates p hp).imp_right fun hc => hc.imp_right (List.mem_cons_of_mem k)
  distinct := h.distinct
  invalid := h.invalid

theorem WalkOk.addCandidate {P : ConstDataBuffer → Pending → Prop} {w : VoteWalk}
    {current : TransactionBlock} {d : Pending} {pr : List ConstDataBuffer}
    (h : WalkOk P { w with processed := current.id :: pr }) (hd : P current.id d)
    (hc : d.consensus = false) (hf : ∀ p ∈ w.consensusCandidate, p.id ≠ current.id) :
    WalkOk P ({ w with processed := current.id :: pr }.addCandidate current d) where
  pending := h.pending
  nodup := h.nodup
  fresh := h.fresh
  candidates := List.forall_mem_cons.mpr ⟨⟨hd, hc, List.mem_cons_self ..⟩, h.candidates⟩
  distinct := List.nodup_cons.mpr ⟨fun hm => by
    obtain ⟨p, hp, he⟩ := List.mem_map.mp hm
    exact hf p hp he, h.distinct⟩
  invalid := by
    simp only [VoteWalk.addCandidate, Bool.or_eq_true, beq_iff_eq, List.exists_mem_cons_iff]
    rw [show w.haveInvalidConsensus = true ↔ _ from h.invalid, or_comm]

theorem WalkOk.climb {P : ConstDataBuffer → Pending → Prop} {w w' : VoteWalk} {db : Database}
    {as : List ConstDataBuffer} (h : WalkOk P w) (hc : Climbed db as w w')
    (hrow : ∀ k row, db.logRecords.lookup k = some row → P k ⟨row.data, row.state, row.consensus⟩) :
    WalkOk P w' where
  pending k d hd := by
    rcases hc.entries k d hd with hd | ⟨-, row, hr, rfl⟩
    · exact h.pending k d hd
    · exact hrow k row hr
  nodup := hc.nodup h.nodup
  fresh k hk := by
    rw [hc.processed_eq]
    exact ((hc.keys k).mp hk).elim (h.fresh k) And.right
  candidates p hp := by
    rw [hc.processed_eq]
    exact h.candidates p (hc.candidates_eq ▸ hp)
  distinct := by
    rw [hc.candidates_eq]
    exact h.distinct
  invalid := by
    rw [hc.candidates_eq, hc.invalid_eq]
    exact h.invalid

theorem voteWalk_ok {P : ConstDataBuffer → Pending → Prop} {n : Nat} {w w' : VoteWalk}
    (hid : ∀ k d b, P k d → TransactionBlock.create sp.crypto d.data = .ok b → b.id = k)
    (hrow : ∀ k row, t.db.logRecords.lookup k = some row → P k ⟨row.data, row.state, row.consensus⟩)
    (hw : WalkOk P w) (h : voteWalk sp block n w t = .ok w' t') : WalkOk P w' := by
  induction n generalizing w t with
  | zero => cases h
  | succ n ih =>
    unfold voteWalk at h
    cases hnp : w.notProcessed with
    | nil =>
      simp only [hnp] at h
      cases h
      exact hw
    | cons e rest =>
      obtain ⟨k, d⟩ := e
      simp only [hnp, getExpected_bind_eq_ok] at h
      obtain ⟨current, hb, h⟩ := h
      have hPd : P k d := hw.pending k d (hnp ▸ List.mem_cons_self ..)
      obtain rfl : current.id = k := hid k d current hPd hb
      have hpop := hw.pop hnp
      obtain ⟨r, t₁, hv, h⟩ := bind_eq_ok.mp h
      have hrow₁ := hrow
      rw [← (OnlyVotes.castVote hv).logRecords] at hrow₁
      cases r with
      | none => exact ih hrow₁ hpop h
      | some isNew =>
        obtain ⟨c, t₂, hcc, hrest⟩ := bind_eq_ok.mp h
        obtain rfl := checkConsensus_state hcc
        have hadd : WalkOk P (if (c && !d.consensus) = true then
            { w with notProcessed := rest, processed := current.id :: w.processed }.addCandidate current d
            else { w with notProcessed := rest, processed := current.id :: w.processed }) := by
          split_ifs with hcond
          · refine WalkOk.addCandidate (w := { w with notProcessed := rest }) hpop hPd ?_ fun p hp he => ?_
            · simpa using (Bool.and_eq_true_iff.mp hcond).2
            · exact hw.fresh current.id (hnp ▸ List.mem_cons_self ..) (he ▸ (hw.candidates p hp).2.2)
          · exact hpop
        by_cases hgo : (current.writePublicKeyId ≠ block.writePublicKeyId ∨ current.id = block.id) ∧
            (!isNew) = true
        · rw [if_pos hgo] at hrest
          obtain ⟨w₁, t₃, hp, hwalk⟩ := bind_eq_ok.mp hrest
          obtain ⟨rfl, hclimb⟩ := pushAncestors_eq_ok hp
          exact ih hrow₁ (hadd.climb hclimb hrow₁) hwalk
        · rw [if_neg hgo] at hrest
          exact ih hrow₁ hadd hrest

/-! ### The stored blocks -/

theorem WellFormed.empty (crypto : Crypto) : WellFormed crypto {} where
  block _ _ h := nomatch h
  hierarchy a d := by
    refine iff_of_false (by rintro ⟨⟩) ?_
    rintro ⟨_, ⟨_, h, -⟩, -⟩
    cases h

/-- A step stores a new block, when nothing waits to be processed again, or leaves the blocks as they are. -/
theorem Step.stores {c c' : Config} (h : Step sp c c') : blocksOf c'.t.db = blocksOf c.t.db ∨
    c.queued = [] ∧ ∃ blockData block, TransactionBlock.create sp.crypto blockData = .ok block ∧
      insertBlock block blockData c.t = .ok () c'.t := by
  cases h with
  | tick | start | pass | reprocessed | finish | confirmed | rollback | rolledBack | skip
  | retried => exact .inl rfl
  | store parses inserted => exact .inr ⟨rfl, _, _, parses, inserted⟩
  | wait parses waits =>
    obtain ⟨-, rfl, -⟩ := (processBlock_eq_ok waits).resolve_right fun h => by
      rcases h.2.state_eq with h | h <;> cases h
    exact .inl rfl
  | judge parses judged verdict =>
    obtain ⟨-, hj⟩ := (processBlock_eq_ok judged).resolve_left fun h => verdict h.1
    exact .inl hj.blocksOf
  | elect walk | propose walk => exact .inl (congrArg Prod.fst (OnlyVotes.voteWalk walk).shapeOf)
  | confirm | confirmInvalid => exact .inl (congrArg Prod.fst (shapeOf_setConsensus _ _))
  | records parses done =>
    obtain ⟨hl, hh⟩ := consensusRecords_keeps done
    exact .inl (congrArg Prod.fst (shapeOf_of_eq hl hh))
  | @follow t t' _ _ _ _ _ data n fs found pushed =>
    by_cases hs : data.state = .leaf
    · rw [hs] at pushed
      obtain ⟨rfl, -⟩ := pushFollowers_leaf pushed
      exact .inl rfl
    · obtain ⟨-, hr⟩ := pushFollowers_induct (I := Restated .invalid t) hs pushed
        (Restated.refl _ t) fun _ x hr _ => hr.setState x
      exact .inl hr.blocks
  | @undo t t₁ _ _ _ _ _ _ _ _ _ _ _ block parses undone ancestors =>
    obtain ⟨hl, hh, -⟩ := undoRecords_keeps undone
    have hb := blocksOf_update t₁.db block.id (g := fun row => { row with state := .validated })
      fun _ => rfl
    exact .inl ((rollbackAncestors_eq_ok ancestors).blocks.trans
      (hb.trans (congrArg Prod.fst (shapeOf_of_eq hl hh))))
  | @again t _ _ _ _ _ p _ _ _ _ _ cleared judged =>
    obtain ⟨-, hj⟩ := (processBlock_eq_ok judged).resolve_left fun h => nomatch h.1
    have hr := invalidBlock_induct (I := Restated .validated t) cleared
      ((Restated.refl _ t).setState p.id) fun _ x hr _ => hr.setState x
    exact .inl (hj.blocksOf.trans hr.blocks)

theorem Step.blocks {c c' : Config} (h : Step sp c c') : blocksOf c'.t.db = blocksOf c.t.db ∨
    ∃ blockData block, TransactionBlock.create sp.crypto blockData = .ok block ∧
      insertBlock block blockData c.t = .ok () c'.t := h.stores.imp_right And.right

/-- The rows of the log are those of the stored blocks in every state of the machine. -/
theorem Step.wellFormed {c c' : Config} (h : Step sp c c') (hw : WellFormed sp.crypto c.t.db) :
    WellFormed sp.crypto c'.t.db := by
  rcases h.blocks with hb | ⟨_, _, parses, inserted⟩
  · exact hw.of_blocksOf hb
  · exact hw.insertBlock parses inserted

/-- `db'` has the blocks of `db`. -/
def DataGrows (db db' : Database) : Prop :=
  ∀ x data, dataOf db x = some data → dataOf db' x = some data

theorem Step.dataGrows {c c' : Config} (h : Step sp c c') : DataGrows c.t.db c'.t.db := by
  intro x data hd
  rcases h.blocks with hb | ⟨_, block, -, inserted⟩
  · rwa [dataOf_congr hb]
  · have hx : x ≠ block.id := by
      rintro rfl
      rw [dataOf, not_stored_of_insertBlock inserted] at hd
      cases hd
    rwa [dataOf, lookup_of_insertBlock inserted, if_neg hx]

end Vds.LogSync
