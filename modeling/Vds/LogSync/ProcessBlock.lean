import Vds.LogSync.Views

/-! What `process_block` does: a block waits, or it gets the votes of its ancestors and a
verdict. -/

namespace Vds.LogSync

open StateError Dbo

variable {sp : ServiceProvider} {block : TransactionBlock} {t t' : DatabaseTransaction}

/-! ### The ancestors -/

/-- The numbers and times of the block and of its ancestor `row` are in order. -/
def InOrder (block : TransactionBlock) (row : LogRecord) : Prop :=
  row.orderNo.toUInt64 < block.orderNo ∧ fromTimeT row.timePoint ≤ block.timePoint

theorem inOrder_iff {row : LogRecord} : InOrder block row ↔
    ¬(block.orderNo ≤ row.orderNo.toUInt64 ∨ block.timePoint < fromTimeT row.timePoint) := by
  unfold InOrder
  rw [not_or, UInt64.not_le, Int64.not_lt]

/-- The ancestor is one that a block can be applied on. -/
def GoodAncestor (db : Database) (block : TransactionBlock) (a : ConstDataBuffer) : Prop :=
  ∃ row, db.logRecords.lookup a = some row ∧ InOrder block row ∧ row.state.haveState = true

/-- The ancestor keeps the block waiting. -/
def WaitsFor (db : Database) (block : TransactionBlock) (a : ConstDataBuffer) : Prop :=
  db.logRecords.lookup a = none ∨
    ∃ row, db.logRecords.lookup a = some row ∧ InOrder block row ∧ row.state = .validated

/-- `v` is a voter of the block `id`. -/
def HasVote (db : Database) (id v : ConstDataBuffer) : Prop :=
  (db.voteRequests.lookup (id, v)).isSome = true

instance (db : Database) (id v : ConstDataBuffer) : Decidable (HasVote db id v) :=
  inferInstanceAs (Decidable (_ = true))

theorem hasVote_iff {db : Database} {id v : ConstDataBuffer} :
    HasVote db id v ↔ ∃ row, db.voteRequests.lookup (id, v) = some row := Option.isSome_iff_exists

theorem selectOwners_apply (id : ConstDataBuffer) :
    ∃ owners, selectOwners id t = .ok owners t ∧ ∀ v, v ∈ owners ↔ HasVote t.db id v := by
  refine ⟨_, rfl, fun v => ?_⟩
  simp only [List.mem_map, hasVote_iff]
  constructor
  · rintro ⟨⟨⟨a, b⟩, row⟩, hm, rfl⟩
    obtain ⟨hl, hk⟩ := Table.mem_select.mp hm
    have hk : a = id := by simpa using hk
    subst hk
    exact ⟨row, hl⟩
  · rintro ⟨row, hr⟩
    exact ⟨((id, v), row), Table.mem_select.mpr ⟨hr, by simp⟩, rfl⟩

theorem mem_foldl_emplace {x : ConstDataBuffer} (items s : List ConstDataBuffer) :
    x ∈ items.foldl (fun s o => SortedMap.emplace bufferLess o s) s ↔ x ∈ s ∨ x ∈ items := by
  induction items generalizing s with
  | nil => simp
  | cons i items ih =>
    rw [List.foldl_cons, ih, SortedMap.mem_emplace, List.mem_cons]
    tauto

theorem nodup_foldl_emplace (items : List ConstDataBuffer) {s : List ConstDataBuffer}
    (h : s.Nodup) : (items.foldl (fun s o => SortedMap.emplace bufferLess o s) s).Nodup := by
  induction items generalizing s with
  | nil => exact h
  | cons i items ih => exact ih (SortedMap.nodup_emplace bufferLess h)

/-- What the loop over `as` adds to `check`. -/
structure Checked (db : Database) (block : TransactionBlock) (as : List ConstDataBuffer)
    (check check' : AncestorCheck) : Prop where
  stored : ∀ a ∈ as, ¬WaitsFor db block a
  state : check'.state = check.state ∨ check'.state = .invalid
  leaf : check'.state = .leaf ↔ check.state = .leaf ∧ ∀ a ∈ as, GoodAncestor db block a
  removeLeaf : check'.state = .leaf → ∀ x,
    x ∈ check'.removeLeaf ↔ x ∈ check.removeLeaf ∨ x ∈ as ∧ stateOf db x = some .leaf
  voters : ∀ v, v ∈ check'.voteRequests ↔ v ∈ check.voteRequests ∨ ∃ a ∈ as, HasVote db a v
  nodup : check.voteRequests.Nodup → check'.voteRequests.Nodup

theorem Checked.cons {db : Database} {a : ConstDataBuffer} {as : List ConstDataBuffer}
    {check check₁ check' : AncestorCheck} (h : Checked db block as check₁ check')
    (hw : ¬WaitsFor db block a) (hs : check₁.state = check.state ∨ check₁.state = .invalid)
    (hl : check₁.state = .leaf ↔ check.state = .leaf ∧ GoodAncestor db block a)
    (hr : check₁.state = .leaf → ∀ x,
      x ∈ check₁.removeLeaf ↔ x ∈ check.removeLeaf ∨ x = a ∧ stateOf db x = some .leaf)
    (hv : ∀ v, v ∈ check₁.voteRequests ↔ v ∈ check.voteRequests ∨ HasVote db a v)
    (hn : check.voteRequests.Nodup → check₁.voteRequests.Nodup) :
    Checked db block (a :: as) check check' where
  stored := List.forall_mem_cons.mpr ⟨hw, h.stored⟩
  state := h.state.elim (fun h' => hs.imp h'.trans h'.trans) .inr
  leaf := by rw [h.leaf, hl, List.forall_mem_cons, and_assoc]
  removeLeaf hleaf x := by
    rw [h.removeLeaf hleaf, hr (h.leaf.mp hleaf).1, List.mem_cons]
    tauto
  voters v := by
    simp only [h.voters, hv, List.exists_mem_cons_iff, or_assoc]
  nodup hc := h.nodup (hn hc)

/-- The result of the loop over `as` from `check`. -/
def CheckResult (t : DatabaseTransaction) (block : TransactionBlock) (as : List ConstDataBuffer)
    (check : AncestorCheck)
    (r : EStateM.Result Error DatabaseTransaction (Option AncestorCheck)) : Prop :=
  (∃ a ∈ as, WaitsFor t.db block a) ∧ r = .ok none t ∨
    ∃ check', Checked t.db block as check check' ∧ r = .ok (some check') t

theorem checkAncestors_apply (as : List ConstDataBuffer) (check : AncestorCheck) :
    CheckResult t block as check (checkAncestors block as check t) := by
  induction as generalizing check with
  | nil =>
    refine .inr ⟨check, ?_, rfl⟩
    constructor <;> simp
  | cons a as ih =>
    obtain ⟨owners, ho, hov⟩ := selectOwners_apply (t := t) a
    unfold checkAncestors
    rw [bind_of_ok ho, find_bind]
    have hv := fun v => (mem_foldl_emplace (x := v) owners check.voteRequests).trans
      (or_congr_right (hov v))
    have hn := nodup_foldl_emplace owners (s := check.voteRequests)
    cases hr : t.db.logRecords.lookup a with
    | none =>
      simp only [Orm.transactionLogRecord_rows, hr]
      exact .inl ⟨⟨a, List.mem_cons_self .., .inl hr⟩, rfl⟩
    | some row =>
      simp only [Orm.transactionLogRecord_rows, hr]
      have hst : stateOf t.db a = some row.state := by rw [stateOf, hr, Option.map_some]
      have hrow : ∀ {row'}, t.db.logRecords.lookup a = some row' → row' = row :=
        fun h => (Option.some.inj (hr.symm.trans h)).symm
      have hwaits : WaitsFor t.db block a ↔ InOrder block row ∧ row.state = .validated := by
        constructor
        · rintro (h | ⟨row', h, ho, hs⟩)
          · rw [hr] at h
            cases h
          · exact hrow h ▸ ⟨ho, hs⟩
        · exact fun h => .inr ⟨row, hr, h⟩
      have hgood : GoodAncestor t.db block a ↔ InOrder block row ∧ row.state.haveState = true := by
        constructor
        · rintro ⟨row', h, hg⟩
          exact hrow h ▸ hg
        · exact fun h => ⟨row, hr, h⟩
      -- the loop over the rest, from the check that each branch makes of `a`
      have rest : ∀ check₁ : AncestorCheck, ¬WaitsFor t.db block a →
          (check₁.state = check.state ∨ check₁.state = .invalid) →
          (check₁.state = .leaf ↔ check.state = .leaf ∧ GoodAncestor t.db block a) →
          (check₁.state = .leaf → ∀ x, x ∈ check₁.removeLeaf ↔
            x ∈ check.removeLeaf ∨ x = a ∧ stateOf t.db x = some .leaf) →
          check₁.voteRequests =
            owners.foldl (fun s o => SortedMap.emplace bufferLess o s) check.voteRequests →
          CheckResult t block (a :: as) check (checkAncestors block as check₁ t) := by
        intro check₁ hw hs hl hrm hvr
        rcases ih check₁ with ⟨⟨x, hx, hxw⟩, he⟩ | ⟨check', hc, he⟩
        · exact .inl ⟨⟨x, List.mem_cons_of_mem a hx, hxw⟩, he⟩
        · exact .inr ⟨check', hc.cons hw hs hl hrm (fun v => hvr ▸ hv v) (fun h => hvr ▸ hn h), he⟩
      split_ifs with hord
      · have hno : ¬InOrder block row := fun h => inOrder_iff.mp h hord
        exact rest _ (fun h => hno (hwaits.mp h).1) (.inr rfl)
          ⟨fun h => (nomatch h), fun h => absurd (hgood.mp h.2).1 hno⟩ (fun h => (nomatch h)) rfl
      · have hin : InOrder block row := inOrder_iff.mpr hord
        cases hs : row.state with
        | validated => exact .inl ⟨⟨a, List.mem_cons_self .., hwaits.mpr ⟨hin, hs⟩⟩, rfl⟩
        | invalid =>
          exact rest _ (fun h => by cases hs.symm.trans (hwaits.mp h).2) (.inr rfl)
            ⟨fun h => (nomatch h), fun h => by rw [hgood, hs] at h; cases h.2.2⟩
            (fun h => (nomatch h)) rfl
        | processed =>
          refine rest _ (fun h => by cases hs.symm.trans (hwaits.mp h).2) (.inl rfl) ?_ ?_ rfl
          · rw [hgood, hs]
            exact ⟨fun h => ⟨h, hin, rfl⟩, And.left⟩
          · intro _ x
            refine ⟨.inl, fun h => h.elim id ?_⟩
            rintro ⟨rfl, hx⟩
            cases hs.symm.trans (Option.some.inj (hst.symm.trans hx))
        | leaf =>
          refine rest _ (fun h => by cases hs.symm.trans (hwaits.mp h).2) (.inl rfl) ?_ ?_ rfl
          · rw [hgood, hs]
            exact ⟨fun h => ⟨h, hin, rfl⟩, And.left⟩
          · intro _ x
            rw [SortedMap.mem_emplace, or_comm]
            refine or_congr_right ⟨fun h => ⟨h, ?_⟩, And.left⟩
            rw [h, hst, hs]

/-! ### Votes and states -/

theorem insertVotes_apply (id : ConstDataBuffer) {owners : List ConstDataBuffer}
    (hnd : owners.Nodup) (t : DatabaseTransaction)
    (hn : ∀ v ∈ owners, t.db.voteRequests.lookup (id, v) = none) :
    ∃ votes, (owners.forM fun owner => Orm.transactionLogVoteRequest.insert (id, owner)
        { approved := false, newMember := false }) t =
          .ok () { t with db := { t.db with voteRequests := votes } } ∧
      ∀ k, votes.lookup k = if k.1 = id ∧ k.2 ∈ owners then some ⟨false, false⟩
        else t.db.voteRequests.lookup k := by
  induction owners generalizing t with
  | nil => exact ⟨t.db.voteRequests, rfl, by simp⟩
  | cons v owners ih =>
    obtain ⟨hv, hnd⟩ := List.nodup_cons.mp hnd
    have hstep := insert_of_none Orm.transactionLogVoteRequest t (k := (id, v))
      (v := ⟨false, false⟩) (hn v (List.mem_cons_self ..))
    obtain ⟨votes, he, hl⟩ := ih hnd
      { t with db := { t.db with voteRequests := t.db.voteRequests.insert (id, v) ⟨false, false⟩ } }
      (fun w hw => by
        have hne : (id, w) ≠ (id, v) := fun h => hv ((Prod.mk.inj h).2.symm ▸ hw)
        exact (AList.lookup_insert_ne hne).trans (hn w (List.mem_cons_of_mem v hw)))
    refine ⟨votes, forM_cons_eq_ok.mpr ⟨_, hstep, he⟩, fun k => ?_⟩
    rw [hl, Table.lookup_insert_eq]
    obtain ⟨i, w⟩ := k
    by_cases hi : i = id
    · by_cases hw : w = v
      · simp [hi, hw]
      · simp [hi, hw]
    · simp [hi]

theorem updateStates_apply (xs : List ConstDataBuffer) (s : RecordState) (t : DatabaseTransaction) :
    ∃ rows, (xs.forM fun x => updateState x s) t =
        .ok () { t with db := { t.db with logRecords := rows } } ∧
      ∀ x, rows.lookup x = if x ∈ xs then (t.db.logRecords.lookup x).map fun row => { row with state := s }
        else t.db.logRecords.lookup x := by
  induction xs generalizing t with
  | nil => exact ⟨t.db.logRecords, rfl, by simp⟩
  | cons y xs ih =>
    obtain ⟨rows, he, hl⟩ := ih
      { t with db := { t.db with
        logRecords := t.db.logRecords.update y fun row => { row with state := s } } }
    refine ⟨rows, forM_cons_eq_ok.mpr ⟨_, rfl, he⟩, fun x => ?_⟩
    rw [hl, Table.lookup_update_eq]
    rcases eq_or_ne x y with rfl | hx
    · by_cases hm : x ∈ xs
      · simp [hm, Option.map_map, Function.comp_def]
      · simp [hm]
    · simp [hx]

/-! ### The verdict -/

/-- The voters of the ancestors have become voters of the block. -/
def Inherited (block : TransactionBlock) (db : Database)
    (votes : Table (ConstDataBuffer × ConstDataBuffer) VoteRequest) : Prop :=
  ∀ id v, votes.lookup (id, v) =
    if id = block.id ∧ ¬HasVote db id v ∧ ∃ a ∈ block.ancestors, HasVote db a v
    then some ⟨false, false⟩ else db.voteRequests.lookup (id, v)

/-- The new state of the block, and of its ancestors if it is applied. -/
def Decided (block : TransactionBlock) (s : RecordState) (db : Database)
    (rows : Table ConstDataBuffer LogRecord) : Prop :=
  ∀ x, rows.lookup x = (db.logRecords.lookup x).map fun row =>
    if s = .leaf ∧ x ∈ block.ancestors ∧ row.state = .leaf then { row with state := .processed }
    else if x = block.id then { row with state := s } else row

/-- What `process_block` does with a block that does not wait. -/
inductive Judged (sp : ServiceProvider) (block : TransactionBlock) (t : DatabaseTransaction) :
    RecordState → DatabaseTransaction → Prop
  | applied {votes t₂ rows} (good : ∀ a ∈ block.ancestors, GoodAncestor t.db block a)
      (votes_eq : Inherited block t.db votes)
      (records : processRecords sp block { t with db := { t.db with voteRequests := votes } } =
        .ok true t₂)
      (rows_eq : Decided block .leaf t.db rows) :
      Judged sp block t .leaf { t₂ with db := { t₂.db with logRecords := rows } }
  | refused {votes t₂ rows} (good : ∀ a ∈ block.ancestors, GoodAncestor t.db block a)
      (votes_eq : Inherited block t.db votes)
      (records : processRecords sp block { t with db := { t.db with voteRequests := votes } } =
        .ok false t₂)
      (rows_eq : Decided block .invalid t.db rows) :
      Judged sp block t .invalid { t₂ with db := { t₂.db with logRecords := rows } }
  | rejected {votes rows} (bad : ¬∀ a ∈ block.ancestors, GoodAncestor t.db block a)
      (votes_eq : Inherited block t.db votes) (rows_eq : Decided block .invalid t.db rows) :
      Judged sp block t .invalid
        { t with db := { t.db with voteRequests := votes, logRecords := rows } }

theorem logRecords_processRecords {b : Bool} (h : processRecords sp block t = .ok b t') :
    t'.db.logRecords = t.db.logRecords := by
  have hf : Frames (fun t : DatabaseTransaction => t.db.logRecords) (processRecords sp block) :=
    moves_processRecords (by constructor <;> exact fun _ _ => rfl) (fun _ _ => rfl) block
  exact hf.ok h

theorem Decided.congr {s : RecordState} {db db' : Database} {rows : Table ConstDataBuffer LogRecord}
    (h : Decided block s db' rows) (he : db'.logRecords = db.logRecords) : Decided block s db rows := by
  intro x
  rw [← he]
  exact h x

theorem writeVerdict_apply (removeLeaf : List ConstDataBuffer) (s : RecordState)
    (hr : s = .leaf → ∀ x, x ∈ removeLeaf ↔ x ∈ block.ancestors ∧ stateOf t.db x = some .leaf) :
    ∃ rows, Decided block s t.db rows ∧ writeVerdict block.id removeLeaf s t =
      .ok s { t with db := { t.db with logRecords := rows } } := by
  unfold writeVerdict
  rw [bind_of_ok (show updateState block.id s t = _ from rfl)]
  by_cases hs : s = .leaf
  · obtain ⟨rows, he, hl⟩ := updateStates_apply removeLeaf .processed
      { t with db := { t.db with
        logRecords := t.db.logRecords.update block.id fun row => { row with state := s } } }
    refine ⟨rows, fun x => ?_, ?_⟩
    · rw [hl, Table.lookup_update_eq]
      cases hx : t.db.logRecords.lookup x with
      | none => simp
      | some row =>
        have hm : x ∈ removeLeaf ↔ s = .leaf ∧ x ∈ block.ancestors ∧ row.state = .leaf := by
          rw [hr hs, stateOf, hx, Option.map_some, Option.some.injEq]
          exact ⟨fun h => ⟨hs, h⟩, And.right⟩
        by_cases hb : x = block.id
        · by_cases hrem : x ∈ removeLeaf
          · simp [← hm, hrem, ← hb]
          · simp [← hm, hrem, ← hb]
        · by_cases hrem : x ∈ removeLeaf
          · simp [← hm, hrem, hb]
          · simp [← hm, hrem, hb]
    · rw [if_pos hs]
      exact (bind_of_ok he).trans rfl
  · refine ⟨t.db.logRecords.update block.id fun row => { row with state := s }, fun x => ?_, ?_⟩
    · rw [Table.lookup_update_eq]
      by_cases hb : x = block.id
      · simp [hb, hs]
      · simp [hb, hs]
    · rw [if_neg hs]
      rfl

theorem processBlock_eq_ok {s : RecordState} (h : processBlock sp block t = .ok s t') :
    (s = .validated ∧ t' = t ∧ ∃ a ∈ block.ancestors, WaitsFor t.db block a) ∨
      (∀ a ∈ block.ancestors, ¬WaitsFor t.db block a) ∧ Judged sp block t s t' := by
  unfold processBlock at h
  have hcheck : CheckResult t block block.ancestors ⟨.leaf, [], []⟩
      (checkAncestors block block.ancestors ⟨.leaf, [], []⟩ t) := checkAncestors_apply _ _
  rcases hcheck with
    ⟨hw, he⟩ | ⟨check, hc, he⟩
  · rw [bind_of_ok he] at h
    cases h
    exact .inl ⟨rfl, rfl, hw⟩
  refine .inr ⟨hc.stored, ?_⟩
  obtain ⟨owners, ho, hov⟩ := selectOwners_apply (t := t) block.id
  rw [bind_of_ok he] at h
  simp only at h
  rw [bind_of_ok ho] at h
  have hnodup : (check.voteRequests.filter (· ∉ owners)).Nodup := (hc.nodup List.nodup_nil).filter _
  obtain ⟨votes, hv, hvl⟩ := insertVotes_apply block.id hnodup t (by
      intro v hvm
      have hno : ¬HasVote t.db block.id v := fun hh =>
        of_decide_eq_true (List.mem_filter.mp hvm).2 ((hov v).mpr hh)
      exact Option.not_isSome_iff_eq_none.mp hno)
  rw [bind_of_ok hv] at h
  have hinh : Inherited block t.db votes := by
    intro id v
    rw [hvl]
    have hiff : (id = block.id ∧ v ∈ check.voteRequests.filter (· ∉ owners)) ↔
        (id = block.id ∧ ¬HasVote t.db id v ∧ ∃ a ∈ block.ancestors, HasVote t.db a v) := by
      refine and_congr_right fun hid => ?_
      simp only [List.mem_filter, decide_eq_true_eq, hov, hc.voters, List.not_mem_nil, false_or, hid]
      exact and_comm
    simp only [hiff]
  have hcs : check.state = .leaf ∨ check.state = .invalid := hc.state
  obtain ⟨b, t₂, hp, hf⟩ := bind_eq_ok.mp h
  rcases hcs with hcs | hcs
  · have hgood := (hc.leaf.mp hcs).2
    rw [if_pos (.inl hcs)] at hp
    have hrec := logRecords_processRecords hp
    have hst : ∀ x, stateOf t₂.db x = stateOf t.db x := fun x => by rw [stateOf, hrec]; rfl
    cases b with
    | true =>
      have hleaf : RecordState.leaf = .leaf → ∀ x, x ∈ check.removeLeaf ↔
          x ∈ block.ancestors ∧ stateOf t₂.db x = some .leaf :=
        fun _ x => by rw [hc.removeLeaf hcs, hst]; simp
      obtain ⟨rows, hd, he'⟩ := writeVerdict_apply check.removeLeaf .leaf hleaf
      rw [if_pos rfl, hcs, he'] at hf
      cases hf
      exact .applied hgood hinh hp (hd.congr hrec)
    | false =>
      have hleaf : RecordState.invalid = .leaf → ∀ x, x ∈ check.removeLeaf ↔
          x ∈ block.ancestors ∧ stateOf t₂.db x = some .leaf := fun h => by cases h
      obtain ⟨rows, hd, he'⟩ := writeVerdict_apply check.removeLeaf .invalid hleaf
      rw [if_neg Bool.false_ne_true, he'] at hf
      cases hf
      exact .refused hgood hinh hp (hd.congr hrec)
  · have hbad : ¬∀ a ∈ block.ancestors, GoodAncestor t.db block a := fun hg => by
      have := hc.leaf.mpr ⟨rfl, hg⟩
      rw [hcs] at this
      cases this
    rw [if_neg (by rw [hcs]; decide)] at hp
    cases hp
    have hleaf : RecordState.invalid = .leaf → ∀ x, x ∈ check.removeLeaf ↔ x ∈ block.ancestors ∧
        stateOf ({ t with db := { t.db with voteRequests := votes } } : DatabaseTransaction).db x =
          some .leaf := fun h => by cases h
    obtain ⟨rows, hd, he'⟩ := writeVerdict_apply check.removeLeaf .invalid hleaf
    rw [if_pos rfl, hcs, he'] at hf
    cases hf
    exact .rejected hbad hinh (hd.congr rfl)

end Vds.LogSync
