import Vds.LogSync.DagSteps
import Vds.LogSync.StateExchange

/-! When two logs have nothing to say to each other: their leaves are the same unless a leaf of one is
stuck in the other, and below the same leaves lie the same blocks. -/

namespace Vds.LogSync

open StateError

variable {sp : ServiceProvider} {crypto : Crypto} {db db' : Database}

/-! ### Numbers rise from ancestors to followers -/

/-- The applied blocks come after their ancestors. -/
def Ordered (crypto : Crypto) (db : Database) : Prop :=
  ∀ d block, Applied db d → Stored crypto db d block →
    ∀ a ∈ block.ancestors, ∃ row, db.logRecords.lookup a = some row ∧ InOrder block row

theorem InOrder.of_core {block : TransactionBlock} {row row' : LogRecord} (h : InOrder block row)
    (hc : row'.core = row.core) : InOrder block row' := by
  simp only [LogRecord.core, Prod.mk.injEq] at hc
  unfold InOrder
  rw [hc.2.1, hc.2.2]
  exact h

theorem Step.core {c c' : Config} (h : Step sp c c') {x : ConstDataBuffer} {row : LogRecord}
    (hr : c.t.db.logRecords.lookup x = some row) :
    ∃ row', c'.t.db.logRecords.lookup x = some row' ∧ row'.core = row.core := by
  rcases h.blocks with hb | ⟨_, block, -, inserted⟩
  · exact lookup_of_blocksOf hb hr
  · have hx : x ≠ block.id := by
      rintro rfl
      cases (not_stored_of_insertBlock inserted).symm.trans hr
    exact ⟨row, by rw [lookup_of_insertBlock inserted, if_neg hx, hr], rfl⟩

theorem Judged.inOrder {block : TransactionBlock} {t t' : DatabaseTransaction}
    (hj : Judged sp block t .leaf t') :
    ∀ a ∈ block.ancestors, ∃ row, t'.db.logRecords.lookup a = some row ∧ InOrder block row := by
  intro a ha
  have hb := hj.blocksOf
  cases hj with
  | applied good votes_eq records rows_eq =>
    obtain ⟨row, hr, ho, -⟩ := good a ha
    obtain ⟨row', hr', hc⟩ := lookup_of_blocksOf hb hr
    exact ⟨row', hr', ho.of_core hc⟩

theorem Ordered.step {c c' : Config} (h : Ordered sp.crypto c.t.db) (hs : Step sp c c')
    (hsh : c.Shown sp.crypto) : Ordered sp.crypto c'.t.db := by
  intro d block ha hst a hmem
  rcases hs.applied hsh.wellFormed hsh.shown ha with ha | ⟨hj⟩
  · obtain ⟨b, hb⟩ : ∃ b, Stored sp.crypto c.t.db d b := by
      rcases ha with ha | ha
      · exact hsh.wellFormed.stored_of_state ha
      · exact hsh.wellFormed.stored_of_state ha
    obtain ⟨data, hd, hcreate⟩ := stored_iff.mp hb
    obtain rfl := hst.unique (stored_iff.mpr ⟨data, hs.dataGrows d data hd, hcreate⟩)
    obtain ⟨row, hr, ho⟩ := h d block ha hb a hmem
    obtain ⟨row', hr', hc⟩ := hs.core hr
    exact ⟨row', hr', ho.of_core hc⟩
  · obtain ⟨t₀, rows, journal, b, ht, hb, rfl, hj⟩ := hj
    obtain rfl := hst.unique (hb.of_blocksOf hj.blocksOf)
    exact hj.inOrder a hmem

theorem Run.ordered {blocks : List ConstDataBuffer} {journal : List Event}
    (h : Run sp {} blocks journal db) : Ordered sp.crypto db := by
  obtain ⟨t, rfl, rfl, ps, pr, hs⟩ := h.steps
  have hall : AllGood (fun _ => True) t := fun _ _ => trivial
  have := hs.invariant (I := fun c => c.Shown sp.crypto ∧ Ordered sp.crypto c.t.db)
    ⟨Config.Shown.empty sp.crypto, fun d _ ha => absurd ha (by rintro (h | h) <;> cases h)⟩
    (fun _ _ _ hi hs => ⟨hi.1.step hs, hi.2.step hs hi.1⟩) hall
  exact this.2

/-- The number of a stored block. -/
def orderOf (db : Database) (id : ConstDataBuffer) : Nat :=
  ((db.logRecords.lookup id).elim 0 fun row => row.orderNo.toUInt64.toNat)

theorem orderOf_lt (db : Database) (id : ConstDataBuffer) : orderOf db id < 2 ^ 64 := by
  unfold orderOf
  cases db.logRecords.lookup id with
  | none => exact Nat.two_pow_pos 64
  | some row => exact row.orderNo.toUInt64.toNat_lt

theorem Ordered.lt (h : Ordered crypto db) (hw : WellFormed crypto db) {a d : ConstDataBuffer}
    (hd : Applied db d) (he : IsAncestor crypto db a d) : orderOf db a < orderOf db d := by
  obtain ⟨block, hst, ha⟩ := he
  obtain ⟨row, hr, ho, -⟩ := h d block hd hst a ha
  obtain ⟨rowd, hrd, hb⟩ := hst
  obtain ⟨b, hb', -, hord, -⟩ := hw.block d rowd hrd
  cases hb.symm.trans hb'
  have hlt := UInt64.lt_iff_toNat_lt.mp ho
  unfold orderOf
  rw [hr, hrd]
  change row.orderNo.toUInt64.toNat < rowd.orderNo.toUInt64.toNat
  rw [hord, UInt64.toUInt64_toInt64]
  exact hlt

/-! ### Below the leaves -/

/-- Every applied block is below a leaf. -/
theorem exists_leaf (h : FrontierOf crypto db) (ho : Ordered crypto db) (hw : WellFormed crypto db)
    {x : ConstDataBuffer} (hx : Applied db x) :
    ∃ l ∈ leafSet db, Relation.ReflTransGen (IsAncestor crypto db) x l := by
  obtain ⟨n, hn⟩ : ∃ n, 2 ^ 64 - orderOf db x = n := ⟨_, rfl⟩
  induction n using Nat.strong_induction_on generalizing x with
  | _ n ih =>
    rcases hx with hp | hl
    · obtain ⟨d, hd, he⟩ := h.covered x hp
      have hd : Applied db d := hd
      have hlt := ho.lt hw hd he
      have hmax := orderOf_lt db d
      obtain ⟨l, hl, hpath⟩ := ih (2 ^ 64 - orderOf db d) (by omega) hd rfl
      exact ⟨l, hl, hpath.head he⟩
    · exact ⟨x, hl, .refl⟩

/-- No two blocks have one id. -/
def SameData (db db' : Database) : Prop :=
  ∀ id data data', dataOf db id = some data → dataOf db' id = some data' → data = data'

theorem SameData.symm (h : SameData db db') : SameData db' db :=
  fun id data data' hd hd' => (h id data' data hd' hd).symm

theorem SameData.isAncestor (h : SameData db db') {a d : ConstDataBuffer}
    (he : IsAncestor crypto db a d) (hs : ∃ s, stateOf db' d = some s) : IsAncestor crypto db' a d := by
  obtain ⟨block, hst, ha⟩ := he
  obtain ⟨data, hdata, hb⟩ := stored_iff.mp hst
  obtain ⟨s, hs⟩ := hs
  obtain ⟨row, hr, -⟩ := Option.map_eq_some_iff.mp hs
  have hdata' : dataOf db' d = some row.data := by rw [dataOf, hr, Option.map_some]
  rw [h d data row.data hdata hdata'] at hb
  exact ⟨block, stored_iff.mpr ⟨row.data, hdata', hb⟩, ha⟩

theorem applied_state {x : ConstDataBuffer} (h : Applied db x) : ∃ s, stateOf db x = some s := by
  rcases h with h | h
  · exact ⟨_, h⟩
  · exact ⟨_, h⟩

/-- What lies below an applied block of the other log is applied. -/
theorem SameData.applied (h : SameData db db') (hf : FrontierOf crypto db') {x l : ConstDataBuffer}
    (hp : Relation.ReflTransGen (IsAncestor crypto db) x l) (hl : Applied db' l) : Applied db' x := by
  induction hp using Relation.ReflTransGen.head_induction_on with
  | refl => exact hl
  | head he _ ih => exact .inl (hf.closed _ ih _ (h.isAncestor he (applied_state ih)))

/-! ### Silence -/

/-- The ids of the leaves. -/
def leafIds (db : Database) : List ConstDataBuffer :=
  (db.logRecords.select fun _ row => row.state = .leaf).map fun row => row.1

theorem mem_leafIds {p : ConstDataBuffer} : p ∈ leafIds db ↔ p ∈ leafSet db := by
  obtain ⟨leafs, he, hm⟩ := selectLeafs_apply { db }
  have hl : selectLeafs { db } = .ok (leafIds db) { db } := rfl
  rw [he] at hl
  cases hl
  exact hm p

def MissesNone (db : Database) : Bool :=
  match selectUnknown { db } with
  | .ok ids _ => ids.isEmpty
  | .error .. => false

theorem nothingMissing_of_missesNone (h : MissesNone db = true) : NothingMissing sp db := by
  obtain ⟨ids, he⟩ := selectUnknown_apply { db }
  simp only [MissesNone, he, List.isEmpty_iff] at h
  exact nothingMissing_iff.mpr (h ▸ he)

/-- The full list of leaves. -/
def IsLeafList (db : Database) (leafs : List ConstDataBuffer) : Prop :=
  ∃ t, selectLeafs { db } = .ok leafs t

/-- `sync_local_channels` sends it, unless it is empty. -/
theorem IsLeafList.syncLocalChannels {leafs : List ConstDataBuffer} (h : IsLeafList db leafs)
    (partnerId : ConstDataBuffer) : syncLocalChannels sp partnerId { db } =
      .ok (if leafs.isEmpty then [] else [stateTo sp partnerId leafs]) { db } := by
  obtain ⟨t, h⟩ := h
  obtain ⟨leafs', he, -⟩ := selectLeafs_apply { db }
  rw [he] at h
  cases h
  unfold LogSync.syncLocalChannels
  rw [bind_of_ok he]
  split_ifs <;> rfl

/-- The full list of leaves of the log `db'` of `sp'` makes the handler of `sp` send nothing. -/
def SilentTo (sp sp' : ServiceProvider) (db db' : Database) : Prop :=
  ∃ leafs t, IsLeafList db' leafs ∧
    applyState sp ⟨leafs, sp'.currentNodeId⟩ { db } = .ok (true, []) t

/-- The logs have the same leaves and the same applied blocks. -/
structure Agree (db db' : Database) : Prop where
  leafs : leafSet db = leafSet db'
  applied : ∀ x, Applied db x ↔ Applied db' x

/-- Some leaf of `db'` waits in `db`. -/
def IsStuck (db db' : Database) : Prop := ∃ p ∈ leafSet db', stateOf db p = some .validated

theorem IsLeafList.mem {leafs : List ConstDataBuffer} (h : IsLeafList db leafs) (p : ConstDataBuffer) :
    p ∈ leafs ↔ p ∈ leafSet db := by
  obtain ⟨t, h⟩ := h
  obtain ⟨leafs', he, hm⟩ := selectLeafs_apply { db }
  rw [he] at h
  cases h
  exact hm p

theorem exists_isLeafList (db : Database) : ∃ leafs, IsLeafList db leafs := by
  obtain ⟨leafs, he, -⟩ := selectLeafs_apply { db }
  exact ⟨leafs, _, he⟩

/-- The handler is silent if all leaves of the other log are stored, and one of them is stuck or the
own leaves are among them. -/
theorem silentTo_iff {sp sp' : ServiceProvider} (hm : NothingMissing sp db) :
    SilentTo sp sp' db db' ↔ (∀ p ∈ leafSet db', stateOf db p ≠ none) ∧
      (IsStuck db db' ∨ leafSet db ⊆ leafSet db') := by
  constructor
  · rintro ⟨leafs, t, hl, ha⟩
    obtain ⟨tasks, he, ha'⟩ := applyState_apply sp db ⟨leafs, sp'.currentNodeId⟩
    rw [he] at ha
    have htasks : tasks = [] := by
      cases ha
      rfl
    generalize hmsg : (⟨leafs, sp'.currentNodeId⟩ : TransactionLogState) = message at ha'
    have hleafs : message.leafs = leafs := by rw [← hmsg]
    cases ha' with
    | requests unknown some_id => exact absurd (List.map_eq_nil_iff.mp htasks) some_id
    | missing stored waits unknown =>
      rw [hleafs] at stored waits
      obtain ⟨p, hp, hv⟩ := waits
      exact ⟨fun q hq => stored q ((hl.mem q).mpr hq), .inl ⟨p, (hl.mem p).mp hp, hv⟩⟩
    | state known mem some_leaf => cases htasks
    | silent known mem =>
      rw [hleafs] at known mem
      refine ⟨fun q hq hn => ?_, .inr fun p hp => (hl.mem p).mp (mem p hp)⟩
      obtain ⟨s, hs, -⟩ := known q ((hl.mem q).mpr hq)
      cases hn.symm.trans hs
  · rintro ⟨hstored, hor⟩
    obtain ⟨leafs, hl⟩ := exists_isLeafList db'
    obtain ⟨tasks, he, ha⟩ := applyState_apply sp db ⟨leafs, sp'.currentNodeId⟩
    suffices htasks : tasks = [] from ⟨leafs, _, hl, htasks ▸ he⟩
    generalize hmsg : (⟨leafs, sp'.currentNodeId⟩ : TransactionLogState) = message at ha
    have hleafs : message.leafs = leafs := by rw [← hmsg]
    cases ha with
    | requests unknown some_id =>
      obtain ⟨p, hp, hn⟩ := unknown
      exact absurd hn (hstored p ((hl.mem p).mp (hleafs ▸ hp)))
    | missing stored waits unknown =>
      rw [nothingMissing_iff.mp hm] at unknown
      cases unknown
      rfl
    | state known mem some_leaf =>
      exfalso
      rcases hor with ⟨p, hp, hv⟩ | hsub
      · obtain ⟨s, hs, hne⟩ := known p (hleafs ▸ (hl.mem p).mpr hp)
        exact hne (Option.some.inj (hs.symm.trans hv))
      · obtain ⟨p, hp⟩ := List.exists_mem_of_ne_nil _ some_leaf
        obtain ⟨hp, hn⟩ := (mem p).mp hp
        exact hn (hleafs ▸ (hl.mem p).mpr (hsub hp))
    | silent known mem => rfl

/-- Blocks 3 and 4 follow 5 and 6, which follow 2. The one that is stored before 2 gets stuck. -/
def stuckBlocks (first last : ConstDataBuffer) : List ConstDataBuffer :=
  [sampleRoot, sampleBlock 5 3 (sampleNode 1) [sampleId 2] [],
    sampleBlock 6 3 (sampleNode 1) [sampleId 2] [], first,
    sampleBlock 2 2 (sampleNode 1) [sampleId 1] [], last]

def stuckBlock (b : UInt8) : ConstDataBuffer :=
  sampleBlock b 4 (sampleNode 1) [sampleId 5, sampleId 6] []

end Vds.LogSync
