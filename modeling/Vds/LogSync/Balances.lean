import Vds.Library.Ledger
import Vds.LogSync.Effects

/-! The balances as a ledger: what the messages of the applied blocks have brought to each row and
drawn from it. -/

namespace Vds.LogSync

open Transactions StateError Dbo Ledger

variable {sp : ServiceProvider} {crypto : Crypto} {block : TransactionBlock}

/-! ### Transfers -/

/-- The transfer that a message of the block `id` makes. -/
def transferOf (id : ConstDataBuffer) : Message → Option (Transfer BalanceKey)
  | .payment m => some ⟨targetKey m id, m.value.toNat, some (sourceKey m)⟩
  | .assetIssue m => some ⟨assetKey m id, m.value.toNat, none⟩
  | .channelMessage _ | .createUser _ | .nodeAdd _ | .createWallet _ | .storeBlock _
  | .hostBlock _ => none

def transfersIn (id : ConstDataBuffer) (ms : List Message) : Multiset (Transfer BalanceKey) :=
  (ms.filterMap (transferOf id) : List (Transfer BalanceKey))

/-- The messages of the block in `data`; none if it does not parse. -/
def messagesOf (crypto : Crypto) (data : ConstDataBuffer) : List Message :=
  ((TransactionBlock.create crypto data).bind fun block => block.messages crypto).toOption.getD []

/-- What is proposed to be in a row, as the unsigned number it is compared as. -/
def proposed (row : DatacoinBalance) : Nat := row.proposedBalance.toUInt64.toNat

/-- The transfers of the block, if it is applied. -/
def rowTransfers (crypto : Crypto) (id : ConstDataBuffer) (row : LogRecord) :
    Multiset (Transfer BalanceKey) :=
  if row.state.haveState then transfersIn id (messagesOf crypto row.data) else 0

/-- The transfers of all applied blocks. -/
def transfersOf (crypto : Crypto) (db : Database) : Multiset (Transfer BalanceKey) :=
  db.logRecords.total (rowTransfers crypto)

def blockTransfers (crypto : Crypto) (db : Database) (id : ConstDataBuffer) :
    Multiset (Transfer BalanceKey) :=
  (db.logRecords.lookup id).elim 0 (rowTransfers crypto id)

@[simp] theorem transfersIn_nil (id : ConstDataBuffer) : transfersIn id [] = 0 := rfl

theorem transfersIn_cons_of_none {id : ConstDataBuffer} {m : Message} {ms : List Message}
    (h : transferOf id m = none) : transfersIn id (m :: ms) = transfersIn id ms := by
  unfold transfersIn
  rw [List.filterMap_cons_none h]

theorem transfersIn_cons_of_some {id : ConstDataBuffer} {m : Message} {ms : List Message}
    {tr : Transfer BalanceKey} (h : transferOf id m = some tr) :
    transfersIn id (m :: ms) = tr ::ₘ transfersIn id ms := by
  unfold transfersIn
  rw [List.filterMap_cons_some h]
  rfl

theorem mem_transfersIn {id : ConstDataBuffer} {ms : List Message} {tr : Transfer BalanceKey} :
    tr ∈ transfersIn id ms ↔ ∃ m ∈ ms, transferOf id m = some tr := by
  unfold transfersIn
  rw [Multiset.mem_coe, List.mem_filterMap]

theorem transfersIn_reverse (id : ConstDataBuffer) (ms : List Message) :
    transfersIn id ms.reverse = transfersIn id ms :=
  Multiset.coe_eq_coe.mpr (ms.reverse_perm.filterMap _)

/-- A transfer names its block in the row it makes. -/
theorem transferOf_credit {id : ConstDataBuffer} {m : Message} {tr : Transfer BalanceKey}
    (h : transferOf id m = some tr) : tr.credit.sourceTransaction = id := by
  cases m <;> cases h <;> rfl

theorem transferOf_value_lt {id : ConstDataBuffer} {m : Message} {tr : Transfer BalanceKey}
    (h : transferOf id m = some tr) : tr.value < 2 ^ 64 := by
  cases m with
  | payment m =>
    cases h
    exact m.value.toNat_lt
  | assetIssue m =>
    cases h
    exact m.value.toNat_lt
  | channelMessage | createUser | nodeAdd | createWallet | storeBlock | hostBlock => cases h

/-- A payment stays with its issuer and currency. -/
theorem transferOf_debit {id : ConstDataBuffer} {m : Message} {tr : Transfer BalanceKey}
    (h : transferOf id m = some tr) {k : BalanceKey} (hk : tr.debit = some k) :
    k.issuer = tr.credit.issuer ∧ k.currency = tr.credit.currency := by
  cases m <;> cases h <;> cases hk
  exact ⟨rfl, rfl⟩

/-! ### The transfers of the log -/

theorem transfersOf_congr {db db' : Database}
    (h : ∀ x, blockTransfers crypto db' x = blockTransfers crypto db x) :
    transfersOf crypto db' = transfersOf crypto db := Table.total_eq_total h

/-- The transfers when one block more is applied. -/
theorem transfersOf_add {db db' : Database} {id : ConstDataBuffer}
    (h : ∀ x, x ≠ id → blockTransfers crypto db' x = blockTransfers crypto db x)
    (hid : blockTransfers crypto db id = 0) :
    transfersOf crypto db' = blockTransfers crypto db' id + transfersOf crypto db := by
  have := Table.total_add_eq (f := rowTransfers crypto) (g := rowTransfers crypto) id h
  rw [show (db.logRecords.lookup id).elim 0 (rowTransfers crypto id) = 0 from hid, add_zero] at this
  exact this.trans (add_comm _ _)

theorem mem_transfersOf {db : Database} {tr : Transfer BalanceKey} :
    tr ∈ transfersOf crypto db ↔ ∃ id, tr ∈ blockTransfers crypto db id := by
  unfold transfersOf
  have hkeys : ∀ k v, db.logRecords.lookup k = some v → k ∈ db.logRecords.keys.toFinset := by
    intro k v hv
    rw [List.mem_toFinset, ← AList.mem_keys, ← AList.lookup_isSome, hv]
    rfl
  rw [Table.total_eq_sum _ _ hkeys, Multiset.mem_sum]
  constructor
  · rintro ⟨id, -, h⟩
    exact ⟨id, h⟩
  · rintro ⟨id, h⟩
    refine ⟨id, ?_, h⟩
    rw [List.mem_toFinset, ← AList.mem_keys, ← AList.lookup_isSome]
    unfold blockTransfers at h
    cases hr : db.logRecords.lookup id with
    | none =>
      rw [hr] at h
      cases Multiset.notMem_zero _ h
    | some row => rfl

theorem blockTransfers_eq {db : Database} {id data : ConstDataBuffer}
    (hd : dataOf db id = some data) : blockTransfers crypto db id =
      if Applied db id then transfersIn id (messagesOf crypto data) else 0 := by
  obtain ⟨row, hr, rfl⟩ := Option.map_eq_some_iff.mp hd
  have hiff : Applied db id ↔ row.state.haveState = true := by
    unfold Applied stateOf
    rw [hr, Option.map_some]
    cases hs : row.state <;> simp [RecordState.haveState]
  unfold blockTransfers rowTransfers
  rw [hr, Option.elim_some]
  simp only [hiff]

theorem blockTransfers_of_not_applied {db : Database} {id : ConstDataBuffer} (h : ¬Applied db id) :
    blockTransfers crypto db id = 0 := by
  cases hd : dataOf db id with
  | some data => rw [blockTransfers_eq hd, if_neg h]
  | none =>
    rw [dataOf, Option.map_eq_none_iff] at hd
    unfold blockTransfers
    rw [hd]
    rfl

theorem blockTransfers_congr {db db' : Database} {id : ConstDataBuffer}
    (hd : dataOf db' id = dataOf db id) (ha : Applied db' id ↔ Applied db id) :
    blockTransfers crypto db' id = blockTransfers crypto db id := by
  by_cases h : Applied db id
  · have hs : ∃ data, dataOf db id = some data := by
      unfold Applied stateOf at h
      cases hr : db.logRecords.lookup id with
      | none => simp [hr] at h
      | some row => exact ⟨row.data, by rw [dataOf, hr]; rfl⟩
    obtain ⟨data, hdata⟩ := hs
    rw [blockTransfers_eq hdata, blockTransfers_eq (hd.trans hdata), if_pos h, if_pos (ha.mpr h)]
  · rw [blockTransfers_of_not_applied h, blockTransfers_of_not_applied fun h' => h (ha.mp h')]

/-- A transfer of the log is one of the block that its row names. -/
theorem mem_transfersOf_iff {db : Database} {tr : Transfer BalanceKey} :
    tr ∈ transfersOf crypto db ↔ tr ∈ blockTransfers crypto db tr.credit.sourceTransaction := by
  rw [mem_transfersOf]
  refine ⟨?_, fun h => ⟨_, h⟩⟩
  rintro ⟨id, h⟩
  have hid : tr.credit.sourceTransaction = id := by
    unfold blockTransfers rowTransfers at h
    cases hr : db.logRecords.lookup id with
    | none =>
      rw [hr] at h
      cases Multiset.notMem_zero _ h
    | some row =>
      rw [hr, Option.elim_some] at h
      split_ifs at h
      · obtain ⟨m, -, hm⟩ := mem_transfersIn.mp h
        exact transferOf_credit hm
      · cases Multiset.notMem_zero _ h
  rwa [hid]

/-- A transfer of the log comes from a message of an applied block. -/
theorem exists_of_mem_transfersOf {db : Database} {tr : Transfer BalanceKey}
    (h : tr ∈ transfersOf crypto db) : Applied db tr.credit.sourceTransaction ∧
      ∃ data, dataOf db tr.credit.sourceTransaction = some data ∧
        ∃ m ∈ messagesOf crypto data, transferOf tr.credit.sourceTransaction m = some tr := by
  have hb := mem_transfersOf_iff.mp h
  have ha : Applied db tr.credit.sourceTransaction := by
    by_contra hn
    rw [blockTransfers_of_not_applied hn] at hb
    cases Multiset.notMem_zero _ hb
  cases hd : dataOf db tr.credit.sourceTransaction with
  | none =>
    rw [dataOf, Option.map_eq_none_iff] at hd
    unfold Applied stateOf at ha
    simp [hd] at ha
  | some data =>
    rw [blockTransfers_eq hd, if_pos ha] at hb
    exact ⟨ha, data, rfl, mem_transfersIn.mp hb⟩

theorem messagesOf_eq {data : ConstDataBuffer} {ms : List Message}
    (hb : TransactionBlock.create crypto data = .ok block) (hm : block.messages crypto = .ok ms) :
    messagesOf crypto data = ms := by
  unfold messagesOf
  rw [hb]
  change (block.messages crypto).toOption.getD [] = ms
  rw [hm]
  rfl

/-! ### Applying and undoing messages -/

theorem toNat_toUInt64_toInt64 (v : UInt64) : v.toInt64.toUInt64.toNat = v.toNat := by
  rw [UInt64.toUInt64_toInt64]

section Messages

variable {T : Multiset (Transfer BalanceKey)} {t t' : DatabaseTransaction} {m : Message}

/-- One message applied. -/
theorem applyRecord_balanced (h : Balanced proposed t.db.balances T) (hb : Backed T)
    (ha : applyRecord sp m block t = .ok true t') :
    transferOf block.id m = none ∧ Balanced proposed t'.db.balances T ∨
      ∃ tr, transferOf block.id m = some tr ∧ Balanced proposed t'.db.balances (tr ::ₘ T) ∧
        Backed (tr ::ₘ T) ∧ (tr.debit ≠ none → ∃ tr' ∈ T, tr.value ≤ tr'.value) := by
  cases hm : isMoney m with
  | false =>
    have hf : Frames (fun t : DatabaseTransaction => t.db.balances) (applyRecord sp m block) :=
      moves_applyRecord_others (by constructor <;> exact fun _ _ => rfl) hm block
    have heq : t'.db.balances = t.db.balances := hf.ok ha
    refine .inl ⟨?_, heq ▸ h⟩
    cases m with
    | payment | assetIssue => cases hm
    | channelMessage | createUser | nodeAdd | createWallet | storeBlock | hostBlock => rfl
  | true =>
    refine .inr ?_
    cases m with
    | payment m =>
      obtain ⟨-, row, hs, hv, hn, rfl⟩ := (applyPayment_eq_ok ha).resolve_left fun h => nomatch h.1
      have hvn : m.value.toNat ≤ proposed row := UInt64.le_iff_toNat_le.mp hv
      have hw := h.pay hb (g := fun r : DatacoinBalance =>
        { r with proposedBalance := (row.proposedBalance.toUInt64 - m.value).toInt64 })
        (w := ⟨0, m.value.toInt64⟩) hs hn (by
          unfold proposed
          rw [toNat_toUInt64_toInt64, toNat_toUInt64_toInt64, UInt64.toNat_sub_of_le _ _ hv]
          exact Nat.sub_add_cancel hvn)
      rw [show proposed ⟨0, m.value.toInt64⟩ = m.value.toNat from toNat_toUInt64_toInt64 _] at hw
      refine ⟨_, rfl, hw, hb.cons ?_, ?_⟩
      · rintro k ⟨⟩
        exact h.credits_ne_zero hs
      · intro _
        have hmem : proposed row + debited T (sourceKey m) ∈ credits T (sourceKey m) := by
          rw [h.present _ row hs]
          exact Multiset.mem_singleton_self _
        obtain ⟨tr', ht', he⟩ := Multiset.mem_map.mp hmem
        exact ⟨tr', Multiset.mem_of_mem_filter ht', he ▸ hvn.trans (Nat.le_add_right ..)⟩
    | assetIssue m =>
      obtain ⟨-, hn, rfl⟩ := (applyAssetIssue_eq_ok ha).resolve_left fun h => nomatch h.1
      have hw := h.issue hb hn (w := ⟨0, m.value.toInt64⟩)
      rw [show proposed ⟨0, m.value.toInt64⟩ = m.value.toNat from toNat_toUInt64_toInt64 _] at hw
      refine ⟨_, rfl, hw, hb.cons ?_, fun hd => absurd rfl hd⟩
      rintro k ⟨⟩
    | channelMessage | createUser | nodeAdd | createWallet | storeBlock | hostBlock => cases hm

/-- All the messages applied. Their values stay below `n` with those of the assets. -/
theorem AppliesTo.balanced {ms : List Message} (ha : AppliesTo sp block ms t t')
    (h : Balanced proposed t.db.balances T) (hb : Backed T) :
    Balanced proposed t'.db.balances (transfersIn block.id ms + T) ∧
      Backed (transfersIn block.id ms + T) ∧
      ∀ n, (∀ tr ∈ T, tr.value < n) →
        (∀ m ∈ ms, ∀ tr, transferOf block.id m = some tr → tr.debit = none → tr.value < n) →
        ∀ tr ∈ transfersIn block.id ms + T, tr.value < n := by
  induction ms generalizing t T with
  | nil =>
    cases ha
    rw [transfersIn_nil, zero_add]
    exact ⟨h, hb, fun _ hn _ => hn⟩
  | cons m ms ih =>
    obtain ⟨t₁, hm, ha⟩ := ha
    rcases applyRecord_balanced h hb hm with ⟨hnone, h₁⟩ | ⟨tr, hsome, h₁, hb₁, hle⟩
    · obtain ⟨h₂, hb₂, hn₂⟩ := ih ha h₁ hb
      rw [transfersIn_cons_of_none hnone]
      exact ⟨h₂, hb₂, fun n hn hms => hn₂ n hn fun m' hm' => hms m' (List.mem_cons_of_mem m hm')⟩
    · obtain ⟨h₂, hb₂, hn₂⟩ := ih ha h₁ hb₁
      rw [Multiset.add_cons, ← Multiset.cons_add, ← transfersIn_cons_of_some hsome] at h₂ hb₂ hn₂
      refine ⟨h₂, hb₂, fun n hn hms => hn₂ n (Multiset.forall_mem_cons.mpr ⟨?_, hn⟩)
        fun m' hm' => hms m' (List.mem_cons_of_mem m hm')⟩
      by_cases hd : tr.debit = none
      · exact hms m (List.mem_cons_self ..) tr hsome hd
      · obtain ⟨tr', ht', hv⟩ := hle hd
        exact lt_of_le_of_lt hv (hn tr' ht')

/-- One message undone. -/
theorem undoRecord_balanced {u : Unit} (hu : undoRecord sp m block t = .ok u t') :
    transferOf block.id m = none ∧ t'.db.balances = t.db.balances ∨
      ∃ tr, transferOf block.id m = some tr ∧ ((∀ tr' ∈ tr ::ₘ T, tr'.value < 2 ^ 64) →
        Balanced proposed t.db.balances (tr ::ₘ T) → Balanced proposed t'.db.balances T) := by
  cases hm : isMoney m with
  | false =>
    have hf : Frames (fun t : DatabaseTransaction => t.db.balances) (undoRecord sp m block) :=
      moves_undoRecord_others (by constructor <;> exact fun _ _ => rfl) hm block
    refine .inl ⟨?_, hf.ok hu⟩
    cases m with
    | payment | assetIssue => cases hm
    | channelMessage | createUser | nodeAdd | createWallet | storeBlock | hostBlock => rfl
  | true =>
    refine .inr ?_
    cases m with
    | payment m =>
      refine ⟨_, rfl, fun hlt h => ?_⟩
      simp only [undoRecord, undoPayment, find_bind, Orm.datacoinBalance_rows] at hu
      cases hs : t.db.balances.lookup (sourceKey m) with
      | none =>
        simp only [hs] at hu
        cases hu
      | some row =>
        simp only [hs] at hu
        cases hu
        refine h.unpay hs ?_
        rintro ⟨total, ht, hle⟩
        obtain ⟨tr', ht', rfl⟩ := Multiset.mem_map.mp ht
        have hbound := lt_of_le_of_lt hle (hlt tr' (Multiset.mem_of_mem_filter ht'))
        unfold proposed at hbound ⊢
        rw [toNat_toUInt64_toInt64, UInt64.toNat_add, Nat.mod_eq_of_lt hbound]
    | assetIssue m =>
      cases hu
      exact ⟨_, rfl, fun _ h => h.unissue⟩
    | channelMessage | createUser | nodeAdd | createWallet | storeBlock | hostBlock => cases hm

/-- The messages undone, one after the other. -/
theorem undoList_balanced {ms : List Message} {u : Unit}
    (hu : (ms.forM fun m => undoRecord sp m block) t = .ok u t') (hlt : ∀ tr ∈ T, tr.value < 2 ^ 64)
    (h : Balanced proposed t.db.balances (transfersIn block.id ms + T)) :
    Balanced proposed t'.db.balances T := by
  induction ms generalizing t with
  | nil =>
    cases hu
    rwa [transfersIn_nil, zero_add] at h
  | cons m ms ih =>
    obtain ⟨t₁, hm, hu⟩ := forM_cons_eq_ok.mp hu
    refine ih hu ?_
    rcases undoRecord_balanced (T := transfersIn block.id ms + T) hm with ⟨hnone, he⟩ | ⟨tr, hsome, hw⟩
    · rw [he]
      rwa [transfersIn_cons_of_none hnone] at h
    · rw [transfersIn_cons_of_some hsome, Multiset.cons_add] at h
      refine hw (Multiset.forall_mem_cons.mpr ⟨transferOf_value_lt hsome, fun tr' ht' => ?_⟩) h
      rcases Multiset.mem_add.mp ht' with ht' | ht'
      · obtain ⟨m', -, hm'⟩ := mem_transfersIn.mp ht'
        exact transferOf_value_lt hm'
      · exact hlt tr' ht'

theorem undoAll_balanced {ms : List Message} {u : Unit} (hu : undoAll sp block ms t = .ok u t')
    (hlt : ∀ tr ∈ T, tr.value < 2 ^ 64)
    (h : Balanced proposed t.db.balances (transfersIn block.id ms + T)) :
    Balanced proposed t'.db.balances T :=
  undoList_balanced hu hlt (by rwa [transfersIn_reverse])

/-! ### Confirming messages -/

/-- What is confirmed to be in a row, as the unsigned number it is compared as. -/
def confirmed (row : DatacoinBalance) : Nat := row.confirmedBalance.toUInt64.toNat

/-- The balances after `value` confirmed coins have left a row with `balance`. -/
def withdraw (source : BalanceKey) (balance : Int64) (value : UInt64)
    (balances : Table BalanceKey DatacoinBalance) : Table BalanceKey DatacoinBalance :=
  balances.update source fun row =>
    { row with confirmedBalance := (balance.toUInt64 - value).toInt64 }

/-- The balances after `value` confirmed coins have come to a row with `balance`. -/
def deposit (target : BalanceKey) (balance : Int64) (value : UInt64)
    (balances : Table BalanceKey DatacoinBalance) : Table BalanceKey DatacoinBalance :=
  balances.update target fun row =>
    { row with confirmedBalance := (balance.toUInt64 + value).toInt64 }

theorem consensusPayment_eq_ok {m : PaymentTransaction} {u : Unit} :
    consensusPayment m block t = .ok u t' ↔ ∃ row target,
      t.db.balances.lookup (sourceKey m) = some row ∧ m.value ≤ row.confirmedBalance.toUInt64 ∧
      (withdraw (sourceKey m) row.confirmedBalance m.value t.db.balances).lookup
        (targetKey m block.id) = some target ∧
      t' = { t with db := { t.db with
        balances := deposit (targetKey m block.id) target.confirmedBalance m.value
          (withdraw (sourceKey m) row.confirmedBalance m.value t.db.balances) } } := by
  simp only [consensusPayment, find_bind, Orm.datacoinBalance_rows]
  cases hs : t.db.balances.lookup (sourceKey m) with
  | none =>
    refine ⟨fun h => (by cases h), ?_⟩
    rintro ⟨_, _, ⟨⟩, _⟩
  | some row =>
    simp only
    by_cases hv : row.confirmedBalance.toUInt64 < m.value
    · rw [if_pos hv]
      refine ⟨fun h => (by cases h), ?_⟩
      rintro ⟨_, _, ⟨⟩, hle, -⟩
      exact absurd hle (UInt64.not_le.mpr hv)
    · rw [if_neg hv, update_bind, find_bind]
      simp only [Orm.datacoinBalance_rows, Orm.datacoinBalance_write]
      rw [show t.db.balances.update (sourceKey m) (fun r : DatacoinBalance => { r with
        confirmedBalance := (row.confirmedBalance.toUInt64 - m.value).toInt64 }) =
          withdraw (sourceKey m) row.confirmedBalance m.value t.db.balances from rfl]
      cases ht : (withdraw (sourceKey m) row.confirmedBalance m.value t.db.balances).lookup
        (targetKey m block.id) with
      | none =>
        refine ⟨fun h => (by cases h), ?_⟩
        rintro ⟨_, _, ⟨⟩, -, h, -⟩
        cases ht.symm.trans h
      | some target =>
        constructor
        · intro h
          cases h
          exact ⟨row, target, rfl, UInt64.not_lt.mp hv, ht, rfl⟩
        · rintro ⟨_, _, ⟨⟩, -, h, rfl⟩
          cases ht.symm.trans h
          rfl

theorem consensusAssetIssue_eq_ok {m : AssetIssueTransaction} {u : Unit} :
    consensusAssetIssue m block t = .ok u t' ↔ ∃ row,
      t.db.balances.lookup (assetKey m block.id) = some row ∧
      row.proposedBalance.toUInt64 = m.value ∧ row.confirmedBalance = 0 ∧
      t' = { t with db := { t.db with balances := t.db.balances.update (assetKey m block.id) fun _ =>
        { proposedBalance := m.value.toInt64, confirmedBalance := m.value.toInt64 } } } := by
  simp only [consensusAssetIssue, find_bind, Orm.datacoinBalance_rows]
  cases hs : t.db.balances.lookup (assetKey m block.id) with
  | none =>
    refine ⟨fun h => (by cases h), ?_⟩
    rintro ⟨_, ⟨⟩, _⟩
  | some row =>
    simp only
    by_cases hv : row.proposedBalance.toUInt64 ≠ m.value ∨ row.confirmedBalance ≠ 0
    · rw [if_pos hv]
      refine ⟨fun h => (by cases h), ?_⟩
      rintro ⟨_, ⟨⟩, hp, hc, -⟩
      exact hv.elim (absurd hp) (absurd hc)
    · rw [if_neg hv]
      obtain ⟨hp, hc⟩ := not_or.mp hv
      constructor
      · intro h
        cases h
        exact ⟨row, rfl, not_ne_iff.mp hp, not_ne_iff.mp hc, rfl⟩
      · rintro ⟨_, ⟨⟩, -, -, rfl⟩
        rfl

/-- Confirming a message does not move what is proposed. -/
theorem consensusRecord_proposed {u : Unit} (h : consensusRecord m block t = .ok u t')
    (k : BalanceKey) :
    (t'.db.balances.lookup k).map proposed = (t.db.balances.lookup k).map proposed := by
  cases m with
  | payment m =>
    obtain ⟨row, target, -, -, -, rfl⟩ := consensusPayment_eq_ok.mp h
    simp only [deposit, withdraw, Table.lookup_update_eq]
    split_ifs <;> simp only [Option.map_map] <;> rfl
  | assetIssue m =>
    obtain ⟨row, hs, hp, -, rfl⟩ := consensusAssetIssue_eq_ok.mp h
    simp only [Table.lookup_update_eq]
    split_ifs with hk
    · rw [hk, hs, Option.map_some, Option.map_some, Option.map_some]
      simp [proposed, hp]
    · rfl
  | channelMessage | createUser | nodeAdd | createWallet | storeBlock | hostBlock =>
    cases h
    rfl

theorem consensusRecords_proposed {u : Unit} (h : consensusRecords sp block t = .ok u t')
    (k : BalanceKey) :
    (t'.db.balances.lookup k).map proposed = (t.db.balances.lookup k).map proposed := by
  obtain ⟨ms, -, hms⟩ := consensusRecords_eq_ok.mp h
  refine forM_induct (I := fun _ s => (s.db.balances.lookup k).map proposed =
    (t.db.balances.lookup k).map proposed) hms rfl ?_
  intro m ms s s' hI hm
  exact (consensusRecord_proposed hm k).trans hI

end Messages

end Vds.LogSync
