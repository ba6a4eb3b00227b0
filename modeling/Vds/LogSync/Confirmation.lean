import Vds.LogSync.Conservation

/-! Confirmation moves the confirmed balances along: `consensus_records` runs once for each block, after
its ancestors, and does not fail when the payments of the block draw on what is confirmed. -/

namespace Vds.LogSync

open Transactions StateError Dbo Ledger

variable {sp : ServiceProvider} {crypto : Crypto} {block : TransactionBlock}

/-! ### Confirmed balances -/

/-- What is confirmed stays with the rows that stay, and new rows have nothing confirmed. -/
def CarriesOver (rows rows' : Table BalanceKey DatacoinBalance) : Prop :=
  ∀ k row', rows'.lookup k = some row' →
    (∃ row, rows.lookup k = some row ∧ confirmed row = confirmed row') ∨
      rows.lookup k = none ∧ confirmed row' = 0

theorem CarriesOver.refl (rows : Table BalanceKey DatacoinBalance) : CarriesOver rows rows :=
  fun _ row' h => .inl ⟨row', h, rfl⟩

theorem CarriesOver.settled {rows rows' : Table BalanceKey DatacoinBalance}
    {T : Multiset (Transfer BalanceKey)} (h : CarriesOver rows rows') (hs : Settled confirmed rows T)
    (hc : Covered rows T) : Settled confirmed rows' T := by
  intro k row' hr
  rcases h k row' hr with ⟨row, hrow, he⟩ | ⟨hn, hz⟩
  · rw [← he]
    exact hs k row hrow
  · rw [hz, hc.credits_eq_zero hn, hc.debited_eq_zero hn]
    rfl

section Messages

variable {t t' : DatabaseTransaction} {m : Message}

/-- Applying a message keeps the rows. -/
theorem applyRecord_carries (h : applyRecord sp m block t = .ok true t') :
    CarriesOver t.db.balances t'.db.balances ∧
      ∀ k, t.db.balances.lookup k ≠ none → t'.db.balances.lookup k ≠ none := by
  cases hm : isMoney m with
  | false =>
    have hf : Frames (fun t : DatabaseTransaction => t.db.balances) (applyRecord sp m block) :=
      moves_applyRecord_others (by constructor <;> exact fun _ _ => rfl) hm block
    have heq : t'.db.balances = t.db.balances := hf.ok h
    rw [heq]
    exact ⟨CarriesOver.refl _, fun _ h => h⟩
  | true =>
    cases m with
    | payment m =>
      obtain ⟨-, row, hs, -, hn, rfl⟩ := (applyPayment_eq_ok h).resolve_left fun h => nomatch h.1
      constructor
      · intro k row' hr
        simp only [pay, Table.lookup_insert_eq, Table.lookup_update_eq] at hr
        split_ifs at hr with hk hk'
        · subst hk
          cases hr
          exact .inr ⟨hn, rfl⟩
        · obtain ⟨row, hrow, rfl⟩ := Option.map_eq_some_iff.mp hr
          exact .inl ⟨row, hrow, rfl⟩
        · exact .inl ⟨row', hr, rfl⟩
      · intro k hk
        simp only [pay, Table.lookup_insert_eq, Table.lookup_update_eq]
        split_ifs
        · exact Option.some_ne_none _
        · exact fun h => hk (Option.map_eq_none_iff.mp h)
        · exact hk
    | assetIssue m =>
      obtain ⟨-, hn, rfl⟩ := (applyAssetIssue_eq_ok h).resolve_left fun h => nomatch h.1
      constructor
      · intro k row' hr
        simp only [issue, Table.lookup_insert_eq] at hr
        split_ifs at hr with hk
        · subst hk
          cases hr
          exact .inr ⟨hn, rfl⟩
        · exact .inl ⟨row', hr, rfl⟩
      · intro k hk
        simp only [issue, Table.lookup_insert_eq]
        split_ifs
        · exact Option.some_ne_none _
        · exact hk
    | channelMessage | createUser | nodeAdd | createWallet | storeBlock | hostBlock => cases hm

theorem AppliesTo.carries {ms : List Message} (h : AppliesTo sp block ms t t') :
    CarriesOver t.db.balances t'.db.balances := by
  induction ms generalizing t with
  | nil =>
    cases h
    exact CarriesOver.refl _
  | cons m ms ih =>
    obtain ⟨t₁, hm, h⟩ := h
    obtain ⟨hc, hkeep⟩ := applyRecord_carries hm
    intro k row' hr
    rcases ih h k row' hr with ⟨row₁, hrow₁, he⟩ | ⟨hn, hz⟩
    · rw [← he]
      exact hc k row₁ hrow₁
    · exact .inr ⟨by_contra fun hk => hkeep k hk hn, hz⟩

/-- Undoing a message makes no rows. -/
theorem undoRecord_carries {u : Unit} (h : undoRecord sp m block t = .ok u t') (k : BalanceKey)
    {row' : DatacoinBalance} (hr : t'.db.balances.lookup k = some row') :
    ∃ row, t.db.balances.lookup k = some row ∧ confirmed row = confirmed row' := by
  cases hm : isMoney m with
  | false =>
    have hf : Frames (fun t : DatabaseTransaction => t.db.balances) (undoRecord sp m block) :=
      moves_undoRecord_others (by constructor <;> exact fun _ _ => rfl) hm block
    have heq : t'.db.balances = t.db.balances := hf.ok h
    exact ⟨row', by rwa [heq] at hr, rfl⟩
  | true =>
    cases m with
    | payment m =>
      simp only [undoRecord, undoPayment, find_bind, Orm.datacoinBalance_rows] at h
      cases hs : t.db.balances.lookup (sourceKey m) with
      | none =>
        simp only [hs] at h
        cases h
      | some row =>
        simp only [hs] at h
        cases h
        simp only [Orm.datacoinBalance_rows, Orm.datacoinBalance_write, Table.lookup_erase_eq,
          Table.lookup_update_eq] at hr
        split_ifs at hr
        · obtain ⟨row, hrow, rfl⟩ := Option.map_eq_some_iff.mp hr
          exact ⟨row, hrow, rfl⟩
        · exact ⟨row', hr, rfl⟩
    | assetIssue m =>
      cases h
      simp only [Orm.datacoinBalance_rows, Orm.datacoinBalance_write, Table.lookup_erase_eq] at hr
      split_ifs at hr
      exact ⟨row', hr, rfl⟩
    | channelMessage | createUser | nodeAdd | createWallet | storeBlock | hostBlock => cases hm

theorem undoAll_carries {ms : List Message} {u : Unit} (h : undoAll sp block ms t = .ok u t')
    (k : BalanceKey) {row' : DatacoinBalance} (hr : t'.db.balances.lookup k = some row') :
    ∃ row, t.db.balances.lookup k = some row ∧ confirmed row = confirmed row' := by
  refine forM_induct (I := fun _ s => ∀ row', s.db.balances.lookup k = some row' →
    ∃ row, t.db.balances.lookup k = some row ∧ confirmed row = confirmed row') h
    (fun row' hr => ⟨row', hr, rfl⟩) ?_ row' hr
  intro m ms s s' hI hm row' hr
  obtain ⟨row, hrow, he⟩ := undoRecord_carries hm k hr
  obtain ⟨row₀, hrow₀, he₀⟩ := hI row hrow
  exact ⟨row₀, hrow₀, he₀.trans he⟩

theorem Judged.carries {s : RecordState} (hj : Judged sp block t s t') :
    CarriesOver t.db.balances t'.db.balances := by
  cases hj with
  | applied good votes_eq records rows_eq =>
    obtain ⟨ms, -, happ⟩ := processRecords_eq_ok_true.mp records
    have := happ.carries
    exact this
  | refused good votes_eq records rows_eq =>
    obtain ⟨ms, t₁, happ, hundo⟩ := processRecords_eq_ok_false records
    intro k row' hr
    obtain ⟨row, hrow, he⟩ := undoAll_carries hundo k hr
    rw [← he]
    exact happ.carries k row hrow
  | rejected bad votes_eq rows_eq => exact CarriesOver.refl _

/-! ### `consensus_record` -/

/-- What of a message of the block `id` is settled by the messages before it and by confirmed blocks. -/
def Confirmable (crypto : Crypto) (db : Database) (id : ConstDataBuffer) (before : List Message) :
    Message → Prop
  | .payment m => m.value = 0 ∨ (consensusOf db m.sourceTransaction = true ∧ m.sourceTransaction ≠ id) ∨
    credits (transfersIn id before) (sourceKey m) ≠ 0
  | .assetIssue m => debited (transfersOf crypto db) (assetKey m id) = 0
  | .channelMessage _ | .createUser _ | .nodeAdd _ | .createWallet _ | .storeBlock _
  | .hostBlock _ => True

variable {S T : Multiset (Transfer BalanceKey)}

theorem consensusRecord_settled (hb : Balanced proposed t.db.balances T)
    (hs : Settled confirmed t.db.balances S) {ms : List Message}
    (hle : transfersIn block.id (m :: ms) + S ≤ T) {u : Unit}
    (h : consensusRecord m block t = .ok u t') :
    Settled confirmed t'.db.balances (transfersIn block.id [m] + S) := by
  have hone : ∀ {tr}, transferOf block.id m = some tr → tr ::ₘ S ≤ T := by
    intro tr htr
    rw [transfersIn_cons_of_some htr, Multiset.cons_add] at hle
    refine le_trans ?_ hle
    exact Multiset.cons_le_cons tr (Multiset.le_add_left ..)
  cases m with
  | payment m =>
    have hle₁ := @hone ⟨targetKey m block.id, m.value.toNat, some (sourceKey m)⟩ rfl
    obtain ⟨row, target, hrow, hv, ht, rfl⟩ := consensusPayment_eq_ok.mp h
    rw [transfersIn_cons_of_some rfl, transfersIn_nil, Multiset.cons_add, zero_add]
    have hw : confirmed { row with
        confirmedBalance := (row.confirmedBalance.toUInt64 - m.value).toInt64 } + m.value.toNat =
          confirmed row := by
      unfold confirmed
      rw [toNat_toUInt64_toInt64, UInt64.toNat_sub_of_le _ _ hv]
      exact Nat.sub_add_cancel (UInt64.le_iff_toNat_le.mp hv)
    refine hs.pay hrow hw ht ?_
    -- nothing has come to the new row yet
    have hz := hb.credits_eq_zero hle₁
    have htarget : confirmed target + m.value.toNat < 2 ^ 64 := by
      rw [withdraw, Table.lookup_update_eq] at ht
      split_ifs at ht with hk
      · rw [hk, hrow] at ht
        cases ht
        rw [hw]
        exact UInt64.toNat_lt _
      · have := hs _ target ht
        rw [hz, Multiset.sum_zero] at this
        have := m.value.toNat_lt
        omega
    unfold confirmed at htarget ⊢
    rw [toNat_toUInt64_toInt64, UInt64.toNat_add, Nat.mod_eq_of_lt htarget]
  | assetIssue m =>
    obtain ⟨row, hrow, -, hz, rfl⟩ := consensusAssetIssue_eq_ok.mp h
    rw [transfersIn_cons_of_some rfl, transfersIn_nil, Multiset.cons_add, zero_add]
    refine hs.issue hrow ?_
    unfold confirmed
    rw [toNat_toUInt64_toInt64, hz]
    exact (Nat.zero_add _).symm
  | channelMessage | createUser | nodeAdd | createWallet | storeBlock | hostBlock =>
    cases h
    rw [transfersIn_cons_of_none rfl, transfersIn_nil, zero_add]
    exact hs

/-- `consensus_record` does not fail on what is settled. -/
theorem consensusRecord_ok (hb : Balanced proposed t.db.balances T) (hback : Backed T)
    (hs : Settled confirmed t.db.balances S) {ms : List Message}
    (hle : transfersIn block.id (m :: ms) + S ≤ T)
    (hpay : ∀ p, m = .payment p → p.value = 0 ∨ credits S (sourceKey p) ≠ 0)
    (hissue : ∀ a, m = .assetIssue a → debited T (assetKey a block.id) = 0) :
    ∃ t', consensusRecord m block t = .ok () t' := by
  have hcov := hb.covered hback
  have hone : ∀ {tr}, transferOf block.id m = some tr → tr ::ₘ S ≤ T := by
    intro tr htr
    rw [transfersIn_cons_of_some htr, Multiset.cons_add] at hle
    refine le_trans ?_ hle
    exact Multiset.cons_le_cons tr (Multiset.le_add_left ..)
  cases m with
  | payment m =>
    have hle₁ := @hone ⟨targetKey m block.id, m.value.toNat, some (sourceKey m)⟩ rfl
    have hin := Multiset.mem_of_le hle₁ (Multiset.mem_cons_self _ S)
    obtain ⟨row, hrow⟩ := hcov.debit _ hin _ rfl
    obtain ⟨target, htarget⟩ := hcov.credit _ hin
    have hv : m.value ≤ row.confirmedBalance.toUInt64 := by
      rw [UInt64.le_iff_toNat_le]
      rcases hpay m rfl with hz | hc
      · rw [hz]
        exact Nat.zero_le _
      · exact hb.le_of_settled hs hle₁ hrow hc
    have hlook : ∃ row', (withdraw (sourceKey m) row.confirmedBalance m.value t.db.balances).lookup
        (targetKey m block.id) = some row' := by
      rw [withdraw, Table.lookup_update_eq, htarget]
      split_ifs
      · exact ⟨_, rfl⟩
      · exact ⟨_, rfl⟩
    obtain ⟨row', hrow'⟩ := hlook
    exact ⟨_, consensusPayment_eq_ok.mpr ⟨row, row', hrow, hv, hrow', rfl⟩⟩
  | assetIssue m =>
    have hle₁ := @hone ⟨assetKey m block.id, m.value.toNat, none⟩ rfl
    have hin := Multiset.mem_of_le hle₁ (Multiset.mem_cons_self _ S)
    obtain ⟨row, hrow⟩ := hcov.credit _ hin
    have hc := hb.present _ row hrow
    rw [hissue m rfl, Nat.add_zero] at hc
    have hval : m.value.toNat ∈ credits T (assetKey m block.id) :=
      Multiset.mem_map.mpr ⟨_, Multiset.mem_filter.mpr ⟨hin, rfl⟩, rfl⟩
    rw [hc, Multiset.mem_singleton] at hval
    have hset := hs _ row hrow
    rw [hb.credits_eq_zero hle₁, Multiset.sum_zero] at hset
    refine ⟨_, consensusAssetIssue_eq_ok.mpr ⟨row, hrow, ?_, ?_, rfl⟩⟩
    · exact UInt64.toNat_inj.mp hval.symm
    · have hz : row.confirmedBalance.toUInt64.toNat = 0 := by
        unfold confirmed at hset
        omega
      have hu : row.confirmedBalance.toUInt64 = 0 := UInt64.toNat_inj.mp hz
      rw [← Int64.toInt64_toUInt64 row.confirmedBalance, hu]
      rfl
  | channelMessage | createUser | nodeAdd | createWallet | storeBlock | hostBlock => exact ⟨t, rfl⟩

end Messages

end Vds.LogSync
