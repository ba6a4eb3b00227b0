import Vds.LogSync.Conservation

/-! What the balances allow of a signed message that is copied into other blocks: nothing stops the
copy but the row that a payment draws on. -/

namespace Vds.LogSync

open Transactions StateError Ledger

variable {sp : ServiceProvider} {crypto : Crypto} {db : Database}

/-- The block is applied and contains the message. -/
def Carries (crypto : Crypto) (db : Database) (id : ConstDataBuffer) (m : Message) : Prop :=
  Applied db id ∧ ∃ data, dataOf db id = some data ∧ m ∈ messagesOf crypto data

instance (crypto : Crypto) (db : Database) (id : ConstDataBuffer) (m : Message) :
    Decidable (Carries crypto db id m) :=
  decidable_of_iff (Applied db id ∧ (dataOf db id).any fun data => m ∈ messagesOf crypto data)
    (and_congr_right fun _ => by simp [Option.any_eq_true])

/-- What the applied blocks have brought to a row. -/
def brought (crypto : Crypto) (db : Database) (k : BalanceKey) : Nat :=
  (credits (transfersOf crypto db) k).sum

theorem Carries.mem_transfersOf {id : ConstDataBuffer} {m : Message} {tr : Transfer BalanceKey}
    (h : Carries crypto db id m) (hm : transferOf id m = some tr) : tr ∈ transfersOf crypto db := by
  obtain ⟨ha, data, hd, hmem⟩ := h
  refine LogSync.mem_transfersOf.mpr ⟨id, ?_⟩
  rw [blockTransfers_eq hd, if_pos ha]
  exact mem_transfersIn.mpr ⟨m, hmem, hm⟩

/-- The copies of a payment together take no more than their row got. -/
theorem Ledgered.copies_le (h : Ledgered crypto db) (m : PaymentTransaction)
    {ids : Finset ConstDataBuffer} (hc : ∀ id ∈ ids, Carries crypto db id (.payment m)) :
    ids.card * m.value.toNat ≤ brought crypto db (sourceKey m) := by
  let copies : Multiset (Transfer BalanceKey) :=
    ids.val.map fun id => ⟨targetKey m id, m.value.toNat, some (sourceKey m)⟩
  have hnodup : copies.Nodup := by
    refine ids.nodup.map fun a b hab => ?_
    have hk := congrArg (fun tr : Transfer BalanceKey => tr.credit.sourceTransaction) hab
    exact hk
  have hle : copies ≤ (transfersOf crypto db).filter fun tr => tr.debit = some (sourceKey m) := by
    refine (Multiset.le_iff_subset hnodup).mpr fun tr ht => ?_
    obtain ⟨id, hid, rfl⟩ := Multiset.mem_map.mp ht
    exact Multiset.mem_filter.mpr ⟨(hc id hid).mem_transfersOf rfl, rfl⟩
  have hsum : (copies.map (·.value)).sum = ids.card * m.value.toNat := by
    rw [Multiset.map_map]
    simp
  obtain ⟨others, hothers⟩ := Multiset.le_iff_exists_add.mp hle
  have hdeb : ids.card * m.value.toNat ≤ debited (transfersOf crypto db) (sourceKey m) := by
    unfold debited
    rw [hothers, Multiset.map_add, Multiset.sum_add, hsum]
    exact Nat.le_add_right ..
  exact hdeb.trans (h.balanced.debited_le h.backed)

/-- No applied block contains a payment or an asset issue twice. -/
theorem Ledgered.count_le_one (h : Ledgered crypto db) {id data : ConstDataBuffer}
    (ha : Applied db id) (hd : dataOf db id = some data) {m : Message} (hm : isMoney m = true) :
    (messagesOf crypto data).count m ≤ 1 := by
  obtain ⟨tr, htr⟩ : ∃ tr, transferOf id m = some tr := by
    cases m with
    | payment | assetIssue => exact ⟨_, rfl⟩
    | channelMessage | createUser | nodeAdd | createWallet | storeBlock | hostBlock => cases hm
  have hin : transfersIn id (messagesOf crypto data) ≤ transfersOf crypto db := by
    have hb : blockTransfers crypto db id = transfersIn id (messagesOf crypto data) := by
      rw [blockTransfers_eq hd, if_pos ha]
    rw [← hb]
    obtain ⟨row, hr, -⟩ := Option.map_eq_some_iff.mp hd
    unfold blockTransfers transfersOf
    rw [hr, Table.total_erase hr]
    exact Multiset.le_add_right ..
  have hcopies : (messagesOf crypto data).count m ≤
      (credits (transfersIn id (messagesOf crypto data)) tr.credit).card := by
    induction messagesOf crypto data with
    | nil => exact Nat.zero_le _
    | cons m' ms ih =>
      rw [List.count_cons]
      by_cases he : m' = m
      · subst he
        rw [transfersIn_cons_of_some htr]
        obtain ⟨c, v, d⟩ := tr
        rw [credits_cons, if_pos rfl, Multiset.card_cons]
        simpa using ih
      · rw [if_neg (by simpa using he), Nat.add_zero]
        refine ih.trans (Multiset.card_le_card (Multiset.map_le_map (Multiset.filter_le_filter _ ?_)))
        cases ht : transferOf id m' with
        | none => rw [transfersIn_cons_of_none ht]
        | some tr' =>
          rw [transfersIn_cons_of_some ht]
          exact Multiset.le_cons_self _ _
  refine hcopies.trans ?_
  refine (Multiset.card_le_card (Multiset.map_le_map (Multiset.filter_le_filter _ hin))).trans ?_
  change (credits (transfersOf crypto db) tr.credit).card ≤ 1
  cases hr : db.balances.lookup tr.credit with
  | none => rw [h.balanced.absent _ hr]; exact Nat.zero_le _
  | some row => rw [h.balanced.present _ row hr, Multiset.card_singleton]

/-- What the balances allow of copied messages. -/
structure ReplayBounded (crypto : Crypto) (db : Database) : Prop where
  payments : ∀ (m : PaymentTransaction) (ids : Finset ConstDataBuffer),
    (∀ id ∈ ids, Carries crypto db id (.payment m)) →
    ids.card * m.value.toNat ≤ brought crypto db (sourceKey m)
  /-- A payment of more than half of its row takes effect once. -/
  once : ∀ m id id', Carries crypto db id (.payment m) → Carries crypto db id' (.payment m) →
    brought crypto db (sourceKey m) < 2 * m.value.toNat → id = id'
  within : ∀ id data m, Applied db id → dataOf db id = some data → isMoney m = true →
    (messagesOf crypto data).count m ≤ 1

theorem Ledgered.replayBounded (h : Ledgered crypto db) : ReplayBounded crypto db where
  payments m _ hc := h.copies_le m hc
  once m id id' hc hc' hlt := by
    by_contra hne
    have hboth : ∀ x ∈ ({id, id'} : Finset ConstDataBuffer), Carries crypto db x (.payment m) := by
      intro x hx
      rcases Finset.mem_insert.mp hx with rfl | hx
      · exact hc
      · exact Finset.mem_singleton.mp hx ▸ hc'
    have hle := h.copies_le m hboth
    rw [Finset.card_pair hne] at hle
    omega
  within _ _ _ ha hd hm := h.count_le_one ha hd hm

/-- Blocks 3 and 4 are copies of one payment and one asset issue. -/
def replayedBlocks : List ConstDataBuffer :=
  [sampleRoot, sampleBlock 2 2 (sampleNode 1) [sampleId 1] [sampleIssue 10],
    sampleBlock 3 3 (sampleNode 1) [sampleId 2] [sampleIssue 10, samplePayment 2 60 5],
    sampleBlock 4 4 (sampleNode 1) [sampleId 3] [sampleIssue 10, samplePayment 2 60 5]]

end Vds.LogSync
