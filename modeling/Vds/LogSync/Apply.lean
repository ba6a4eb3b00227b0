import Vds.LogSync.Frames

/-! Applying, confirming and undoing the messages of a block, as what it does message by
message. -/

namespace Vds.LogSync

open Transactions StateError Dbo

variable {sp : ServiceProvider} {block : TransactionBlock}

/-! ### One message -/

/-- The balances after a payment of `value` from a row with `balance` to a new one. -/
def pay (source target : BalanceKey) (balance : Int64) (value : UInt64)
    (balances : Table BalanceKey DatacoinBalance) : Table BalanceKey DatacoinBalance :=
  (balances.update source fun row =>
    { row with proposedBalance := (balance.toUInt64 - value).toInt64 }).insert target
      { proposedBalance := value.toInt64, confirmedBalance := 0 }

/-- The balances with a new row of `value`. -/
def issue (target : BalanceKey) (value : UInt64) (balances : Table BalanceKey DatacoinBalance) :
    Table BalanceKey DatacoinBalance :=
  balances.insert target { proposedBalance := value.toInt64, confirmedBalance := 0 }

theorem applyPayment_eq_ok {m : PaymentTransaction} {t t' : DatabaseTransaction} {b : Bool}
    (h : applyPayment sp m block t = .ok b t') :
    b = false ∧ t' = t ∨ b = true ∧ ∃ row, t.db.balances.lookup (sourceKey m) = some row ∧
      m.value ≤ row.proposedBalance.toUInt64 ∧ t.db.balances.lookup (targetKey m block.id) = none ∧
      t' = { t with db := { t.db with
        balances := pay (sourceKey m) (targetKey m block.id) row.proposedBalance m.value
          t.db.balances } } := by
  unfold applyPayment at h
  rw [find_bind] at h
  cases hw : t.db.wallets.lookup m.sourceWallet with
  | none =>
    simp only [Orm.wallet_rows, hw] at h
    cases h
    exact .inl ⟨rfl, rfl⟩
  | some publicKey =>
    simp only [Orm.wallet_rows, hw, getExpected_bind_eq_ok] at h
    obtain ⟨key, -, ok, -, h⟩ := h
    split_ifs at h
    · cases h
      exact .inl ⟨rfl, rfl⟩
    rw [find_bind] at h
    cases hs : t.db.balances.lookup (sourceKey m) with
    | none =>
      simp only [Orm.datacoinBalance_rows, hs] at h
      cases h
      exact .inl ⟨rfl, rfl⟩
    | some row =>
      simp only [Orm.datacoinBalance_rows, hs] at h
      split_ifs at h with hv
      · cases h
        exact .inl ⟨rfl, rfl⟩
      rw [update_bind, insert_bind_eq_ok] at h
      obtain ⟨hn, h⟩ := h
      cases h
      refine .inr ⟨rfl, row, rfl, UInt64.not_lt.mp hv, ?_, rfl⟩
      simp only [Orm.datacoinBalance_rows, Orm.datacoinBalance_write, Table.lookup_update_eq] at hn
      split_ifs at hn with heq
      · simpa using hn
      · exact hn

theorem applyAssetIssue_eq_ok {m : AssetIssueTransaction} {t t' : DatabaseTransaction} {b : Bool}
    (h : applyAssetIssue sp m block t = .ok b t') :
    b = false ∧ t' = t ∨ b = true ∧ t.db.balances.lookup (assetKey m block.id) = none ∧
      t' = { t with db := { t.db with
        balances := issue (assetKey m block.id) m.value t.db.balances } } := by
  unfold applyAssetIssue at h
  rw [find_bind] at h
  cases hu : t.db.memberUsers.lookup m.issuer with
  | none =>
    simp only [Orm.memberUser_rows, hu] at h
    cases h
    exact .inl ⟨rfl, rfl⟩
  | some publicKey =>
    simp only [Orm.memberUser_rows, hu, getExpected_bind_eq_ok] at h
    obtain ⟨key, -, ok, -, h⟩ := h
    split_ifs at h
    · cases h
      exact .inl ⟨rfl, rfl⟩
    rw [insert_bind_eq_ok] at h
    obtain ⟨hn, h⟩ := h
    cases h
    exact .inr ⟨rfl, hn, rfl⟩

theorem applyNodeAdd_eq_ok {m : NodeAddTransaction} {t t' : DatabaseTransaction} {b : Bool}
    (h : applyNodeAdd sp m block t = .ok b t') :
    b = true ∧ t.db.voteRequests.lookup (block.id, sp.crypto.fingerprint m.nodePublicKey) = none ∧
      ∃ nodeInfos, t' = { t with db := { t.db with
        nodeInfos := nodeInfos
        voteRequests := t.db.voteRequests.insert (block.id, sp.crypto.fingerprint m.nodePublicKey)
          { approved := false, newMember := true } } } := by
  unfold applyNodeAdd at h
  rw [find_bind] at h
  cases hu : t.db.nodeInfos.lookup (sp.crypto.fingerprint m.nodePublicKey) with
  | none =>
    simp only [Orm.nodeInfo_rows, hu, insert_bind_eq_ok] at h
    obtain ⟨-, hn, h⟩ := h
    cases h
    exact ⟨rfl, hn, _, rfl⟩
  | some row =>
    simp only [Orm.nodeInfo_rows, hu] at h
    split_ifs at h
    · rw [update_bind, insert_bind_eq_ok] at h
      obtain ⟨hn, h⟩ := h
      cases h
      exact ⟨rfl, hn, _, rfl⟩
    · rw [insert_bind_eq_ok] at h
      obtain ⟨hn, h⟩ := h
      cases h
      exact ⟨rfl, hn, _, rfl⟩

theorem applyRecord_others_eq_ok {m : Message} (hm : isMoney m = false) {t t' : DatabaseTransaction}
    {b : Bool} (h : applyRecord sp m block t = .ok b t') : b = true := by
  cases m with
  | payment m => cases hm
  | assetIssue m => cases hm
  | channelMessage m =>
    unfold applyRecord applyChannelMessage at h
    simp only at h
    split_ifs at h
    · cases h
    · simp only [bind_eq_ok] at h
      obtain ⟨_, _, -, _, _, -, _, _, -, h⟩ := h
      cases h
      rfl
  | createUser m =>
    obtain ⟨_, _, -, h⟩ := bind_eq_ok.mp h
    cases h
    rfl
  | nodeAdd m => exact (applyNodeAdd_eq_ok h).1
  | createWallet m =>
    obtain ⟨_, _, -, h⟩ := bind_eq_ok.mp h
    split_ifs at h
    · cases h
    · obtain ⟨_, _, -, h⟩ := bind_eq_ok.mp h
      cases h
      rfl
  | storeBlock m =>
    obtain ⟨_, _, -, h⟩ := bind_eq_ok.mp h
    cases h
    rfl
  | hostBlock m =>
    obtain ⟨_, _, -, h⟩ := bind_eq_ok.mp h
    cases h
    rfl

/-- A message that is refused has written nothing. -/
theorem applyRecord_eq_ok_false {m : Message} {t t' : DatabaseTransaction}
    (h : applyRecord sp m block t = .ok false t') : t' = t := by
  cases m with
  | payment m => exact (applyPayment_eq_ok h).elim And.right fun h => nomatch h.1
  | assetIssue m => exact (applyAssetIssue_eq_ok h).elim And.right fun h => nomatch h.1
  | channelMessage | createUser | nodeAdd | createWallet | storeBlock | hostBlock =>
    exact nomatch applyRecord_others_eq_ok rfl h

/-! ### All messages of a block -/

/-- All the messages can be applied one after the other. -/
def AppliesTo (sp : ServiceProvider) (block : TransactionBlock) :
    List Message → DatabaseTransaction → DatabaseTransaction → Prop
  | [], t, t' => t' = t
  | m :: ms, t, t' => ∃ t₁, applyRecord sp m block t = .ok true t₁ ∧ AppliesTo sp block ms t₁ t'

/-- The messages are undone, the last one first. -/
def undoAll (sp : ServiceProvider) (block : TransactionBlock) (ms : List Message) : LogM Unit :=
  ms.reverse.forM fun m => undoRecord sp m block

theorem applyVisitor_eq_ok {m : Message} {t : DatabaseTransaction} {us : List Message} {b : Bool}
    {p : DatabaseTransaction × List Message} :
    applyVisitor sp block m (t, us) = .ok b p ↔
      applyRecord sp m block t = .ok b p.1 ∧ p.2 = if b then m :: us else us := by
  unfold applyVisitor
  obtain ⟨t', us'⟩ := p
  simp only
  cases h : applyRecord sp m block t with
  | error e t₁ => simp
  | ok b' t₁ =>
    cases b' with
    | false =>
      constructor
      · intro h'
        cases h'
        exact ⟨rfl, rfl⟩
      · rintro ⟨h', rfl⟩
        cases h'
        rfl
    | true =>
      constructor
      · intro h'
        cases h'
        exact ⟨rfl, rfl⟩
      · rintro ⟨h', rfl⟩
        cases h'
        rfl

theorem visitAll_applyVisitor {ms us : List Message} {t : DatabaseTransaction}
    {p : DatabaseTransaction × List Message} :
    visitAll (applyVisitor sp block) ms (t, us) = .ok true p ↔
      AppliesTo sp block ms t p.1 ∧ p.2 = ms.reverse ++ us := by
  induction ms generalizing t us with
  | nil =>
    constructor
    · intro h
      cases h
      exact ⟨rfl, rfl⟩
    · rintro ⟨h, h'⟩
      obtain ⟨t', us'⟩ := p
      cases h
      cases h'
      rfl
  | cons m ms ih =>
    rw [visitAll_cons_eq_ok_true]
    constructor
    · rintro ⟨⟨t₁, us₁⟩, hm, h⟩
      obtain ⟨hm, hus⟩ := applyVisitor_eq_ok.mp hm
      obtain ⟨hms, hp⟩ := ih.mp h
      refine ⟨⟨t₁, hm, hms⟩, ?_⟩
      cases hus
      simp [hp]
    · rintro ⟨⟨t₁, hm, hms⟩, hp⟩
      exact ⟨(t₁, m :: us), applyVisitor_eq_ok.mpr ⟨hm, rfl⟩, ih.mpr ⟨hms, by simp [hp]⟩⟩

theorem processRecords_eq_ok_true {t t' : DatabaseTransaction} :
    processRecords sp block t = .ok true t' ↔
      ∃ ms, block.messages sp.crypto = .ok ms ∧ AppliesTo sp block ms t t' := by
  have key : processRecords sp block t = .ok true t' ↔
      ∃ us, block.walkMessages sp.crypto (applyVisitor sp block) (t, []) = .ok true (t', us) := by
    unfold processRecords
    cases h : block.walkMessages sp.crypto (applyVisitor sp block) (t, []) with
    | error e p => simp
    | ok b p =>
      obtain ⟨t₁, us⟩ := p
      cases b with
      | true => simp
      | false =>
        constructor
        · intro h'
          obtain ⟨_, _, -, hr⟩ := bind_eq_ok.mp h'
          cases hr
        · rintro ⟨_, h'⟩
          cases h'
  rw [key]
  constructor
  · rintro ⟨us, h⟩
    obtain ⟨ms, hp, hms⟩ := walk_eq_ok_true.mp h
    exact ⟨ms, hp, (visitAll_applyVisitor.mp hms).1⟩
  · rintro ⟨ms, hp, hms⟩
    exact ⟨ms.reverse ++ [], walk_eq_ok_true.mpr ⟨ms, hp, visitAll_applyVisitor.mpr ⟨hms, rfl⟩⟩⟩

/-- A block that is refused has some of its messages applied and undone again. -/
theorem processRecords_eq_ok_false {t t' : DatabaseTransaction}
    (h : processRecords sp block t = .ok false t') :
    ∃ ms t₁, AppliesTo sp block ms t t₁ ∧ undoAll sp block ms t₁ = .ok () t' := by
  unfold processRecords at h
  cases hw : block.walkMessages sp.crypto (applyVisitor sp block) (t, []) with
  | error e p =>
    rw [hw] at h
    cases h
  | ok b p =>
    obtain ⟨t₂, us⟩ := p
    rw [hw] at h
    cases b with
    | true => cases h
    | false =>
      obtain ⟨ms, m, ⟨t₁, us₁⟩, hms, hm⟩ := walk_eq_ok_false hw
      obtain ⟨happ, hus⟩ := visitAll_applyVisitor.mp hms
      obtain ⟨hm, hus'⟩ := applyVisitor_eq_ok.mp hm
      obtain rfl : t₂ = t₁ := applyRecord_eq_ok_false hm
      obtain ⟨_, t₃, hundo, hr⟩ := bind_eq_ok.mp h
      cases hr
      refine ⟨ms, t₂, happ, ?_⟩
      cases hus
      cases hus'
      simpa [undoAll] using hundo

theorem visitAll_push {ms us us' : List Message} :
    visitAll (fun m => do modify (m :: ·); return true : Message → EStateM Error (List Message) Bool)
      ms us = .ok true us' ↔ us' = ms.reverse ++ us := by
  induction ms generalizing us with
  | nil =>
    constructor
    · intro h
      cases h
      rfl
    · rintro rfl
      rfl
  | cons m ms ih =>
    rw [visitAll_cons_eq_ok_true]
    constructor
    · rintro ⟨us₁, hm, h⟩
      cases hm
      simp [ih.mp h]
    · rintro rfl
      exact ⟨m :: us, rfl, ih.mpr (by simp)⟩

theorem undoRecords_eq_ok {t t' : DatabaseTransaction} {u : Unit}
    (h : undoRecords sp block t = .ok u t') :
    ∃ ms, block.messages sp.crypto = .ok ms ∧ undoAll sp block ms t = .ok () t' := by
  unfold undoRecords at h
  split at h
  · cases h
  · next b us hw =>
    cases b with
    | false =>
      obtain ⟨ms, m, us₁, -, hm⟩ := walk_eq_ok_false hw
      cases hm
    | true =>
      obtain ⟨ms, hp, hms⟩ := walk_eq_ok_true.mp hw
      refine ⟨ms, hp, ?_⟩
      rw [visitAll_push.mp hms] at h
      simpa [undoAll] using h

theorem visitAll_forM {visit : Message → LogM Unit} {ms : List Message} {t t' : DatabaseTransaction} :
    visitAll (fun m => do visit m; return true) ms t = .ok true t' ↔ ms.forM visit t = .ok () t' := by
  induction ms generalizing t with
  | nil =>
    constructor
    · intro h
      cases h
      rfl
    · intro h
      cases h
      rfl
  | cons m ms ih =>
    rw [visitAll_cons_eq_ok_true, forM_cons_eq_ok]
    constructor
    · rintro ⟨t₁, hm, h⟩
      obtain ⟨_, t₂, hm, hr⟩ := bind_eq_ok.mp hm
      cases hr
      exact ⟨_, hm, ih.mp h⟩
    · rintro ⟨t₁, hm, h⟩
      exact ⟨t₁, bind_eq_ok.mpr ⟨(), t₁, hm, rfl⟩, ih.mpr h⟩

theorem consensusRecords_eq_ok {t t' : DatabaseTransaction} {u : Unit} :
    consensusRecords sp block t = .ok u t' ↔ ∃ ms, block.messages sp.crypto = .ok ms ∧
      ms.forM (fun m => consensusRecord m block) (announce block t) = .ok () t' := by
  unfold consensusRecords
  rw [record_bind, bind_eq_ok]
  constructor
  · rintro ⟨b, t₁, hw, h⟩
    cases h
    cases b with
    | false =>
      obtain ⟨ms, m, t₂, -, hm⟩ := walk_eq_ok_false hw
      obtain ⟨_, _, -, hm⟩ := bind_eq_ok.mp hm
      cases hm
    | true =>
      obtain ⟨ms, hp, hms⟩ := walk_eq_ok_true.mp hw
      exact ⟨ms, hp, visitAll_forM.mp hms⟩
  · rintro ⟨ms, hp, hms⟩
    exact ⟨true, t', walk_eq_ok_true.mpr ⟨ms, hp, visitAll_forM.mpr hms⟩, rfl⟩

end Vds.LogSync
