import Vds.LogSync.Apply

/-! Undoing messages right after they were applied. Balances, wallets and replicas come back; users and vote
rows stay. -/

namespace Vds.LogSync

open Transactions StateError Dbo Table

variable {sp : ServiceProvider} {block : TransactionBlock} {t t' : DatabaseTransaction}

/-! ### Applying, message by message -/

theorem applyChannelMessage_eq_ok {m : ChannelMessage} {b : Bool} (h : applyChannelMessage m block t = .ok b t') :
    b = true ∧ m.cryptedData ≠ [] ∧ t.db.channelMessages.lookup (t.db.channelMessageSeq + 1) = none ∧
      t' = { t with db := { t.db with
        channelMessageSeq := t.db.channelMessageSeq + 1
        channelMessages := t.db.channelMessages.insert (t.db.channelMessageSeq + 1)
          { blockId := block.id, channelId := m.channelId, readId := m.readId, writeId := m.writeId,
            cryptedKey := m.cryptedKey, cryptedData := m.cryptedData, signature := m.signature } } } := by
  unfold applyChannelMessage at h
  split_ifs at h with hempty
  · cases h
  · obtain ⟨_, t₁, hseq, h⟩ := bind_eq_ok.mp h
    cases hseq
    obtain ⟨_, _, hget, h⟩ := bind_eq_ok.mp h
    cases hget
    obtain ⟨hn, h⟩ := (insert_bind_eq_ok Orm.channelMessage).mp h
    cases h
    exact ⟨rfl, hempty, hn, rfl⟩

theorem applyCreateUser_eq_ok {m : CreateUserTransaction} {b : Bool} (h : applyCreateUser sp m t = .ok b t') :
    t.db.memberUsers.lookup (sp.crypto.fingerprint m.userPublicKey) = none ∧
      t' = { t with db := { t.db with
        memberUsers := t.db.memberUsers.insert (sp.crypto.fingerprint m.userPublicKey) m.userPublicKey.der } } := by
  obtain ⟨hn, h⟩ := (insert_bind_eq_ok Orm.memberUser).mp h
  cases h
  exact ⟨hn, rfl⟩

theorem applyCreateWallet_eq_ok {m : CreateWalletTransaction} {b : Bool} (h : applyCreateWallet sp m t = .ok b t') :
    ∃ key, sp.crypto.parseDer m.publicKey = .ok key ∧ m.publicKey ≠ [] ∧
      t.db.wallets.lookup (sp.crypto.fingerprint key) = none ∧
      t' = { t with db := { t.db with
        wallets := t.db.wallets.insert (sp.crypto.fingerprint key) m.publicKey } } := by
  obtain ⟨key, hkey, h⟩ := getExpected_bind_eq_ok.mp h
  split_ifs at h with hempty
  · cases h
  · obtain ⟨hn, h⟩ := (insert_bind_eq_ok Orm.wallet).mp h
    cases h
    exact ⟨key, hkey, hempty, hn, rfl⟩

/-- The rows of one replica of the node that wrote the block. -/
def replicaMapKey (block : TransactionBlock) (hash : ConstDataBuffer) : ConstDataBuffer × ConstDataBuffer :=
  (hash, block.writePublicKeyId)

def replicaPaymentKey (block : TransactionBlock) (ownerId hash : ConstDataBuffer) : ReplicaPaymentKey :=
  ⟨ownerId, hash, block.writePublicKeyId⟩

theorem insertReplicaPayment_eq_ok {ownerId hash : ConstDataBuffer} {u : Unit}
    (h : insertReplicaPayment ownerId hash block t = .ok u t') :
    t.db.chunkReplicaMap.lookup (replicaMapKey block hash) = none ∧
      t.db.chunkReplicaPayment.lookup (replicaPaymentKey block ownerId hash) = none ∧
      t' = { t with db := { t.db with
        chunkReplicaMap := t.db.chunkReplicaMap.insert (replicaMapKey block hash) (toTimeT t.now)
        chunkReplicaPayment := t.db.chunkReplicaPayment.insert (replicaPaymentKey block ownerId hash)
          (toTimeT block.timePoint) } } := by
  obtain ⟨_, _, hget, h⟩ := bind_eq_ok.mp h
  cases hget
  obtain ⟨hm, h⟩ := (insert_bind_eq_ok Orm.chunkReplicaMap).mp h
  obtain ⟨hp, h⟩ := (insert_eq_ok Orm.chunkReplicaPayment).mp h
  exact ⟨hm, hp, h⟩

/-- A round of the loop over the replicas. -/
def storeReplica (sp : ServiceProvider) (message : StoreBlockTransaction) (block : TransactionBlock) (index : Nat) :
    LogM Unit := do
  let replicaHash := message.replicas.getD index []
  let same ← Orm.chunkReplicaData.select fun _ row => row.replicaHash = replicaHash
  if same.isEmpty then
    Orm.chunkReplicaData.insert ⟨message.ownerId, message.objectId, Int16.ofNat index⟩
      { replicaHash, replicaSize := message.replicaSize,
        distance := UInt32.ofNat (distanceExp sp.currentNodeId replicaHash) }
  else throw (.constraint Orm.chunkReplicaData.tableName)
  insertReplicaPayment message.ownerId replicaHash block

def forgetReplica (message : StoreBlockTransaction) (block : TransactionBlock) (index : Nat) : LogM Unit := do
  let replicaHash := message.replicas.getD index []
  Orm.chunkReplicaData.deleteIf fun key row =>
    key.objectHash = message.objectId && key.replica = Int16.ofNat index && row.replicaHash = replicaHash
  deleteReplicaPayment message.ownerId replicaHash block

/-- The rows of a replica, as the undo looks for them. -/
def IsReplica (m : StoreBlockTransaction) (index : Nat) (k : ReplicaKey) (v : ChunkReplicaData) : Prop :=
  k.objectHash = m.objectId ∧ k.replica = Int16.ofNat index ∧ v.replicaHash = m.replicas.getD index []

/-- The rows of the replicas of a message that a table has and had. -/
structure Replicas (m : StoreBlockTransaction) (block : TransactionBlock) (indexes : List Nat)
    (db db' : Database) : Prop where
  data : Adds (fun k v => ∃ i ∈ indexes, IsReplica m i k v) db.chunkReplicaData db'.chunkReplicaData
  noData : Lacks (fun k v => ∃ i ∈ indexes, IsReplica m i k v) db.chunkReplicaData
  map : Adds (fun k _ => ∃ i ∈ indexes, k = replicaMapKey block (m.replicas.getD i [])) db.chunkReplicaMap
    db'.chunkReplicaMap
  noMap : Lacks (fun k _ => ∃ i ∈ indexes, k = replicaMapKey block (m.replicas.getD i [])) db.chunkReplicaMap
  payment : Adds (fun k _ => ∃ i ∈ indexes, k = replicaPaymentKey block m.ownerId (m.replicas.getD i []))
    db.chunkReplicaPayment db'.chunkReplicaPayment
  noPayment : Lacks (fun k _ => ∃ i ∈ indexes, k = replicaPaymentKey block m.ownerId (m.replicas.getD i []))
    db.chunkReplicaPayment

theorem storeReplica_eq_ok {m : StoreBlockTransaction} {index : Nat} {u : Unit}
    (h : storeReplica sp m block index t = .ok u t') : Replicas m block [index] t.db t'.db ∧
      ∃ data map payment, t' = { t with db := { t.db with
        chunkReplicaData := data, chunkReplicaMap := map, chunkReplicaPayment := payment } } := by
  unfold storeReplica at h
  rw [select_bind] at h
  split_ifs at h with hsame
  · obtain ⟨hd, h⟩ := (insert_bind_eq_ok Orm.chunkReplicaData).mp h
    obtain ⟨hm, hp, rfl⟩ := insertReplicaPayment_eq_ok h
    have hunique : ∀ k v, t.db.chunkReplicaData.lookup k = some v → v.replicaHash ≠ m.replicas.getD index [] := by
      intro k v hk he
      have hmem : (k, v) ∈ Table.select (fun _ row => decide (row.replicaHash = m.replicas.getD index []))
          t.db.chunkReplicaData := mem_select.mpr ⟨hk, decide_eq_true he⟩
      rw [show Table.select _ t.db.chunkReplicaData = [] from List.isEmpty_iff.mp hsame] at hmem
      cases hmem
    have hmap : t.db.chunkReplicaMap.lookup (replicaMapKey block (m.replicas.getD index [])) = none := hm
    have hpayment : t.db.chunkReplicaPayment.lookup
        (replicaPaymentKey block m.ownerId (m.replicas.getD index [])) = none := hp
    refine ⟨⟨?_, ?_, ?_, ?_, ?_, ?_⟩, _, _, _, rfl⟩
    · refine (adds_insert hd).mono ?_
      rintro k v ⟨rfl, rfl⟩
      exact ⟨index, List.mem_singleton_self index, rfl, rfl, rfl⟩
    · rintro k v hk ⟨i, hi, -, -, he⟩
      rw [List.mem_singleton.mp hi] at he
      exact hunique k v hk he
    · refine (adds_insert hm).mono ?_
      rintro k v ⟨rfl, -⟩
      exact ⟨index, List.mem_singleton_self index, rfl⟩
    · rintro k v hk ⟨i, hi, rfl⟩
      rw [List.mem_singleton.mp hi, hmap] at hk
      cases hk
    · refine (adds_insert hp).mono ?_
      rintro k v ⟨rfl, -⟩
      exact ⟨index, List.mem_singleton_self index, rfl⟩
    · rintro k v hk ⟨i, hi, rfl⟩
      rw [List.mem_singleton.mp hi, hpayment] at hk
      cases hk
  · obtain ⟨_, _, hthrow, -⟩ := bind_eq_ok.mp h
    cases hthrow

/-- What is added in two steps. -/
theorem replicas_append {m : StoreBlockTransaction} {is js : List Nat} {db₀ db₁ db₂ : Database}
    (h : Replicas m block is db₀ db₁) (h' : Replicas m block js db₁ db₂) : Replicas m block (is ++ js) db₀ db₂ := by
  have hor {K V : Type} (P : Nat → K → V → Prop) (k : K) (v : V) :
      (∃ i ∈ is ++ js, P i k v) ↔ (∃ i ∈ is, P i k v) ∨ ∃ i ∈ js, P i k v := by
    constructor
    · rintro ⟨i, hi, hp⟩
      rcases List.mem_append.mp hi with hi | hi
      · exact .inl ⟨i, hi, hp⟩
      · exact .inr ⟨i, hi, hp⟩
    · rintro (⟨i, hi, hp⟩ | ⟨i, hi, hp⟩)
      · exact ⟨i, List.mem_append_left _ hi, hp⟩
      · exact ⟨i, List.mem_append_right _ hi, hp⟩
  have hadds {K V : Type} [DecidableEq K] {P : Nat → K → V → Prop} {a b c : Table K V}
      (hab : Adds (fun k v => ∃ i ∈ is, P i k v) a b) (hbc : Adds (fun k v => ∃ i ∈ js, P i k v) b c) :
      Adds (fun k v => ∃ i ∈ is ++ js, P i k v) a c := (hab.trans hbc).mono fun k v => (hor P k v).mpr
  have hlacks {K V : Type} [DecidableEq K] {P : Nat → K → V → Prop} {a b : Table K V}
      (hab : Adds (fun k v => ∃ i ∈ is, P i k v) a b) (ha : Lacks (fun k v => ∃ i ∈ is, P i k v) a)
      (hb : Lacks (fun k v => ∃ i ∈ js, P i k v) b) : Lacks (fun k v => ∃ i ∈ is ++ js, P i k v) a := by
    intro k v hk hp
    rcases (hor P k v).mp hp with hp | hp
    · exact ha k v hk hp
    · exact hb k v (hab.old k v hk) hp
  exact ⟨hadds h.data h'.data, hlacks h.data h.noData h'.noData, hadds h.map h'.map, hlacks h.map h.noMap h'.noMap,
    hadds h.payment h'.payment, hlacks h.payment h.noPayment h'.noPayment⟩

theorem storeReplicas_eq_ok {m : StoreBlockTransaction} {indexes : List Nat} {u : Unit}
    (h : indexes.forM (storeReplica sp m block) t = .ok u t') : Replicas m block indexes t.db t'.db ∧
      ∃ data map payment, t' = { t with db := { t.db with
        chunkReplicaData := data, chunkReplicaMap := map, chunkReplicaPayment := payment } } := by
  induction indexes generalizing t with
  | nil =>
    cases h
    refine ⟨⟨?_, ?_, ?_, ?_, ?_, ?_⟩, _, _, _, rfl⟩
    · exact (Adds.refl _).mono fun _ _ h => h.elim
    · rintro k v - ⟨i, hi, -⟩
      cases hi
    · exact (Adds.refl _).mono fun _ _ h => h.elim
    · rintro k v - ⟨i, hi, -⟩
      cases hi
    · exact (Adds.refl _).mono fun _ _ h => h.elim
    · rintro k v - ⟨i, hi, -⟩
      cases hi
  | cons index indexes ih =>
    obtain ⟨_, t₁, hone, hrest⟩ := bind_eq_ok.mp h
    obtain ⟨hfirst, _, _, _, rfl⟩ := storeReplica_eq_ok hone
    obtain ⟨htail, data, map, payment, rfl⟩ := ih hrest
    exact ⟨replicas_append hfirst htail, data, map, payment, rfl⟩

/-- The rows of the replicas are gone. -/
structure Forgotten (m : StoreBlockTransaction) (block : TransactionBlock) (indexes : List Nat)
    (db db' : Database) : Prop where
  data : Removes (fun k v => ∃ i ∈ indexes, IsReplica m i k v) db.chunkReplicaData db'.chunkReplicaData
  map : Removes (fun k _ => ∃ i ∈ indexes, k = replicaMapKey block (m.replicas.getD i [])) db.chunkReplicaMap
    db'.chunkReplicaMap
  payment : Removes (fun k _ => ∃ i ∈ indexes, k = replicaPaymentKey block m.ownerId (m.replicas.getD i []))
    db.chunkReplicaPayment db'.chunkReplicaPayment

theorem forgetReplica_spec (m : StoreBlockTransaction) (index : Nat) (t : DatabaseTransaction) :
    ∃ data map payment, forgetReplica m block index t = .ok () { t with db := { t.db with
        chunkReplicaData := data, chunkReplicaMap := map, chunkReplicaPayment := payment } } ∧
      Forgotten m block [index] t.db { t.db with
        chunkReplicaData := data, chunkReplicaMap := map, chunkReplicaPayment := payment } := by
  have hone {P : Nat → Prop} : P index ↔ ∃ i ∈ [index], P i := by
    constructor
    · exact fun h => ⟨index, List.mem_singleton_self index, h⟩
    · rintro ⟨i, hi, h⟩
      rwa [List.mem_singleton.mp hi] at h
  refine ⟨_, _, _, rfl, ?_, ?_, ?_⟩
  · refine (removes_filterOut _ _).congr fun k v => ?_
    rw [← hone (P := fun i => IsReplica m i k v), Bool.and_eq_true, Bool.and_eq_true, decide_eq_true_iff,
      decide_eq_true_iff, decide_eq_true_iff, and_assoc]
    rfl
  · exact (removes_erase _ _).congr fun k v => hone (P := fun i => k = replicaMapKey block (m.replicas.getD i []))
  · exact (removes_erase _ _).congr fun k v =>
      hone (P := fun i => k = replicaPaymentKey block m.ownerId (m.replicas.getD i []))

theorem forgetReplicas_spec (m : StoreBlockTransaction) (indexes : List Nat) (t : DatabaseTransaction) :
    ∃ data map payment, indexes.forM (forgetReplica m block) t = .ok () { t with db := { t.db with
        chunkReplicaData := data, chunkReplicaMap := map, chunkReplicaPayment := payment } } ∧
      Forgotten m block indexes t.db { t.db with
        chunkReplicaData := data, chunkReplicaMap := map, chunkReplicaPayment := payment } := by
  induction indexes generalizing t with
  | nil =>
    refine ⟨_, _, _, rfl, ?_, ?_, ?_⟩
    · exact (removes_false _).congr fun k v => by simp
    · exact (removes_false _).congr fun k v => by simp
    · exact (removes_false _).congr fun k v => by simp
  | cons index indexes ih =>
    obtain ⟨_, _, _, hrun, hfirst⟩ := @forgetReplica_spec block m index t
    obtain ⟨data, map, payment, hrest, htail⟩ := ih { t with db := { t.db with
      chunkReplicaData := _, chunkReplicaMap := _, chunkReplicaPayment := _ } }
    refine ⟨data, map, payment, ?_, ?_, ?_, ?_⟩
    · change (forgetReplica m block index >>= fun _ => indexes.forM (forgetReplica m block)) t = _
      rw [bind_of_ok hrun, hrest]
    · exact (hfirst.data.trans htail.data).congr fun k v => by simp
    · exact (hfirst.map.trans htail.map).congr fun k v => by simp
    · exact (hfirst.payment.trans htail.payment).congr fun k v => by simp

/-! ### What every undo brings back -/

/-- The balances, wallets and replicas are the same. -/
structure Restored (db db' : Database) : Prop where
  balances : SameRows db.balances db'.balances
  wallets : SameRows db.wallets db'.wallets
  replicaData : SameRows db.chunkReplicaData db'.chunkReplicaData
  replicaMap : SameRows db.chunkReplicaMap db'.chunkReplicaMap
  replicaPayment : SameRows db.chunkReplicaPayment db'.chunkReplicaPayment

theorem Restored.refl (db : Database) : Restored db db := ⟨.refl _, .refl _, .refl _, .refl _, .refl _⟩

section Undo

variable {u : DatabaseTransaction}

theorem undoPayment_restores {m : PaymentTransaction} (ha : applyPayment sp m block t = .ok true t')
    (hr : Restored u.db t'.db) : ∃ u', undoPayment m block u = .ok () u' ∧ Restored u'.db t.db := by
  rcases applyPayment_eq_ok ha with ⟨hfalse, -⟩ | ⟨-, row, hsource, hvalue, htarget, rfl⟩
  · cases hfalse
  have hne : sourceKey m ≠ targetKey m block.id := by
    intro he
    rw [he, htarget] at hsource
    cases hsource
  have hpaid (k : BalanceKey) : u.db.balances.lookup k =
      if k = targetKey m block.id then some { proposedBalance := m.value.toInt64, confirmedBalance := 0 }
      else if k = sourceKey m then
        some { row with proposedBalance := (row.proposedBalance.toUInt64 - m.value).toInt64 }
      else t.db.balances.lookup k := by
    rw [hr.balances k]
    unfold pay
    rw [lookup_insert_eq, lookup_update_eq]
    split_ifs with htgt hsrc
    · rfl
    · rw [hsrc, hsource]
      rfl
    · rfl
  have hfound := hpaid (sourceKey m)
  rw [if_neg hne, if_pos rfl] at hfound
  let balances := (Table.update (sourceKey m) (fun row' => { row' with
    proposedBalance := ((row.proposedBalance.toUInt64 - m.value).toInt64.toUInt64 + m.value).toInt64 })
      u.db.balances).erase (targetKey m block.id)
  refine ⟨{ u with db := { u.db with balances } }, ?_, ?_, hr.wallets, hr.replicaData, hr.replicaMap,
    hr.replicaPayment⟩
  · unfold undoPayment
    rw [find_bind, show (Orm.datacoinBalance.rows u.db).lookup (sourceKey m) = _ from hfound]
    rfl
  · intro k
    change balances.lookup k = _
    rw [lookup_erase_eq, lookup_update_eq, hpaid k]
    split_ifs with htgt hsrc
    · rw [htgt, htarget]
    · have hback : ((row.proposedBalance.toUInt64 - m.value).toInt64.toUInt64 + m.value).toInt64 =
          row.proposedBalance := by
        rw [UInt64.toUInt64_toInt64, UInt64.sub_add_cancel, Int64.toInt64_toUInt64]
      rw [Option.map_some, hback, hsrc, hsource]
    · rfl

/-- A message that does not touch these tables. -/
theorem restored_of_eq {f : Database → Database} (hf : ∀ db, (f db).balances = db.balances ∧ (f db).wallets = db.wallets ∧
      (f db).chunkReplicaData = db.chunkReplicaData ∧ (f db).chunkReplicaMap = db.chunkReplicaMap ∧
      (f db).chunkReplicaPayment = db.chunkReplicaPayment) {db db' : Database} (hr : Restored db db') :
    Restored (f db) db' := by
  obtain ⟨hb, hw, hd, hm, hp⟩ := hf db
  refine ⟨?_, ?_, ?_, ?_, ?_⟩
  · rw [hb]
    exact hr.balances
  · rw [hw]
    exact hr.wallets
  · rw [hd]
    exact hr.replicaData
  · rw [hm]
    exact hr.replicaMap
  · rw [hp]
    exact hr.replicaPayment

theorem undoStoreBlock_restores {m : StoreBlockTransaction} (ha : applyStoreBlock sp m block t = .ok true t')
    (hr : Restored u.db t'.db) : ∃ u', undoStoreBlock m block u = .ok () u' ∧ Restored u'.db t.db := by
  obtain ⟨_, t₁, hstore, hreturn⟩ := bind_eq_ok.mp ha
  cases hreturn
  obtain ⟨hrows, data, map, payment, rfl⟩ := @storeReplicas_eq_ok sp block t t' m _ _ hstore
  obtain ⟨_, _, _, hrun, hgone⟩ := @forgetReplicas_spec block m (replicaIndexes m.replicas.length) u
  refine ⟨_, hrun, hr.balances, hr.wallets, ?_, ?_, ?_⟩
  · exact (hrows.data.removed_iff (hgone.data.of_sameRows hr.replicaData)).mpr hrows.noData
  · exact (hrows.map.removed_iff (hgone.map.of_sameRows hr.replicaMap)).mpr hrows.noMap
  · exact (hrows.payment.removed_iff (hgone.payment.of_sameRows hr.replicaPayment)).mpr hrows.noPayment

theorem undoRecord_restores {m : Message} (ha : applyRecord sp m block t = .ok true t') (hr : Restored u.db t'.db) :
    ∃ u', undoRecord sp m block u = .ok () u' ∧ Restored u'.db t.db := by
  cases m with
  | payment m => exact undoPayment_restores ha hr
  | channelMessage m =>
    obtain ⟨-, -, -, rfl⟩ := applyChannelMessage_eq_ok ha
    exact ⟨_, rfl, hr.balances, hr.wallets, hr.replicaData, hr.replicaMap, hr.replicaPayment⟩
  | createUser m =>
    obtain ⟨-, rfl⟩ := applyCreateUser_eq_ok ha
    exact ⟨u, rfl, hr.balances, hr.wallets, hr.replicaData, hr.replicaMap, hr.replicaPayment⟩
  | nodeAdd m =>
    obtain ⟨-, -, nodeInfos, rfl⟩ := applyNodeAdd_eq_ok ha
    exact ⟨_, rfl, hr.balances, hr.wallets, hr.replicaData, hr.replicaMap, hr.replicaPayment⟩
  | createWallet m =>
    obtain ⟨key, hkey, -, hn, rfl⟩ := applyCreateWallet_eq_ok ha
    refine ⟨{ u with db := { u.db with wallets := u.db.wallets.erase (sp.crypto.fingerprint key) } }, ?_,
      hr.balances, hr.wallets.erase_of_insert hn, hr.replicaData, hr.replicaMap, hr.replicaPayment⟩
    change undoCreateWallet sp m u = _
    unfold undoCreateWallet
    rw [hkey]
    rfl
  | assetIssue m =>
    rcases applyAssetIssue_eq_ok ha with ⟨hfalse, -⟩ | ⟨-, hn, rfl⟩
    · cases hfalse
    · exact ⟨_, rfl, hr.balances.erase_of_insert hn, hr.wallets, hr.replicaData, hr.replicaMap, hr.replicaPayment⟩
  | storeBlock m => exact undoStoreBlock_restores ha hr
  | hostBlock m =>
    obtain ⟨_, t₁, hinsert, hreturn⟩ := bind_eq_ok.mp ha
    cases hreturn
    obtain ⟨hm, hp, rfl⟩ := insertReplicaPayment_eq_ok hinsert
    exact ⟨_, rfl, hr.balances, hr.wallets, hr.replicaData, hr.replicaMap.erase_of_insert hm,
      hr.replicaPayment.erase_of_insert hp⟩

theorem undoAll_cons (m : Message) (ms : List Message) :
    undoAll sp block (m :: ms) = (undoAll sp block ms >>= fun _ => undoRecord sp m block) := by
  unfold undoAll
  rw [List.reverse_cons]
  exact forM_concat _ _ _

/-- All messages that were applied can be undone. -/
theorem undoAll_restores {ms : List Message} (ha : AppliesTo sp block ms t t') (hr : Restored u.db t'.db) :
    ∃ u', undoAll sp block ms u = .ok () u' ∧ Restored u'.db t.db := by
  induction ms generalizing t with
  | nil =>
    cases ha
    exact ⟨u, rfl, hr⟩
  | cons m ms ih =>
    obtain ⟨t₁, hm, hms⟩ := ha
    obtain ⟨u₁, hrun, hr₁⟩ := ih hms
    obtain ⟨u₂, hundo, hr₂⟩ := undoRecord_restores hm hr₁
    refine ⟨u₂, ?_, hr₂⟩
    rw [undoAll_cons, bind_of_ok hrun, hundo]

end Undo

/-! ### Users, votes, nodes and channel messages -/

/-- The tables that not every undo brings back. -/
def restOf (t : DatabaseTransaction) : Table ConstDataBuffer ConstDataBuffer ×
    Table (ConstDataBuffer × ConstDataBuffer) VoteRequest × Table ConstDataBuffer NodeInfo ×
    Table Nat ChannelMessageRow :=
  (t.db.memberUsers, t.db.voteRequests, t.db.nodeInfos, t.db.channelMessages)

/-- The messages that write to them. -/
def touchesRest : Message → Bool
  | .channelMessage _ | .createUser _ | .nodeAdd _ => true
  | _ => false

theorem frames_applyRecord_rest {m : Message} (hm : touchesRest m = false) :
    Frames restOf (applyRecord sp m block) := by
  cases m with
  | payment m => exact moves_applyPayment (fun _ _ => rfl) m block
  | channelMessage | createUser | nodeAdd => cases hm
  | createWallet m => exact moves_applyCreateWallet (fun _ _ => rfl) m
  | assetIssue m => exact moves_applyAssetIssue (fun _ _ => rfl) m block
  | storeBlock m => exact moves_applyStoreBlock (fun _ _ => rfl) (fun _ _ => rfl) (fun _ _ => rfl) m block
  | hostBlock m =>
    exact (moves_insertReplicaPayment (fun _ _ => rfl) (fun _ _ => rfl) _ _ block).bind fun _ => Moves.pure true

theorem frames_undoRecord_rest {m : Message} (hm : touchesRest m = false) :
    Frames restOf (undoRecord sp m block) := by
  cases m with
  | payment m => exact moves_undoPayment (fun _ _ => rfl) m block
  | channelMessage | createUser | nodeAdd => cases hm
  | createWallet m => exact moves_undoCreateWallet (fun _ _ => rfl) m
  | assetIssue m => exact moves_undoAssetIssue (fun _ _ => rfl) m block
  | storeBlock m => exact moves_undoStoreBlock (fun _ _ => rfl) (fun _ _ => rfl) (fun _ _ => rfl) m block
  | hostBlock m => exact moves_deleteReplicaPayment (fun _ _ => rfl) (fun _ _ => rfl) _ _ block

/-- The row that a channel message makes, as the undo looks for it. -/
def IsMessageRow (block : TransactionBlock) (m : ChannelMessage) (row : ChannelMessageRow) : Prop :=
  row.blockId = block.id ∧ row.channelId = m.channelId ∧ row.readId = m.readId ∧ row.writeId = m.writeId ∧
    row.cryptedKey = m.cryptedKey ∧ row.signature = m.signature

/-- The rows of the channel messages among `ms`. -/
def IsRowOf (block : TransactionBlock) (ms : List Message) (_ : Nat) (row : ChannelMessageRow) : Prop :=
  ∃ m, Message.channelMessage m ∈ ms ∧ IsMessageRow block m row

theorem isRowOf_cons {m : Message} {ms : List Message} {k : Nat} {row : ChannelMessageRow} :
    IsRowOf block (m :: ms) k row ↔ IsRowOf block [m] k row ∨ IsRowOf block ms k row := by
  constructor
  · rintro ⟨c, hc, hrow⟩
    rcases List.mem_cons.mp hc with rfl | hc
    · exact .inl ⟨c, List.mem_singleton_self _, hrow⟩
    · exact .inr ⟨c, hc, hrow⟩
  · rintro (⟨c, hc, hrow⟩ | ⟨c, hc, hrow⟩)
    · exact ⟨c, List.mem_cons.mpr (.inl (List.mem_singleton.mp hc)), hrow⟩
    · exact ⟨c, List.mem_cons_of_mem m hc, hrow⟩

theorem not_isRowOf {m : Message} (hm : touchesRest m = false) {k : Nat} {row : ChannelMessageRow} :
    ¬IsRowOf block [m] k row := by
  rintro ⟨c, hc, -⟩
  rw [← List.mem_singleton.mp hc] at hm
  cases hm

/-- What applying a message does to these tables. -/
structure AppliedRest (sp : ServiceProvider) (block : TransactionBlock) (m : Message) (db db' : Database) : Prop where
  messages : Adds (IsRowOf block [m]) db.channelMessages db'.channelMessages
  users : (∀ c, m ≠ .createUser c) → db'.memberUsers = db.memberUsers
  user : ∀ c, m = .createUser c → db.memberUsers.lookup (sp.crypto.fingerprint c.userPublicKey) = none ∧
    db'.memberUsers = db.memberUsers.insert (sp.crypto.fingerprint c.userPublicKey) c.userPublicKey.der
  votes : (∀ c, m ≠ .nodeAdd c) → db'.voteRequests = db.voteRequests
  vote : ∀ c, m = .nodeAdd c → db.voteRequests.lookup (block.id, sp.crypto.fingerprint c.nodePublicKey) = none ∧
    db'.voteRequests = db.voteRequests.insert (block.id, sp.crypto.fingerprint c.nodePublicKey)
      { approved := false, newMember := true }
  nodes : (∀ c, m ≠ .nodeAdd c) → db'.nodeInfos = db.nodeInfos

theorem applyRecord_rest {m : Message} (ha : applyRecord sp m block t = .ok true t') :
    AppliedRest sp block m t.db t'.db := by
  by_cases hm : touchesRest m = false
  · have hrest : restOf t' = restOf t := (frames_applyRecord_rest hm).ok ha
    obtain ⟨husers, hvotes, hnodes, hmessages⟩ : t'.db.memberUsers = t.db.memberUsers ∧
        t'.db.voteRequests = t.db.voteRequests ∧ t'.db.nodeInfos = t.db.nodeInfos ∧
        t'.db.channelMessages = t.db.channelMessages := by
      simpa only [restOf, Prod.mk.injEq] using hrest
    refine ⟨?_, fun _ => husers, ?_, fun _ => hvotes, ?_, fun _ => hnodes⟩
    · rw [hmessages]
      exact (Adds.refl _).mono fun _ _ h => h.elim
    · rintro c rfl
      cases hm
    · rintro c rfl
      cases hm
  · cases m with
    | payment | createWallet | assetIssue | storeBlock | hostBlock => exact absurd rfl hm
    | channelMessage m =>
      obtain ⟨-, -, hn, rfl⟩ := applyChannelMessage_eq_ok ha
      refine ⟨?_, fun _ => rfl, fun c hc => (by cases hc), fun _ => rfl, fun c hc => (by cases hc), fun _ => rfl⟩
      refine (adds_insert hn).mono ?_
      rintro k row ⟨-, rfl⟩
      exact ⟨m, List.mem_singleton_self _, rfl, rfl, rfl, rfl, rfl, rfl⟩
    | createUser m =>
      obtain ⟨hn, rfl⟩ := applyCreateUser_eq_ok ha
      refine ⟨(Adds.refl _).mono fun _ _ h => h.elim, fun h => absurd rfl (h m), fun c hc => ?_, fun _ => rfl,
        fun c hc => (by cases hc), fun _ => rfl⟩
      cases hc
      exact ⟨hn, rfl⟩
    | nodeAdd m =>
      obtain ⟨-, hn, nodeInfos, rfl⟩ := applyNodeAdd_eq_ok ha
      refine ⟨(Adds.refl _).mono fun _ _ h => h.elim, fun _ => rfl, fun c hc => (by cases hc),
        fun h => absurd rfl (h m), fun c hc => ?_, fun h => absurd rfl (h m)⟩
      cases hc
      exact ⟨hn, rfl⟩

/-- What undoing a message does to them. -/
structure UndoneRest (block : TransactionBlock) (m : Message) (db db' : Database) : Prop where
  messages : Removes (IsRowOf block [m]) db.channelMessages db'.channelMessages
  users : db'.memberUsers = db.memberUsers
  votes : db'.voteRequests = db.voteRequests
  nodes : (∀ c, m ≠ .nodeAdd c) → db'.nodeInfos = db.nodeInfos

theorem undoRecord_rest {m : Message} (h : undoRecord sp m block t = .ok () t') : UndoneRest block m t.db t'.db := by
  by_cases hm : touchesRest m = false
  · have hrest : restOf t' = restOf t := (frames_undoRecord_rest hm).ok h
    obtain ⟨husers, hvotes, hnodes, hmessages⟩ : t'.db.memberUsers = t.db.memberUsers ∧
        t'.db.voteRequests = t.db.voteRequests ∧ t'.db.nodeInfos = t.db.nodeInfos ∧
        t'.db.channelMessages = t.db.channelMessages := by
      simpa only [restOf, Prod.mk.injEq] using hrest
    refine ⟨?_, husers, hvotes, fun _ => hnodes⟩
    rw [hmessages]
    exact (removes_false _).congr fun k row => iff_of_false not_false (not_isRowOf hm)
  · have hnone {m : Message} (hc : ∀ c, m ≠ .channelMessage c) (k : Nat) (row : ChannelMessageRow) :
        False ↔ IsRowOf block [m] k row := by
      refine iff_of_false not_false ?_
      rintro ⟨c, hmem, -⟩
      exact hc c (List.mem_singleton.mp hmem).symm
    cases m with
    | payment | createWallet | assetIssue | storeBlock | hostBlock => exact absurd rfl hm
    | channelMessage m =>
      cases h
      refine ⟨(removes_filterOut _ _).congr fun k row => ?_, rfl, rfl, fun _ => rfl⟩
      simp only [Bool.and_eq_true, decide_eq_true_iff]
      constructor
      · rintro ⟨⟨⟨⟨⟨hb, hc⟩, hr⟩, hw⟩, hk⟩, hs⟩
        exact ⟨m, List.mem_singleton_self _, hb, hc, hr, hw, hk, hs⟩
      · rintro ⟨c, hc, hb, hch, hr, hw, hk, hs⟩
        cases List.mem_singleton.mp hc
        exact ⟨⟨⟨⟨⟨hb, hch⟩, hr⟩, hw⟩, hk⟩, hs⟩
    | createUser m =>
      cases h
      exact ⟨(removes_false _).congr (hnone fun c => (by simp)), rfl, rfl, fun _ => rfl⟩
    | nodeAdd m =>
      cases h
      exact ⟨(removes_false _).congr (hnone fun c => (by simp)), rfl, rfl, fun h => absurd rfl (h m)⟩

section Lists

variable {ms : List Message} {u : DatabaseTransaction}

theorem AppliesTo.messages (ha : AppliesTo sp block ms t t') :
    Adds (IsRowOf block ms) t.db.channelMessages t'.db.channelMessages := by
  induction ms generalizing t with
  | nil =>
    cases ha
    exact (Adds.refl _).mono fun _ _ h => h.elim
  | cons m ms ih =>
    obtain ⟨t₁, hm, hms⟩ := ha
    exact ((applyRecord_rest hm).messages.trans (ih hms)).mono fun _ _ => isRowOf_cons.mpr

theorem applyRecord_users {m : Message} (ha : applyRecord sp m block t = .ok true t') {k v : ConstDataBuffer}
    (hk : t.db.memberUsers.lookup k = some v) : t'.db.memberUsers.lookup k = some v := by
  have hrest := applyRecord_rest ha
  by_cases hm : ∃ c, m = .createUser c
  · obtain ⟨c, rfl⟩ := hm
    obtain ⟨hn, husers⟩ := hrest.user c rfl
    rw [husers]
    exact (adds_insert hn).old k v hk
  · rw [hrest.users fun c hc => hm ⟨c, hc⟩, hk]

theorem applyRecord_votes {m : Message} (ha : applyRecord sp m block t = .ok true t')
    {k : ConstDataBuffer × ConstDataBuffer} {v : VoteRequest} (hk : t.db.voteRequests.lookup k = some v) :
    t'.db.voteRequests.lookup k = some v := by
  have hrest := applyRecord_rest ha
  by_cases hm : ∃ c, m = .nodeAdd c
  · obtain ⟨c, rfl⟩ := hm
    obtain ⟨hn, hvotes⟩ := hrest.vote c rfl
    rw [hvotes]
    exact (adds_insert hn).old k v hk
  · rw [hrest.votes fun c hc => hm ⟨c, hc⟩, hk]

theorem AppliesTo.users_grow (ha : AppliesTo sp block ms t t') {k v : ConstDataBuffer}
    (hk : t.db.memberUsers.lookup k = some v) : t'.db.memberUsers.lookup k = some v := by
  induction ms generalizing t with
  | nil =>
    cases ha
    exact hk
  | cons m ms ih =>
    obtain ⟨t₁, hm, hms⟩ := ha
    exact ih hms (applyRecord_users hm hk)

theorem AppliesTo.votes_grow (ha : AppliesTo sp block ms t t') {k : ConstDataBuffer × ConstDataBuffer} {v : VoteRequest}
    (hk : t.db.voteRequests.lookup k = some v) : t'.db.voteRequests.lookup k = some v := by
  induction ms generalizing t with
  | nil =>
    cases ha
    exact hk
  | cons m ms ih =>
    obtain ⟨t₁, hm, hms⟩ := ha
    exact ih hms (applyRecord_votes hm hk)

/-- The user was not there and is there now. -/
theorem AppliesTo.user_added (ha : AppliesTo sp block ms t t') {c : CreateUserTransaction}
    (hc : .createUser c ∈ ms) : t.db.memberUsers.lookup (sp.crypto.fingerprint c.userPublicKey) = none ∧
      t'.db.memberUsers.lookup (sp.crypto.fingerprint c.userPublicKey) ≠ none := by
  induction ms generalizing t with
  | nil => cases hc
  | cons m ms ih =>
    obtain ⟨t₁, hm, hms⟩ := ha
    rcases List.mem_cons.mp hc with rfl | hc
    · obtain ⟨hn, husers⟩ := (applyRecord_rest hm).user c rfl
      have hhere : t₁.db.memberUsers.lookup (sp.crypto.fingerprint c.userPublicKey) = some c.userPublicKey.der := by
        rw [husers, lookup_insert_eq, if_pos rfl]
      rw [AppliesTo.users_grow hms hhere]
      exact ⟨hn, Option.some_ne_none _⟩
    · obtain ⟨hn, hhere⟩ := ih hms hc
      refine ⟨?_, hhere⟩
      by_contra hne
      obtain ⟨v, hv⟩ := Option.ne_none_iff_exists'.mp hne
      rw [applyRecord_users hm hv] at hn
      cases hn

theorem AppliesTo.vote_added (ha : AppliesTo sp block ms t t') {c : NodeAddTransaction} (hc : .nodeAdd c ∈ ms) :
    t.db.voteRequests.lookup (block.id, sp.crypto.fingerprint c.nodePublicKey) = none ∧
      t'.db.voteRequests.lookup (block.id, sp.crypto.fingerprint c.nodePublicKey) ≠ none := by
  induction ms generalizing t with
  | nil => cases hc
  | cons m ms ih =>
    obtain ⟨t₁, hm, hms⟩ := ha
    rcases List.mem_cons.mp hc with rfl | hc
    · obtain ⟨hn, hvotes⟩ := (applyRecord_rest hm).vote c rfl
      have hhere : t₁.db.voteRequests.lookup (block.id, sp.crypto.fingerprint c.nodePublicKey) =
          some { approved := false, newMember := true } := by
        rw [hvotes, lookup_insert_eq, if_pos rfl]
      rw [AppliesTo.votes_grow hms hhere]
      exact ⟨hn, Option.some_ne_none _⟩
    · obtain ⟨hn, hhere⟩ := ih hms hc
      refine ⟨?_, hhere⟩
      by_contra hne
      obtain ⟨v, hv⟩ := Option.ne_none_iff_exists'.mp hne
      rw [applyRecord_votes hm hv] at hn
      cases hn

/-- Without new users and nodes these tables do not change. -/
theorem AppliesTo.unchanged (ha : AppliesTo sp block ms t t') (husers : ∀ c, .createUser c ∉ ms)
    (hnodes : ∀ c, .nodeAdd c ∉ ms) : t'.db.memberUsers = t.db.memberUsers ∧
      t'.db.voteRequests = t.db.voteRequests ∧ t'.db.nodeInfos = t.db.nodeInfos := by
  induction ms generalizing t with
  | nil =>
    cases ha
    exact ⟨rfl, rfl, rfl⟩
  | cons m ms ih =>
    obtain ⟨t₁, hm, hms⟩ := ha
    have hrest := applyRecord_rest hm
    have hnode : ∀ c, m ≠ .nodeAdd c := by
      rintro c rfl
      exact hnodes c List.mem_cons_self
    have huser : ∀ c, m ≠ .createUser c := by
      rintro c rfl
      exact husers c List.mem_cons_self
    obtain ⟨hu, hv, hn⟩ := ih hms (fun c hc => husers c (List.mem_cons_of_mem m hc))
      fun c hc => hnodes c (List.mem_cons_of_mem m hc)
    exact ⟨hu.trans (hrest.users huser), hv.trans (hrest.votes hnode), hn.trans (hrest.nodes hnode)⟩

theorem undoAll_rest (h : undoAll sp block ms t = .ok () u) :
    Removes (IsRowOf block ms) t.db.channelMessages u.db.channelMessages ∧
      u.db.memberUsers = t.db.memberUsers ∧ u.db.voteRequests = t.db.voteRequests ∧
      ((∀ c, .nodeAdd c ∉ ms) → u.db.nodeInfos = t.db.nodeInfos) := by
  induction ms generalizing u with
  | nil =>
    cases h
    refine ⟨(removes_false _).congr fun k row => iff_of_false not_false ?_, rfl, rfl, fun _ => rfl⟩
    rintro ⟨c, hc, -⟩
    cases hc
  | cons m ms ih =>
    rw [undoAll_cons] at h
    obtain ⟨_, t₁, hms, hm⟩ := bind_eq_ok.mp h
    obtain ⟨hmessages, husers, hvotes, hnodes⟩ := ih hms
    have hrest := undoRecord_rest hm
    refine ⟨(hmessages.trans hrest.messages).congr fun k row => ?_, hrest.users.trans husers,
      hrest.votes.trans hvotes, fun hno => ?_⟩
    · rw [or_comm]
      exact isRowOf_cons.symm
    · have hnode : ∀ c, m ≠ .nodeAdd c := by
        rintro c rfl
        exact hno c List.mem_cons_self
      exact (hrest.nodes hnode).trans (hnodes fun c hc => hno c (List.mem_cons_of_mem m hc))

end Lists

/-! ### When everything is as before -/

/-- The message can be taken back: it makes no user and no node, and the channel has no row that looks like
its own. -/
def Revertible (block : TransactionBlock) (db : Database) : Message → Prop
  | .createUser _ | .nodeAdd _ => False
  | .channelMessage m => ∀ k row, db.channelMessages.lookup k = some row → ¬IsMessageRow block m row
  | _ => True

/-- Every table has the same rows. -/
structure SameTables (db db' : Database) : Prop extends Restored db db' where
  memberUsers : SameRows db.memberUsers db'.memberUsers
  voteRequests : SameRows db.voteRequests db'.voteRequests
  nodeInfos : SameRows db.nodeInfos db'.nodeInfos
  channelMessages : SameRows db.channelMessages db'.channelMessages
  logRecords : db.logRecords = db'.logRecords
  logHierarchy : db.logHierarchy = db'.logHierarchy

section Revert

variable {ms : List Message} {u : DatabaseTransaction}

/-- The tables of the log are not touched. -/
def logOf (t : DatabaseTransaction) : Table ConstDataBuffer LogRecord × Table (ConstDataBuffer × ConstDataBuffer) Unit :=
  (t.db.logRecords, t.db.logHierarchy)

theorem writesOthers_logOf : WritesOthers fun t t' => logOf t' = logOf t :=
  ⟨fun _ _ => rfl, fun _ _ => rfl, fun _ _ => rfl, fun _ _ => rfl, fun _ _ => rfl, fun _ _ => rfl, fun _ _ => rfl,
    fun _ _ => rfl, fun _ _ => rfl⟩

theorem AppliesTo.logOf (ha : AppliesTo sp block ms t t') : LogSync.logOf t' = LogSync.logOf t := by
  induction ms generalizing t with
  | nil =>
    cases ha
    rfl
  | cons m ms ih =>
    obtain ⟨t₁, hm, hms⟩ := ha
    have hone : LogSync.logOf t₁ = LogSync.logOf t :=
      (moves_applyRecord writesOthers_logOf (fun _ _ => rfl) m block).ok hm
    exact (ih hms).trans hone

theorem undoAll_logOf (h : undoAll sp block ms t = .ok () u) : logOf u = logOf t :=
  (Moves.forM fun m _ => moves_undoRecord writesOthers_logOf (fun _ _ => rfl) m block).ok h

/-- The messages that were applied and undone have left nothing behind just if each can be taken back. -/
theorem sameTables_iff (ha : AppliesTo sp block ms t t') (hu : undoAll sp block ms t' = .ok () u) :
    SameTables u.db t.db ↔ ∀ m ∈ ms, Revertible block t.db m := by
  obtain ⟨hmessages, husers, hvotes, hnodes⟩ := undoAll_rest hu
  have hmessagesIff := ha.messages.removed_iff hmessages
  constructor
  · intro hs m hm
    cases m with
    | payment | createWallet | assetIssue | storeBlock | hostBlock => exact trivial
    | channelMessage m =>
      intro k row hk hrow
      exact hmessagesIff.mp hs.channelMessages k row hk ⟨m, hm, hrow⟩
    | createUser c =>
      obtain ⟨hn, hhere⟩ := ha.user_added hm
      rw [← husers, hs.memberUsers, hn] at hhere
      exact hhere rfl
    | nodeAdd c =>
      obtain ⟨hn, hhere⟩ := ha.vote_added hm
      rw [← hvotes, hs.voteRequests, hn] at hhere
      exact hhere rfl
  · intro hrev
    have hnoUser : ∀ c, .createUser c ∉ ms := fun c hc => hrev _ hc
    have hnoNode : ∀ c, .nodeAdd c ∉ ms := fun c hc => hrev _ hc
    obtain ⟨husers', hvotes', hnodes'⟩ := ha.unchanged hnoUser hnoNode
    obtain ⟨u', hrun, hrestored⟩ := undoAll_restores ha (Restored.refl t'.db)
    obtain rfl : u' = u := by
      rw [hu] at hrun
      cases hrun
      rfl
    have hlog : logOf u' = logOf t := (undoAll_logOf hu).trans ha.logOf
    obtain ⟨hrecords, hhierarchy⟩ : u'.db.logRecords = t.db.logRecords ∧ u'.db.logHierarchy = t.db.logHierarchy := by
      simpa only [logOf, Prod.mk.injEq] using hlog
    refine ⟨hrestored, ?_, ?_, ?_, ?_, hrecords, hhierarchy⟩
    · rw [husers, husers']
      exact .refl _
    · rw [hvotes, hvotes']
      exact .refl _
    · rw [hnodes hnoNode, hnodes']
      exact .refl _
    · refine hmessagesIff.mpr ?_
      rintro k row hk ⟨c, hc, hrow⟩
      exact hrev _ hc k row hk hrow

end Revert

end Vds.LogSync
