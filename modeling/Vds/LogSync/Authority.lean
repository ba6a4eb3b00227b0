import Vds.LogSync.Replay
import Vds.LogSync.Shown

/-! Who has signed the messages of the applied blocks. Payments and asset issues are checked under
the key registered for the wallet or the user when they are applied; the owner's signature of a
stored object is never looked at. -/

namespace Vds.LogSync

open BinarySerializer Transactions StateError Dbo

variable {sp : ServiceProvider} {crypto : Crypto}

/-- What `store_block_transaction::create` signs. -/
def signatureData (m : StoreBlockTransaction) : ConstDataBuffer :=
  putData m.ownerId ++ putData m.objectId ++ putUInt64 m.objectSize ++ putUInt32 m.replicaSize ++
    putAll putData m.replicas

/-- `id` names the key under which the signature verifies. -/
def SignedBy (crypto : Crypto) (id signature data : ConstDataBuffer) : Prop :=
  ∃ key, crypto.fingerprint key = id ∧ crypto.verify key signature data = .ok true

/-- The message carries the signature of the one in whose name it acts. -/
def Authorised (crypto : Crypto) : Message → Prop
  | .payment m => SignedBy crypto m.sourceWallet m.signature m.signatureData
  | .assetIssue m => SignedBy crypto m.issuer m.signature m.signatureData
  | .storeBlock m => SignedBy crypto m.ownerId m.ownerSig (signatureData m)
  | .channelMessage _ | .createUser _ | .nodeAdd _ | .createWallet _ | .hostBlock _ => True

/-- `parse_der` takes the DER form of a key for no other key. -/
def DerRoundTrip (crypto : Crypto) : Prop :=
  ∀ key key', crypto.parseDer key.der = .ok key' → key' = key

/-- The rows of wallets and users stand under the fingerprints of their keys. -/
structure KeysKnown (crypto : Crypto) (db : Database) : Prop where
  wallets : ∀ id publicKey, db.wallets.lookup id = some publicKey →
    ∀ key, crypto.parseDer publicKey = .ok key → crypto.fingerprint key = id
  users : ∀ id publicKey, db.memberUsers.lookup id = some publicKey →
    ∀ key, crypto.parseDer publicKey = .ok key → crypto.fingerprint key = id

/-- The registered keys. -/
def keysOf (t : DatabaseTransaction) :
    Table ConstDataBuffer ConstDataBuffer × Table ConstDataBuffer ConstDataBuffer :=
  (t.db.wallets, t.db.memberUsers)

theorem KeysKnown.of_eq {t t' : DatabaseTransaction} (h : KeysKnown crypto t.db)
    (he : keysOf t' = keysOf t) : KeysKnown crypto t'.db := by
  obtain ⟨hw, hu⟩ := Prod.mk.inj he
  exact ⟨hw ▸ h.wallets, hu ▸ h.users⟩

theorem KeysKnown.of_frames {t t' : DatabaseTransaction} {α : Type} {x : LogM α} {a : α}
    (h : KeysKnown crypto t.db) (hf : Frames keysOf x) (hx : x t = .ok a t') :
    KeysKnown crypto t'.db := h.of_eq (hf.ok hx)

/-! ### Messages -/

section Messages

variable {block : TransactionBlock} {t t' : DatabaseTransaction}

theorem applyPayment_signed {m : PaymentTransaction} (h : applyPayment sp m block t = .ok true t') :
    ∃ publicKey key, t.db.wallets.lookup m.sourceWallet = some publicKey ∧
      sp.crypto.parseDer publicKey = .ok key ∧
      sp.crypto.verify key m.signature m.signatureData = .ok true := by
  unfold applyPayment at h
  rw [find_bind] at h
  cases hw : t.db.wallets.lookup m.sourceWallet with
  | none =>
    simp only [Orm.wallet_rows, hw] at h
    cases h
  | some publicKey =>
    simp only [Orm.wallet_rows, hw, getExpected_bind_eq_ok] at h
    obtain ⟨key, hk, ok, hv, h⟩ := h
    cases ok with
    | true => exact ⟨publicKey, key, rfl, hk, hv⟩
    | false => cases h

theorem applyAssetIssue_signed {m : AssetIssueTransaction}
    (h : applyAssetIssue sp m block t = .ok true t') :
    ∃ publicKey key, t.db.memberUsers.lookup m.issuer = some publicKey ∧
      sp.crypto.parseDer publicKey = .ok key ∧
      sp.crypto.verify key m.signature m.signatureData = .ok true := by
  unfold applyAssetIssue at h
  rw [find_bind] at h
  cases hu : t.db.memberUsers.lookup m.issuer with
  | none =>
    simp only [Orm.memberUser_rows, hu] at h
    cases h
  | some publicKey =>
    simp only [Orm.memberUser_rows, hu, getExpected_bind_eq_ok] at h
    obtain ⟨key, hk, ok, hv, h⟩ := h
    cases ok with
    | true => exact ⟨publicKey, key, rfl, hk, hv⟩
    | false => cases h

/-- A payment or an asset issue that is applied is authorised. -/
theorem applyRecord_authorised {m : Message} (hm : isMoney m = true) (h : KeysKnown sp.crypto t.db)
    (ha : applyRecord sp m block t = .ok true t') : Authorised sp.crypto m := by
  cases m with
  | payment m =>
    obtain ⟨publicKey, key, hw, hk, hv⟩ := applyPayment_signed ha
    exact ⟨key, h.wallets _ _ hw key hk, hv⟩
  | assetIssue m =>
    obtain ⟨publicKey, key, hu, hk, hv⟩ := applyAssetIssue_signed ha
    exact ⟨key, h.users _ _ hu key hk, hv⟩
  | channelMessage | createUser | nodeAdd | createWallet | storeBlock | hostBlock => cases hm

theorem applyRecord_keys {m : Message} {b : Bool} (hd : DerRoundTrip sp.crypto)
    (h : KeysKnown sp.crypto t.db) (ha : applyRecord sp m block t = .ok b t') :
    KeysKnown sp.crypto t'.db := by
  cases m with
  | payment m => exact h.of_frames (moves_applyPayment (fun _ _ => rfl) m block) ha
  | assetIssue m => exact h.of_frames (moves_applyAssetIssue (fun _ _ => rfl) m block) ha
  | channelMessage m =>
    exact h.of_frames (moves_applyChannelMessage (fun _ _ => rfl) (fun _ _ => rfl) m block) ha
  | nodeAdd m => exact h.of_frames (moves_applyNodeAdd (fun _ _ => rfl) (fun _ _ => rfl) m block) ha
  | storeBlock m =>
    exact h.of_frames
      (moves_applyStoreBlock (fun _ _ => rfl) (fun _ _ => rfl) (fun _ _ => rfl) m block) ha
  | hostBlock m =>
    exact h.of_frames ((moves_insertReplicaPayment (fun _ _ => rfl) (fun _ _ => rfl) _ _ block).bind
      fun _ => Moves.pure true) ha
  | createUser m =>
    obtain ⟨-, ha⟩ := (insert_bind_eq_ok Orm.memberUser).mp ha
    cases ha
    refine ⟨h.wallets, fun id publicKey hu key hk => ?_⟩
    simp only [Orm.memberUser_rows, Orm.memberUser, Table.lookup_insert_eq] at hu
    split_ifs at hu with hid
    · cases hu
      rw [hd _ _ hk, hid]
    · exact h.users id publicKey hu key hk
  | createWallet m =>
    simp only [applyRecord, applyCreateWallet, getExpected_bind_eq_ok] at ha
    obtain ⟨key₀, hk₀, ha⟩ := ha
    split_ifs at ha with hnil
    · cases ha
    · obtain ⟨-, ha⟩ := (insert_bind_eq_ok Orm.wallet).mp ha
      cases ha
      refine ⟨fun id publicKey hw key hk => ?_, h.users⟩
      simp only [Orm.wallet_rows, Orm.wallet, Table.lookup_insert_eq] at hw
      split_ifs at hw with hid
      · cases hw
        cases hk.symm.trans hk₀
        exact hid.symm
      · exact h.wallets id publicKey hw key hk

theorem undoRecord_keys {m : Message} {u : Unit} (h : KeysKnown sp.crypto t.db)
    (hu : undoRecord sp m block t = .ok u t') : KeysKnown sp.crypto t'.db := by
  cases m with
  | payment m => exact h.of_frames (moves_undoPayment (fun _ _ => rfl) m block) hu
  | assetIssue m => exact h.of_frames (moves_undoAssetIssue (fun _ _ => rfl) m block) hu
  | channelMessage m => exact h.of_frames (moves_deleteIf (fun _ _ => rfl) _) hu
  | createUser m => exact h.of_frames (Moves.pure ()) hu
  | nodeAdd m => exact h.of_frames (moves_delete (fun _ _ => rfl) _) hu
  | storeBlock m =>
    exact h.of_frames
      (moves_undoStoreBlock (fun _ _ => rfl) (fun _ _ => rfl) (fun _ _ => rfl) m block) hu
  | hostBlock m =>
    exact h.of_frames (moves_deleteReplicaPayment (fun _ _ => rfl) (fun _ _ => rfl) _ _ block) hu
  | createWallet m =>
    simp only [undoRecord, undoCreateWallet, getExpected_bind_eq_ok] at hu
    obtain ⟨key₀, -, hu⟩ := hu
    cases hu
    refine ⟨fun id publicKey hw key hk => ?_, h.users⟩
    simp only [Orm.wallet, Table.lookup_erase_eq] at hw
    split_ifs at hw
    exact h.wallets id publicKey hw key hk

theorem undoAll_keys {ms : List Message} {u : Unit} (h : KeysKnown sp.crypto t.db)
    (hu : undoAll sp block ms t = .ok u t') : KeysKnown sp.crypto t'.db :=
  forM_induct (I := fun _ s => KeysKnown sp.crypto s.db) hu h
    fun _ _ _ _ hI hm => undoRecord_keys hI hm

theorem AppliesTo.keys {ms : List Message} (ha : AppliesTo sp block ms t t')
    (hd : DerRoundTrip sp.crypto) (h : KeysKnown sp.crypto t.db) :
    KeysKnown sp.crypto t'.db ∧ ∀ m ∈ ms, isMoney m = true → Authorised sp.crypto m := by
  induction ms generalizing t with
  | nil =>
    cases ha
    exact ⟨h, fun m hm => absurd hm List.not_mem_nil⟩
  | cons m ms ih =>
    obtain ⟨t₁, hm, ha⟩ := ha
    obtain ⟨h', hms⟩ := ih ha (applyRecord_keys hd h hm)
    exact ⟨h', List.forall_mem_cons.mpr ⟨fun hmon => applyRecord_authorised hmon h hm, hms⟩⟩

theorem Judged.keys {s : RecordState} (hj : Judged sp block t s t') (hd : DerRoundTrip sp.crypto)
    (h : KeysKnown sp.crypto t.db) : KeysKnown sp.crypto t'.db := by
  cases hj with
  | @applied votes t₂ rows good votes_eq records rows_eq =>
    obtain ⟨ms, -, happ⟩ := processRecords_eq_ok_true.mp records
    obtain ⟨hk, -⟩ := happ.keys hd ⟨h.wallets, h.users⟩
    exact ⟨hk.wallets, hk.users⟩
  | @refused votes t₂ rows good votes_eq records rows_eq =>
    obtain ⟨ms, t₁, happ, hundo⟩ := processRecords_eq_ok_false records
    obtain ⟨hk, -⟩ := happ.keys hd ⟨h.wallets, h.users⟩
    have hk₂ := undoAll_keys hk hundo
    exact ⟨hk₂.wallets, hk₂.users⟩
  | rejected bad votes_eq rows_eq => exact ⟨h.wallets, h.users⟩

/-- The messages of a block that gets applied. -/
theorem Judged.authorised (hj : Judged sp block t .leaf t') (hd : DerRoundTrip sp.crypto)
    (h : KeysKnown sp.crypto t.db) :
    ∃ ms, block.messages sp.crypto = .ok ms ∧ ∀ m ∈ ms, isMoney m = true → Authorised sp.crypto m := by
  cases hj with
  | applied good votes_eq records rows_eq =>
    obtain ⟨ms, hms, happ⟩ := processRecords_eq_ok_true.mp records
    exact ⟨ms, hms, (happ.keys hd ⟨h.wallets, h.users⟩).2⟩

end Messages

/-! ### The steps -/

/-- The invariant of the machine. -/
structure Config.Signed (crypto : Crypto) (c : Config) : Prop where
  shown : c.Shown crypto
  keys : KeysKnown crypto c.t.db
  money : ∀ id m, Carries crypto c.t.db id m → isMoney m = true → Authorised crypto m

theorem Step.keys {c c' : Config} (hd : DerRoundTrip sp.crypto) (h : KeysKnown sp.crypto c.t.db)
    (hs : Step sp c c') : KeysKnown sp.crypto c'.t.db := by
  cases hs with
  | tick | start | pass | reprocessed | finish | confirm | confirmInvalid | confirmed | rollback
  | rolledBack | skip | retried => exact ⟨h.wallets, h.users⟩
  | store parses inserted =>
    exact h.of_frames (moves_insertBlock (fun _ _ => rfl) (fun _ _ => rfl) _ _) inserted
  | wait parses waits =>
    obtain ⟨-, rfl, -⟩ := (processBlock_eq_ok waits).resolve_right fun h => by
      rcases h.2.state_eq with h | h <;> cases h
    exact ⟨h.wallets, h.users⟩
  | judge parses judged verdict =>
    obtain ⟨-, hj⟩ := (processBlock_eq_ok judged).resolve_left fun h => verdict h.1
    exact hj.keys hd ⟨h.wallets, h.users⟩
  | elect walk | propose walk =>
    obtain ⟨votes, journal, rfl⟩ := OnlyVotes.voteWalk walk
    exact ⟨h.wallets, h.users⟩
  | records parses done =>
    exact h.of_frames (moves_consensusRecords (fun _ _ => rfl) _ fun _ => rfl) done
  | follow found pushed =>
    exact h.of_frames (moves_pushFollowers (fun _ _ => rfl) _ _ _ _ _) pushed
  | undo parses undone ancestors =>
    obtain ⟨ms, -, hundo⟩ := undoRecords_eq_ok undone
    have h₁ := undoAll_keys h hundo
    obtain ⟨rows, rfl⟩ := (rollbackAncestors_eq_ok ancestors).records
    exact ⟨h₁.wallets, h₁.users⟩
  | again invalid parses cleared judged =>
    obtain ⟨-, hj⟩ := (processBlock_eq_ok judged).resolve_left fun h => nomatch h.1
    exact hj.keys hd (h.of_frames (moves_invalidBlock (fun _ _ => rfl) _ _ _) cleared)

theorem Config.Signed.step {c c' : Config} (hd : DerRoundTrip sp.crypto) (h : c.Signed sp.crypto)
    (hs : Step sp c c') : c'.Signed sp.crypto := by
  refine ⟨h.shown.step hs, hs.keys hd h.keys, fun id m hc hm => ?_⟩
  obtain ⟨ha, data, hdata, hmem⟩ := hc
  rcases hs.applied h.shown.wellFormed h.shown.shown ha with ha | ⟨hj⟩
  · have hdata' : ∃ data', dataOf c.t.db id = some data' := by
      unfold Applied stateOf at ha
      unfold dataOf
      cases hr : c.t.db.logRecords.lookup id with
      | none =>
        rw [hr] at ha
        rcases ha with ha | ha <;> cases ha
      | some row => exact ⟨row.data, rfl⟩
    obtain ⟨data', hdata'⟩ := hdata'
    cases (hs.dataGrows id data' hdata').symm.trans hdata
    exact h.money id m ⟨ha, data, hdata', hmem⟩ hm
  · obtain ⟨t₀, rows, journal, block, ht, hst, rfl, hj⟩ := hj
    have hkeys : KeysKnown sp.crypto t₀.db := by
      rw [ht]
      exact ⟨h.keys.wallets, h.keys.users⟩
    obtain ⟨ms, hms, hauth⟩ := hj.authorised hd hkeys
    obtain ⟨data₀, hdata₀, hb⟩ := stored_iff.mp hst
    rw [dataOf_congr hj.blocksOf, hdata₀] at hdata
    cases hdata
    rw [messagesOf_eq hb hms] at hmem
    exact hauth m hmem hm

theorem Config.Signed.empty (crypto : Crypto) : (Config.rest {}).Signed crypto where
  shown := Config.Shown.empty crypto
  keys := ⟨fun _ _ h => (nomatch h), fun _ _ h => (nomatch h)⟩
  money _ _ h := absurd h.1 (by rintro (h | h) <;> cases h)

/-! ### Runs -/

/-- The owners have signed the objects that stored blocks put on their account. -/
def StoresSigned (crypto : Crypto) (db : Database) : Prop :=
  ∀ id data, dataOf db id = some data → ∀ m, .storeBlock m ∈ messagesOf crypto data →
    Authorised crypto (.storeBlock m)

/-- After every run the applied payments and asset issues are authorised. -/
theorem Run.money_authorised {blocks : List ConstDataBuffer} {journal : List Event} {db : Database}
    (hd : DerRoundTrip sp.crypto) (h : Run sp {} blocks journal db) {id : ConstDataBuffer} {m : Message}
    (hc : Carries sp.crypto db id m) (hm : isMoney m = true) : Authorised sp.crypto m := by
  obtain ⟨t, rfl, rfl, ps, pr, hs⟩ := h.steps
  have hall : AllGood (fun _ => True) t := fun _ _ => trivial
  have := hs.invariant (I := Config.Signed sp.crypto) (Config.Signed.empty sp.crypto)
    (fun _ _ _ hi hs => hi.step hd hs) hall
  exact this.money id m hc hm

/-- All applied messages are authorised, if the owners have signed what is stored for them. -/
theorem authorised_of_storesSigned {blocks : List ConstDataBuffer} {journal : List Event}
    {db : Database} (hd : DerRoundTrip sp.crypto) (h : Run sp {} blocks journal db)
    (hs : StoresSigned sp.crypto db) : ∀ id m, Carries sp.crypto db id m → Authorised sp.crypto m := by
  intro id m hc
  cases m with
  | payment m => exact h.money_authorised hd hc rfl
  | assetIssue m => exact h.money_authorised hd hc rfl
  | storeBlock m =>
    obtain ⟨-, data, hdata, hm⟩ := hc
    exact hs id data hdata m hm
  | channelMessage | createUser | nodeAdd | createWallet | hostBlock => trivial

theorem derRoundTrip_sample (accept : Bool) : DerRoundTrip (sampleCrypto accept) := by
  intro key key' h
  simp only [sampleCrypto] at h
  split_ifs at h
  cases h
  rfl

/-- An object of the user in one replica, without a signature. -/
def sampleStore : Message := .storeBlock ⟨sampleUser, sampleId 70, 100, 10, [sampleId 71], []⟩

theorem authorised_of_storesSigned_sample : ∃ journal db,
    Run sampleProvider {} [sampleBlock 3 3 (sampleNode 1) [sampleId 2] [samplePayment 2 60 4, sampleStore],
      sampleBlock 2 2 (sampleNode 1) [sampleId 1] [sampleIssue 10], sampleRoot] journal db ∧
      ∀ id m, Carries sampleProvider.crypto db id m → Authorised sampleProvider.crypto m := by
  have hs : (saveAll sampleProvider 9 [sampleRoot,
      sampleBlock 2 2 (sampleNode 1) [sampleId 1] [sampleIssue 10],
      sampleBlock 3 3 (sampleNode 1) [sampleId 2] [samplePayment 2 60 4, sampleStore]]
      { db := {} }).isSome = true := by
    decide +kernel
  obtain ⟨t, ht⟩ := Option.isSome_iff_exists.mp hs
  have hrun := Run.saveAll (t := { db := {} }) .refl ht
  refine ⟨_, _, hrun, authorised_of_storesSigned (derRoundTrip_sample true) hrun ?_⟩
  exact fun id data hd m hm => ⟨⟨m.ownerId⟩, rfl, rfl⟩

/-- Nobody has signed anything here, and the object is stored for the user. -/
theorem not_authorised_store : ∃ blocks journal db,
    Run ⟨sampleCrypto false, sampleId 0⟩ {} blocks journal db ∧
      ∃ id m, Carries (sampleCrypto false) db id m ∧ ¬Authorised (sampleCrypto false) m := by
  have hs : (saveAll ⟨sampleCrypto false, sampleId 0⟩ 9 [sampleRoot,
      sampleBlock 2 2 (sampleNode 1) [sampleId 1] [sampleStore]] { db := {} }).any (fun t =>
        Carries (sampleCrypto false) t.db (sampleId 2) sampleStore) = true := by
    decide +kernel
  obtain ⟨t, ht, hc⟩ := (Option.any_eq_true ..).mp hs
  refine ⟨_, _, _, Run.saveAll (t := { db := {} }) .refl ht, _, _, of_decide_eq_true hc, ?_⟩
  rintro ⟨key, -, hv⟩
  cases hv

end Vds.LogSync
