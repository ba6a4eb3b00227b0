import Vds.LogSync.Inverse
import Vds.LogSync.Build

/-! A block whose messages were undone can be applied again, and which blocks leave nothing behind. -/

namespace Vds.LogSync

open Transactions StateError Dbo Table

variable {sp : ServiceProvider} {block : TransactionBlock} {t t' u : DatabaseTransaction}

/-! ### Databases in which the messages do the same -/

/-- No channel message has a number beyond the counter of the column, which sqlite guarantees. -/
def Numbered (db : Database) : Prop := ∀ id row, db.channelMessages.lookup id = some row → id ≤ db.channelMessageSeq

/-- The same rows, but for the numbers of the channel messages. -/
structure Alike (t u : DatabaseTransaction) : Prop where
  now : t.now = u.now
  restored : Restored t.db u.db
  memberUsers : SameRows t.db.memberUsers u.db.memberUsers
  voteRequests : SameRows t.db.voteRequests u.db.voteRequests
  nodeInfos : SameRows t.db.nodeInfos u.db.nodeInfos
  numbered : Numbered t.db
  numbered' : Numbered u.db

/-- Related databases have the same rows in a table, and stay related when the same is written. -/
structure Shares {K V : Type} [DecidableEq K] (dbo : Dbo K V) (R : DatabaseTransaction → DatabaseTransaction → Prop) :
    Prop where
  rows : ∀ t u, R t u → SameRows (dbo.rows t.db) (dbo.rows u.db)
  write : ∀ t u, R t u → ∀ r r', SameRows r r' →
    R { t with db := dbo.write r t.db } { u with db := dbo.write r' u.db }

section Shares

variable {K V : Type} [DecidableEq K] {dbo : Dbo K V} {R : DatabaseTransaction → DatabaseTransaction → Prop}
  (h : Shares dbo R)
include h

theorem transfers_find (k : K) : Transfers R (dbo.find k) := by
  intro t u hR v t' ht
  cases ht
  exact ⟨u, by rw [find_apply, h.rows t u hR k], hR⟩

theorem transfers_insert (k : K) (v : V) : Transfers R (dbo.insert k v) := by
  intro t u hR a t' ht
  obtain ⟨hn, rfl⟩ := (insert_eq_ok dbo).mp ht
  refine ⟨_, (insert_eq_ok dbo).mpr ⟨?_, rfl⟩, h.write t u hR _ _ ((h.rows t u hR).insert k v)⟩
  rw [← h.rows t u hR k]
  exact hn

theorem transfers_update (k : K) (g : V → V) : Transfers R (dbo.update k g) := by
  intro t u hR a t' ht
  cases ht
  exact ⟨_, rfl, h.write t u hR _ _ ((h.rows t u hR).update k g)⟩

/-- Whether rows are selected. -/
theorem transfers_select {α : Type} (p : K → V → Bool) {f : Bool → LogM α} (hf : ∀ b, Transfers R (f b)) :
    Transfers R (do let rows ← dbo.select p; f rows.isEmpty) := by
  intro t u hR a t' ht
  rw [select_bind] at ht
  obtain ⟨u', hu, hR'⟩ := hf _ t u hR a t' ht
  refine ⟨u', ?_, hR'⟩
  rw [select_bind, ← (h.rows t u hR).select_isEmpty p]
  exact hu

end Shares

theorem shares_balance : Shares Orm.datacoinBalance Alike :=
  ⟨fun _ _ h => h.restored.balances, fun _ _ h _ _ hr => { h with restored := { h.restored with balances := hr } }⟩

theorem shares_wallet : Shares Orm.wallet Alike :=
  ⟨fun _ _ h => h.restored.wallets, fun _ _ h _ _ hr => { h with restored := { h.restored with wallets := hr } }⟩

theorem shares_memberUser : Shares Orm.memberUser Alike :=
  ⟨fun _ _ h => h.memberUsers, fun _ _ h _ _ hr =>
    ⟨h.now, ⟨h.restored.balances, h.restored.wallets, h.restored.replicaData, h.restored.replicaMap,
      h.restored.replicaPayment⟩, hr, h.voteRequests, h.nodeInfos, h.numbered, h.numbered'⟩⟩

theorem shares_vote : Shares Orm.transactionLogVoteRequest Alike :=
  ⟨fun _ _ h => h.voteRequests, fun _ _ h _ _ hr =>
    ⟨h.now, ⟨h.restored.balances, h.restored.wallets, h.restored.replicaData, h.restored.replicaMap,
      h.restored.replicaPayment⟩, h.memberUsers, hr, h.nodeInfos, h.numbered, h.numbered'⟩⟩

theorem shares_nodeInfo : Shares Orm.nodeInfo Alike :=
  ⟨fun _ _ h => h.nodeInfos, fun _ _ h _ _ hr =>
    ⟨h.now, ⟨h.restored.balances, h.restored.wallets, h.restored.replicaData, h.restored.replicaMap,
      h.restored.replicaPayment⟩, h.memberUsers, h.voteRequests, hr, h.numbered, h.numbered'⟩⟩

theorem shares_replicaData : Shares Orm.chunkReplicaData Alike :=
  ⟨fun _ _ h => h.restored.replicaData, fun _ _ h _ _ hr =>
    { h with restored := { h.restored with replicaData := hr } }⟩

theorem shares_replicaMap : Shares Orm.chunkReplicaMap Alike :=
  ⟨fun _ _ h => h.restored.replicaMap, fun _ _ h _ _ hr =>
    { h with restored := { h.restored with replicaMap := hr } }⟩

theorem shares_replicaPayment : Shares Orm.chunkReplicaPayment Alike :=
  ⟨fun _ _ h => h.restored.replicaPayment, fun _ _ h _ _ hr =>
    { h with restored := { h.restored with replicaPayment := hr } }⟩

/-! ### The messages -/

theorem transfers_getExpected {α : Type} (v : Expected α) : Transfers Alike (getExpected v) := by
  cases v with
  | ok a => exact Transfers.pure a
  | error e => exact Transfers.throw e

theorem transfers_applyPayment (m : PaymentTransaction) : Transfers Alike (applyPayment sp m block) := by
  refine (transfers_find shares_wallet _).bind fun key => ?_
  cases key with
  | none => exact Transfers.pure false
  | some publicKey =>
    refine (transfers_getExpected _).bind fun key => (transfers_getExpected _).bind fun ok => ?_
    refine Transfers.ite (Transfers.pure false) ((transfers_find shares_balance _).bind fun row => ?_)
    cases row with
    | none => exact Transfers.pure false
    | some row =>
      refine Transfers.ite (Transfers.pure false) ?_
      refine (transfers_update shares_balance _ _).bind fun _ => ?_
      exact (transfers_insert shares_balance _ _).bind fun _ => Transfers.pure true

theorem transfers_applyAssetIssue (m : AssetIssueTransaction) : Transfers Alike (applyAssetIssue sp m block) := by
  refine (transfers_find shares_memberUser _).bind fun key => ?_
  cases key with
  | none => exact Transfers.pure false
  | some publicKey =>
    refine (transfers_getExpected _).bind fun key => (transfers_getExpected _).bind fun ok => ?_
    refine Transfers.ite (Transfers.pure false) ?_
    exact (transfers_insert shares_balance _ _).bind fun _ => Transfers.pure true

theorem transfers_applyNodeAdd (m : NodeAddTransaction) : Transfers Alike (applyNodeAdd sp m block) := by
  refine (transfers_find shares_nodeInfo _).bind fun row => ?_
  have hlast : Transfers Alike (do
      Orm.transactionLogVoteRequest.insert (block.id, sp.crypto.fingerprint m.nodePublicKey)
        { approved := false, newMember := true }
      return true : LogM Bool) := (transfers_insert shares_vote _ _).bind fun _ => Transfers.pure true
  cases row with
  | none => exact (transfers_insert shares_nodeInfo _ _).bind fun _ => hlast
  | some row => exact Transfers.ite ((transfers_update shares_nodeInfo _ _).bind fun _ => hlast) hlast

theorem transfers_insertReplicaPayment (ownerId replicaHash : ConstDataBuffer) :
    Transfers Alike (insertReplicaPayment ownerId replicaHash block) := by
  have hinsert (now : TimePoint) : Transfers Alike (do
      Orm.chunkReplicaMap.insert (replicaHash, block.writePublicKeyId) (toTimeT now)
      Orm.chunkReplicaPayment.insert ⟨ownerId, replicaHash, block.writePublicKeyId⟩
        (toTimeT block.timePoint) : LogM Unit) :=
    (transfers_insert shares_replicaMap _ _).bind fun _ => transfers_insert shares_replicaPayment _ _
  have hnow : ∀ t u, Alike t u → t.now = u.now := fun t u h => h.now
  exact Transfers.read hnow hinsert

theorem transfers_storeReplica (m : StoreBlockTransaction) (index : Nat) :
    Transfers Alike (storeReplica sp m block index) := by
  refine transfers_select shares_replicaData (f := fun same => do
    if same then
      Orm.chunkReplicaData.insert ⟨m.ownerId, m.objectId, Int16.ofNat index⟩
        { replicaHash := m.replicas.getD index [], replicaSize := m.replicaSize,
          distance := UInt32.ofNat (distanceExp sp.currentNodeId (m.replicas.getD index [])) }
    else throw (.constraint Orm.chunkReplicaData.tableName)
    insertReplicaPayment m.ownerId (m.replicas.getD index []) block) _ fun same => ?_
  refine Transfers.ite ?_ ((Transfers.throw _).bind fun _ => transfers_insertReplicaPayment _ _)
  exact (transfers_insert shares_replicaData _ _).bind fun _ => transfers_insertReplicaPayment _ _

theorem Numbered.fresh {db : Database} (h : Numbered db) :
    db.channelMessages.lookup (db.channelMessageSeq + 1) = none := by
  by_contra hne
  obtain ⟨row, hrow⟩ := Option.ne_none_iff_exists'.mp hne
  exact absurd (h _ row hrow) (Nat.not_succ_le_self _)

theorem Numbered.insert {db : Database} (h : Numbered db) (row : ChannelMessageRow) :
    Numbered { db with
      channelMessageSeq := db.channelMessageSeq + 1
      channelMessages := db.channelMessages.insert (db.channelMessageSeq + 1) row } := by
  intro id row' hrow
  change (db.channelMessages.insert (db.channelMessageSeq + 1) row).lookup id = some row' at hrow
  rw [lookup_insert_eq] at hrow
  split_ifs at hrow with hid
  · exact hid.le
  · exact Nat.le_succ_of_le (h id row' hrow)

/-- A row of the channel gets the next number, whatever the counter is. -/
theorem transfers_applyChannelMessage (m : ChannelMessage) : Transfers Alike (applyChannelMessage m block) := by
  intro t u h b t' ht
  obtain ⟨rfl, hdata, -, rfl⟩ := applyChannelMessage_eq_ok ht
  let row : ChannelMessageRow :=
    { blockId := block.id, channelId := m.channelId, readId := m.readId, writeId := m.writeId,
      cryptedKey := m.cryptedKey, cryptedData := m.cryptedData, signature := m.signature }
  refine ⟨{ u with db := { u.db with
    channelMessageSeq := u.db.channelMessageSeq + 1
    channelMessages := u.db.channelMessages.insert (u.db.channelMessageSeq + 1) row } }, ?_, ?_⟩
  · have hinsert := insert_of_none Orm.channelMessage
      { u with db := { u.db with channelMessageSeq := u.db.channelMessageSeq + 1 } } row h.numbered'.fresh
    unfold applyChannelMessage
    rw [if_neg hdata, bind_of_ok (writeDb_apply _ u), bind_of_ok (get_apply _), bind_of_ok hinsert]
    rfl
  · exact ⟨h.now, ⟨h.restored.balances, h.restored.wallets, h.restored.replicaData, h.restored.replicaMap,
      h.restored.replicaPayment⟩, h.memberUsers, h.voteRequests, h.nodeInfos, h.numbered.insert row,
      h.numbered'.insert row⟩

theorem transfers_applyRecord (m : Message) : Transfers Alike (applyRecord sp m block) := by
  cases m with
  | payment m => exact transfers_applyPayment m
  | channelMessage m => exact transfers_applyChannelMessage m
  | createUser m => exact (transfers_insert shares_memberUser _ _).bind fun _ => Transfers.pure true
  | nodeAdd m => exact transfers_applyNodeAdd m
  | createWallet m =>
    refine (transfers_getExpected _).bind fun key => Transfers.ite (Transfers.throw _) ?_
    exact (transfers_insert shares_wallet _ _).bind fun _ => Transfers.pure true
  | assetIssue m => exact transfers_applyAssetIssue m
  | storeBlock m =>
    exact (Transfers.forM fun index _ => transfers_storeReplica m index).bind fun _ => Transfers.pure true
  | hostBlock m => exact (transfers_insertReplicaPayment _ _).bind fun _ => Transfers.pure true

theorem AppliesTo.transfer {ms : List Message} (ha : AppliesTo sp block ms t t') (h : Alike t u) :
    ∃ u', AppliesTo sp block ms u u' := by
  induction ms generalizing t u with
  | nil => exact ⟨u, rfl⟩
  | cons m ms ih =>
    obtain ⟨t₁, hm, hms⟩ := ha
    obtain ⟨u₁, hu, h₁⟩ := transfers_applyRecord m t u h true t₁ hm
    obtain ⟨u', hu'⟩ := ih hms h₁
    exact ⟨u', u₁, hu, hu'⟩

/-! ### The messages that a block begins with -/

/-- The data begins with these messages. -/
def Begins (crypto : Crypto) : List Message → ConstDataBuffer → Prop
  | [], _ => True
  | m :: ms, data => data ≠ [] ∧ ∃ rest, getMessage crypto data = .ok m rest ∧ Begins crypto ms rest

/-- Every message up to the first one that cannot be applied can be taken back. -/
def AllRevertible (sp : ServiceProvider) (block : TransactionBlock) (t : DatabaseTransaction) : Prop :=
  ∀ ms t₁, Begins sp.crypto ms block.blockMessages → AppliesTo sp block ms t t₁ →
    ∀ m ∈ ms, Revertible block t.db m

theorem Begins.prefix {crypto : Crypto} {ms ms' : List Message} {data : ConstDataBuffer} (h : Begins crypto ms data)
    (h' : Begins crypto ms' data) : ms <+: ms' ∨ ms' <+: ms := by
  induction ms generalizing ms' data with
  | nil => exact .inl List.nil_prefix
  | cons m ms ih =>
    cases ms' with
    | nil => exact .inr List.nil_prefix
    | cons m' ms' =>
      obtain ⟨-, rest, hm, hms⟩ := h
      obtain ⟨-, rest', hm', hms'⟩ := h'
      rw [hm] at hm'
      cases hm'
      rw [List.cons_prefix_cons, List.cons_prefix_cons]
      exact (ih hms hms').imp (⟨rfl, ·⟩) (⟨rfl, ·⟩)

theorem Begins.left {crypto : Crypto} {ms ms' : List Message} {data : ConstDataBuffer}
    (h : Begins crypto (ms ++ ms') data) : Begins crypto ms data := by
  induction ms generalizing data with
  | nil => exact trivial
  | cons m ms ih =>
    obtain ⟨hdata, rest, hm, hms⟩ := h
    exact ⟨hdata, rest, hm, ih hms⟩

/-- A walk that stops has visited the first messages. -/
theorem walk_stops {σ : Type} {crypto : Crypto} {visit : Message → EStateM Error σ Bool} {n : Nat}
    {data : ConstDataBuffer} {s s' : σ} (h : walk crypto visit n data s = .ok false s') :
    ∃ ms m s₁, Begins crypto (ms ++ [m]) data ∧ visitAll visit ms s = .ok true s₁ ∧ visit m s₁ = .ok false s' := by
  induction n generalizing data s with
  | zero =>
    cases data with
    | nil => cases h
    | cons => cases h
  | succ n ih =>
    cases data with
    | nil => cases h
    | cons b data =>
      unfold walk at h
      cases hm : getMessage crypto (b :: data) with
      | error e rest =>
        rw [hm] at h
        cases h
      | ok m rest =>
        rw [hm] at h
        obtain ⟨go, s₁, hv, hg⟩ := bind_eq_ok.mp h
        cases go with
        | false =>
          cases hg
          exact ⟨[], m, s, ⟨List.cons_ne_nil b data, rest, hm, trivial⟩, rfl, hv⟩
        | true =>
          obtain ⟨ms, m', s₂, hbegins, hms, hm'⟩ := ih hg
          exact ⟨m :: ms, m', s₂, ⟨List.cons_ne_nil b data, rest, hm, hbegins⟩,
            visitAll_cons_eq_ok_true.mpr ⟨s₁, hv, hms⟩, hm'⟩

theorem begins_iff {crypto : Crypto} {n : Nat} {data : ConstDataBuffer} {ms ms' : List Message}
    (h : parseMessages crypto n data = .ok ms) : Begins crypto ms' data ↔ ms' <+: ms := by
  induction n generalizing data ms ms' with
  | zero =>
    cases data with
    | nil =>
      cases h
      cases ms' with
      | nil => exact iff_of_true trivial List.nil_prefix
      | cons m' ms' => exact iff_of_false (fun h => h.1 rfl) (by simp)
    | cons => cases h
  | succ n ih =>
    cases data with
    | nil =>
      cases h
      cases ms' with
      | nil => exact iff_of_true trivial List.nil_prefix
      | cons m' ms' => exact iff_of_false (fun h => h.1 rfl) (by simp)
    | cons b data =>
      unfold parseMessages at h
      cases hm : getMessage crypto (b :: data) with
      | error e rest =>
        rw [hm] at h
        cases h
      | ok m rest =>
        rw [hm] at h
        dsimp only at h
        cases hr : parseMessages crypto n rest with
        | error e =>
          rw [hr] at h
          cases h
        | ok tail =>
          rw [hr] at h
          cases h
          cases ms' with
          | nil => exact iff_of_true trivial List.nil_prefix
          | cons m' ms' =>
            rw [List.cons_prefix_cons, ← ih hr]
            constructor
            · rintro ⟨-, rest', hm', hms'⟩
              rw [hm] at hm'
              cases hm'
              exact ⟨rfl, hms'⟩
            · rintro ⟨rfl, hms'⟩
              exact ⟨List.cons_ne_nil b data, rest, hm, hms'⟩

/-- A block that is refused has its first messages applied and undone again. -/
theorem processRecords_refused (h : processRecords sp block t = .ok false t') :
    ∃ ms m t₁, Begins sp.crypto (ms ++ [m]) block.blockMessages ∧ AppliesTo sp block ms t t₁ ∧
      applyRecord sp m block t₁ = .ok false t₁ ∧ undoAll sp block ms t₁ = .ok () t' := by
  unfold processRecords at h
  cases hw : block.walkMessages sp.crypto (applyVisitor sp block) (t, []) with
  | error e p =>
    rw [hw] at h
    cases h
  | ok b p =>
    obtain ⟨t₂, us⟩ := p
    rw [hw] at h
    cases b with
    | true => cases h
    | false =>
      obtain ⟨ms, m, ⟨t₁, us₁⟩, hbegins, hms, hm⟩ := walk_stops hw
      obtain ⟨happ, hus⟩ := visitAll_applyVisitor.mp hms
      obtain ⟨hm, hus'⟩ := applyVisitor_eq_ok.mp hm
      obtain rfl : t₂ = t₁ := applyRecord_eq_ok_false hm
      obtain ⟨_, t₃, hundo, hr⟩ := bind_eq_ok.mp h
      cases hr
      refine ⟨ms, m, t₂, hbegins, happ, hm, ?_⟩
      cases hus
      cases hus'
      simpa [undoAll] using hundo

theorem AppliesTo.append {ms ms' : List Message} (h : AppliesTo sp block (ms ++ ms') t t') :
    ∃ t₁, AppliesTo sp block ms t t₁ ∧ AppliesTo sp block ms' t₁ t' := by
  induction ms generalizing t with
  | nil => exact ⟨t, rfl, h⟩
  | cons m ms ih =>
    obtain ⟨t₁, hm, hms⟩ := h
    obtain ⟨t₂, h₁, h₂⟩ := ih hms
    exact ⟨t₂, ⟨t₁, hm, h₁⟩, h₂⟩

theorem AppliesTo.unique {ms : List Message} {t₁ t₂ : DatabaseTransaction} (h₁ : AppliesTo sp block ms t t₁)
    (h₂ : AppliesTo sp block ms t t₂) : t₁ = t₂ := by
  induction ms generalizing t with
  | nil =>
    cases h₁
    cases h₂
    rfl
  | cons m ms ih =>
    obtain ⟨s₁, hm₁, hms₁⟩ := h₁
    obtain ⟨s₂, hm₂, hms₂⟩ := h₂
    rw [hm₁] at hm₂
    cases hm₂
    exact ih hms₁ hms₂

/-- When the block is refused, the messages in front of the refused one are those that count. -/
theorem allRevertible_iff_refused {ms : List Message} {m : Message} {t₁ : DatabaseTransaction}
    (hb : Begins sp.crypto (ms ++ [m]) block.blockMessages) (ha : AppliesTo sp block ms t t₁)
    (hm : applyRecord sp m block t₁ = .ok false t₁) :
    AllRevertible sp block t ↔ ∀ m' ∈ ms, Revertible block t.db m' := by
  constructor
  · exact fun h => h ms t₁ hb.left ha
  · intro h ms' t₂ hb' ha' m' hm'
    have hnot : ¬ms ++ [m] <+: ms' := by
      rintro ⟨rest, rfl⟩
      rw [List.append_assoc] at ha'
      obtain ⟨t₃, hfirst, t₄, hone, -⟩ := ha'.append
      rw [hfirst.unique ha, hm] at hone
      cases hone
    rcases hb'.prefix hb with hp | hp
    · rcases List.prefix_concat_iff.mp hp with rfl | hp
      · exact absurd List.prefix_rfl hnot
      · exact h m' (hp.subset hm')
    · exact absurd hp hnot

theorem allRevertible_iff_applied {ms : List Message} (hp : block.messages sp.crypto = .ok ms)
    (ha : AppliesTo sp block ms t t') : AllRevertible sp block t ↔ ∀ m ∈ ms, Revertible block t.db m := by
  have hbegins (ms' : List Message) : Begins sp.crypto ms' block.blockMessages ↔ ms' <+: ms := begins_iff hp
  constructor
  · exact fun h => h ms t' ((hbegins ms).mpr List.prefix_rfl) ha
  · exact fun h ms' t₂ hb' _ m hm => h m (((hbegins ms').mp hb').subset hm)

/-! ### Apply and undo -/

theorem undoRecords_of_messages {ms : List Message} (hp : block.messages sp.crypto = .ok ms) :
    undoRecords sp block t = undoAll sp block ms t := by
  have hwalk : block.walkMessages sp.crypto
      (fun message => do modify (message :: ·); return true : Message → EStateM Error (List Message) Bool)
      ([] : List Message) = .ok true (ms.reverse ++ []) :=
    walk_eq_ok_true.mpr ⟨ms, hp, visitAll_push.mpr rfl⟩
  unfold undoRecords
  rw [hwalk, List.append_nil]
  rfl

/-- `undo_records` brings back all tables, so that the block can be applied again. -/
def UndoInverts (sp : ServiceProvider) (block : TransactionBlock) (t t' : DatabaseTransaction) : Prop :=
  ∃ u, undoRecords sp block t' = .ok () u ∧ SameTables u.db t.db ∧ ∃ u', processRecords sp block u = .ok true u'

theorem numbered_applyRecord {m : Message} (ha : applyRecord sp m block t = .ok true t') (h : Numbered t.db) :
    Numbered t'.db := by
  have halike : Alike t t := ⟨rfl, Restored.refl _, .refl _, .refl _, .refl _, h, h⟩
  obtain ⟨u', -, h'⟩ := transfers_applyRecord m t t halike true t' ha
  exact h'.numbered

theorem AppliesTo.numbered {ms : List Message} (ha : AppliesTo sp block ms t t') (h : Numbered t.db) :
    Numbered t'.db := by
  induction ms generalizing t with
  | nil =>
    cases ha
    exact h
  | cons m ms ih =>
    obtain ⟨t₁, hm, hms⟩ := ha
    exact ih hms (numbered_applyRecord hm h)

theorem frames_undoRecord_seq (m : Message) : Frames (fun t => t.db.channelMessageSeq) (undoRecord sp m block) := by
  cases m with
  | payment m => exact moves_undoPayment (fun _ _ => rfl) m block
  | channelMessage m => exact moves_deleteIf (fun _ _ => rfl) _
  | createUser m => exact Moves.pure ()
  | nodeAdd m => exact moves_delete (fun _ _ => rfl) _
  | createWallet m => exact moves_undoCreateWallet (fun _ _ => rfl) m
  | assetIssue m => exact moves_undoAssetIssue (fun _ _ => rfl) m block
  | storeBlock m => exact moves_undoStoreBlock (fun _ _ => rfl) (fun _ _ => rfl) (fun _ _ => rfl) m block
  | hostBlock m => exact moves_deleteReplicaPayment (fun _ _ => rfl) (fun _ _ => rfl) _ _ block

theorem numbered_undoAll {ms : List Message} (hu : undoAll sp block ms t = .ok () u) (h : Numbered t.db) :
    Numbered u.db := by
  obtain ⟨hmessages, -⟩ := undoAll_rest hu
  have hframe : Frames (fun t => t.db.channelMessageSeq) (undoAll sp block ms) :=
    Moves.forM fun m _ => frames_undoRecord_seq m
  have hseq : u.db.channelMessageSeq = t.db.channelMessageSeq := hframe.ok hu
  intro id row hrow
  rw [hseq]
  exact h id row ((hmessages id row).mp hrow).1

theorem now_applyRecord (m : Message) : Frames (fun t => t.now) (applyRecord sp m block) :=
  moves_applyRecord ⟨fun _ _ => rfl, fun _ _ => rfl, fun _ _ => rfl, fun _ _ => rfl, fun _ _ => rfl, fun _ _ => rfl,
    fun _ _ => rfl, fun _ _ => rfl, fun _ _ => rfl⟩ (fun _ _ => rfl) m block

theorem now_undoRecord (m : Message) : Frames (fun t => t.now) (undoRecord sp m block) :=
  moves_undoRecord ⟨fun _ _ => rfl, fun _ _ => rfl, fun _ _ => rfl, fun _ _ => rfl, fun _ _ => rfl, fun _ _ => rfl,
    fun _ _ => rfl, fun _ _ => rfl, fun _ _ => rfl⟩ (fun _ _ => rfl) m block

theorem AppliesTo.now {ms : List Message} (ha : AppliesTo sp block ms t t') : t'.now = t.now := by
  induction ms generalizing t with
  | nil =>
    cases ha
    rfl
  | cons m ms ih =>
    obtain ⟨t₁, hm, hms⟩ := ha
    exact (ih hms).trans ((now_applyRecord m).ok hm)

theorem undoInverts_iff (h : Numbered t.db) (ht : processRecords sp block t = .ok true t') :
    UndoInverts sp block t t' ↔ AllRevertible sp block t := by
  obtain ⟨ms, hp, ha⟩ := processRecords_eq_ok_true.mp ht
  rw [allRevertible_iff_applied hp ha]
  constructor
  · rintro ⟨u, hu, hs, -⟩
    rw [undoRecords_of_messages hp] at hu
    exact (sameTables_iff ha hu).mp hs
  · intro hrev
    obtain ⟨u, hu, -⟩ := undoAll_restores ha (Restored.refl t'.db)
    have hs := (sameTables_iff ha hu).mpr hrev
    have hnow : u.now = t.now :=
      ((Moves.forM fun m _ => now_undoRecord m : Frames (fun t => t.now) (undoAll sp block ms)).ok hu).trans ha.now
    have halike : Alike t u :=
      ⟨hnow.symm, ⟨hs.balances.symm, hs.wallets.symm, hs.replicaData.symm, hs.replicaMap.symm, hs.replicaPayment.symm⟩,
        hs.memberUsers.symm, hs.voteRequests.symm, hs.nodeInfos.symm, h, numbered_undoAll hu (ha.numbered h)⟩
    obtain ⟨u', hu'⟩ := ha.transfer halike
    exact ⟨u, (undoRecords_of_messages hp).trans hu, hs, u', processRecords_eq_ok_true.mpr ⟨ms, hp, hu'⟩⟩

theorem refused_sameTables_iff (ht : processRecords sp block t = .ok false t') :
    SameTables t'.db t.db ↔ AllRevertible sp block t := by
  obtain ⟨ms, m, t₁, hb, ha, hm, hu⟩ := processRecords_refused ht
  rw [allRevertible_iff_refused hb ha hm]
  exact sameTables_iff ha hu

/-- A refused block has left nothing behind, and an applied one leaves nothing behind when it is undone, just
if every message that was applied can be taken back. -/
theorem restores_iff (sp : ServiceProvider) (block : TransactionBlock) (t : DatabaseTransaction)
    (h : Numbered t.db) :
    (∀ t', processRecords sp block t = .ok false t' → (SameTables t'.db t.db ↔ AllRevertible sp block t)) ∧
      ∀ t', processRecords sp block t = .ok true t' → (UndoInverts sp block t t' ↔ AllRevertible sp block t) :=
  ⟨fun _ => refused_sameTables_iff, fun _ => undoInverts_iff h⟩

/-- A block with a user only. -/
def userBlock : TransactionBlock where
  version := TransactionBlock.currentVersion
  timePoint := 0
  id := sampleId 1
  orderNo := 1
  writePublicKeyId := sampleNode 1
  ancestors := []
  blockMessages := (Message.createUser ⟨[], ⟨sampleUser⟩, [], []⟩).serialize
  signature := []

theorem restores_iff_user :
    (∀ t', processRecords sampleProvider userBlock { db := {} } = .ok false t' →
      (SameTables t'.db {} ↔ AllRevertible sampleProvider userBlock { db := {} })) ∧
    ∀ t', processRecords sampleProvider userBlock { db := {} } = .ok true t' →
      (UndoInverts sampleProvider userBlock { db := {} } t' ↔ AllRevertible sampleProvider userBlock { db := {} }) :=
  restores_iff sampleProvider userBlock { db := {} } fun _ _ h => (by cases h)

/-- The undo of a user does nothing, and the block cannot be applied again. -/
theorem user_not_undone : ∃ t', processRecords sampleProvider userBlock { db := {} } = .ok true t' ∧
    ¬UndoInverts sampleProvider userBlock { db := {} } t' := by
  have hrun : processRecords sampleProvider userBlock { db := {} } = .ok true _ :=
    eq_ok_of_returned (by decide +kernel)
  refine ⟨_, hrun, ?_⟩
  rintro ⟨u, hu, hs, -⟩
  have hstays : (final (undoRecords sampleProvider userBlock
      (final (processRecords sampleProvider userBlock { db := {} })))).db.memberUsers.lookup sampleUser ≠ none := by
    decide +kernel
  rw [hu, final_ok, hs.memberUsers] at hstays
  exact hstays rfl

end Vds.LogSync
