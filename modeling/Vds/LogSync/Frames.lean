import Vds.LogSync.TransactionLog

/-! Which tables the messages of a block touch. -/

namespace Vds.LogSync

open Transactions StateError Dbo

variable {sp : ServiceProvider} {R : DatabaseTransaction → DatabaseTransaction → Prop}
  [Std.Refl R] [IsTrans DatabaseTransaction R]

theorem moves_getExpected {α : Type} (v : Expected α) : Moves R (getExpected v) := by
  cases v with
  | ok a => exact Moves.pure a
  | error e => exact Moves.throw e

/-! ### Payments and assets: the balances -/

section Balances

variable (hf : Orm.datacoinBalance.Writes R)
include hf

theorem moves_applyPayment (m : PaymentTransaction) (block : TransactionBlock) :
    Moves R (applyPayment sp m block) := by
  refine (moves_find _).bind fun wallet => ?_
  cases wallet with
  | none => exact Moves.pure false
  | some publicKey =>
    refine (moves_getExpected _).bind fun key => (moves_getExpected _).bind fun ok => ?_
    refine Moves.ite (fun _ => Moves.pure false) fun _ => (moves_find _).bind fun row => ?_
    cases row with
    | none => exact Moves.pure false
    | some row =>
      refine Moves.ite (fun _ => Moves.pure false) fun _ => ?_
      exact (moves_update hf _ _).bind fun _ => (moves_insert hf _ _).bind fun _ => Moves.pure true

theorem moves_undoPayment (m : PaymentTransaction) (block : TransactionBlock) :
    Moves R (undoPayment m block) := by
  refine (moves_find _).bind fun row => ?_
  cases row with
  | none => exact (Moves.throw _).bind fun _ => moves_delete hf _
  | some row => exact (moves_update hf _ _).bind fun _ => moves_delete hf _

theorem moves_applyAssetIssue (m : AssetIssueTransaction) (block : TransactionBlock) :
    Moves R (applyAssetIssue sp m block) := by
  refine (moves_find _).bind fun issuer => ?_
  cases issuer with
  | none => exact Moves.pure false
  | some publicKey =>
    refine (moves_getExpected _).bind fun key => (moves_getExpected _).bind fun ok => ?_
    refine Moves.ite (fun _ => Moves.pure false) fun _ => ?_
    exact (moves_insert hf _ _).bind fun _ => Moves.pure true

theorem moves_undoAssetIssue (m : AssetIssueTransaction) (block : TransactionBlock) :
    Moves R (undoAssetIssue m block) := moves_delete hf _

theorem moves_consensusPayment (m : PaymentTransaction) (block : TransactionBlock) :
    Moves R (consensusPayment m block) := by
  refine (moves_find _).bind fun row => ?_
  cases row with
  | none => exact Moves.throw _
  | some row =>
    refine Moves.ite (fun _ => Moves.throw _) fun _ => (moves_update hf _ _).bind fun _ => ?_
    refine (moves_find _).bind fun target => ?_
    cases target with
    | none => exact Moves.throw _
    | some target => exact moves_update hf _ _

theorem moves_consensusAssetIssue (m : AssetIssueTransaction) (block : TransactionBlock) :
    Moves R (consensusAssetIssue m block) := by
  refine (moves_find _).bind fun row => ?_
  cases row with
  | none => exact Moves.throw _
  | some row => exact Moves.ite (fun _ => Moves.throw _) fun _ => moves_update hf _ _

theorem moves_consensusRecord (m : Message) (block : TransactionBlock) :
    Moves R (consensusRecord m block) := by
  cases m with
  | payment m => exact moves_consensusPayment hf m block
  | assetIssue m => exact moves_consensusAssetIssue hf m block
  | channelMessage | createUser | nodeAdd | createWallet | storeBlock | hostBlock =>
    exact Moves.pure ()

end Balances

/-! ### The other messages -/

theorem moves_applyNodeAdd (hn : Orm.nodeInfo.Writes R)
    (hv : Orm.transactionLogVoteRequest.Writes R) (m : NodeAddTransaction)
    (block : TransactionBlock) : Moves R (applyNodeAdd sp m block) := by
  refine (moves_find _).bind fun row => ?_
  have hlast : Moves R (do
      Orm.transactionLogVoteRequest.insert (block.id, sp.crypto.fingerprint m.nodePublicKey)
        { approved := false, newMember := true }
      return true : LogM Bool) := (moves_insert hv _ _).bind fun _ => Moves.pure true
  cases row with
  | none => exact (moves_insert hn _ _).bind fun _ => hlast
  | some row =>
    exact Moves.ite (fun _ => (moves_update hn _ _).bind fun _ => hlast) fun _ => hlast

theorem moves_applyChannelMessage (hc : Orm.channelMessage.Writes R)
    (hs : ∀ n t, R t { t with db := { t.db with channelMessageSeq := n } })
    (m : ChannelMessage) (block : TransactionBlock) : Moves R (applyChannelMessage m block) := by
  refine Moves.ite (fun _ => Moves.throw _) fun _ => ?_
  have hseq : Moves R
      (writeDb fun db => { db with channelMessageSeq := db.channelMessageSeq + 1 }) := fun t => hs _ t
  exact hseq.bind fun _ => Moves.get.bind fun _ => (moves_insert hc _ _).bind fun _ => Moves.pure true

theorem moves_applyCreateWallet (hw : Orm.wallet.Writes R) (m : CreateWalletTransaction) :
    Moves R (applyCreateWallet sp m) := by
  refine (moves_getExpected _).bind fun key => Moves.ite (fun _ => Moves.throw _) fun _ => ?_
  exact (moves_insert hw _ _).bind fun _ => Moves.pure true

theorem moves_undoCreateWallet (hw : Orm.wallet.Writes R) (m : CreateWalletTransaction) :
    Moves R (undoCreateWallet sp m) :=
  (moves_getExpected _).bind fun _ => moves_delete hw _

section Replicas

variable (hm : Orm.chunkReplicaMap.Writes R) (hp : Orm.chunkReplicaPayment.Writes R)
include hm hp

theorem moves_insertReplicaPayment (ownerId replicaHash : ConstDataBuffer)
    (block : TransactionBlock) : Moves R (insertReplicaPayment ownerId replicaHash block) :=
  Moves.get.bind fun _ => (moves_insert hm _ _).bind fun _ => moves_insert hp _ _

theorem moves_deleteReplicaPayment (ownerId replicaHash : ConstDataBuffer)
    (block : TransactionBlock) : Moves R (deleteReplicaPayment ownerId replicaHash block) :=
  (moves_delete hm _).bind fun _ => moves_delete hp _

theorem moves_applyStoreBlock (hd : Orm.chunkReplicaData.Writes R) (m : StoreBlockTransaction)
    (block : TransactionBlock) : Moves R (applyStoreBlock sp m block) := by
  refine (Moves.forM fun index _ => ?_).bind fun _ => Moves.pure true
  refine (moves_select _).bind fun same => Moves.ite (fun _ => ?_) fun _ => ?_
  · exact (moves_insert hd _ _).bind fun _ => moves_insertReplicaPayment hm hp _ _ block
  · exact (Moves.throw _).bind fun _ => moves_insertReplicaPayment hm hp _ _ block

theorem moves_undoStoreBlock (hd : Orm.chunkReplicaData.Writes R) (m : StoreBlockTransaction)
    (block : TransactionBlock) : Moves R (undoStoreBlock m block) :=
  Moves.forM fun _ _ =>
    (moves_deleteIf hd _).bind fun _ => moves_deleteReplicaPayment hm hp _ _ block

end Replicas

/-! ### All messages -/

/-- `R` allows writes to the tables of the messages other than payments and assets. -/
structure WritesOthers (R : DatabaseTransaction → DatabaseTransaction → Prop) : Prop where
  memberUsers : Orm.memberUser.Writes R
  wallets : Orm.wallet.Writes R
  nodeInfos : Orm.nodeInfo.Writes R
  votes : Orm.transactionLogVoteRequest.Writes R
  channelMessages : Orm.channelMessage.Writes R
  channelMessageSeq : ∀ n t, R t { t with db := { t.db with channelMessageSeq := n } }
  replicaData : Orm.chunkReplicaData.Writes R
  replicaMap : Orm.chunkReplicaMap.Writes R
  replicaPayments : Orm.chunkReplicaPayment.Writes R

/-- The messages that move no money. -/
def isMoney : Message → Bool
  | .payment _ | .assetIssue _ => true
  | _ => false

theorem moves_applyRecord_others (h : WritesOthers R) {m : Message} (hm : isMoney m = false)
    (block : TransactionBlock) : Moves R (applyRecord sp m block) := by
  cases m with
  | payment m => cases hm
  | assetIssue m => cases hm
  | channelMessage m => exact moves_applyChannelMessage h.channelMessages h.channelMessageSeq m block
  | createUser m => exact (moves_insert h.memberUsers _ _).bind fun _ => Moves.pure true
  | nodeAdd m => exact moves_applyNodeAdd h.nodeInfos h.votes m block
  | createWallet m => exact moves_applyCreateWallet h.wallets m
  | storeBlock m => exact moves_applyStoreBlock h.replicaMap h.replicaPayments h.replicaData m block
  | hostBlock m =>
    exact (moves_insertReplicaPayment h.replicaMap h.replicaPayments _ _ block).bind
      fun _ => Moves.pure true

theorem moves_undoRecord_others (h : WritesOthers R) {m : Message} (hm : isMoney m = false)
    (block : TransactionBlock) : Moves R (undoRecord sp m block) := by
  cases m with
  | payment m => cases hm
  | assetIssue m => cases hm
  | channelMessage m => exact moves_deleteIf h.channelMessages _
  | createUser m => exact Moves.pure ()
  | nodeAdd m => exact moves_delete h.nodeInfos _
  | createWallet m => exact moves_undoCreateWallet h.wallets m
  | storeBlock m => exact moves_undoStoreBlock h.replicaMap h.replicaPayments h.replicaData m block
  | hostBlock m => exact moves_deleteReplicaPayment h.replicaMap h.replicaPayments _ _ block

section AllMessages

variable (h : WritesOthers R) (hb : Orm.datacoinBalance.Writes R)
include h hb

theorem moves_applyRecord (m : Message) (block : TransactionBlock) :
    Moves R (applyRecord sp m block) := by
  cases m with
  | payment m => exact moves_applyPayment hb m block
  | assetIssue m => exact moves_applyAssetIssue hb m block
  | channelMessage | createUser | nodeAdd | createWallet | storeBlock | hostBlock =>
    exact moves_applyRecord_others h rfl block

theorem moves_undoRecord (m : Message) (block : TransactionBlock) :
    Moves R (undoRecord sp m block) := by
  cases m with
  | payment m => exact moves_undoPayment hb m block
  | assetIssue m => exact moves_undoAssetIssue hb m block
  | channelMessage | createUser | nodeAdd | createWallet | storeBlock | hostBlock =>
    exact moves_undoRecord_others h rfl block

theorem moves_processRecords (block : TransactionBlock) : Moves R (processRecords sp block) := by
  let S : DatabaseTransaction × List Message → DatabaseTransaction × List Message → Prop :=
    fun p p' => R p.1 p'.1
  have hrefl : Std.Refl S := ⟨fun p => refl_of R p.1⟩
  have htrans : IsTrans _ S := ⟨fun _ _ _ h h' => trans_of R h h'⟩
  have hvisit : ∀ m, Moves S (applyVisitor sp block m) := by
    rintro m ⟨t, undoActions⟩
    have hm : R t (final (applyRecord sp m block t)) := moves_applyRecord h hb m block t
    unfold applyVisitor
    cases hr : applyRecord sp m block t with
    | ok b t₁ =>
      rw [hr] at hm
      simp only [hr]
      cases b <;> exact hm
    | error e t₁ =>
      rw [hr] at hm
      simp only [hr]
      exact hm
  intro t
  have hw : S (t, []) (final (walk sp.crypto (applyVisitor sp block) block.blockMessages.length
      block.blockMessages (t, []))) := walk_moves hvisit block.blockMessages.length block.blockMessages (t, [])
  unfold processRecords TransactionBlock.walkMessages process
  cases hr : walk sp.crypto (applyVisitor sp block) block.blockMessages.length block.blockMessages
      (t, []) with
  | error e p =>
    rw [hr] at hw
    exact hw
  | ok b p =>
    obtain ⟨t₁, undoActions⟩ := p
    rw [hr] at hw
    cases b with
    | true => exact hw
    | false =>
      have hundo : Moves R (do
          undoActions.forM fun message => undoRecord sp message block
          return false : LogM Bool) :=
        (Moves.forM fun m _ => moves_undoRecord h hb m block).bind fun _ => Moves.pure false
      exact trans_of R hw (hundo t₁)

theorem moves_undoRecords (block : TransactionBlock) : Moves R (undoRecords sp block) := by
  intro t
  unfold undoRecords
  split
  · exact refl_of R t
  · next toProcess _ => exact (Moves.forM fun m _ => moves_undoRecord h hb m block) t

end AllMessages

/-- The transaction when `consensus_records` starts, with the event of it. -/
def announce (block : TransactionBlock) (t : DatabaseTransaction) : DatabaseTransaction :=
  { t with journal := .consensusRecords t.db block.id :: t.journal }

theorem moves_consensusRecords (hb : Orm.datacoinBalance.Writes R) (block : TransactionBlock)
    (hj : ∀ t, R t (announce block t)) : Moves R (consensusRecords sp block) := by
  have hr : Moves R (record fun db => .consensusRecords db block.id) := fun t => hj t
  refine hr.bind fun _ => Moves.bind (walk_moves (fun m => ?_) _ _) fun _ => Moves.pure ()
  exact (moves_consensusRecord hb m block).bind fun _ => Moves.pure true

/-! ### The functions of the log -/

theorem moves_selectFollowers (id : ConstDataBuffer) : Moves R (selectFollowers id) :=
  (moves_select _).bind fun _ => Moves.pure _

theorem moves_selectOwners (id : ConstDataBuffer) : Moves R (selectOwners id) :=
  (moves_select _).bind fun _ => Moves.pure _

theorem moves_checkAncestors (block : TransactionBlock) (as : List ConstDataBuffer)
    (check : AncestorCheck) : Moves R (checkAncestors block as check) := by
  induction as generalizing check with
  | nil => exact Moves.pure _
  | cons a as ih =>
    refine (moves_selectOwners a).bind fun owners => (moves_find _).bind fun row => ?_
    cases row with
    | none => exact Moves.pure _
    | some row =>
      refine Moves.ite (fun _ => ih _) fun _ => ?_
      cases hs : row.state with
      | leaf => exact ih _
      | processed => exact ih _
      | validated => exact Moves.pure _
      | invalid => exact ih _

section LogTables

variable (hl : Orm.transactionLogRecord.Writes R) (hv : Orm.transactionLogVoteRequest.Writes R)

include hl in
theorem moves_updateState (id : ConstDataBuffer) (state : RecordState) :
    Moves R (updateState id state) := moves_update hl _ _

include hl hv in
theorem moves_processBlock (h : WritesOthers R) (hb : Orm.datacoinBalance.Writes R)
    (block : TransactionBlock) : Moves R (processBlock sp block) := by
  refine (moves_checkAncestors block _ _).bind fun check => ?_
  cases check with
  | none => exact Moves.pure _
  | some check =>
    refine (moves_selectOwners _).bind fun owners => ?_
    refine (Moves.forM fun v _ => moves_insert hv _ _).bind fun _ => ?_
    refine (Moves.ite (fun _ => moves_processRecords h hb block) fun _ => Moves.pure _).bind
      fun isProcessed => ?_
    refine (moves_updateState hl _ _).bind fun _ => Moves.ite (fun _ => ?_) fun _ => Moves.pure _
    exact (Moves.forM fun p _ => moves_updateState hl _ _).bind fun _ => Moves.pure _

include hl in
theorem moves_invalidBlock (n : Nat) (id : ConstDataBuffer) (value : Bool) :
    Moves R (invalidBlock n id value) := by
  induction n generalizing id with
  | zero => exact Moves.throw _
  | succ n ih =>
    refine (moves_updateState hl _ _).bind fun _ => (moves_selectFollowers _).bind fun fs => ?_
    refine Moves.forM fun p _ => (moves_find _).bind fun row => ?_
    cases row with
    | none => exact Moves.throw _
    | some row => exact Moves.ite (fun _ => Moves.throw _) fun _ => ih p

include hl in
theorem moves_pushFollowers (n : Nat) (result : RecordState) (processed fs : List ConstDataBuffer)
    (ps : List (ConstDataBuffer × Pending)) : Moves R (pushFollowers n result processed fs ps) := by
  induction fs generalizing ps with
  | nil => exact Moves.pure _
  | cons p fs ih =>
    refine Moves.ite (fun _ => ih _) fun _ => (moves_find _).bind fun row => ?_
    cases row with
    | none => exact Moves.throw _
    | some row => exact Moves.ite (fun _ => ih _) fun _ =>
        (moves_invalidBlock hl n p true).bind fun _ => ih _

include hl in
theorem moves_rollbackAncestors (minOrder : UInt64) (as : List ConstDataBuffer) (w : RollbackWalk) :
    Moves R (rollbackAncestors minOrder as w) := by
  induction as generalizing w with
  | nil => exact Moves.pure _
  | cons a as ih =>
    refine Moves.ite (fun _ => ih _) fun _ => (moves_find _).bind fun row => ?_
    cases row with
    | none => exact Moves.throw _
    | some row =>
      refine Moves.ite (fun _ => Moves.throw _) fun _ => Moves.ite (fun _ => ?_) fun _ => ih _
      exact (moves_updateState hl _ _).bind fun _ => ih _

theorem moves_pushAncestors (as : List ConstDataBuffer) (w : VoteWalk) :
    Moves R (pushAncestors as w) := by
  induction as generalizing w with
  | nil => exact Moves.pure _
  | cons a as ih =>
    refine Moves.ite (fun _ => ih _) fun _ => (moves_find _).bind fun row => ?_
    cases row with
    | none => exact Moves.throw _
    | some row => exact ih _

variable (hn : ∀ t id owner, R t { t with journal := .newVoter t.db id owner :: t.journal })

include hv hn in
theorem moves_castVote (block current : TransactionBlock) (consensus : Bool) :
    Moves R (castVote block current consensus) := by
  refine (moves_find _).bind fun row => ?_
  cases row with
  | none =>
    refine Moves.ite (fun _ => ?_) fun _ => Moves.throw _
    have hr : Moves R (record fun db => .newVoter db current.id block.writePublicKeyId) :=
      fun t => hn t _ _
    exact hr.bind fun _ => (moves_insert hv _ _).bind fun _ => Moves.pure _
  | some row =>
    exact Moves.ite (fun _ => Moves.pure _) fun _ => (moves_update hv _ _).bind fun _ => Moves.pure _

theorem moves_checkConsensus (id : ConstDataBuffer) : Moves R (checkConsensus id) :=
  (moves_select _).bind fun _ => Moves.ite (fun _ => Moves.pure _) fun _ =>
    (moves_select _).bind fun _ => Moves.pure _

theorem moves_voteWalk_of_castVote {block : TransactionBlock}
    (hc : ∀ current consensus, Moves R (castVote block current consensus)) (n : Nat) (w : VoteWalk) :
    Moves R (voteWalk sp block n w) := by
  induction n generalizing w with
  | zero => exact Moves.throw _
  | succ n ih =>
    unfold voteWalk
    split
    · exact Moves.pure _
    · refine (moves_getExpected _).bind fun current => (hc _ _).bind fun isNew => ?_
      cases isNew with
      | none => exact ih _
      | some isNew =>
        refine (moves_checkConsensus _).bind fun consensus => Moves.ite (fun _ => ?_) fun _ => ih _
        exact (moves_pushAncestors _ _).bind fun _ => ih _

include hv hn in
theorem moves_voteWalk (block : TransactionBlock) (n : Nat) (w : VoteWalk) :
    Moves R (voteWalk sp block n w) :=
  moves_voteWalk_of_castVote (fun current consensus => moves_castVote hv hn block current consensus) n w

end LogTables

theorem moves_insertBlock (hl : Orm.transactionLogRecord.Writes R)
    (hh : Orm.transactionLogHierarchy.Writes R) (block : TransactionBlock) (data : ConstDataBuffer) :
    Moves R (insertBlock block data) :=
  (moves_insert hl _ _).bind fun _ => Moves.forM fun _ _ => moves_insert hh _ _

end Vds.LogSync
