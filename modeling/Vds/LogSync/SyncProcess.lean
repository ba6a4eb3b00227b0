import Vds.LogSync.Build

/-! `sync_process::apply_message` of a `transaction_log_record`: a block that a peer has sent.
The signature gate of this handler decides nothing: it asks for the negation of an `expected`. -/

namespace Vds.LogSync

open Transactions StateError

/-- What the handler does with a record once it has looked for the author's key. -/
inductive Gate
  /-- The record is dropped; these ancestors are asked for. -/
  | refused (requests : List ConstDataBuffer)
  /-- `transaction_log::save` is called. -/
  | save (allowRoot : Bool)

variable (sp : ServiceProvider)

/-- The key of a `node_add` message of the block that names the author of the block. -/
def nodeAddKey (block : TransactionBlock) : Expected (Option AsymmetricPublicKey) :=
  let visit : Message → EStateM Error (Option AsymmetricPublicKey) Bool
    | .nodeAdd message =>
      if block.writePublicKeyId = sp.crypto.fingerprint message.nodePublicKey then do
        set (some message.nodePublicKey)
        return false
      else return true
    | _ => return true
  match block.walkMessages sp.crypto visit none with
  | .ok _ key => .ok key
  | .error e _ => .error e

/-- The key of the author, from the table of nodes or from the block itself. A known author has
its `last_activity` moved on. -/
def writePublicKey (block : TransactionBlock) : LogM (Option AsymmetricPublicKey) := do
  match ← Orm.nodeInfo.find block.writePublicKeyId with
  | some row => do
    let key ← getExpected (sp.crypto.parseDer row.publicKey)
    if fromTimeT row.lastActivity < block.timePoint then
      Orm.nodeInfo.update block.writePublicKeyId fun row =>
        { row with lastActivity := toTimeT block.timePoint }
    return some key
  | none => getExpected (nodeAddKey sp block)

/-- The ancestors that are not stored. -/
def missingAncestors : List ConstDataBuffer → LogM (List ConstDataBuffer)
  | [] => return []
  | ancestor :: ancestors => do
    let row ← Orm.transactionLogRecord.find ancestor
    let missing ← missingAncestors ancestors
    return if row.isSome then missing else ancestor :: missing

/-- The handler up to the call of `transaction_log::save`. -/
def signatureGate (data : ConstDataBuffer) : LogM Gate := do
  let block ← getExpected (TransactionBlock.create sp.crypto data)
  if ← block.blockExists then return .refused []
  else do
    let key ← writePublicKey sp block
    -- `!write_public_key || !block.validate(*write_public_key)`
    if key.all fun key => (block.validate sp.crypto key).operatorNot then
      return .refused (← missingAncestors block.ancestors)
    else do
      let applied ← Orm.transactionLogRecord.select fun _ row => row.state.haveState
      return .save applied.isEmpty

/-- `apply_message`: whether the record was taken, and the ancestors to ask for. -/
def applyMessage (n : Nat) (data : ConstDataBuffer) : LogM (Bool × List ConstDataBuffer) := do
  match ← signatureGate sp data with
  | .refused requests => return (false, requests)
  | .save allowRoot => do
    let _ ← save sp n data allowRoot
    return (true, [])

/-! ### What the gate lets through -/

/-- `key` is the key of the author: the one of its row, or of a `node_add` in the block. -/
def IsAuthorKey (db : Database) (block : TransactionBlock) (key : AsymmetricPublicKey) : Prop :=
  match db.nodeInfos.lookup block.writePublicKeyId with
  | some row => sp.crypto.parseDer row.publicKey = .ok key
  | none => nodeAddKey sp block = .ok (some key)

/-- The handler calls `transaction_log::save`. -/
def ReachesSave (t : DatabaseTransaction) (data : ConstDataBuffer) : Prop :=
  ∃ allowRoot t', signatureGate sp data t = .ok (.save allowRoot) t'

/-- A record is stored only with a signature of its author, and one with a signature that is
not valid changes no table. -/
def GateHolds (db : Database) (now : TimePoint) (n : Nat) (data : ConstDataBuffer) : Prop :=
  (ReachesSave sp { db, now } data → ∃ block key, TransactionBlock.create sp.crypto data = .ok block ∧
    IsAuthorKey sp db block key ∧ block.validate sp.crypto key = .ok true) ∧
  ∀ block key, TransactionBlock.create sp.crypto data = .ok block → IsAuthorKey sp db block key →
    block.validate sp.crypto key ≠ .ok true →
    (asyncTransaction (applyMessage sp n data) db now).2 = db

/-- A new block whose author is known and whose signature is not the author's. -/
def IsForged (db : Database) (data : ConstDataBuffer) : Prop :=
  ∃ block key, TransactionBlock.create sp.crypto data = .ok block ∧
    db.logRecords.lookup block.id = none ∧ IsAuthorKey sp db block key ∧
    block.validate sp.crypto key ≠ .ok true

theorem IsAuthorKey.unique {db : Database} {block : TransactionBlock} {k k' : AsymmetricPublicKey}
    (h : IsAuthorKey sp db block k) (h' : IsAuthorKey sp db block k') : k = k' := by
  unfold IsAuthorKey at h h'
  split at h
  · simp_all
  · simp_all

theorem writePublicKey_eq_ok {block : TransactionBlock} {key : Option AsymmetricPublicKey}
    {t t' : DatabaseTransaction} (h : writePublicKey sp block t = .ok key t')
    (k : AsymmetricPublicKey) : IsAuthorKey sp t.db block k ↔ key = some k := by
  unfold writePublicKey at h
  rw [bind_of_ok (Dbo.find_apply ..)] at h
  unfold IsAuthorKey
  cases hr : t.db.nodeInfos.lookup block.writePublicKeyId with
  | some row =>
    simp only [Orm.nodeInfo_rows, hr, bind_eq_ok, getExpected_eq_ok] at h ⊢
    obtain ⟨a, _, ⟨ha, rfl⟩, h⟩ := h
    have hk : key = some a := by
      split_ifs at h <;> cases h <;> rfl
    rw [ha, hk]
    simp
  | none =>
    simp only [Orm.nodeInfo_rows, hr, getExpected_eq_ok] at h ⊢
    rw [h.1]
    simp

theorem writePublicKey_of_isAuthorKey {block : TransactionBlock} {k : AsymmetricPublicKey}
    {t : DatabaseTransaction} (h : IsAuthorKey sp t.db block k) :
    ∃ t', writePublicKey sp block t = .ok (some k) t' ∧ t'.db.logRecords = t.db.logRecords := by
  unfold writePublicKey
  rw [bind_of_ok (Dbo.find_apply ..)]
  unfold IsAuthorKey at h
  cases hr : t.db.nodeInfos.lookup block.writePublicKeyId with
  | some row =>
    simp only [Orm.nodeInfo_rows, hr] at h ⊢
    rw [bind_of_ok (getExpected_eq_ok.mpr ⟨h, rfl⟩)]
    split_ifs
    · exact ⟨_, rfl, rfl⟩
    · exact ⟨t, rfl, rfl⟩
  | none =>
    simp only [Orm.nodeInfo_rows, hr] at h ⊢
    exact ⟨t, getExpected_eq_ok.mpr ⟨h, rfl⟩, rfl⟩

theorem blockExists_apply (block : TransactionBlock) (t : DatabaseTransaction) :
    block.blockExists t = .ok (t.db.logRecords.lookup block.id).isSome t := rfl

theorem reachesSave_iff (t : DatabaseTransaction) (data : ConstDataBuffer) :
    ReachesSave sp t data ↔ ∃ block key, TransactionBlock.create sp.crypto data = .ok block ∧
      t.db.logRecords.lookup block.id = none ∧ IsAuthorKey sp t.db block key := by
  constructor
  · rintro ⟨allowRoot, t', h⟩
    simp only [signatureGate, bind_eq_ok, getExpected_eq_ok, blockExists_apply] at h
    obtain ⟨block, _, ⟨hb, rfl⟩, stored, t₁, hs, h⟩ := h
    cases hs
    split_ifs at h with hstored
    · cases h
    obtain ⟨key, t₂, hk, h⟩ := bind_eq_ok.mp h
    cases key with
    | none =>
      obtain ⟨missing, t₃, -, h⟩ := bind_eq_ok.mp h
      cases h
    | some key =>
      refine ⟨block, key, hb, ?_, (writePublicKey_eq_ok sp hk key).mpr rfl⟩
      simpa using hstored
  · rintro ⟨block, key, hb, hn, hk⟩
    obtain ⟨t₁, ht₁, -⟩ := writePublicKey_of_isAuthorKey sp hk
    unfold ReachesSave signatureGate
    rw [bind_of_ok (getExpected_eq_ok.mpr ⟨hb, rfl⟩), bind_of_ok (blockExists_apply ..), hn]
    simp only [Option.isSome_none, Bool.false_eq_true, if_false]
    rw [bind_of_ok ht₁]
    simp only [Option.all_some, Expected.operatorNot_eq_false, Bool.false_eq_true, if_false]
    exact ⟨_, t₁, rfl⟩

theorem applyMessage_of_stored {n : Nat} {data : ConstDataBuffer} {block : TransactionBlock}
    {db : Database} {now : TimePoint} (hb : TransactionBlock.create sp.crypto data = .ok block)
    (hs : (db.logRecords.lookup block.id).isSome) :
    asyncTransaction (applyMessage sp n data) db now = (.ok (false, []), db) := by
  have hg : signatureGate sp data { db, now } = .ok (.refused []) { db, now } := by
    unfold signatureGate
    rw [bind_of_ok (getExpected_eq_ok.mpr ⟨hb, rfl⟩), bind_of_ok (blockExists_apply ..), hs]
    rfl
  unfold asyncTransaction applyMessage
  rw [bind_of_ok hg]
  rfl

/-- The gate holds for exactly those records that are not forged: it stops none of the others. -/
theorem gateHolds_iff (db : Database) (now : TimePoint) (n : Nat) (data : ConstDataBuffer) :
    GateHolds sp db now n data ↔ ¬IsForged sp db data := by
  constructor
  · rintro ⟨hsigned, -⟩ ⟨block, key, hb, hn, hk, hv⟩
    obtain ⟨block', key', hb', hk', hv'⟩ := hsigned ((reachesSave_iff ..).mpr ⟨block, key, hb, hn, hk⟩)
    obtain rfl : block = block' := Except.ok.inj (hb.symm.trans hb')
    obtain rfl : key = key' := hk.unique sp hk'
    exact hv hv'
  · intro hf
    constructor
    · intro h
      obtain ⟨block, key, hb, hn, hk⟩ := (reachesSave_iff ..).mp h
      exact ⟨block, key, hb, hk, by_contra fun hv => hf ⟨block, key, hb, hn, hk, hv⟩⟩
    · intro block key hb hk hv
      have hs : db.logRecords.lookup block.id ≠ none := fun hn => hf ⟨block, key, hb, hn, hk, hv⟩
      rw [applyMessage_of_stored sp hb (Option.isSome_iff_ne_none.mpr hs)]

/-- A root block with a signature that `verify` rejects. -/
def forgedRecord : ConstDataBuffer :=
  sampleBlock 1 1 (sampleId 7) [] [.nodeAdd ⟨⟨sampleId 7⟩⟩]

def forgedProvider : ServiceProvider := ⟨sampleCrypto false, sampleId 0⟩

/-- The handler stores it. -/
theorem applyMessage_takes_forged : ¬∀ sp db now n data, GateHolds sp db now n data := by
  intro h
  have hr : ReachesSave forgedProvider { db := {}, now := 0 } forgedRecord :=
    (reachesSave_iff ..).mpr ⟨_, ⟨sampleId 7⟩, rfl, rfl, rfl⟩
  obtain ⟨block, key, -, -, hv⟩ := (h forgedProvider {} 0 0 forgedRecord).1 hr
  cases hv

end Vds.LogSync
