import Vds.LogSync.TransactionLog
import Vds.Transactions.Visits

/-! `transaction_block::build`: a block over the leaves of the log, signed by the node. -/

namespace Vds.LogSync

open BinarySerializer Transactions

/-- What the crypto library does with the keys of the node. -/
structure NodeCrypto where
  /-- `asymmetric_private_key::parse_der`. -/
  parsePrivateDer : ConstDataBuffer → Expected AsymmetricPrivateKey
  /-- `asymmetric_private_key::generate`. -/
  generate : Expected AsymmetricPrivateKey
  /-- `asymmetric_public_key::create`. -/
  createPublicKey : AsymmetricPrivateKey → Expected AsymmetricPublicKey
  /-- `asymmetric_sign::signature`. -/
  sign : AsymmetricPrivateKey → ConstDataBuffer → Expected ConstDataBuffer

/-- The order of the new block: one above that of every leaf. -/
def nextOrder (leaves : List (ConstDataBuffer × LogRecord)) : UInt64 :=
  leaves.foldl (fun order row => if order < row.2.orderNo.toUInt64 then row.2.orderNo.toUInt64
    else order) 0 + 1

variable (sp : ServiceProvider) (nodeCrypto : NodeCrypto)

def build (messages : ConstDataBuffer) (nodePublicKey : AsymmetricPublicKey)
    (nodeKey : AsymmetricPrivateKey) : LogM ConstDataBuffer := do
  let leaves ← Orm.transactionLogRecord.select fun _ row => row.state = .leaf
  let t ← get
  let block : TransactionBlock :=
    { version := TransactionBlock.currentVersion
      timePoint := t.now
      id := []
      orderNo := nextOrder leaves
      writePublicKeyId := sp.crypto.fingerprint nodePublicKey
      ancestors := toSet (leaves.map (·.1))
      blockMessages := messages
      signature := [] }
  let signature ← getExpected (nodeCrypto.sign nodeKey block.signedData)
  return block.signedData ++ putData signature

end Vds.LogSync
