import Vds.Database.Model
import Vds.Library.SortedMap
import Vds.Transactions.Messages

/-! A block of the log: its binary form, its signature and its messages. -/

namespace Vds.LogSync

open BinarySerializer BinaryDeserializer Transactions

structure TransactionBlock where
  version : UInt32
  timePoint : TimePoint
  id : ConstDataBuffer
  orderNo : UInt64
  writePublicKeyId : ConstDataBuffer
  /-- In the order of the set. -/
  ancestors : List ConstDataBuffer
  blockMessages : ConstDataBuffer
  signature : ConstDataBuffer

namespace TransactionBlock

/-- `"1VDS"`. -/
def currentVersion : UInt32 := 0x31564453

/-- `operator >>` of a set of buffers. -/
def getSet : BinaryDeserializer (List ConstDataBuffer) := do
  let items ← getVector getData
  return items.foldl (fun s item => SortedMap.emplace bufferLess item s) []

def getBlock (id : ConstDataBuffer) : BinaryDeserializer TransactionBlock := do
  let version ← getUInt32
  if version ≠ currentVersion then throw (.runtimeError "Invalid block version")
  else do
    let timePoint ← getUInt64
    let orderNo ← getUInt64
    let writePublicKeyId ← getData
    let ancestors ← getSet
    let blockMessages ← getData
    let signature ← getData
    return { version, timePoint := fromTimeT timePoint.toInt64, id, orderNo, writePublicKeyId,
             ancestors, blockMessages, signature }

/-- The bytes after the signature, if there are any, are not looked at. -/
def create (crypto : Crypto) (data : ConstDataBuffer) : Expected TransactionBlock :=
  match getBlock (crypto.sha256 data) data with
  | .ok block _ => .ok block
  | .error e _ => .error e

/-- The fields under the signature, as `build` and `validate` write them. -/
def signedData (block : TransactionBlock) : ConstDataBuffer :=
  putUInt32 block.version ++ putUInt64 (toTimeT block.timePoint).toUInt64 ++
    putUInt64 block.orderNo ++ putData block.writePublicKeyId ++ putAll putData block.ancestors ++
    putData block.blockMessages

def validate (crypto : Crypto) (block : TransactionBlock) (writePublicKey : AsymmetricPublicKey) :
    Expected Bool :=
  crypto.verify writePublicKey block.signature block.signedData

/-- `exists`: a record with the id of the block is stored. -/
def blockExists (block : TransactionBlock) : LogM Bool := do
  return (← Orm.transactionLogRecord.find block.id).isSome

/-- The messages of the block, in their order. -/
def messages (crypto : Crypto) (block : TransactionBlock) : Expected (List Message) :=
  parseMessages crypto block.blockMessages.length block.blockMessages

def walkMessages {σ : Type} (crypto : Crypto) (block : TransactionBlock)
    (visit : Message → EStateM Error σ Bool) : EStateM Error σ Bool :=
  process crypto visit block.blockMessages

end TransactionBlock
end Vds.LogSync
