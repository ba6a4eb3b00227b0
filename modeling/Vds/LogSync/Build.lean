import Vds.LogSync.Apply

/-! Blocks as their author builds them, and a small crypto library to run the log with. -/

namespace Vds.LogSync

open BinarySerializer Transactions

/-- `transaction_block_builder::sign`: the fields of a block, then the signature over them. -/
def TransactionBlock.serialize (block : TransactionBlock) : ConstDataBuffer :=
  block.signedData ++ putData block.signature

/-- An id of the size of a hash. -/
def sampleId (b : UInt8) : ConstDataBuffer := b :: List.replicate 31 0

/-- The hash looks at the last byte only, every non-empty key parses and is its own fingerprint,
and the signatures are what `accept` says. -/
def sampleCrypto (accept : Bool) : Crypto where
  sha256 data := sampleId (data.getLastD 0)
  sha256_size _ := rfl
  parseDer data := if data = [] then .error (.cryptoException "d2i_PUBKEY") else .ok ⟨data⟩
  fingerprint key := key.der
  verify _ _ _ := .ok accept

def sampleProvider : ServiceProvider := ⟨sampleCrypto true, sampleId 0⟩

/-- A block that gets the id `sampleId b` from the sample hash. -/
def sampleBlock (b : UInt8) (orderNo : UInt64) (author : ConstDataBuffer)
    (ancestors : List ConstDataBuffer) (messages : List Message) : ConstDataBuffer :=
  TransactionBlock.serialize
    { version := TransactionBlock.currentVersion, timePoint := 0, id := sampleId b, orderNo,
      writePublicKeyId := author, ancestors,
      blockMessages := messages.flatMap Message.serialize, signature := [b] }

/-! Two nodes and a user with a wallet, as the first block of a log makes them. -/

def sampleNode (b : UInt8) : ConstDataBuffer := sampleId (100 + b)

def sampleUser : ConstDataBuffer := sampleId 50

def sampleWallet : ConstDataBuffer := sampleId 51

def sampleRoot : ConstDataBuffer :=
  sampleBlock 1 1 (sampleNode 1) [] [.nodeAdd ⟨⟨sampleNode 1⟩⟩, .nodeAdd ⟨⟨sampleNode 2⟩⟩,
    .createUser ⟨[], ⟨sampleUser⟩, [], []⟩, .createWallet ⟨[], sampleWallet⟩]

/-- The user issues `value` to its wallet. -/
def sampleIssue (value : UInt64) : Message := .assetIssue ⟨sampleUser, sampleWallet, [99], value, []⟩

/-- A payment of what block `source` has brought to the wallet. -/
def samplePayment (source target : UInt8) (value : UInt64) : Message :=
  .payment ⟨sampleUser, [99], sampleId source, sampleWallet, sampleId target, value, [], [], []⟩

end Vds.LogSync
