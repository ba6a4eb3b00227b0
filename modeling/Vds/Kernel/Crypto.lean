import Vds.Kernel.Core

/-! The crypto library, as far as the log relies on it. The functions of the library are
parameters; of them only the size of a hash is known here. -/

namespace Vds

/-- A public key; its DER form determines it. -/
structure AsymmetricPublicKey where
  der : ConstDataBuffer
  deriving DecidableEq

structure Crypto where
  /-- `hash::signature(hash::sha256(), data)`. -/
  sha256 : ConstDataBuffer → ConstDataBuffer
  sha256_size : ∀ data, (sha256 data).length = 32
  /-- `asymmetric_public_key::parse_der`. -/
  parseDer : ConstDataBuffer → Expected AsymmetricPublicKey
  fingerprint : AsymmetricPublicKey → ConstDataBuffer
  /-- `asymmetric_sign_verify::verify` of a signature over data. -/
  verify : AsymmetricPublicKey → ConstDataBuffer → ConstDataBuffer → Expected Bool

/-- What a node reads from its services: the crypto library and its own id. -/
structure ServiceProvider where
  crypto : Crypto
  currentNodeId : ConstDataBuffer

end Vds
