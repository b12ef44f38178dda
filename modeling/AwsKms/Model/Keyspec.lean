import AwsKms.Model.Err

/-!
# The key spec table

The one place where a KMS KeySpec meets its OpenSSL counterpart. Which
signature algorithm a request names, how the message travels and which digests
are legal are all read from a row of `specs`.
-/

namespace AwsKms.Model

inductive AwskmsMsgType where
  | digest
  | raw
  | externalMu
  deriving DecidableEq, Repr

inductive AwskmsFamily where
  | rsa
  | ec
  | ed25519
  | mlDsa
  deriving DecidableEq, Repr

/-- Digests as identities: `other` is a real digest KMS does not sign with. -/
inductive AwskmsDigest where
  | none
  | sha256
  | sha384
  | sha512
  | other
  deriving DecidableEq, Repr

structure AwskmsKeyspec where
  kmsKeySpec : String
  family : AwskmsFamily
  msgType : AwskmsMsgType
  keytype : String
  groupName : Option String
  digest : AwskmsDigest
  pubLen : Nat
  sigLen : Nat
  deriving DecidableEq, Repr

def specs : List AwskmsKeyspec := [
  ⟨"RSA_2048", .rsa, .digest, "RSA", none, .none, 0, 0⟩,
  ⟨"RSA_3072", .rsa, .digest, "RSA", none, .none, 0, 0⟩,
  ⟨"RSA_4096", .rsa, .digest, "RSA", none, .none, 0, 0⟩,
  ⟨"ECC_NIST_P256", .ec, .digest, "EC", some "prime256v1", .sha256, 0, 0⟩,
  ⟨"ECC_NIST_P384", .ec, .digest, "EC", some "secp384r1", .sha384, 0, 0⟩,
  ⟨"ECC_NIST_P521", .ec, .digest, "EC", some "secp521r1", .sha512, 0, 0⟩,
  ⟨"ECC_NIST_EDWARDS25519", .ed25519, .raw, "ED25519", none, .none, 32, 64⟩,
  ⟨"ML_DSA_44", .mlDsa, .externalMu, "ML-DSA-44", none, .none, 1312, 2420⟩,
  ⟨"ML_DSA_65", .mlDsa, .externalMu, "ML-DSA-65", none, .none, 1952, 3309⟩,
  ⟨"ML_DSA_87", .mlDsa, .externalMu, "ML-DSA-87", none, .none, 2592, 4627⟩]

/-- The zeroed row that ends the C table. -/
def AwskmsKeyspec.terminator : AwskmsKeyspec :=
  ⟨"", .rsa, .digest, "", none, .none, 0, 0⟩

def awskmsKeyspecByName (kmsKeySpec : String) : Option AwskmsKeyspec :=
  specs.find? fun s => s.kmsKeySpec == kmsKeySpec

variable {Alg Key : Type}

def awskmsDigestOf (h : Host Alg Key) (alg : Alg) : AwskmsDigest :=
  if h.mdIsA alg (ascii "SHA2-256") then .sha256
  else if h.mdIsA alg (ascii "SHA2-384") then .sha384
  else if h.mdIsA alg (ascii "SHA2-512") then .sha512
  else .other

def awskmsDigestLength : AwskmsDigest → Nat
  | .sha256 => 32
  | .sha384 => 48
  | .sha512 => 64
  | .none | .other => 0

/-- The name OpenSSL fetches a digest by. -/
def awskmsDigestName : AwskmsDigest → Option String
  | .sha256 => some "SHA2-256"
  | .sha384 => some "SHA2-384"
  | .sha512 => some "SHA2-512"
  | .none | .other => Option.none

/-- The KMS SigningAlgorithm names, spelled as they go on the wire. -/
inductive SigningAlgorithm where
  | RSASSA_PSS_SHA_256
  | RSASSA_PSS_SHA_384
  | RSASSA_PSS_SHA_512
  | RSASSA_PKCS1_V1_5_SHA_256
  | RSASSA_PKCS1_V1_5_SHA_384
  | RSASSA_PKCS1_V1_5_SHA_512
  | ECDSA_SHA_256
  | ECDSA_SHA_384
  | ECDSA_SHA_512
  | ED25519_SHA_512
  | ML_DSA_SHAKE_256
  deriving DecidableEq, Repr

def awskmsSigningAlgorithm (spec : AwskmsKeyspec) (digest : AwskmsDigest)
    (pss : Bool) : Option SigningAlgorithm :=
  match spec.family with
  | .rsa =>
      match digest with
      | .sha256 => some (if pss then .RSASSA_PSS_SHA_256
          else .RSASSA_PKCS1_V1_5_SHA_256)
      | .sha384 => some (if pss then .RSASSA_PSS_SHA_384
          else .RSASSA_PKCS1_V1_5_SHA_384)
      | .sha512 => some (if pss then .RSASSA_PSS_SHA_512
          else .RSASSA_PKCS1_V1_5_SHA_512)
      | .none | .other => none
  | .ec =>
      if digest ≠ spec.digest then none
      else
        match digest with
        | .sha256 => some .ECDSA_SHA_256
        | .sha384 => some .ECDSA_SHA_384
        | .sha512 => some .ECDSA_SHA_512
        | .none | .other => none
  | .ed25519 => if digest = .none then some .ED25519_SHA_512 else none
  | .mlDsa => if digest = .none then some .ML_DSA_SHAKE_256 else none

end AwsKms.Model
