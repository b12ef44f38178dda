import AwsKms.Model.Kms
import AwsKms.Model.Spki

/-!
# What KMS accepts

The service's side of a Sign request, as its API reference has it: which
algorithms a KeySpec lists, which digest and padding an algorithm stands for,
and which message a MessageType carries. Nothing here is read off the
provider; it is what the provider's requests are held against.
-/

namespace AwsKms.Spec

open AwsKms.Model

/-- The digest an algorithm signs; `none` where it signs the message. -/
def digestOf : SigningAlgorithm → AwskmsDigest
  | .RSASSA_PSS_SHA_256 | .RSASSA_PKCS1_V1_5_SHA_256 | .ECDSA_SHA_256 => .sha256
  | .RSASSA_PSS_SHA_384 | .RSASSA_PKCS1_V1_5_SHA_384 | .ECDSA_SHA_384 => .sha384
  | .RSASSA_PSS_SHA_512 | .RSASSA_PKCS1_V1_5_SHA_512 | .ECDSA_SHA_512 => .sha512
  | .ED25519_SHA_512 | .ML_DSA_SHAKE_256 => .none

/-- The padding of an RSA algorithm. -/
def paddingOf : SigningAlgorithm → Option RsaPadding
  | .RSASSA_PSS_SHA_256 | .RSASSA_PSS_SHA_384 | .RSASSA_PSS_SHA_512 => some .pss
  | .RSASSA_PKCS1_V1_5_SHA_256 | .RSASSA_PKCS1_V1_5_SHA_384
  | .RSASSA_PKCS1_V1_5_SHA_512 => some .pkcs1
  | _ => none

/-- The `SigningAlgorithms` of a KeySpec, less the one no provider request
can name. -/
def signingAlgorithms (keySpec : String) : List SigningAlgorithm :=
  if keySpec ∈ ["RSA_2048", "RSA_3072", "RSA_4096"] then
    [.RSASSA_PSS_SHA_256, .RSASSA_PSS_SHA_384, .RSASSA_PSS_SHA_512,
      .RSASSA_PKCS1_V1_5_SHA_256, .RSASSA_PKCS1_V1_5_SHA_384,
      .RSASSA_PKCS1_V1_5_SHA_512]
  else if keySpec = "ECC_NIST_P256" then [.ECDSA_SHA_256]
  else if keySpec = "ECC_NIST_P384" then [.ECDSA_SHA_384]
  else if keySpec = "ECC_NIST_P521" then [.ECDSA_SHA_512]
  else if keySpec = "ECC_NIST_EDWARDS25519" then [.ED25519_SHA_512]
  else if keySpec ∈ ["ML_DSA_44", "ML_DSA_65", "ML_DSA_87"] then
    [.ML_DSA_SHAKE_256]
  else []

/-- The ML-DSA message representative of FIPS 204 in its pure form: SHAKE256
over the hash of the public key, the framed context string and the message. -/
def mu (shake256 : Bytes → Bytes) (raw context msg : Bytes) : Bytes :=
  shake256 (shake256 raw ++
    (0 :: UInt8.ofNat context.length :: (context ++ msg)))

/-- The message a MessageType carries for a key of that family: a digest of
the algorithm's length, a short message, or the 64 bytes of `mu`. -/
inductive LegalMessage (family : AwskmsFamily) (algorithm : SigningAlgorithm)
    (mu : Bytes) : MessageType → Bytes → Prop where
  | digest {msg : Bytes} : family = .rsa ∨ family = .ec →
      msg.length = awskmsDigestLength (digestOf algorithm) →
      digestOf algorithm ≠ .none → LegalMessage family algorithm mu .DIGEST msg
  | raw {msg : Bytes} : family = .ed25519 → 1 ≤ msg.length →
      msg.length ≤ 4096 → LegalMessage family algorithm mu .RAW msg
  | externalMu {msg : Bytes} : family = .mlDsa → msg = mu →
      msg.length = 64 → LegalMessage family algorithm mu .EXTERNAL_MU msg

theorem LegalMessage.mu_eq {family : AwskmsFamily}
    {algorithm : SigningAlgorithm} {mu msg : Bytes}
    (hm : LegalMessage family algorithm mu .EXTERNAL_MU msg) : msg = mu := by
  cases hm with
  | externalMu _ heq _ => exact heq

/-- A legal request under a key of that spec, for a caller whose padding,
context string and `mu` are the given ones. -/
structure Legal (spec : AwskmsKeyspec) (padding : RsaPadding)
    (context mu : Bytes) (req : KmsRequest) : Prop where
  offered : req.signingAlgorithm ∈ signingAlgorithms spec.kmsKeySpec
  padding : spec.family = .rsa → paddingOf req.signingAlgorithm = some padding
  message : LegalMessage spec.family req.signingAlgorithm mu req.messageType
    req.msg
  context : context ≠ [] → spec.family = .mlDsa

end AwsKms.Spec
