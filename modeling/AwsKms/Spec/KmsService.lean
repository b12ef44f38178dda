import AwsKms.Spec.KmsApi

/-!
# What a service does that can be trusted

`KmsApi.lean` is what a request may be; this is what comes back. A service has
key pairs, one behind each URI it knows. It hands out the public half of the
pair, and what it signs with the private half is a signature to the standard
primitive that the algorithm names, by the account of the libcrypto that is
going to be asked.
-/

namespace AwsKms.Spec

open AwsKms.Model

variable {Alg Key : Type}

/-- The public half of a key pair: its KeySpec, its encoding, and the key that
libcrypto takes from it. -/
structure KmsKey (Key : Type) where
  keySpec : String
  spki : Bytes
  key : Key

/-- A digest that goes by the name of an algorithm's. -/
def IsDigest (h : Host Alg Key) (md : Alg) : AwskmsDigest → Prop
  | .sha256 => h.mdIsA md (ascii "SHA2-256") = true
  | .sha384 => h.mdIsA md (ascii "SHA2-384") = true
  | .sha512 => h.mdIsA md (ascii "SHA2-512") = true
  | .none | .other => False

/-- The primitive of an algorithm that signs a digest: for PSS the salt is as
long as the digest, and MGF1 is on the digest itself. -/
def primitive (algorithm : SigningAlgorithm) (md : Alg) : VerifyParams Alg where
  padding := paddingOf algorithm
  saltlen := if paddingOf algorithm = some .pss then some rsa_PSS_SALTLEN_DIGEST else none
  md := some md

/-- The primitive that signs a message, under a context string. -/
def messagePrimitive (context : Bytes) : DigestVerifyParams where
  context := if context = [] then none else some context
  instanceName := none

/-- What the primitive of a request says to a signature. A message
representative stands for every message that it is the representative of. -/
def Signs (h : Host Alg Key) (key : Key) (req : KmsRequest) (sig : Bytes) : Prop :=
  match req.messageType with
  | .DIGEST => ∀ md, IsDigest h md (digestOf req.signingAlgorithm) →
      h.verify key (primitive req.signingAlgorithm md) sig req.msg = true
  | .RAW => h.digestVerify key (messagePrimitive []) sig req.msg = true
  | .EXTERNAL_MU => ∀ raw context message, h.pkeyPub key = some raw →
      context.length ≤ 255 → req.msg = mu h.shake256 raw context message →
        h.digestVerify key (messagePrimitive context) sig message = true

/-- The service answers for the URIs it knows with the pairs it has. An
algorithm that the KeySpec does not list binds it to nothing. -/
structure Honest (h : Host Alg Key) (known : AwskmsUri → Prop)
    (pair : AwskmsUri → KmsKey Key) (env : Env Alg Key) : Prop where
  serves : ∀ uri fips answer, known uri → env.getPublicKey uri fips = .ok answer →
    answer.keySpec = (pair uri).keySpec ∧ answer.spki = (pair uri).spki
  decodes : ∀ uri propq key n, known uri →
    env.d2iPubkey (pair uri).spki propq = some (key, n) → key = (pair uri).key
  signs : ∀ req sig, known req.uri →
    req.signingAlgorithm ∈ signingAlgorithms (pair req.uri).keySpec →
      env.sign req = .ok sig → Signs h (pair req.uri).key req sig

end AwsKms.Spec
