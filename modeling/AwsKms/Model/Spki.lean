import AwsKms.Model.Kms

/-!
# The public half of a key

`awskms_pubkey_from_spki` builds an `AWSKMS_PUBKEY` in place, one check after
the other, and clears it again when any of them fails. The stages below are
those checks in the order of the source; what they share is the structure
under construction.
-/

namespace AwsKms.Model

open AwsKms.Lib

/-- `tr`, with the property query its SHAKE256 was fetched under. -/
structure AwskmsTr where
  bytes : Bytes
  propq : String
  deriving DecidableEq, Repr

/-- `AWSKMS_PUBKEY`. An empty `der` or `raw` is a NULL pointer of length 0,
and `tr` is there when `have_tr` is set. -/
structure AwskmsPubkey (Key : Type) where
  der : Bytes
  pkey : Option (EvpPkey Key)
  spec : Option AwskmsKeyspec
  raw : Bytes
  tr : Option AwskmsTr
  deriving DecidableEq, Repr

namespace AwskmsPubkey

def zero {Key : Type} : AwskmsPubkey Key := ⟨[], none, none, [], none⟩

end AwskmsPubkey

variable {Alg Key : Type} (h : Host Alg Key) (env : Env Alg Key)

/-- An `EVP_MD_fetch` of SHAKE256 and one pass of it over `input`. -/
def shakeOver (fipsRequired : Bool) (input : Bytes)
    (failed : ProviderError) : Reply Event × Bytes :=
  let propq := awskmsDependencyPropq fipsRequired
  let fetch := Event.fetchMd (ascii "SHAKE256") propq
  match env.mdFetch (ascii "SHAKE256") propq with
  | none => (⟨false, [fetch, raise .internalError
      "SHAKE256 is unavailable, so ML-DSA mu cannot be computed" []]⟩, [])
  | some _ =>
      if env.ok .mdCtxNew = false then (⟨false, [fetch]⟩, [])
      else if env.ok .shake = false then (⟨false, [fetch, .raise failed]⟩, [])
      else (⟨true, [fetch]⟩, h.shake256 input)

def computeTr (fipsRequired : Bool) : Act (AwskmsPubkey Key) Event := fun p =>
  let shake := shakeOver h env fipsRequired p.raw
    ⟨.internalError, "SHAKE256 of the public key failed", []⟩
  let tr : AwskmsTr := ⟨shake.2, awskmsDependencyPropq fipsRequired⟩
  if shake.1.ok then ⟨true, { p with tr := some tr }, shake.1.trace⟩
  else shake.1.keep p

def expectedRsaBits (spec : AwskmsKeyspec) : Int :=
  if spec.kmsKeySpec = "RSA_2048" then 2048
  else if spec.kmsKeySpec = "RSA_3072" then 3072
  else if spec.kmsKeySpec = "RSA_4096" then 4096
  else 0

def loadRawPublic (spec : AwskmsKeyspec) (key : Key) :
    Act (AwskmsPubkey Key) Event := fun p =>
  match h.pkeyPub key with
  | none | some [] => Act.refuse [raise .malformedPublicKey
      "%s public key exposes no raw public value" [.text spec.kmsKeySpec]] p
  | some raw =>
      if env.ok .memdupRaw = false then Act.refuse [] p
      else if env.ok .getRaw = false then
        Act.refuse [raise .malformedPublicKey
          "could not read the raw public value" []] p
      else if spec.pubLen ≠ 0 ∧ raw.length ≠ spec.pubLen then
        Act.refuse [raise .malformedPublicKey
          "%s public key is %zu bytes, expected %zu"
          [.text spec.kmsKeySpec, .num raw.length, .num spec.pubLen]]
          { p with raw := raw }
      else ⟨true, { p with raw := raw }, []⟩

def checkGroup (spec : AwskmsKeyspec) (key : Key) :
    Act (AwskmsPubkey Key) Event :=
  match h.pkeyGroup key with
  | none => Act.refuse [raise .malformedPublicKey
      "EC public key exposes no group name" []]
  | some group =>
      if some group ≠ spec.groupName then
        Act.refuse [raise .malformedPublicKey
          "%s public key is on curve \"%s\", expected \"%s\""
          [.text spec.kmsKeySpec, .text group, .text (spec.groupName.getD "")]]
      else Act.done

def checkBits (spec : AwskmsKeyspec) (key : Key) :
    Act (AwskmsPubkey Key) Event :=
  let actual := h.pkeyBits key
  let expected := expectedRsaBits spec
  if expected = 0 ∨ actual ≠ expected then
    Act.refuse [raise .malformedPublicKey
      "%s public key has %d bits, expected %d"
      [.text spec.kmsKeySpec, .num actual, .num expected]]
  else Act.done

/-- The check each family ends with. -/
def familyChecks (fipsRequired : Bool) (spec : AwskmsKeyspec) (key : Key) :
    Act (AwskmsPubkey Key) Event :=
  match spec.family with
  | .ec => checkGroup h spec key
  | .ed25519 => loadRawPublic h env spec key
  | .mlDsa =>
      (loadRawPublic h env spec key).andThen (computeTr h env fipsRequired)
  | .rsa => checkBits h spec key

/-- Everything after the decode, once there is a key. -/
def acceptKey (fipsRequired : Bool) (spec : AwskmsKeyspec) (key : Key)
    (consumed : Nat) (derLen : Nat) : Act (AwskmsPubkey Key) Event :=
  if consumed ≠ derLen then
    Act.refuse [raise .malformedPublicKey
      "%s SubjectPublicKeyInfo has %zu trailing byte(s)"
      [.text spec.kmsKeySpec, .num (derLen - consumed)]]
  else if h.pkeyIsA key spec.keytype = false then
    Act.refuse [raise .malformedPublicKey "%s public key is not a %s key"
      [.text spec.kmsKeySpec, .text spec.keytype]]
  else familyChecks h env fipsRequired spec key

/-- The decode of the retained bytes, and what follows from it. -/
def decodePubkey (fipsRequired : Bool) (spec : AwskmsKeyspec) :
    Act (AwskmsPubkey Key) Event := fun p =>
  let propq := awskmsDependencyPropq fipsRequired
  match env.d2iPubkey p.der propq with
  | none => Act.refuse [.decode propq, raise .malformedPublicKey
      "could not parse the %s SubjectPublicKeyInfo" [.text spec.kmsKeySpec]] p
  | some (key, consumed) =>
      Act.andThen (fun p => ⟨true, { p with pkey := some ⟨key, propq⟩ },
          [.decode propq]⟩)
        (acceptKey h env fipsRequired spec key consumed p.der.length) p

def awskmsPubkeyFromSpki (der : Bytes) (kmsKeySpec : String)
    (fipsRequired : Bool) : Act (AwskmsPubkey Key) Event :=
  Act.onFail (fun p =>
    match awskmsKeyspecByName kmsKeySpec with
    | none => Act.refuse [raise .unsupportedKeySpec
        "key spec \"%s\" is not supported" [.text kmsKeySpec]] p
    | some spec =>
        if der = [] then
          Act.refuse [raise .malformedPublicKey "empty public key" []] p
        else if h.longMax < der.length then
          Act.refuse [raise .malformedPublicKey
            "public key is too large to decode: %zu bytes"
            [.num der.length]] p
        else if env.ok .memdupDer = false then Act.refuse [] p
        else decodePubkey h env fipsRequired spec
          { p with spec := some spec, der := der })
    fun _ => AwskmsPubkey.zero

/-- `awskms_pubkey_dup` onto a zeroed structure. -/
def awskmsPubkeyDup (src : AwskmsPubkey Key) : Option (AwskmsPubkey Key) :=
  if src.der ≠ [] ∧ env.ok .memdupDer = false then none
  else if src.pkey.isSome ∧ env.ok .pkeyUpRef = false then none
  else if src.raw ≠ [] ∧ env.ok .memdupRaw = false then none
  else some src

/-- The bytes `awskms_mu` absorbs. -/
def muInput (tr ctxString msg : Bytes) : Bytes :=
  tr ++ [0, UInt8.ofNat ctxString.length] ++ ctxString ++ msg

/-- `awskms_mu`. -/
def awskmsMu (fipsRequired : Bool) (tr ctxString msg : Bytes) :
    Reply Event × Bytes :=
  if 255 < ctxString.length then
    (⟨false, [raise .unsupportedParameter
      "an ML-DSA context string may be at most 255 bytes, got %zu"
      [.num ctxString.length]]⟩, [])
  else shakeOver h env fipsRequired (muInput tr ctxString msg)
    ⟨.internalError, "computing ML-DSA mu failed", []⟩

end AwsKms.Model
