import AwsKms.Model.Sys

/-!
# The stub backend

A KMS in the process: `kms_stub.c` takes the KeySpec from the key id, makes a
key pair on first use, keeps it under the id, and signs with it. It stands
where the AWS backend stands and is compiled in its place.

What the stub asks of libcrypto and of the allocator is its own `Token`, one
for each call of the provider. A key that is generated is an answer like any
other, so what two calls generate need not be the same; what is the same is
what the list of entries keeps.
-/

namespace AwsKms.Model

namespace Stub

/-- What `EVP_PKEY_Q_keygen` is asked for. -/
inductive Keygen where
  | rsa (bits : Nat)
  | ec (groupName : Option String)
  | type (keytype : String)
  deriving DecidableEq, Repr

/-- `struct entry`. -/
structure Entry (Priv : Type) where
  keyId : Bytes
  spec : AwskmsKeyspec
  pkey : Priv

/-- The calls of the stub that can fail for reasons no argument shows. -/
inductive StubSite where
  | writeLock
  | zalloc
  | strdupKeyId
  | strdupKeySpec
  | mdCtxNew
  | digestSignInit
  | signatureFetch
  | pkeyCtxNew
  | signMessageInit
  | signInit
  | setPadding
  | setSaltlen
  | setSignatureMd
  deriving DecidableEq, Repr

/-- The answers the stub gets from outside in one call. A signature is asked
for with the size of the output buffer. -/
structure Token (Alg Priv : Type) where
  ok : StubSite → Bool
  /-- `AWSKMS_MLDSA_API` -/
  mldsaApi : Bool
  /-- `EVP_PKEY_Q_keygen` -/
  keygen : Keygen → Option Priv
  /-- `i2d_PUBKEY` -/
  i2dPubkey : Priv → Option Bytes
  /-- `EVP_MD_fetch` without a property query -/
  mdFetch : String → Option Alg
  /-- `EVP_DigestSign` with a NULL digest -/
  digestSign : Priv → Bytes → Nat → Option Bytes
  /-- `EVP_PKEY_sign` of a message representative, under that algorithm -/
  signMu : Priv → String → Bytes → Nat → Option Bytes
  /-- `EVP_PKEY_sign` of a digest, under those settings -/
  sign : Priv → VerifyParams Alg → Bytes → Nat → Option Bytes

/-- What a routine of the stub returns, the entries it leaves, and the error
it raised. A failure without one is silent. -/
structure Answer (Priv α : Type) where
  value : Option α
  entries : List (Entry Priv)
  raised : Option ProviderError

/-- `OPENSSL_strncasecmp` over the length of the name. -/
def startsWithName (name : String) (p : Bytes) : Bool :=
  (p.take (ascii name).length).map asciiLower == (ascii name).map asciiLower

/-- `spec_from_key_id`: the first row of the table whose name is somewhere in
the key id. -/
def specFromKeyId (keyId : Bytes) : Option AwskmsKeyspec :=
  specs.find? fun s => keyId.tails.any (startsWithName s.kmsKeySpec)

def generate (spec : AwskmsKeyspec) : Keygen :=
  match spec.family with
  | .rsa =>
      .rsa (if spec.kmsKeySpec = "RSA_4096" then 4096
        else if spec.kmsKeySpec = "RSA_3072" then 3072 else 2048)
  | .ec => .ec spec.groupName
  | .ed25519 => .type "ED25519"
  | .mlDsa => .type spec.keytype

section

variable {Alg Priv : Type} (t : Token Alg Priv)

def lookup (keyId : Bytes) (entries : List (Entry Priv)) : Answer Priv (Entry Priv) :=
  if t.ok .writeLock = false then ⟨none, entries, none⟩
  else
    match entries.find? fun e => e.keyId == keyId with
    | some e => ⟨some e, entries, none⟩
    | none =>
        match specFromKeyId keyId with
        | none => ⟨none, entries, some ⟨.keyNotFound,
            "stub backend: key id \"%s\" names no KMS key spec", [.bytes keyId]⟩⟩
        | some spec =>
            if t.ok .zalloc = false then ⟨none, entries, none⟩
            else
              match if t.ok .strdupKeyId then t.keygen (generate spec) else none with
              | none => ⟨none, entries, some ⟨.internalError,
                  "stub backend: could not generate a %s key", [.text spec.kmsKeySpec]⟩⟩
              | some pkey =>
                  ⟨some ⟨keyId, spec, pkey⟩, ⟨keyId, spec, pkey⟩ :: entries, none⟩

end

/-- `strstr`: what follows the start of the first occurrence. -/
def strstr (s needle : Bytes) : Option Bytes :=
  s.tails.find? fun p => needle.isPrefixOf p

def hasFault (keyId : Bytes) (name : String) : Bool := (strstr keyId (ascii name)).isSome

/-- The KeySpec that is reported for a key. -/
def reportedKeySpec (keyId : Bytes) (spec : AwskmsKeyspec) : String :=
  if hasFault keyId "fault-badspec" then "SM2"
  else if hasFault keyId "fault-wrongtype" then "RSA_2048"
  else if hasFault keyId "fault-wronggroup" then
    if spec.kmsKeySpec = "ECC_NIST_P256" then "ECC_NIST_P384" else "ECC_NIST_P256"
  else spec.kmsKeySpec

/-- The SubjectPublicKeyInfo that is reported for an encoded key. -/
def reportedSpki (keyId der : Bytes) : Bytes :=
  if hasFault keyId "fault-emptyspki" then []
  else if hasFault keyId "fault-truncspki" then der.take (der.length / 2)
  else if hasFault keyId "fault-badspki" then
    der.take (der.length / 2) ++ (der.drop (der.length / 2)).map (· ^^^ 0xff)
  else der

section

variable {Alg Priv : Type} (t : Token Alg Priv)

/-- `i2d_PUBKEY` with a positive length. -/
def encoded (pkey : Priv) : Option Bytes :=
  match t.i2dPubkey pkey with
  | none | some [] => none
  | some der => some der

def awskmsKmsGetPublicKey (uri : AwskmsUri) (entries : List (Entry Priv)) :
    Answer Priv AwskmsPublicKey :=
  let keyId := uri.keyId.getD []
  let found := lookup t keyId entries
  match found.value with
  | none => ⟨none, found.entries, found.raised⟩
  | some e =>
      match encoded t e.pkey with
      | none => ⟨none, found.entries, some ⟨.getPublicKeyFailed,
          "stub backend: could not encode the public key", []⟩⟩
      | some der =>
          if t.ok .strdupKeySpec = false then ⟨none, found.entries, none⟩
          else ⟨some ⟨reportedKeySpec keyId e.spec, reportedSpki keyId der⟩,
            found.entries, none⟩

end

/-- A SigningAlgorithm as it goes on the wire. -/
def wireName : SigningAlgorithm → Bytes
  | .RSASSA_PSS_SHA_256 => ascii "RSASSA_PSS_SHA_256"
  | .RSASSA_PSS_SHA_384 => ascii "RSASSA_PSS_SHA_384"
  | .RSASSA_PSS_SHA_512 => ascii "RSASSA_PSS_SHA_512"
  | .RSASSA_PKCS1_V1_5_SHA_256 => ascii "RSASSA_PKCS1_V1_5_SHA_256"
  | .RSASSA_PKCS1_V1_5_SHA_384 => ascii "RSASSA_PKCS1_V1_5_SHA_384"
  | .RSASSA_PKCS1_V1_5_SHA_512 => ascii "RSASSA_PKCS1_V1_5_SHA_512"
  | .ECDSA_SHA_256 => ascii "ECDSA_SHA_256"
  | .ECDSA_SHA_384 => ascii "ECDSA_SHA_384"
  | .ECDSA_SHA_512 => ascii "ECDSA_SHA_512"
  | .ED25519_SHA_512 => ascii "ED25519_SHA_512"
  | .ML_DSA_SHAKE_256 => ascii "ML_DSA_SHAKE_256"

/-- `parse_algorithm`: the name of the digest, and whether it is PSS. -/
def parseAlgorithm (algorithm : Bytes) : Option (String × Bool) :=
  match (strstr algorithm (ascii "_SHA_")).map (·.drop 5) with
  | none => none
  | some suffix =>
      let pss := algorithm.take 11 == ascii "RSASSA_PSS_"
      if suffix = ascii "256" then some ("SHA2-256", pss)
      else if suffix = ascii "384" then some ("SHA2-384", pss)
      else if suffix = ascii "512" then some ("SHA2-512", pss)
      else none

section

variable {Alg Priv : Type} (t : Token Alg Priv)

/-- The settings of `EVP_PKEY_sign`: padding and salt length on RSA alone. -/
def signParams (spec : AwskmsKeyspec) (pss : Bool) (md : Alg) : VerifyParams Alg :=
  if spec.family = .rsa then
    ⟨some (if pss then .pss else .pkcs1), if pss then some rsa_PSS_SALTLEN_DIGEST else none,
      some md⟩
  else ⟨none, none, some md⟩

/-- Whether every step that sets the signature up succeeds. -/
def signReady (spec : AwskmsKeyspec) (pss : Bool) : Bool :=
  t.ok .pkeyCtxNew && t.ok .signInit &&
    (spec.family ≠ .rsa || (t.ok .setPadding && (!pss || t.ok .setSaltlen))) &&
    t.ok .setSignatureMd

/-- `MessageType=RAW`. -/
def signRaw (e : Entry Priv) (msg : Bytes) (sigSize : Nat) : Option Bytes :=
  if t.ok .mdCtxNew && t.ok .digestSignInit then t.digestSign e.pkey msg sigSize else none

/-- `MessageType=EXTERNAL_MU`, for a message of 64 bytes. -/
def signExternalMu (e : Entry Priv) (msg : Bytes) (sigSize : Nat) : Option Bytes :=
  if t.ok .signatureFetch && t.ok .pkeyCtxNew && t.ok .signMessageInit then
    t.signMu e.pkey e.spec.keytype msg sigSize
  else none

/-- `MessageType=DIGEST`, under the algorithm that was parsed. -/
def signPrehashed (e : Entry Priv) (mdName : String) (pss : Bool) (msg : Bytes)
    (sigSize : Nat) : Option Bytes :=
  match t.mdFetch mdName with
  | none => none
  | some md =>
      if signReady t e.spec pss then t.sign e.pkey (signParams e.spec pss md) msg sigSize
      else none

def signFailed (fmt : String) (args : List FmtArg) : ProviderError := ⟨.signFailed, fmt, args⟩

/-- The signature, or the error. -/
def orRaise (sig : Option Bytes) (e : ProviderError) : Except ProviderError Bytes :=
  match sig with
  | some sig => .ok sig
  | none => .error e

/-- What `awskms_kms_sign` does once it has its entry. -/
def signWith (e : Entry Priv) (req : KmsRequest) (sigSize : Nat) :
    Except ProviderError Bytes :=
  let algorithm := FmtArg.bytes (wireName req.signingAlgorithm)
  if req.msg.length < 1 ∨ 4096 < req.msg.length then
    .error (signFailed "stub backend: Message must be 1-4096 bytes, got %zu"
      [.num req.msg.length])
  else
    match req.messageType with
    | .RAW => orRaise (signRaw t e req.msg sigSize)
        (signFailed "stub backend: RAW signing with %s failed" [algorithm])
    | .EXTERNAL_MU =>
        if t.mldsaApi = false then
          .error (signFailed
            "stub backend: EXTERNAL_MU needs OpenSSL 3.5 headers, which is also the floor for ML-DSA"
            [])
        else if req.msg.length ≠ 64 then
          .error (signFailed
            "stub backend: EXTERNAL_MU requires a 64-byte Message, got %zu"
            [.num req.msg.length])
        else orRaise (signExternalMu t e req.msg sigSize)
          (signFailed "stub backend: EXTERNAL_MU signing with %s failed" [algorithm])
    | .DIGEST =>
        match parseAlgorithm (wireName req.signingAlgorithm) with
        | none => .error (signFailed "stub backend: unknown SigningAlgorithm %s" [algorithm])
        | some (mdName, pss) => orRaise (signPrehashed t e mdName pss req.msg sigSize)
            (signFailed "stub backend: signing with %s failed" [algorithm])

def awskmsKmsSign (req : KmsRequest) (sigSize : Nat) (entries : List (Entry Priv)) :
    Answer Priv Bytes :=
  let found := lookup t (req.uri.keyId.getD []) entries
  match found.value with
  | none => ⟨none, found.entries, found.raised⟩
  | some e =>
      match signWith t e req sigSize with
      | .ok sig => ⟨some sig, found.entries, none⟩
      | .error err => ⟨none, found.entries, some err⟩

end

/-- What the provider sees of an answer. -/
def Answer.toExcept {Priv α : Type} (a : Answer Priv α) : Except ProviderError α :=
  match a.value with
  | some value => .ok value
  | none => .error (a.raised.getD ⟨.internalError, "", []⟩)

/-- No call of the stub fails in silence. The provider's own model has an
error for every request that fails. -/
def Token.Loud {Alg Priv : Type} (t : Token Alg Priv) : Prop :=
  t.ok .writeLock = true ∧ t.ok .zalloc = true ∧ t.ok .strdupKeySpec = true

instance {Alg Priv : Type} (t : Token Alg Priv) : Decidable t.Loud :=
  inferInstanceAs (Decidable (_ ∧ _ ∧ _))

/-- The size of the buffer that a call passes on to `awskms_kms_sign`. -/
def sigSizeOf : Call → Nat
  | .sig _ (.sign buf _) | .sig _ (.digestSignFinal buf)
  | .sig _ (.oneshotSign buf _) => buf.sigsize
  | _ => 0

/-- One dispatch call, the answers the provider gets from libcrypto, and those
the stub gets. -/
structure StubInput (Alg Key Priv : Type) where
  call : Call
  base : Env Alg Key
  token : Token Alg Priv

section

variable {Alg Key Priv : Type}

/-- The environment of a call: the stub is the service. -/
def StubInput.env (i : StubInput Alg Key Priv) (entries : List (Entry Priv)) :
    Env Alg Key :=
  { i.base with
    getPublicKey := fun uri _ => (awskmsKmsGetPublicKey i.token uri entries).toExcept
    sign := fun req => (awskmsKmsSign i.token req (sigSizeOf i.call) entries).toExcept }

/-- The key id that a request looks up. -/
def lookedUp : Event → Option Bytes
  | .kmsGetPublicKey uri _ => some (uri.keyId.getD [])
  | .kmsSign req => some (req.uri.keyId.getD [])
  | _ => none

/-- The entries after the requests of a call. -/
def afterCall (t : Token Alg Priv) (entries : List (Entry Priv)) (trace : List Event) :
    List (Entry Priv) :=
  (trace.filterMap lookedUp).foldl (fun entries keyId => (lookup t keyId entries).entries)
    entries

/-- The provider and its stub. -/
def stubbed (h : Host Alg Key) (Priv : Type) :
    Lib.Machine (Sys Alg Key × List (Entry Priv)) (StubInput Alg Key Priv) Event where
  start := (Sys.empty, [])
  allowed s i := i.call.Allowed s.1 ∧ i.token.Loud
  step i s :=
    let out := Sys.step h (i.env s.2) i.call s.1
    ⟨out.ok, (out.state, afterCall i.token s.2 out.trace), out.trace⟩

instance (h : Host Alg Key) (s : Sys Alg Key × List (Entry Priv))
    (i : StubInput Alg Key Priv) : Decidable ((stubbed h Priv).allowed s i) :=
  inferInstanceAs (Decidable (i.call.Allowed s.1 ∧ i.token.Loud))

end

end Stub

end AwsKms.Model
