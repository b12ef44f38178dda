import Mathlib.Algebra.Ring.Int.Defs
import Mathlib.Data.List.Basic

/-!
# What the provider asks of its host

The provider is a few hundred lines of C between two bodies of code that are
not here: libcrypto on one side, AWS KMS on the other. `Host` is the part of
the first that is a function of its arguments (what a digest computes, what a
public key answers about itself, what a verification accepts); it is fixed
for the life of a process. Whatever can differ from one call to the next,
such as an allocation, a fetch, or a decoder that is missing today, is an
answer of the call's own environment, in `Kms.lean`.

Digests and public keys carry the property query they were obtained with.
The C code keeps no such field. It is there because where an object came from
is the subject of half of what the provider promises, and an object that did
not remember could not be asked.
-/

namespace AwsKms.Model

abbrev Bytes := List UInt8

/-- A C string literal. -/
def ascii (s : String) : Bytes := s.toList.map fun c => c.toNat.toUInt8

/-- The payload of an `OSSL_PARAM`, by its data type. A number is taken at its
mathematical value, whatever its width in memory; of a real one only the integer
it may be is kept. The two `Ptr` types hold the address of the data instead of
the data. `other` is a type outside this list. -/
inductive OsslParamData where
  | integer (v : Int)
  | unsignedInteger (v : Nat)
  | real (v : Option Int)
  | utf8String (data : Option Bytes)
  | utf8Ptr (data : Option Bytes)
  | octetString (data : Bytes)
  | octetPtr (data : Bytes)
  | other
  deriving DecidableEq, Repr

structure OsslParam where
  key : String
  data : OsslParamData
  deriving DecidableEq, Repr

/-- `OSSL_PARAM_locate_const`: the first parameter of that name. -/
def locate (params : List OsslParam) (key : String) : Option OsslParam :=
  params.find? fun p => p.key == key

def intMin : Int := -2147483648
def intMax : Int := 2147483647

/-- `OSSL_PARAM_get_int` on an `OSSL_PARAM_INTEGER`. -/
def getInt (v : Int) : Option Int :=
  if intMin ≤ v ∧ v ≤ intMax then some v else none

/-- `OSSL_PARAM_get_int` on a parameter of any type: a real number passes where
it is an integer. -/
def paramInt (p : OsslParam) : Option Int :=
  match p.data with
  | .integer v => getInt v
  | .unsignedInteger v => getInt v
  | .real v => v.bind getInt
  | _ => none

/-- `OSSL_PARAM_get_utf8_string_ptr`; the pointer it hands out may be null. -/
def getUtf8StringPtr (p : OsslParam) : Option (Option Bytes) :=
  match p.data with
  | .utf8String data => some data
  | .utf8Ptr data => some data
  | _ => none

/-- `OSSL_PARAM_get_octet_string_ptr` -/
def getOctetStringPtr (p : OsslParam) : Option Bytes :=
  match p.data with
  | .octetString data => some data
  | .octetPtr data => some data
  | _ => none

def ossl_SIGNATURE_PARAM_DIGEST : String := "digest"
def ossl_SIGNATURE_PARAM_PAD_MODE : String := "pad-mode"
def ossl_SIGNATURE_PARAM_PSS_SALTLEN : String := "saltlen"
def ossl_SIGNATURE_PARAM_CONTEXT_STRING : String := "context-string"
def ossl_SIGNATURE_PARAM_INSTANCE : String := "instance"
def ossl_SIGNATURE_PARAM_MGF1_DIGEST : String := "mgf1-digest"
def ossl_STORE_PARAM_EXPECT : String := "expect"
def ossl_STORE_PARAM_PROPERTIES : String := "properties"

/-- The two padding modes a context can hold, `RSA_PKCS1_PADDING` and
`RSA_PKCS1_PSS_PADDING`. -/
inductive RsaPadding where
  | pkcs1
  | pss
  deriving DecidableEq, Repr

def RsaPadding.ofInt (n : Int) : Option RsaPadding :=
  if n = 1 then some .pkcs1 else if n = 6 then some .pss else none

def RsaPadding.toInt : RsaPadding → Int
  | .pkcs1 => 1
  | .pss => 6

def rsa_PSS_SALTLEN_DIGEST : Int := -1
def rsa_PSS_SALTLEN_AUTO : Int := -2
def rsa_PSS_SALTLEN_MAX : Int := -3

/-- An `EVP_MD` and the property query it was fetched with. -/
structure EvpMd (Alg : Type) where
  alg : Alg
  propq : String
  deriving DecidableEq, Repr

/-- An `EVP_PKEY` and the property query it was decoded with. -/
structure EvpPkey (Key : Type) where
  key : Key
  propq : String
  deriving DecidableEq, Repr

/-- What a prehash verification was configured with. `none` is a setting the
caller never made. -/
structure VerifyParams (Alg : Type) where
  padding : Option RsaPadding
  saltlen : Option Int
  md : Option Alg
  deriving DecidableEq, Repr

/-- What a one-shot verification was configured with. -/
structure DigestVerifyParams where
  context : Option Bytes
  instanceName : Option Bytes
  deriving DecidableEq, Repr

/-- `ada`'s view of a URL string: the pieces `uri.c` reads. `search` keeps its
leading question mark, `hash` its leading number sign. -/
structure AdaUrl where
  valid : Bool
  protocol : Bytes
  pathname : Bytes
  search : Bytes
  hash : Bytes
  deriving DecidableEq, Repr

/-- The host: the part of libcrypto, the C library and the bundled URL parser
that is a function of its arguments. -/
structure Host (Alg Key : Type) where
  /-- width of `long` in bits -/
  longBits : Nat
  /-- `EVP_MD_is_a` -/
  mdIsA : Alg → Bytes → Bool
  /-- `EVP_MD_get0_name` -/
  mdName : Alg → Bytes
  /-- `EVP_MD_get_flags(md) & EVP_MD_FLAG_XOF` -/
  mdXof : Alg → Bool
  /-- what a digest computes over its whole input -/
  hash : Alg → Bytes → Bytes
  /-- SHAKE256 with 64 bytes of output -/
  shake256 : Bytes → Bytes
  /-- `EVP_PKEY_is_a` -/
  pkeyIsA : Key → String → Bool
  /-- `OSSL_PKEY_PARAM_GROUP_NAME` -/
  pkeyGroup : Key → Option String
  /-- `EVP_PKEY_get_bits` -/
  pkeyBits : Key → Int
  /-- `EVP_PKEY_get_size` -/
  pkeySize : Key → Int
  /-- `OSSL_PKEY_PARAM_PUB_KEY` -/
  pkeyPub : Key → Option Bytes
  /-- whether `OSSL_PKEY_PARAM_RSA_N` is there -/
  pkeyHasN : Key → Bool
  /-- export and import of the domain parameters alone -/
  pkeyDomain : Key → Option Key
  /-- `EVP_PKEY_eq` -/
  pkeyEq : Key → Key → Bool
  /-- `EVP_PKEY_parameters_eq` -/
  pkeyParametersEq : Key → Key → Bool
  /-- `EVP_PKEY_verify` -/
  verify : Key → VerifyParams Alg → Bytes → Bytes → Bool
  /-- `EVP_DigestVerify` with a NULL digest -/
  digestVerify : Key → DigestVerifyParams → Bytes → Bytes → Bool
  /-- `ada_parse` -/
  adaParse : Bytes → AdaUrl
  /-- `ada_parse_search_params`, as the ordered decoded pairs -/
  adaSearchParams : Bytes → List (Bytes × Bytes)

/-- `LONG_MAX`. -/
def Host.longMax {Alg Key : Type} (h : Host Alg Key) : Int :=
  2 ^ (h.longBits - 1) - 1

/-- An `EVP_MD_CTX`: allocated, hashing, or finalised. -/
inductive EvpMdCtx (Alg : Type) where
  | fresh
  | running (md : EvpMd Alg) (data : Bytes)
  | finalised (md : EvpMd Alg)
  deriving DecidableEq, Repr

namespace EvpMdCtx

variable {Alg Key : Type}

/-- `EVP_DigestUpdate`. -/
def update (chunk : Bytes) : EvpMdCtx Alg → Option (EvpMdCtx Alg)
  | .running md data => some (.running md (data ++ chunk))
  | _ => none

/-- `EVP_DigestFinal_ex`. -/
def final (h : Host Alg Key) : EvpMdCtx Alg → Option (EvpMdCtx Alg × Bytes)
  | .running md data => some (.finalised md, h.hash md.alg data)
  | _ => none

/-- The digest a context was initialised with. -/
def md? : EvpMdCtx Alg → Option (EvpMd Alg)
  | .fresh => none
  | .running md _ => some md
  | .finalised md => some md

end EvpMdCtx

/-! ## Fallible internal calls

The calls of libcrypto and of the allocator that can fail for reasons no
argument shows. A call's environment says which of them succeed. -/

inductive Site where
  | zalloc
  | lockNew
  | keyUpRef
  | memdupDer
  | memdupRaw
  | getRaw
  | pkeyUpRef
  | mdUpRef
  | mdCtxNew
  | mdCtxCopy
  | digestInit
  | shake
  | todata
  | fromdata
  | pkeyCtxNew
  | verifyInit
  | setPadding
  | setSaltlen
  | setSignatureMd
  | digestVerifyInit
  deriving DecidableEq, Repr

end AwsKms.Model
