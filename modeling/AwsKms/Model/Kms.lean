import AwsKms.Model.Keyspec
import AwsKms.Model.Provider
import AwsKms.Model.Uri

/-!
# Two calls to AWS, and the effects of a call

Everything that leaves the provider goes through `awskms_kms_get_public_key`
and `awskms_kms_sign`. What the service answers is part of the environment of
the call that asks.

`Event` is everything a dispatch call does besides changing its own object:
errors raised, requests issued, outputs written, references taken and given
back, fetches made. Two calls that return the same code and leave the same
trace cannot be told apart by their caller.
-/

namespace AwsKms.Model

open AwsKms.Lib

/-- A key object's address. -/
abbrev KeyRef := Nat

/-- `AWSKMS_PUBLIC_KEY`. -/
structure AwskmsPublicKey where
  keySpec : String
  spki : Bytes
  deriving DecidableEq, Repr

/-- The `MessageType` of a kms:Sign request. -/
inductive MessageType where
  | DIGEST
  | RAW
  | EXTERNAL_MU
  deriving DecidableEq, Repr

/-- One call to `awskms_kms_sign`, less the output buffer. -/
structure KmsRequest where
  uri : AwskmsUri
  fipsRequired : Bool
  signingAlgorithm : SigningAlgorithm
  messageType : MessageType
  msg : Bytes
  deriving DecidableEq, Repr

inductive Event where
  /-- an error on the queue -/
  | raise (e : ProviderError)
  /-- `*siglen = n` -/
  | setSiglen (n : Nat)
  /-- the bytes written at `sig` -/
  | writeSig (sig : Bytes)
  /-- a value written back by `get_ctx_params` -/
  | outParam (key : String) (data : OsslParamData)
  /-- a kms:Sign request -/
  | kmsSign (req : KmsRequest)
  /-- a kms:GetPublicKey request -/
  | kmsGetPublicKey (uri : AwskmsUri) (fipsRequired : Bool)
  /-- an `EVP_MD_fetch` of that name under that property query -/
  | fetchMd (name : Bytes) (propq : String)
  /-- a `d2i_PUBKEY_ex` under that property query -/
  | decode (propq : String)
  /-- a verification set up under that property query -/
  | verifyWith (propq : String)
  /-- the store callback, with the reported data type and the reference -/
  | objectCb (keytype : String) (ref : KeyRef)
  /-- a reference taken -/
  | keyUpRef (ref : KeyRef)
  /-- a reference given back -/
  | keyFree (ref : KeyRef)
  deriving DecidableEq, Repr

/-- The answers one call gets from outside. -/
structure Env (Alg Key : Type) where
  ok : Site → Bool
  /-- `EVP_default_properties_is_fips_enabled` -/
  defaultFips : Bool
  /-- `EVP_MD_fetch` -/
  mdFetch : Bytes → String → Option Alg
  /-- `d2i_PUBKEY_ex`: the key and the number of bytes consumed -/
  d2iPubkey : Bytes → String → Option (Key × Nat)
  /-- kms:GetPublicKey -/
  getPublicKey : AwskmsUri → Bool → Except ProviderError AwskmsPublicKey
  /-- kms:Sign -/
  sign : KmsRequest → Except ProviderError Bytes

def raise (reason : Reason) (fmt : String) (args : List FmtArg) : Event :=
  .raise ⟨reason, fmt, args⟩

section

variable {Alg Key : Type} (env : Env Alg Key)

/-- `awskms_kms_sign`: always a request, and an answer that does not fit the
buffer is an error. -/
def awskmsKmsSign (req : KmsRequest) (sigSize : Nat) : Reply Event :=
  match env.sign req with
  | .error e => ⟨false, [.kmsSign req, .raise e]⟩
  | .ok blob =>
      if sigSize < blob.length then
        ⟨false, [.kmsSign req, raise .signFailed
          "kms:Sign returned %zu bytes but only %zu were reserved"
          [.num blob.length, .num sigSize]]⟩
      else ⟨true, [.kmsSign req, .writeSig blob, .setSiglen blob.length]⟩

end

/-- The requests of a trace. -/
def requests (trace : List Event) : List KmsRequest :=
  trace.filterMap fun
    | .kmsSign req => some req
    | _ => none

@[simp] theorem requests_nil : requests [] = [] := rfl

@[simp] theorem requests_append (a b : List Event) :
    requests (a ++ b) = requests a ++ requests b := List.filterMap_append

@[simp] theorem mem_requests {trace : List Event} {req : KmsRequest} :
    req ∈ requests trace ↔ Event.kmsSign req ∈ trace := by
  simp only [requests, List.mem_filterMap]
  constructor
  · rintro ⟨e, he, hreq⟩
    cases e <;> simp at hreq
    subst hreq
    exact he
  · intro h
    exact ⟨_, h, rfl⟩

end AwsKms.Model
