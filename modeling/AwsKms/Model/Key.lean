import AwsKms.Model.Spki

/-!
# Key objects and their keymgmt

A key object is what a KMS-backed `EVP_PKEY` points at: how to reach the key,
its public half, and the FIPS bit it was loaded with. It is shared by
reference, so a `KeyRef` stands for the pointer and the memory that resolves
it is passed to every routine that dereferences one.

`refcnt` and `freed` are the part of the object that reference counting
moves; nothing else in it does.
-/

namespace AwsKms.Model

open AwsKms.Lib

/-- `AWSKMS_KEY`. -/
structure AwskmsKey (Key : Type) where
  uri : AwskmsUri
  pub : AwskmsPubkey Key
  fipsRequired : Bool
  refcnt : Int
  freed : Bool

/-- The memory key pointers resolve in. -/
abbrev Keys (Key : Type) := KeyRef → AwskmsKey Key

/-- `awskms_key_new`. -/
def awskmsKeyNew {Key : Type} : AwskmsKey Key :=
  ⟨AwskmsUri.zero, AwskmsPubkey.zero, false, 1, false⟩

/-- `awskms_key_spec`. The spec of a key nobody can hold yet is NULL; reading
through it is not something a caller can bring about. -/
def awskmsKeySpec {Key : Type} (key : AwskmsKey Key) : AwskmsKeyspec :=
  key.pub.spec.getD AwskmsKeyspec.terminator

abbrev Selection := Nat

def selectPrivateKey : Selection := 0x01
def selectPublicKey : Selection := 0x02
def selectDomainParameters : Selection := 0x04

def Selection.wantsPrivate (s : Selection) : Bool := Nat.testBit s 0
def Selection.wantsPublic (s : Selection) : Bool := Nat.testBit s 1
def Selection.wantsDomain (s : Selection) : Bool := Nat.testBit s 2

/-- A bit of `OSSL_KEYMGMT_SELECT_KEYPAIR`. -/
def Selection.wantsKeypair (s : Selection) : Bool :=
  s.wantsPrivate || s.wantsPublic

section

variable {Alg Key : Type} (h : Host Alg Key) (env : Env Alg Key)

def hasPublicKey (key : AwskmsKey Key) : Bool :=
  match key.pub.pkey, key.pub.spec with
  | some pkey, some spec =>
      if spec.family = .rsa then h.pkeyHasN pkey.key
      else
        match h.pkeyPub pkey.key with
        | none | some [] => false
        | some _ => true
  | _, _ => false

def hasDomainParameters (key : AwskmsKey Key) : Bool :=
  if (awskmsKeySpec key).family ≠ .ec then true
  else
    match key.pub.pkey with
    | none => false
    | some pkey =>
        match h.pkeyGroup pkey.key with
        | none => false
        | some group => group != ""

/-- Whether a key carries a KMS reference: what `has` answers for the private
half. -/
def hasPrivateKey (key : AwskmsKey Key) : Bool :=
  match key.uri.keyId with
  | none | some [] => false
  | some _ => true

def awskmsKeymgmtHas (key : AwskmsKey Key) (selection : Selection) : Bool :=
  key.pub.spec.isSome &&
    (!selection.wantsPublic || hasPublicKey h key) &&
    (!selection.wantsPrivate || hasPrivateKey key) &&
    (!selection.wantsDomain || hasDomainParameters h key)

/-- `EVP_PKEY_eq` on pointers, either of which may be NULL. -/
def evpPkeyEq : Option (EvpPkey Key) → Option (EvpPkey Key) → Bool
  | some a, some b => h.pkeyEq a.key b.key
  | none, none => true
  | _, _ => false

/-- `EVP_PKEY_parameters_eq`. A NULL key never reaches it: both sides answered
for a group before it is called. -/
def evpPkeyParametersEq : Option (EvpPkey Key) → Option (EvpPkey Key) → Bool
  | some a, some b => h.pkeyParametersEq a.key b.key
  | _, _ => false

def awskmsKeymgmtMatch (keys : Keys Key) (a b : KeyRef)
    (selection : Selection) : Bool :=
  if awskmsKeymgmtHas h (keys a) selection = false ∨
      awskmsKeymgmtHas h (keys b) selection = false then false
  else if a = b then true
  else if selection.wantsDomain = true ∧
      ((awskmsKeySpec (keys a)).family = .ec ∨
        (awskmsKeySpec (keys b)).family = .ec) ∧
      ((awskmsKeySpec (keys a)).family ≠ .ec ∨
        (awskmsKeySpec (keys b)).family ≠ .ec ∨
        evpPkeyParametersEq h (keys a).pub.pkey (keys b).pub.pkey = false) then
    false
  else if selection.wantsKeypair = true ∧
      evpPkeyEq h (keys a).pub.pkey (keys b).pub.pkey = false then false
  else true

/-- `new_subset_key`: the type of the key and nothing of it. -/
def newSubsetKey (src : AwskmsKey Key) : Option (AwskmsKey Key) :=
  if env.ok .zalloc = false ∨ env.ok .lockNew = false then none
  else some { (awskmsKeyNew : AwskmsKey Key) with
    pub := { AwskmsPubkey.zero with spec := src.pub.spec },
    fipsRequired := src.fipsRequired }

def dupPublicKey (src : AwskmsKey Key) : Option (AwskmsKey Key) :=
  if env.ok .zalloc = false ∨ env.ok .lockNew = false then none
  else if src.pub.pkey.isNone then none
  else (awskmsPubkeyDup env src.pub).map fun pub =>
    { (awskmsKeyNew : AwskmsKey Key) with
      pub := pub, fipsRequired := src.fipsRequired }

def dupDomainParameters (src : AwskmsKey Key) : Option (AwskmsKey Key) :=
  if env.ok .todata = false ∨ env.ok .fromdata = false then none
  else
    match src.pub.pkey.bind fun pkey => h.pkeyDomain pkey.key with
    | none => none
    | some domain => (newSubsetKey env src).map fun dst =>
        { dst with pub := { dst.pub with
          pkey := some ⟨domain, awskmsDependencyPropq src.fipsRequired⟩ } }

/-- What `awskms_keymgmt_dup` hands back. -/
inductive KeymgmtDup (Key : Type) where
  | fail
  /-- the source itself, with one more reference -/
  | share
  /-- a new object -/
  | fresh (key : AwskmsKey Key)

def KeymgmtDup.ofOption : Option (AwskmsKey Key) → KeymgmtDup Key
  | none => .fail
  | some key => .fresh key

def awskmsKeymgmtDup (key : AwskmsKey Key) (selection : Selection) :
    KeymgmtDup Key :=
  if awskmsKeymgmtHas h key selection = false then .fail
  else if selection.wantsPrivate then
    if selection.wantsPublic = false then .fail
    else if env.ok .keyUpRef = false then .fail
    else .share
  else if selection.wantsPublic then
    KeymgmtDup.ofOption (dupPublicKey env key)
  else if selection.wantsDomain ∧ (awskmsKeySpec key).family = .ec then
    KeymgmtDup.ofOption (dupDomainParameters h env key)
  else KeymgmtDup.ofOption (newSubsetKey env key)

end

end AwsKms.Model
