import AwsKms.Model.Key

/-!
# Signature contexts

`AWSKMS_SIG_CTX` holds what one operation has been told so far: a key, the
digest, the running hash, and the settings. The digest the caller selected
and the hash that is running are two fields, and only `digest_sign_init` ever
makes the second follow the first.
-/

namespace AwsKms.Model

open AwsKms.Lib

/-- `unsigned char context[255]` and `context_len`. The buffer is never
cleared, so what lies beyond `len` is whatever an earlier context left. -/
structure ContextString where
  buf : Bytes
  len : Nat
  size : buf.length = 255
  fits : len ≤ 255

namespace ContextString

/-- The zeroed buffer. -/
def empty : ContextString :=
  ⟨List.replicate 255 0, 0, by rw [List.length_replicate], by omega⟩

/-- The context in force. -/
def bytes (c : ContextString) : Bytes := c.buf.take c.len

/-- `memcpy(ctx->context, data, len); ctx->context_len = len;` -/
def store (c : ContextString) (data : Bytes) (h : data.length ≤ 255) :
    ContextString :=
  ⟨data ++ c.buf.drop data.length, data.length,
    by rw [List.length_append, List.length_drop, c.size]; omega, h⟩

/-- `memcpy(dst->context, src->context, src->context_len)` onto a zeroed
buffer. -/
def copy (c : ContextString) : ContextString :=
  ⟨c.buf.take c.len ++ List.replicate (255 - c.len) 0, c.len,
    by
      have := c.size
      have := c.fits
      rw [List.length_append, List.length_take, List.length_replicate]
      omega, c.fits⟩

@[simp] theorem empty_bytes : empty.bytes = [] := rfl

@[simp] theorem empty_len : empty.len = 0 := rfl

@[simp] theorem store_bytes (c : ContextString) (data : Bytes)
    (h : data.length ≤ 255) : (c.store data h).bytes = data := by
  rw [bytes, store]
  exact List.take_left

@[simp] theorem store_len (c : ContextString) (data : Bytes)
    (h : data.length ≤ 255) : (c.store data h).len = data.length := rfl

@[simp] theorem copy_bytes (c : ContextString) : c.copy.bytes = c.bytes := by
  have hlen : (c.buf.take c.len).length = c.len := by
    rw [List.length_take, c.size]
    exact Nat.min_eq_left c.fits
  exact List.take_left' hlen

@[simp] theorem copy_len (c : ContextString) : c.copy.len = c.len := rfl

@[simp] theorem bytes_length (c : ContextString) : c.bytes.length = c.len := by
  rw [bytes, List.length_take, c.size]
  exact Nat.min_eq_left c.fits

theorem bytes_eq_nil {c : ContextString} : c.bytes = [] ↔ c.len = 0 := by
  rw [← List.length_eq_zero_iff, bytes_length]

end ContextString

/-- `AWSKMS_SIG_CTX`, less the provider pointer. -/
structure AwskmsSigCtx (Alg Key : Type) where
  key : Option KeyRef
  fipsRequired : Bool
  fipsPub : AwskmsPubkey Key
  digest : AwskmsDigest
  md : Option (EvpMd Alg)
  mdctx : Option (EvpMdCtx Alg)
  padMode : RsaPadding
  pssSaltlen : Int
  context : ContextString
  hasContext : Bool
  instanceName : Bytes
  hasInstance : Bool

section

variable {Alg Key : Type} (h : Host Alg Key) (env : Env Alg Key)
  (keys : Keys Key)

/-- The context `awskms_sig_newctx` allocates. -/
def AwskmsSigCtx.new (fipsRequired : Bool) : AwskmsSigCtx Alg Key where
  key := none
  fipsRequired := fipsRequired
  fipsPub := AwskmsPubkey.zero
  digest := .none
  md := none
  mdctx := none
  padMode := .pkcs1
  pssSaltlen := rsa_PSS_SALTLEN_DIGEST
  context := ContextString.empty
  hasContext := false
  instanceName := []
  hasInstance := false

def awskmsSigNewctx (propq : Option Bytes) : Option (AwskmsSigCtx Alg Key) :=
  if env.ok .zalloc = false then none
  else some (AwskmsSigCtx.new (awskmsFipsRequested env.defaultFips propq))

/-- The references `awskms_sig_freectx` gives back. -/
def awskmsSigFreectx (ctx : AwskmsSigCtx Alg Key) : List Event :=
  match ctx.key with
  | none => []
  | some r => [.keyFree r]

/-- The copy `awskms_sig_dupctx` builds, field by field. -/
def AwskmsSigCtx.copy (src : AwskmsSigCtx Alg Key) : AwskmsSigCtx Alg Key where
  key := src.key
  fipsRequired := src.fipsRequired
  fipsPub := if src.fipsPub.pkey.isSome then src.fipsPub
    else AwskmsPubkey.zero
  digest := src.digest
  md := src.md
  mdctx := src.mdctx
  padMode := src.padMode
  pssSaltlen := src.pssSaltlen
  context := src.context.copy
  hasContext := src.hasContext
  instanceName := src.instanceName
  hasInstance := src.hasInstance

/-- Whether the copies after the key reference all succeed. -/
def dupctxCopies (src : AwskmsSigCtx Alg Key) : Bool :=
  (src.fipsPub.pkey.isNone || (awskmsPubkeyDup env src.fipsPub).isSome) &&
    (src.md.isNone || env.ok .mdUpRef) &&
    (src.mdctx.isNone || (env.ok .mdCtxNew && env.ok .mdCtxCopy))

/-- `awskms_sig_dupctx`: the copy, if every step of it succeeded, and the
references taken and given back. -/
def awskmsSigDupctx (src : AwskmsSigCtx Alg Key) :
    Option (AwskmsSigCtx Alg Key) × List Event :=
  if env.ok .zalloc = false then (none, [])
  else
    match src.key with
    | none => (if dupctxCopies env src then some src.copy else none, [])
    | some r =>
        if env.ok .keyUpRef = false then (none, [])
        else if dupctxCopies env src then (some src.copy, [.keyUpRef r])
        else (none, [.keyUpRef r, .keyFree r])

def operationRequiresFips (ctx : AwskmsSigCtx Alg Key) : Bool :=
  ctx.fipsRequired ||
    match ctx.key with
    | none => false
    | some r => (keys r).fipsRequired

/-- The public view the operation works on. -/
def operationPubkey (ctx : AwskmsSigCtx Alg Key) :
    Option (AwskmsPubkey Key) :=
  match ctx.key with
  | none => none
  | some r =>
      if ctx.fipsRequired && !(keys r).fipsRequired then
        if ctx.fipsPub.pkey.isSome then some ctx.fipsPub else none
      else some (keys r).pub

/-- The spec of the bound key. -/
def AwskmsSigCtx.spec (ctx : AwskmsSigCtx Alg Key) : AwskmsKeyspec :=
  match ctx.key with
  | none => AwskmsKeyspec.terminator
  | some r => awskmsKeySpec (keys r)

def maxSigSize (ctx : AwskmsSigCtx Alg Key) : Nat :=
  match operationPubkey keys ctx with
  | none => 0
  | some pub =>
      match pub.pkey with
      | none => 0
      | some pkey => (h.pkeySize pkey.key).toNat

def requiredSigSize (ctx : AwskmsSigCtx Alg Key) : Nat :=
  if (ctx.spec keys).sigLen ≠ 0 then (ctx.spec keys).sigLen
  else maxSigSize h keys ctx

end

end AwsKms.Model
