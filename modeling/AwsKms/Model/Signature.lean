import AwsKms.Model.Params

/-!
# Signing and verifying

Two dispatch tables over one kind of context. The prehash table (RSA, ECDSA)
signs a digest, its own or the caller's, and both ways end in `signDigest`;
the one-shot table (Ed25519, ML-DSA) signs the message. A request to KMS is
issued in exactly two places, at the end of `signDigest` and of
`awskmsSigOneshotSign`, and everything before those two points is a check.

Verification never asks KMS: it hands libcrypto the cached public key and as
much of the context's settings as the source passes on.
-/

namespace AwsKms.Model

open AwsKms.Lib

/-- The output arguments of a signing call: whether `sig` and `siglen` are
NULL, and `sigsize`. -/
structure SigBuf where
  sigNull : Bool
  siglenNull : Bool
  sigsize : Nat
  deriving DecidableEq, Repr

/-- The two dispatch tables. -/
inductive SigTable where
  | prehash
  | oneshot
  deriving DecidableEq, Repr

/-- The calls a table can offer on an existing context. -/
inductive SigCall where
  | setCtxParams (params : Option (List OsslParam))
  | getCtxParams (wanted : List String)
  | signInit (provkey : Option KeyRef) (params : Option (List OsslParam))
  | sign (buf : SigBuf) (tbs : Bytes)
  | verifyInit (provkey : Option KeyRef) (params : Option (List OsslParam))
  | verify (sig tbs : Bytes)
  | digestSignInit (mdname : Option Bytes) (provkey : Option KeyRef)
      (params : Option (List OsslParam))
  | digestSignUpdate (data : Bytes)
  | digestSignFinal (buf : SigBuf)
  | digestVerifyInit (mdname : Option Bytes) (provkey : Option KeyRef)
      (params : Option (List OsslParam))
  | digestVerifyUpdate (data : Bytes)
  | digestVerifyFinal (sig : Bytes)
  | oneshotInit (mdname : Option Bytes) (provkey : Option KeyRef)
      (params : Option (List OsslParam))
  | oneshotSign (buf : SigBuf) (tbs : Bytes)
  | oneshotVerify (sig tbs : Bytes)
  deriving DecidableEq, Repr

/-- The key argument of an init. -/
def SigCall.provkey : SigCall → Option KeyRef
  | .signInit provkey _ | .verifyInit provkey _
  | .digestSignInit _ provkey _ | .digestVerifyInit _ provkey _
  | .oneshotInit _ provkey _ => provkey
  | _ => none

/-- Which table has an entry for a call. -/
def SigTable.offers : SigTable → SigCall → Bool
  | _, .setCtxParams _ | _, .getCtxParams _ => true
  | .oneshot, .oneshotInit .. | .oneshot, .oneshotSign ..
  | .oneshot, .oneshotVerify .. => true
  | .prehash, .oneshotInit .. | .prehash, .oneshotSign ..
  | .prehash, .oneshotVerify .. => false
  | .prehash, _ => true
  | .oneshot, _ => false

section

variable {Alg Key : Type} (h : Host Alg Key) (env : Env Alg Key)
  (keys : Keys Key)

/-- The reparse of the retained SubjectPublicKeyInfo that an operation with a
FIPS requirement of its own works on. -/
def fipsView (key : AwskmsKey Key) : Out (AwskmsPubkey Key) Event :=
  if key.pub.der = [] then
    ⟨false, AwskmsPubkey.zero, [raise .internalError
      "the retained SubjectPublicKeyInfo for %s is unavailable"
      [.text (awskmsKeySpec key).kmsKeySpec]]⟩
  else awskmsPubkeyFromSpki h env key.pub.der (awskmsKeySpec key).kmsKeySpec
    true AwskmsPubkey.zero

def bindKey (provkey : Option KeyRef) : Act (AwskmsSigCtx Alg Key) Event :=
  fun ctx =>
    match provkey with
    | none => ⟨ctx.key.isSome, ctx, []⟩ -- re-init keeps the current key
    | some r =>
        if env.ok .keyUpRef = false then Act.refuse [] ctx
        else if ctx.fipsRequired && !(keys r).fipsRequired then
          let view := fipsView h env (keys r)
          if view.ok then
            ⟨true, { ctx with key := some r, fipsPub := view.state },
              .keyUpRef r :: view.trace ++ awskmsSigFreectx ctx⟩
          else Act.refuse (.keyUpRef r :: view.trace ++ [.keyFree r]) ctx
        else
          ⟨true, { ctx with key := some r, fipsPub := AwskmsPubkey.zero },
            .keyUpRef r :: awskmsSigFreectx ctx⟩

/-- The answer to a NULL `sig`. -/
def sizeProbe (buf : SigBuf) (ctx : AwskmsSigCtx Alg Key) : Reply Event :=
  if buf.siglenNull then ⟨false, []⟩
  else ⟨requiredSigSize h keys ctx ≠ 0, [.setSiglen (requiredSigSize h keys ctx)]⟩

def outputBufferFits (buf : SigBuf) (ctx : AwskmsSigCtx Alg Key) :
    Reply Event :=
  let required := requiredSigSize h keys ctx
  if buf.siglenNull ∨ required = 0 then ⟨false, []⟩
  else if required ≤ buf.sigsize then ⟨true, []⟩
  else ⟨false, [.setSiglen required, raise .outputBufferTooSmall
    "signature output buffer is %zu bytes, need at least %zu"
    [.num buf.sigsize, .num required]]⟩

/-- Whether the named instance, if any, is the pure variant of the family. -/
def instanceIsPure (spec : AwskmsKeyspec) (ctx : AwskmsSigCtx Alg Key) :
    Bool :=
  !ctx.hasInstance || ctx.instanceName == [] ||
    (spec.family == .ed25519 &&
      awskmsAsciiEqual ctx.instanceName (ascii "Ed25519"))

def unsupportedParamsRefused (ctx : AwskmsSigCtx Alg Key) : Reply Event :=
  let spec := ctx.spec keys
  if instanceIsPure spec ctx = false then
    ⟨false, [raise .unsupportedParameter
      "AWS KMS cannot sign %s as \"%s\"; it offers only the pure variant, and its Sign API has no context or prehash parameter"
      [.text spec.kmsKeySpec, .bytes ctx.instanceName]]⟩
  else if ctx.context.len = 0 then ⟨true, []⟩
  else if spec.family = .mlDsa then ⟨true, []⟩
  else ⟨false, [raise .unsupportedParameter
    "AWS KMS cannot sign %s with a context string: its Sign API has no context parameter, and only ML-DSA lets us fold one into mu locally"
    [.text spec.kmsKeySpec]]⟩

/-- Whether KMS's salt length, the digest length, meets the one asked for. -/
def saltlenIsSatisfiable (ctx : AwskmsSigCtx Alg Key) (digestLen : Nat) :
    Bool :=
  if ctx.pssSaltlen = rsa_PSS_SALTLEN_DIGEST then true
  else if ctx.pssSaltlen = rsa_PSS_SALTLEN_AUTO then true
  else if ctx.pssSaltlen = rsa_PSS_SALTLEN_MAX then false
  else if ctx.pssSaltlen < 0 then false
  else ctx.pssSaltlen == digestLen

/-- Whether the operation signs with PSS. -/
def signsWithPss (ctx : AwskmsSigCtx Alg Key) : Bool :=
  (ctx.spec keys).family == .rsa && ctx.padMode == .pss

/-- Everything in `sign_digest` after the digest was found usable: length,
salt length, request. -/
def signWith (ctx : AwskmsSigCtx Alg Key) (algorithm : SigningAlgorithm)
    (buf : SigBuf) (digest : Bytes) : Reply Event :=
  let expected := awskmsDigestLength ctx.digest
  if digest.length ≠ expected then
    ⟨false, [raise .digestLengthMismatch
      "expected a %zu-byte digest, got %zu bytes"
      [.num expected, .num digest.length]]⟩
  else if signsWithPss keys ctx && !saltlenIsSatisfiable ctx expected then
    ⟨false, [raise .unsupportedSaltLength
      "AWS KMS always uses a PSS salt length equal to the digest length (%zu bytes); the requested salt length cannot be honoured"
      [.num expected]]⟩
  else awskmsKmsSign env ⟨(ctx.key.map fun r => (keys r).uri).getD AwskmsUri.zero,
    operationRequiresFips keys ctx, algorithm, .DIGEST, digest⟩ buf.sigsize

/-- The choice of the KMS algorithm, and what follows it. -/
def signChecked (ctx : AwskmsSigCtx Alg Key) (buf : SigBuf)
    (digest : Bytes) : Reply Event :=
  let spec := ctx.spec keys
  match awskmsSigningAlgorithm spec ctx.digest (signsWithPss keys ctx) with
  | none => ⟨false, [raise .unsupportedDigest
      "AWS KMS cannot sign with %s using digest \"%s\""
      [.text spec.kmsKeySpec, match ctx.md with
        | none => .text "(none)"
        | some md => .bytes (h.mdName md.alg)]]⟩
  | some algorithm => signWith env keys ctx algorithm buf digest

/-- A digest has to be selected before anything else is judged. -/
def requireDigest (ctx : AwskmsSigCtx Alg Key) : Reply Event :=
  if ctx.digest = .none then
    ⟨false, [raise .unsupportedDigest "%s signing requires a digest"
      [.text (ctx.spec keys).kmsKeySpec]]⟩
  else ⟨true, []⟩

def signDigest (ctx : AwskmsSigCtx Alg Key) (buf : SigBuf)
    (digest : Bytes) : Reply Event :=
  if buf.sigNull then sizeProbe h keys buf ctx
  else (outputBufferFits h keys buf ctx).andThen
    ((requireDigest keys ctx).andThen
      ((unsupportedParamsRefused keys ctx).andThen
        (signChecked h env keys ctx buf digest)))

def awskmsSigSignInit (provkey : Option KeyRef)
    (params : Option (List OsslParam)) : Act (AwskmsSigCtx Alg Key) Event :=
  (bindKey h env keys provkey).andThen
    (awskmsSigSetCtxParams h env keys params)

def awskmsSigVerifyInit (provkey : Option KeyRef)
    (params : Option (List OsslParam)) : Act (AwskmsSigCtx Alg Key) Event :=
  awskmsSigSignInit h env keys provkey params

def awskmsSigSign (ctx : AwskmsSigCtx Alg Key) (buf : SigBuf)
    (tbs : Bytes) : Reply Event :=
  match ctx.key with
  | none => ⟨false, []⟩
  | some _ => signDigest h env keys ctx buf tbs

/-- The salt length a verification is configured with. -/
def effectiveSaltlen (_ctx : AwskmsSigCtx Alg Key) : Int :=
  rsa_PSS_SALTLEN_DIGEST

/-- The settings `awskms_sig_verify` passes on. -/
def verifyParams (ctx : AwskmsSigCtx Alg Key) : VerifyParams Alg where
  padding := if (ctx.spec keys).family = .rsa then some ctx.padMode else none
  saltlen := if signsWithPss keys ctx then some (effectiveSaltlen ctx)
    else none
  md := ctx.md.map fun md => md.alg

/-- Whether libcrypto takes every setting that is passed on. -/
def verifyConfigured (ctx : AwskmsSigCtx Alg Key) : Bool :=
  env.ok .pkeyCtxNew && env.ok .verifyInit &&
    ((ctx.spec keys).family != .rsa || env.ok .setPadding) &&
    (!signsWithPss keys ctx || env.ok .setSaltlen) &&
    (ctx.md.isNone || env.ok .setSignatureMd)

/-- The key a verification runs against. -/
def verifyKey (ctx : AwskmsSigCtx Alg Key) : Option (EvpPkey Key) :=
  (operationPubkey keys ctx).bind fun pub => pub.pkey

/-- The trace of setting up a verification. -/
def verifyTrace (ctx : AwskmsSigCtx Alg Key) : List Event :=
  match operationPubkey keys ctx with
  | none => []
  | some _ => [.verifyWith
      (awskmsDependencyPropq (operationRequiresFips keys ctx))]

def awskmsSigVerify (ctx : AwskmsSigCtx Alg Key) (sig tbs : Bytes) :
    Reply Event :=
  match verifyKey keys ctx with
  | none => ⟨false, verifyTrace keys ctx⟩
  | some pkey =>
      ⟨verifyConfigured env keys ctx &&
        h.verify pkey.key (verifyParams keys ctx) sig tbs,
        verifyTrace keys ctx⟩

/-- An explicit `mdname` wins over a digest parameter. -/
def applyMdname (mdname : Option Bytes) : Act (AwskmsSigCtx Alg Key) Event :=
  match mdname with
  | none | some [] => Act.done
  | some name => setDigest h env keys name

/-- `EVP_MD_CTX_free`, `EVP_MD_CTX_new`, `EVP_DigestInit_ex2`. -/
def restartHash : Act (AwskmsSigCtx Alg Key) Event := fun ctx =>
  match ctx.md with
  | none => Act.refuse [raise .unsupportedDigest "%s signing requires a digest"
      [.text (ctx.spec keys).kmsKeySpec]] ctx
  | some md =>
      if env.ok .mdCtxNew = false then
        ⟨false, { ctx with mdctx := none }, []⟩
      else if env.ok .digestInit = false then
        ⟨false, { ctx with mdctx := some .fresh }, []⟩
      else ⟨true, { ctx with mdctx := some (.running md []) }, []⟩

def awskmsSigDigestSignInit (mdname : Option Bytes) (provkey : Option KeyRef)
    (params : Option (List OsslParam)) : Act (AwskmsSigCtx Alg Key) Event :=
  Act.all [bindKey h env keys provkey,
    awskmsSigSetCtxParams h env keys params,
    applyMdname h env keys mdname,
    restartHash env keys]

def awskmsSigDigestSignUpdate (data : Bytes) :
    Act (AwskmsSigCtx Alg Key) Event := fun ctx =>
  match ctx.mdctx.bind fun m => m.update data with
  | none => Act.refuse [] ctx
  | some m => ⟨true, { ctx with mdctx := some m }, []⟩

/-- `EVP_DigestFinal_ex`, and the digest it computed. -/
def finishHash (ctx : AwskmsSigCtx Alg Key) :
    Option (AwskmsSigCtx Alg Key × Bytes) :=
  (ctx.mdctx.bind fun m => m.final h).map fun out =>
    ({ ctx with mdctx := some out.1 }, out.2)

def awskmsSigDigestSignFinal (buf : SigBuf) :
    Act (AwskmsSigCtx Alg Key) Event := fun ctx =>
  if ctx.mdctx.isNone ∨ ctx.key.isNone then Act.refuse [] ctx
  else if buf.sigNull then (sizeProbe h keys buf ctx).keep ctx
  else if (outputBufferFits h keys buf ctx).ok = false then
    (outputBufferFits h keys buf ctx).keep ctx
  else
    match finishHash h ctx with
    | none => Act.refuse [] ctx
    | some (ctx', digest) => (signDigest h env keys ctx' buf digest).keep ctx'

def awskmsSigDigestVerifyInit (mdname : Option Bytes)
    (provkey : Option KeyRef) (params : Option (List OsslParam)) :
    Act (AwskmsSigCtx Alg Key) Event :=
  awskmsSigDigestSignInit h env keys mdname provkey params

def awskmsSigDigestVerifyUpdate (data : Bytes) :
    Act (AwskmsSigCtx Alg Key) Event :=
  awskmsSigDigestSignUpdate data

def awskmsSigDigestVerifyFinal (sig : Bytes) :
    Act (AwskmsSigCtx Alg Key) Event := fun ctx =>
  match finishHash h ctx with
  | none => Act.refuse [] ctx
  | some (ctx', digest) => (awskmsSigVerify h env keys ctx' sig digest).keep ctx'

/-- A digest name is refused rather than ignored; the selected digest is
cleared. -/
def refuseMdname (mdname : Option Bytes) : Act (AwskmsSigCtx Alg Key) Event :=
  fun ctx =>
    match mdname with
    | none | some [] => ⟨true, { ctx with digest := .none }, []⟩
    | some name => Act.refuse [raise .unsupportedDigest
        "%s signs the message directly and takes no digest, but \"%s\" was requested"
        [.text (ctx.spec keys).kmsKeySpec, .bytes name]] ctx

def awskmsSigOneshotInit (mdname : Option Bytes) (provkey : Option KeyRef)
    (params : Option (List OsslParam)) : Act (AwskmsSigCtx Alg Key) Event :=
  Act.all [bindKey h env keys provkey,
    awskmsSigSetCtxParams h env keys params,
    refuseMdname keys mdname,
    fun ctx => (unsupportedParamsRefused keys ctx).keep ctx]

/-- `compute_mu`. -/
def computeMu (ctx : AwskmsSigCtx Alg Key) (msg : Bytes) :
    Reply Event × Bytes :=
  match (operationPubkey keys ctx).bind fun pub => pub.tr with
  | none => (⟨false, [raise .internalError "no cached tr for %s"
      [.text (ctx.spec keys).kmsKeySpec]]⟩, [])
  | some tr => awskmsMu h env (operationRequiresFips keys ctx) tr.bytes
      ctx.context.bytes msg

/-- The request of a one-shot signature. -/
def oneshotRequest (ctx : AwskmsSigCtx Alg Key) (algorithm : SigningAlgorithm)
    (messageType : MessageType) (msg : Bytes) : KmsRequest :=
  ⟨(ctx.key.map fun r => (keys r).uri).getD AwskmsUri.zero,
    operationRequiresFips keys ctx, algorithm, messageType, msg⟩

/-- The switch on the message type. -/
def oneshotBody (ctx : AwskmsSigCtx Alg Key) (algorithm : SigningAlgorithm)
    (buf : SigBuf) (tbs : Bytes) : Reply Event :=
  let spec := ctx.spec keys
  match spec.msgType with
  | .raw =>
      if tbs.length = 0 then
        ⟨false, [raise .emptyMessage
          "AWS KMS documents a minimum Message length of 1 byte, so an empty message cannot be signed with %s"
          [.text spec.kmsKeySpec]]⟩
      else if 4096 < tbs.length then
        ⟨false, [raise .messageTooLarge
          "%s signing sends the whole message to AWS KMS, which accepts at most 4096 bytes; got %zu"
          [.text spec.kmsKeySpec, .num tbs.length]]⟩
      else awskmsKmsSign env (oneshotRequest keys ctx algorithm .RAW tbs)
        buf.sigsize
  | .externalMu =>
      (computeMu h env keys ctx tbs).1.andThen
        (awskmsKmsSign env (oneshotRequest keys ctx algorithm .EXTERNAL_MU
          (computeMu h env keys ctx tbs).2) buf.sigsize)
  | .digest => ⟨false, [raise .internalError
      "%s is not a one-shot signing key spec" [.text spec.kmsKeySpec]]⟩

def awskmsSigOneshotSign (ctx : AwskmsSigCtx Alg Key) (buf : SigBuf)
    (tbs : Bytes) : Reply Event :=
  match ctx.key with
  | none => ⟨false, []⟩
  | some _ =>
      if buf.sigNull then sizeProbe h keys buf ctx
      else (outputBufferFits h keys buf ctx).andThen
        ((unsupportedParamsRefused keys ctx).andThen
          (match awskmsSigningAlgorithm (ctx.spec keys) .none false with
          | none => ⟨false, [raise .unsupportedKeySpec
              "no KMS signing algorithm for %s"
              [.text (ctx.spec keys).kmsKeySpec]]⟩
          | some algorithm => oneshotBody h env keys ctx algorithm buf tbs))

/-- The settings `awskms_sig_oneshot_verify` passes on: the context string,
when there is one. -/
def oneshotVerifyParams (ctx : AwskmsSigCtx Alg Key) : DigestVerifyParams where
  context := if ctx.context.len ≠ 0 then some ctx.context.bytes else none
  instanceName := none

def awskmsSigOneshotVerify (ctx : AwskmsSigCtx Alg Key) (sig tbs : Bytes) :
    Reply Event :=
  match verifyKey keys ctx with
  | none => ⟨false, verifyTrace keys ctx⟩
  | some pkey =>
      ⟨env.ok .mdCtxNew && env.ok .digestVerifyInit &&
        h.digestVerify pkey.key (oneshotVerifyParams ctx) sig tbs,
        verifyTrace keys ctx⟩

/-- A call on an existing context. -/
def sigCall : SigCall → Act (AwskmsSigCtx Alg Key) Event
  | .setCtxParams params => awskmsSigSetCtxParams h env keys params
  | .getCtxParams wanted => fun ctx =>
      (awskmsSigGetCtxParams h wanted ctx).keep ctx
  | .signInit provkey params => awskmsSigSignInit h env keys provkey params
  | .sign buf tbs => fun ctx => (awskmsSigSign h env keys ctx buf tbs).keep ctx
  | .verifyInit provkey params => awskmsSigVerifyInit h env keys provkey params
  | .verify sig tbs => fun ctx =>
      (awskmsSigVerify h env keys ctx sig tbs).keep ctx
  | .digestSignInit mdname provkey params =>
      awskmsSigDigestSignInit h env keys mdname provkey params
  | .digestSignUpdate data => awskmsSigDigestSignUpdate data
  | .digestSignFinal buf => awskmsSigDigestSignFinal h env keys buf
  | .digestVerifyInit mdname provkey params =>
      awskmsSigDigestVerifyInit h env keys mdname provkey params
  | .digestVerifyUpdate data => awskmsSigDigestVerifyUpdate data
  | .digestVerifyFinal sig => awskmsSigDigestVerifyFinal h env keys sig
  | .oneshotInit mdname provkey params =>
      awskmsSigOneshotInit h env keys mdname provkey params
  | .oneshotSign buf tbs => fun ctx =>
      (awskmsSigOneshotSign h env keys ctx buf tbs).keep ctx
  | .oneshotVerify sig tbs => fun ctx =>
      (awskmsSigOneshotVerify h env keys ctx sig tbs).keep ctx

end

end AwsKms.Model
