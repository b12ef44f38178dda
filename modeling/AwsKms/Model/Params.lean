import AwsKms.Model.SigCtx

/-!
# Setting parameters on a signature context

`awskms_sig_set_ctx_params` looks for six parameters, always in the same
order, and applies each one it finds before it looks for the next. A refusal
returns at once, so the parameters found earlier in that order are already in
the context. `settings` is that list of blocks.
-/

namespace AwsKms.Model

open AwsKms.Lib

/-- `get_utf8_param`: the string, when it is a UTF-8 parameter that fits the
buffer and has no NUL inside. -/
def getUtf8Param (p : OsslParam) (outSize : Nat) : Option Bytes :=
  match p.data with
  | .utf8String (some data) =>
      if outSize ≤ data.length ∨ (0 : UInt8) ∈ data then none else some data
  | _ => none

def isDigit (c : UInt8) : Bool := 48 ≤ c && c ≤ 57

/-- The value of a run of decimal digits. -/
def digitsValue (digits : Bytes) : Int :=
  digits.foldl (fun acc c => 10 * acc + ((c.toNat : Int) - 48)) 0

/-- What `strtol` hands back in base 10: the clamped value, `errno == ERANGE`,
and the text it stopped at. -/
structure Strtol where
  value : Int
  erange : Bool
  rest : Bytes
  deriving DecidableEq, Repr

section

variable {Alg Key : Type} (h : Host Alg Key) (env : Env Alg Key)
  (keys : Keys Key)

def strtol (s : Bytes) : Strtol :=
  let text := dropSpaces s
  let negative := text.head? = some 45
  let body := if text.head? = some 43 ∨ text.head? = some 45 then text.drop 1
    else text
  let digits := body.takeWhile isDigit
  let rest := body.dropWhile isDigit
  let value := if negative then -digitsValue digits else digitsValue digits
  if digits = [] then ⟨0, false, s⟩
  else if value < -h.longMax - 1 then ⟨-h.longMax - 1, true, rest⟩
  else if h.longMax < value then ⟨h.longMax, true, rest⟩
  else ⟨value, false, rest⟩

def parseDecimalInt (value : Bytes) : Option Int :=
  let p := if value.head? = some 43 ∨ value.head? = some 45 then value.drop 1
    else value
  if p = [] then none
  else if p.all isDigit = false then none
  else
    let parsed := strtol h value
    if parsed.erange ∨ parsed.rest = value ∨ parsed.rest ≠ [] ∨
        parsed.value < intMin ∨ intMax < parsed.value then none
    else some parsed.value

def setDigest (mdname : Bytes) : Act (AwskmsSigCtx Alg Key) Event := fun ctx =>
  if mdname = [] then ⟨true, { ctx with md := none, digest := .none }, []⟩
  else
    let propq := awskmsDependencyPropq (operationRequiresFips keys ctx)
    match env.mdFetch mdname propq with
    | none => Act.refuse [.fetchMd mdname propq, raise .unsupportedDigest
        "digest \"%s\" is not available" [.bytes mdname]] ctx
    | some alg =>
        if h.mdXof alg then
          Act.refuse [.fetchMd mdname propq, raise .unsupportedDigest
            "digest \"%s\" is an XOF; AWS KMS signs over fixed-length digests only"
            [.bytes mdname]] ctx
        else
          ⟨true, { ctx with
            md := some ⟨alg, propq⟩, digest := awskmsDigestOf h alg },
            [.fetchMd mdname propq]⟩

def applyDigest (p : OsslParam) : Act (AwskmsSigCtx Alg Key) Event :=
  match getUtf8Param p 64 with
  | none => Act.refuse []
  | some name => setDigest h env keys name

/-- The padding mode a parameter asks for, as the integer the source compares:
`none` is a parameter it cannot read, -1 a name it does not know. -/
def readPadMode (p : OsslParam) : Option Int :=
  match p.data with
  | .integer v => getInt v
  | .utf8String _ =>
      match getUtf8Param p 32 with
      | none => none
      | some value =>
          if value = ascii "pkcs1" then some 1
          else if value = ascii "pss" then some 6
          else some (-1)
  | _ => none

def applyPadMode (p : OsslParam) : Act (AwskmsSigCtx Alg Key) Event :=
  match readPadMode p with
  | none => Act.refuse []
  | some pad =>
      match RsaPadding.ofInt pad with
      | none => Act.refuse [raise .unsupportedPadding
          "AWS KMS signs with PKCS#1 v1.5 or PSS only" []]
      | some mode => fun ctx => ⟨true, { ctx with padMode := mode }, []⟩

def readPssSaltlen (p : OsslParam) : Option Int :=
  match p.data with
  | .integer v => getInt v
  | .utf8String _ =>
      match getUtf8Param p 32 with
      | none => none
      | some s =>
          if s = ascii "digest" then some rsa_PSS_SALTLEN_DIGEST
          else if s = ascii "auto" then some rsa_PSS_SALTLEN_AUTO
          else if s = ascii "max" then some rsa_PSS_SALTLEN_MAX
          else parseDecimalInt h s
  | _ => none

def applyPssSaltlen (p : OsslParam) : Act (AwskmsSigCtx Alg Key) Event :=
  match readPssSaltlen h p with
  | none => Act.refuse []
  | some n => fun ctx => ⟨true, { ctx with pssSaltlen := n }, []⟩

def applyContextString (p : OsslParam) : Act (AwskmsSigCtx Alg Key) Event :=
  match getOctetStringPtr p with
  | none => Act.refuse []
  | some data => fun ctx =>
      if hfit : data.length ≤ 255 then
        ⟨true, { ctx with
          context := ctx.context.store data hfit, hasContext := true }, []⟩
      else
        Act.refuse [raise .unsupportedParameter
          "a context string may be at most %zu bytes, got %zu"
          [.num 255, .num data.length]] ctx

def applyInstance (p : OsslParam) : Act (AwskmsSigCtx Alg Key) Event :=
  match getUtf8Param p 32 with
  | none => Act.refuse [raise .unsupportedParameter
      "unrecognised signature instance" []]
  | some name => fun ctx =>
      ⟨true, { ctx with instanceName := name, hasInstance := true }, []⟩

/-- The MGF1 digest is compared and not kept. -/
def checkMgf1Digest (p : OsslParam) : Act (AwskmsSigCtx Alg Key) Event :=
  match getUtf8Param p 64 with
  | none => Act.refuse []
  | some name => fun ctx =>
      if (ctx.md.any fun md => h.mdIsA md.alg name) = false then
        Act.refuse [raise .unsupportedParameter
          "AWS KMS always uses MGF1 with the signature digest; \"%s\" cannot be honoured"
          [.bytes name]] ctx
      else ⟨true, ctx, []⟩

/-- `if ((p = OSSL_PARAM_locate_const(params, key)) != NULL) { ... }` -/
def onParam (params : List OsslParam) (key : String)
    (block : OsslParam → Act (AwskmsSigCtx Alg Key) Event) :
    Act (AwskmsSigCtx Alg Key) Event :=
  match locate params key with
  | none => Act.done
  | some p => block p

/-- The six blocks, in the order of the source. -/
def settings (params : List OsslParam) :
    List (Act (AwskmsSigCtx Alg Key) Event) := [
  onParam params ossl_SIGNATURE_PARAM_DIGEST (applyDigest h env keys),
  onParam params ossl_SIGNATURE_PARAM_PAD_MODE applyPadMode,
  onParam params ossl_SIGNATURE_PARAM_PSS_SALTLEN (applyPssSaltlen h),
  onParam params ossl_SIGNATURE_PARAM_CONTEXT_STRING applyContextString,
  onParam params ossl_SIGNATURE_PARAM_INSTANCE applyInstance,
  onParam params ossl_SIGNATURE_PARAM_MGF1_DIGEST (checkMgf1Digest h)]

def awskmsSigSetCtxParams (params : Option (List OsslParam)) :
    Act (AwskmsSigCtx Alg Key) Event :=
  match params with
  | none => Act.done
  | some ps => Act.all (settings h env keys ps)

/-- What the caller asked `get_ctx_params` for. -/
def awskmsSigGetCtxParams (wanted : List String)
    (ctx : AwskmsSigCtx Alg Key) : Reply Event :=
  let md := (ctx.md.map fun md => h.mdName md.alg).getD []
  let out (key : String) (data : OsslParamData) : List Event :=
    if key ∈ wanted then [.outParam key data] else []
  ⟨true, out ossl_SIGNATURE_PARAM_DIGEST (.utf8String (some md)) ++
    out ossl_SIGNATURE_PARAM_PAD_MODE (.integer ctx.padMode.toInt) ++
    out ossl_SIGNATURE_PARAM_PSS_SALTLEN (.integer ctx.pssSaltlen)⟩

end

end AwsKms.Model
