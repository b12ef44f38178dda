import AwsKms.Lib.Act
import AwsKms.Model.Err

/-!
# The `aws-kms:` URI

Two layers. The URL layer belongs to the bundled parser and reaches the code
as an `AdaUrl`; the attributes inside the opaque path are split, decoded and
judged here. Everything works on one output structure that starts zeroed and
is cleared again on every failure after the URL was parsed.

Allocations are taken to succeed in this file.
-/

namespace AwsKms.Model

open AwsKms.Lib

/-- `AWSKMS_URI`; `none` is a NULL pointer. -/
structure AwskmsUri where
  keyId : Option Bytes
  region : Option Bytes
  profile : Option Bytes
  endpoint : Option Bytes
  deriving DecidableEq, Repr

def AwskmsUri.zero : AwskmsUri := ⟨none, none, none, none⟩

def uriError (fmt : String) (args : List FmtArg) : ProviderError :=
  ⟨.invalidUri, fmt, args⟩

/-- What a C string holds up to its terminator. -/
def cString (b : Bytes) : Bytes := b.takeWhile (· ≠ 0)

def hexval (c : UInt8) : Option UInt8 :=
  if 48 ≤ c ∧ c ≤ 57 then some (c - 48)
  else if 97 ≤ c ∧ c ≤ 102 then some (c - 97 + 10)
  else if 65 ≤ c ∧ c ≤ 70 then some (c - 65 + 10)
  else none

/-- The decoding loop: every byte but a well-formed escape stands for itself,
and an escape for NUL is malformed. -/
def decodeBytes : Bytes → Option Bytes
  | [] => some []
  | c :: rest =>
      if c = 37 then
        match rest with
        | hi :: lo :: tail =>
            match hexval hi, hexval lo with
            | some h, some l =>
                if h * 16 + l = 0 then none
                else (decodeBytes tail).map fun out => (h * 16 + l) :: out
            | _, _ => none
        | _ => none
      else (decodeBytes rest).map fun out => c :: out

/-- `decode`, read back as the C string it returns. -/
def decode (value : Bytes) : Option Bytes := (decodeBytes value).map cString

/-- The `;`-separated items of the opaque path. -/
def pathItems : Bytes → List Bytes
  | [] => [[]]
  | c :: rest =>
      if c = 59 then [] :: pathItems rest
      else
        match pathItems rest with
        | [] => [[c]]
        | item :: items => (c :: item) :: items

/-- Stores a decoded attribute in its slot, once. -/
def storeAttr (name value : Bytes) (slot : AwskmsUri → Option Bytes)
    (set : AwskmsUri → Bytes → AwskmsUri) : Act AwskmsUri ProviderError :=
  fun out =>
    if (slot out).isSome then
      Act.refuse [uriError "path attribute \"%.*s\" given more than once"
        [.num name.length, .bytes name]] out
    else
      match decode value with
      | none => Act.refuse [uriError
          "malformed percent escape in path attribute \"%.*s\""
          [.num name.length, .bytes name]] out
      | some v => ⟨true, set out v, []⟩

/-- One turn of the loop in `parse_path_attrs`. -/
def parsePathAttr (item : Bytes) : Act AwskmsUri ProviderError :=
  let name := item.takeWhile (· ≠ 61)
  let value := (item.dropWhile (· ≠ 61)).drop 1
  if item = [] then Act.done
  else if ¬ (61 : UInt8) ∈ item then
    Act.refuse [uriError "path attribute \"%.*s\" is not name=value"
      [.num item.length, .bytes item]]
  else if name = ascii "key-id" then
    storeAttr name value (·.keyId) fun out v => { out with keyId := some v }
  else if name = ascii "region" then
    storeAttr name value (·.region) fun out v => { out with region := some v }
  else
    Act.refuse [uriError "unknown path attribute \"%.*s\""
      [.num name.length, .bytes name]]

def parsePathAttrs (pathname : Bytes) : Act AwskmsUri ProviderError :=
  Act.all ((pathItems pathname).map parsePathAttr)

/-- The pass over the query keys, with the two counters. -/
def checkQueryKeys (profiles endpoints : Nat) :
    List Bytes → Reply ProviderError
  | [] => ⟨true, []⟩
  | k :: ks =>
      if k = ascii "profile" then
        if profiles + 1 > 1 then
          ⟨false, [uriError "query attribute \"%s\" given more than once"
            [.text "profile"]]⟩
        else checkQueryKeys (profiles + 1) endpoints ks
      else if k = ascii "endpoint" then
        if endpoints + 1 > 1 then
          ⟨false, [uriError "query attribute \"%s\" given more than once"
            [.text "endpoint"]]⟩
        else checkQueryKeys profiles (endpoints + 1) ks
      else
        ⟨false, [uriError "unknown query attribute \"%.*s\""
          [.num k.length, .bytes k]]⟩

def takeQueryAttr (params : List (Bytes × Bytes)) (name : String)
    (set : AwskmsUri → Bytes → AwskmsUri) : Act AwskmsUri ProviderError :=
  match params.find? fun p => p.1 == ascii name with
  | none => Act.done
  | some p =>
      if (0 : UInt8) ∈ p.2 then
        Act.refuse [uriError "query attribute \"%s\" contains a NUL byte"
          [.text name]]
      else fun out => ⟨true, set out p.2, []⟩

/-- The part of a string before its first colon, and the part after it. -/
def colonField (s : Bytes) : Option (Bytes × Bytes) :=
  if (58 : UInt8) ∈ s then
    some (s.takeWhile (· ≠ 58), (s.dropWhile (· ≠ 58)).drop 1)
  else none

/-- The region of a KMS ARN, when it names one. -/
def arnRegion (id : Bytes) : Option Bytes :=
  if id.take 4 ≠ ascii "arn:" then none
  else
    match colonField (id.drop 4) with
    | none => none
    | some (_, p1) =>
        match colonField p1 with
        | none => none
        | some (_, p2) =>
            match colonField p2 with
            | none => none
            | some (region, p3) =>
                match colonField p3 with
                | none => none
                | some _ =>
                    if p1.take 4 ≠ ascii "kms:" then none
                    else if region = [] then none
                    else some region

section

variable {Alg Key : Type} (h : Host Alg Key)

def checkScheme (url : AdaUrl) : Act AwskmsUri ProviderError :=
  if url.protocol ≠ ascii "aws-kms:" then
    Act.refuse [uriError "expected scheme \"%s\", got \"%.*s\""
      [.text "aws-kms:", .num url.protocol.length, .bytes url.protocol]]
  else Act.done

def checkHash (url : AdaUrl) : Act AwskmsUri ProviderError :=
  if url.hash ≠ [] then
    Act.refuse [uriError "URI fragments are not meaningful here" []]
  else Act.done

def parseQuery (url : AdaUrl) : Act AwskmsUri ProviderError :=
  if url.search = [] then Act.done
  else
    let params := h.adaSearchParams (url.search.drop 1)
    Act.all [(checkQueryKeys 0 0 (params.map (·.1))).keep,
      takeQueryAttr params "profile" fun out v => { out with profile := some v },
      takeQueryAttr params "endpoint" fun out v =>
        { out with endpoint := some v }]

def requireKeyId : Act AwskmsUri ProviderError := fun out =>
  if out.keyId = none ∨ out.keyId = some [] then
    Act.refuse [uriError "missing required attribute \"key-id\"" []] out
  else Act.done out

/-- The region cross-check: an explicit region has to agree with the one in
the ARN, and an ARN supplies the one that is missing. -/
def crossCheckRegion : Act AwskmsUri ProviderError := fun out =>
  match arnRegion (out.keyId.getD []) with
  | none => Act.done out
  | some arn =>
      match out.region with
      | some region =>
          if region ≠ arn then
            Act.refuse [⟨.regionConflict,
              "region \"%s\" contradicts the region \"%.*s\" in the key ARN",
              [.bytes region, .num arn.length, .bytes arn]⟩] out
          else Act.done out
      | none => ⟨true, { out with region := some arn }, []⟩

def awskmsUriParse (uri : Option Bytes) : Act AwskmsUri ProviderError :=
  match uri with
  | none => Act.refuse [uriError "no URI" []]
  | some s =>
      let url := h.adaParse s
      Act.onFail
        (if url.valid = false then Act.refuse [uriError "not a valid URL" []]
        else Act.all [checkScheme url, checkHash url,
          parsePathAttrs url.pathname, parseQuery h url, requireKeyId,
          crossCheckRegion])
        fun _ => AwskmsUri.zero

end

end AwsKms.Model
