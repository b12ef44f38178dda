import AwsKms.Model.Provider

/-!
# Registration

`require()` loads the module as an addon, and the addon registers itself: it
adds one clause to the process's default property query and activates the
provider, or reports an error and leaves the query as it was. The query is
libcrypto's, and its text is all there is to see of it, so the clause is
looked for the way `provider.c` looks for `fips`: by cutting the text at the
commas that stand outside quotes.

What the OpenSSL calls return is given. A set that fails leaves the query
alone.
-/

namespace AwsKms.Model

def awskms_KEYOBJECT_PROPERTY : String := "keyobject.aws_kms"

def awskms_DEFAULT_PROPQ : String := "?keyobject.aws_kms!=yes"

inductive MarkerState where
  | absent
  | guard
  | conflict
  deriving DecidableEq, Repr

/-- The value of a clause and the end of the clause: an unquoted `yes`, in
any case, and nothing behind it. -/
def isYes (s : Bytes) : Bool :=
  dropSpaces (s.dropWhile fun c => !awskmsIsSpace c) == [] &&
    awskmsAsciiEqual (s.takeWhile fun c => !awskmsIsSpace c) (ascii "yes")

/-- What follows the reserved name: `!=yes` behind a question mark, or
anything else. -/
def markerTest (optional : Bool) (rest : Bytes) : MarkerState :=
  match dropSpaces rest with
  | c :: d :: value =>
      if optional && c = 33 && d = 61 && isYes (dropSpaces value) then .guard
      else .conflict
  | _ => .conflict

/-- One clause, from its first blank to its last. -/
def awskmsMarkerClause (clause : Bytes) : MarkerState :=
  let trimmed := trimSpaces clause
  let optional := trimmed.head? == some 63
  let body := if optional then dropSpaces trimmed.tail else trimmed
  -- a dash is stepped over alone, without the blanks behind it
  let body := if body.head? == some 45 then body.tail else body
  if awskmsAsciiEqual (body.takeWhile isNameChar)
      (ascii awskms_KEYOBJECT_PROPERTY) then
    markerTest optional (body.dropWhile isNameChar)
  else .absent

/-- What the scan has found after one more clause; `none` ends it as a
conflict. -/
def noteMarker (found current : MarkerState) : Option MarkerState :=
  match current with
  | .conflict => none
  | .guard => if found = .guard then none else some .guard
  | .absent => some found

/-- The scan, with the clause read so far, the open quote, and what the
clauses before were. -/
def scanMarker (clause : Bytes) (quote : Option UInt8) (found : MarkerState) :
    Bytes → MarkerState
  | [] => (noteMarker found (awskmsMarkerClause clause)).getD .conflict
  | c :: rest =>
      match quote with
      | none =>
          if c = 44 then
            match noteMarker found (awskmsMarkerClause clause) with
            | none => .conflict
            | some found => scanMarker [] none found rest
          else if isQuote c then scanMarker (clause ++ [c]) (some c) found rest
          else scanMarker (clause ++ [c]) none found rest
      | some q =>
          if c = q then scanMarker (clause ++ [c]) none found rest
          else scanMarker (clause ++ [c]) (some q) found rest

def awskmsMarkerState (query : Bytes) : MarkerState :=
  scanMarker [] none .absent query

def sizeMax : Nat := 18446744073709551615

/-- `malloc` is whether the allocation succeeds. -/
def awskmsAppendDefaultProperty (malloc : Bool) (properties : Bytes) :
    Option Bytes :=
  let guardLen := (ascii awskms_DEFAULT_PROPQ).length
  let separator : Bytes := if properties = [] then [] else [44]
  if properties.length > sizeMax - guardLen - separator.length - 1 then none
  else if malloc then some (properties ++ separator ++ ascii awskms_DEFAULT_PROPQ)
  else none

/-- What libcrypto answers during a registration. -/
structure RegisterHost where
  /-- `EVP_get1_default_properties` is in this libcrypto -/
  getter : Bool
  get1 : Bool
  malloc : Bool
  available : Bool
  addBuiltin : Bool
  /-- setting the merged query -/
  set : Bool
  tryLoad : Bool
  /-- setting the old query again -/
  restore : Bool
  deriving DecidableEq, Repr

/-- The default query afterwards, and the static variables. -/
structure Registration where
  defaultProperties : Bytes
  code : String
  error : Option String
  succeeded : Bool
  deriving DecidableEq, Repr

def errVersion : String :=
  "register() requires OpenSSL 3.5 or newer: this runtime has no EVP_get1_default_properties(), so the existing default property policy cannot be preserved; use the openssl.cnf activation route on OpenSSL 3.0--3.4"

def errConflict : String :=
  "the existing OpenSSL default property query already uses the reserved property " ++
    awskms_KEYOBJECT_PROPERTY ++ " with a conflicting value"

/-- `goto done` with an error set and the query as given. -/
def Registration.failed (query : Bytes) (error : String) : Registration :=
  ⟨query, "ERR_AWSKMS_PROVIDER_REGISTRATION", some error, false⟩

/-- From the first provider call on; `merged` is the query to set, if one is
to be set. -/
def awskmsActivate (o : RegisterHost) (existing : Bytes)
    (merged : Option Bytes) : Registration :=
  if !o.available && !o.addBuiltin then
    .failed existing "OSSL_PROVIDER_add_builtin(aws-kms) failed before activation"
  else if merged.isSome && !o.set then
    .failed existing "EVP_set_default_properties() rejected the merged default property query"
  else if !o.tryLoad then
    if merged.isSome && !o.restore then
      .failed (merged.getD existing) "OSSL_PROVIDER_try_load(aws-kms) failed and restoring the previous OpenSSL default property query also failed"
    else
      .failed existing "OSSL_PROVIDER_try_load(aws-kms) failed; the previous OpenSSL default property query was restored"
  else
    ⟨merged.getD existing, "ERR_AWSKMS_PROVIDER_REGISTRATION", none, true⟩

def awskmsRegister (o : RegisterHost) (existing : Bytes) : Registration :=
  if !o.getter then
    ⟨existing, "ERR_AWSKMS_OPENSSL_VERSION", some errVersion, false⟩
  else if !o.get1 then
    .failed existing "EVP_get1_default_properties() failed"
  else
    match awskmsMarkerState existing with
    | .conflict => .failed existing errConflict
    | .guard => awskmsActivate o existing none
    | .absent =>
        match awskmsAppendDefaultProperty o.malloc existing with
        | none => .failed existing "could not allocate the merged OpenSSL default property query"
        | some merged => awskmsActivate o existing (some merged)

end AwsKms.Model
