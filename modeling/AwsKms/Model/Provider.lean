import AwsKms.Model.Err

/-!
# The FIPS policy

A caller asks for FIPS in a property query, or the process does in its
defaults. There is no public parser for property queries, so `provider.c`
scans for the one clause it has to know about: it cuts the query at the commas
that stand outside quotes and looks at each clause on its own.

The answer only ever selects between two property queries of the provider's
own, both of which exclude the provider itself.
-/

namespace AwsKms.Model

def awskms_EXCLUDE_SELF : String := "provider!=aws-kms"
def awskms_EXCLUDE_SELF_FIPS : String := "provider!=aws-kms,fips=yes"

/-- The property query for every fetch made on the provider's own behalf. -/
def awskmsDependencyPropq (fipsRequired : Bool) : String :=
  if fipsRequired then awskms_EXCLUDE_SELF_FIPS else awskms_EXCLUDE_SELF

/-- ASCII lower case, the fold of `awskms_ascii_equal` and
`OPENSSL_strcasecmp`. -/
def asciiLower (c : UInt8) : UInt8 :=
  if 65 ≤ c ∧ c ≤ 90 then c + 32 else c

def awskmsAsciiEqual (value expected : Bytes) : Bool :=
  value.map asciiLower == expected.map asciiLower

/-- Blank, tab, carriage return, newline, form feed or vertical tab. -/
def awskmsIsSpace (c : UInt8) : Bool :=
  c = 32 || c = 9 || c = 13 || c = 10 || c = 12 || c = 11

/-- A character of a property name: a letter, a digit, `_` or a full stop. -/
def isNameChar (c : UInt8) : Bool :=
  (97 ≤ c && c ≤ 122) || (65 ≤ c && c ≤ 90) || (48 ≤ c && c ≤ 57) ||
    c = 95 || c = 46

/-- A single or a double quote. -/
def isQuote (c : UInt8) : Bool := c = 39 || c = 34

def dropSpaces (s : Bytes) : Bytes := s.dropWhile awskmsIsSpace

def trimSpaces (s : Bytes) : Bytes :=
  (dropSpaces (dropSpaces s).reverse).reverse

/-- The value of a clause and what follows it: up to the closing quote when it
begins with one, else up to the next blank. -/
def clauseValue (s : Bytes) : Bytes × Bytes :=
  match s with
  | q :: rest =>
      if isQuote q then
        (rest.takeWhile (· ≠ q), (rest.dropWhile (· ≠ q)).drop 1)
      else
        (s.takeWhile fun c => !awskmsIsSpace c,
          s.dropWhile fun c => !awskmsIsSpace c)
  | [] => ([], [])

/-- One clause of the scan: whether it reads `fips=yes`. -/
def clauseRequestsFips (clause : Bytes) : Bool :=
  let trimmed := trimSpaces clause
  let body := match trimmed with
    | c :: rest => if c = 63 then dropSpaces rest else trimmed
    | [] => []
  match body with
  | [] => false
  | c :: _ =>
      if c = 45 then false
      else
        match dropSpaces (body.dropWhile isNameChar) with
        | eq :: rest =>
            if eq = 61 then
              let value := clauseValue (dropSpaces rest)
              dropSpaces value.2 == [] &&
                awskmsAsciiEqual (body.takeWhile isNameChar) (ascii "fips") &&
                awskmsAsciiEqual value.1 (ascii "yes")
            else false
        | [] => false

/-- The scan itself, with the clause read so far and the quote it is in. -/
def scanPropq (clause : Bytes) (quote : Option UInt8) : Bytes → Bool
  | [] => clauseRequestsFips clause
  | c :: rest =>
      match quote with
      | none =>
          if c = 44 then clauseRequestsFips clause || scanPropq [] none rest
          else if isQuote c then scanPropq (clause ++ [c]) (some c) rest
          else scanPropq (clause ++ [c]) none rest
      | some q =>
          if c = q then scanPropq (clause ++ [c]) none rest
          else scanPropq (clause ++ [c]) (some q) rest

def awskmsPropqRequestsFips : Option Bytes → Bool
  | none => false
  | some propq => scanPropq [] none propq

/-- `defaultFips` is `EVP_default_properties_is_fips_enabled`. -/
def awskmsFipsRequested (defaultFips : Bool) (propq : Option Bytes) : Bool :=
  defaultFips || awskmsPropqRequestsFips propq

example : awskmsPropqRequestsFips
    (some (ascii "provider=aws-kms, ?FIPS = 'yes'")) = true := by decide

end AwsKms.Model
