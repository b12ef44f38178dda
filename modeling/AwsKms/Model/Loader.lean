import AwsKms.Lib.Lines

/-!
# The configuration the npm package writes

`index.js` takes the `openssl.cnf` that was shipped and puts the path of the
provider module into it, on the one line that names the module. A string is
its code points: every pattern here has the `u` flag, and neither the strings
searched for nor the ones put in their place have surrogates.
-/

namespace AwsKms.Model

open AwsKms.Lib

/-- `awskmsError(code, message)`. -/
structure AwskmsError where
  code : String
  message : String
  deriving DecidableEq, Repr

/-- What `^` and `$` stop at under the `m` flag. -/
def isLineTerminator (c : Char) : Bool :=
  c = '\n' || c = '\r' || c = Char.ofNat 0x2028 || c = Char.ofNat 0x2029

/-- `[ \t]`. -/
def isBlank (c : Char) : Bool := c = ' ' || c = '\t'

/-- `[\u0000-\u001f\u007f]`. -/
def isControl (c : Char) : Bool := c.toNat ≤ 0x1f || c.toNat = 0x7f

/-- `replaceAll` of one character by a backslash and itself. -/
def escapeAll (c : Char) (value : List Char) : List Char :=
  value.flatMap fun d => if d = c then ['\\', c] else [d]

def errUnsafeModulePath : AwskmsError :=
  ⟨"ERR_AWSKMS_UNSAFE_MODULE_PATH",
    "The provider module path contains a control character that cannot be encoded safely in openssl.cnf."⟩

def errBadConfigTemplate : AwskmsError :=
  ⟨"ERR_AWSKMS_BAD_CONFIG_TEMPLATE",
    "The shipped awskms.cnf must contain exactly one module = $ENV::AWSKMS_MODULE line."⟩

def quoteOpenSSLConfigValue (value : List Char) : Except AwskmsError (List Char) :=
  if value.any isControl then .error errUnsafeModulePath
  else .ok ('"' :: (escapeAll '$' (escapeAll '"' (escapeAll '\\' value)) ++ ['"']))

/-- What follows a fixed text, if the string begins with it. -/
def skipText (text s : List Char) : Option (List Char) :=
  if text.isPrefixOf s then some (s.drop text.length) else none

/-- `/^([ \t]*module[ \t]*=[ \t]*)\$ENV::AWSKMS_MODULE[ \t]*$/` on one line,
and what its group has. No class of it takes a terminator, so a match never
leaves its line, and `^` and `$` hold it to the whole of it. -/
def matchModuleLine (line : List Char) : Option (List Char) := do
  let name ← skipText "module".toList (line.dropWhile isBlank)
  let equals ← skipText ['='] (name.dropWhile isBlank)
  let value := equals.dropWhile isBlank
  let trail ← skipText "$ENV::AWSKMS_MODULE".toList value
  if trail.all isBlank then some (line.take (line.length - value.length))
  else none

/-- The replacement of one line, by a function: its result is taken as it is,
whatever `$` is in it. -/
def renderLine (module : List Char) (line : Line Char) :
    Except AwskmsError (Line Char) :=
  match matchModuleLine line.1 with
  | none => .ok line
  | some lead =>
      match quoteOpenSSLConfigValue module with
      | .error e => .error e
      | .ok value => .ok (lead ++ value, line.2)

def renderLines (module : List Char) :
    List (Line Char) → Except AwskmsError (List (Line Char))
  | [] => .ok []
  | line :: rest =>
      match renderLine module line with
      | .error e => .error e
      | .ok line' =>
          match renderLines module rest with
          | .error e => .error e
          | .ok rest' => .ok (line' :: rest')

def renderConfig (template module : List Char) :
    Except AwskmsError (List Char) :=
  let lines := cutLines isLineTerminator template
  if (lines.filterMap fun l => matchModuleLine l.1).length ≠ 1 then
    .error errBadConfigTemplate
  else
    match renderLines module lines with
    | .error e => .error e
    | .ok rendered => .ok (joinLines rendered)

end AwsKms.Model
