import Mathlib.Logic.Function.Basic
import AwsKms.Model.Loader

/-!
# The configuration checker

`scripts/check.mjs` reads an `openssl.cnf` by hand, far enough to say what is
wrong with it: lines, comments, section headers and assignments, and then the
chain from `nodejs_conf` down to the module. A `Map` is a partial function.
What the checker asks of its host (the environment, `path.isAbsolute` and
`statSync`) is a parameter.
-/

namespace AwsKms.Model

open AwsKms.Lib

/-- `\s`, and what `trim` takes off. -/
def isJsSpace (c : Char) : Bool :=
  (9 ≤ c.toNat && c.toNat ≤ 13) || c.toNat = 0x20 || c.toNat = 0xa0 ||
    c.toNat = 0x1680 || (0x2000 ≤ c.toNat && c.toNat ≤ 0x200a) ||
    c.toNat = 0x2028 || c.toNat = 0x2029 || c.toNat = 0x202f ||
    c.toNat = 0x205f || c.toNat = 0x3000 || c.toNat = 0xfeff

def trimEnd (s : List Char) : List Char :=
  (s.reverse.dropWhile isJsSpace).reverse

def trim (s : List Char) : List Char := trimEnd (s.dropWhile isJsSpace)

/-- `replace(/#.*$/, '')`: from the first `#` with no terminator behind it. -/
def stripComment : List Char → List Char
  | [] => []
  | c :: rest =>
      if c = '#' && rest.all fun d => !isLineTerminator d then []
      else c :: stripComment rest

inductive CnfLine where
  | header (name : List Char)
  | assign (key value : List Char)
  | other
  deriving DecidableEq

/-- `/^\[\s*([^\]]+?)\s*\]$/`; between brackets with nothing but blanks the
group is the last of them. -/
def matchHeader (line : List Char) : Option (List Char) :=
  match line with
  | [] => none
  | c :: rest =>
      if c = '[' && rest.getLast? = some ']' then
        let inner := rest.dropLast
        if inner = [] || inner.contains ']' then none
        else if trim inner = [] then some (inner.drop (inner.length - 1))
        else some (trim inner)
      else none

/-- `/^([^=]+?)\s*=\s*(.*)$/`, and the trims of its two groups; the line has no
blank at either end. -/
def matchAssign (line : List Char) : Option (List Char × List Char) :=
  let key := line.takeWhile (· ≠ '=')
  match line.dropWhile (· ≠ '=') with
  | [] => none
  | _ :: rest =>
      let value := rest.dropWhile isJsSpace
      if key = [] || value.any isLineTerminator then none
      else some (trim key, trim value)

def readCnfLine (l : List Char) : CnfLine :=
  let line := trim (stripComment l)
  match matchHeader line with
  | some name => .header name
  | none =>
      match matchAssign line with
      | some (key, value) => .assign key value
      | none => .other

abbrev CnfSection := List Char → Option (List Char)

/-- The sections; `none` is the default section, which is always there. -/
structure CnfState where
  current : Option (List Char)
  sections : Option (List Char) → Option CnfSection

def CnfState.start : CnfState :=
  ⟨none, fun s => if s = none then some fun _ => none else none⟩

def CnfState.step (st : CnfState) (l : List Char) : CnfState :=
  match readCnfLine l with
  | .header name =>
      ⟨some name,
        if (st.sections (some name)).isSome then st.sections
        else Function.update st.sections (some name) (some fun _ => none)⟩
  | .assign key value =>
      let assigned := (st.sections st.current).map fun m =>
        Function.update m key (some value)
      ⟨st.current, Function.update st.sections st.current assigned⟩
  | .other => st

/-- `text.split('\n')`, without the newlines. -/
def splitNewlines (text : List Char) : List (List Char) :=
  (cutLines (fun c => c = '\n') text).map Prod.fst

def readCnf (text : List Char) : CnfState :=
  (splitNewlines text).foldl CnfState.step .start

/-- What the checker asks of the process and the file system. -/
structure CheckerHost where
  env : List Char → Option (List Char)
  isAbsolute : List Char → Bool
  /-- the size, or the error code -/
  stat : List Char → Except (List Char) (List Char)

/-- `path.posix.isAbsolute`. -/
def posixIsAbsolute (path : List Char) : Bool := path.head? = some '/'

def isSeparator (c : Char) : Bool := c = '/' || c = '\\'

/-- `path.win32.isAbsolute`. -/
def win32IsAbsolute : List Char → Bool
  | [] => false
  | c :: rest =>
      isSeparator c ||
        match rest with
        | d :: e :: _ => c.isAlpha && d = ':' && isSeparator e
        | _ => false

def isNameStart (c : Char) : Bool := c.isAlpha || c = '_'

def isNameRest (c : Char) : Bool := c.isAlphanum || c = '_'

/-- A variable's name, and what follows it. -/
def takeName : List Char → Option (List Char × List Char)
  | [] => none
  | c :: rest =>
      if isNameStart c then
        some (c :: rest.takeWhile isNameRest, rest.dropWhile isNameRest)
      else none

/-- One of the two alternatives at the beginning of the string: the whole
match, the name, and the rest. -/
def matchEnv (s : List Char) : Option (List Char × List Char × List Char) :=
  let braced := do
    let r ← skipText "$\x7bENV::".toList s
    let (name, r) ← takeName r
    let r ← skipText ['\x7d'] r
    pure ("$\x7bENV::".toList ++ name ++ ['\x7d'], name, r)
  let bare := do
    let r ← skipText "$ENV::".toList s
    let (name, r) ← takeName r
    pure ("$ENV::".toList ++ name, name, r)
  braced.orElse fun _ => bare

/-- The replacement from the given place on, and the names that are not set. -/
def expandEnvFrom (env : List Char → Option (List Char)) :
    Nat → List Char → List Char × List (List Char)
  | 0, s => (s, [])
  | _ + 1, [] => ([], [])
  | fuel + 1, c :: rest =>
      match matchEnv (c :: rest) with
      | none =>
          let r := expandEnvFrom env fuel rest
          (c :: r.1, r.2)
      | some (whole, name, after) =>
          let r := expandEnvFrom env fuel after
          match env name with
          | none => (whole ++ r.1, name :: r.2)
          | some v => (v ++ r.1, r.2)

def expandEnv (env : List Char → Option (List Char)) (value : List Char) :
    List Char × List (List Char) :=
  expandEnvFrom env value.length value

inductive CnfDiag where
  | ok (text : List Char)
  | bad (text : List Char)
  | warn (text : List Char)
  | note (text : List Char)
  deriving DecidableEq

def CnfState.get (st : CnfState) (s : Option (List Char)) (key : String) :
    Option (List Char) :=
  (st.sections s).bind fun m => m key.toList

/-- `!value` of a string that may be undefined. -/
def isFalsy (value : Option (List Char)) : Bool := value.getD [] = []

/-- `[name]`. -/
def bracketed (name : List Char) : List Char := '[' :: (name ++ [']'])

/-- The checks of the default section, of the section it names, and of the
default provider; then the section of this provider, if it is found. -/
def inspectSettings (st : CnfState) : List CnfDiag × Option (List Char) :=
  let appname := (st.get none "nodejs_conf").getD []
  if isFalsy (st.get none "nodejs_conf") then
    ([.bad "no \"nodejs_conf\" in the default section".toList,
      .note "node reads nodejs_conf, not openssl_conf. A cnf with only openssl_conf is".toList,
      .note "silently ignored unless node is started with --openssl-shared-config.".toList,
      .note "It must appear ABOVE the first [section] header.".toList], none)
  else
    let named : CnfDiag := .ok ("nodejs_conf = ".toList ++ appname)
    if st.sections (some appname) |>.isNone then
      ([named, .bad ("section ".toList ++ bracketed appname ++
        " does not exist".toList)], none)
    else
      let provSect := (st.get (some appname) "providers").getD []
      if isFalsy (st.get (some appname) "providers") ||
          (st.sections (some provSect)).isNone then
        ([named, .bad (bracketed appname ++
          " has no usable \"providers\" key".toList)], none)
      else
        let defSect := (st.get (some provSect) "default").getD []
        if isFalsy (st.get (some provSect) "default") then
          ([named,
            .bad (bracketed provSect ++ " does not list \"default\"".toList),
            .note "Activating a provider from config disables OpenSSL fallback loading, so".toList,
            .note "without an explicit default section node aborts at startup:".toList,
            .note "  Assertion failed: ncrypto::CSPRNG(nullptr, 0)".toList], none)
        else
          let defaultActivated : CnfDiag :=
            if st.get (some defSect) "activate" = some ['1'] then
              .ok ("default provider activated via ".toList ++ bracketed defSect)
            else .warn (bracketed defSect ++ " does not set activate = 1".toList)
          let ourSect := (st.get (some provSect) "aws-kms").getD []
          if isFalsy (st.get (some provSect) "aws-kms") then
            ([named, defaultActivated,
              .bad (bracketed provSect ++ " does not list \"aws-kms\"".toList)], none)
          else if (st.sections (some ourSect)).isNone then
            ([named, defaultActivated, .bad ("section ".toList ++
              bracketed ourSect ++ " does not exist".toList)], none)
          else
            let activated : List CnfDiag :=
              if st.get (some ourSect) "activate" = some ['1'] then []
              else [.warn (bracketed ourSect ++ " does not set activate = 1".toList)]
            (named :: defaultActivated :: activated, some ourSect)

def hasModuleExtension (path : List Char) : Bool :=
  [".so".toList, ".dylib".toList, ".dll".toList].any fun e => e.isSuffixOf path

/-- The checks of the module, and the path that is looked for on disk. -/
def inspectModule (h : CheckerHost) (st : CnfState) (ourSect : List Char) :
    List CnfDiag × Option (List Char) :=
  let raw := (st.get (some ourSect) "module").getD []
  if isFalsy (st.get (some ourSect) "module") then
    ([.bad (bracketed ourSect ++ " has no \"module\"".toList)], none)
  else
    match expandEnv h.env raw with
    | (_, name :: _) =>
        ([.bad ("module refers to $ENV::".toList ++ name ++ ", which is not set".toList),
          .note "Set it to the absolute path of the provider module, e.g.".toList,
          .note ("  export ".toList ++ name ++ "=/path/to/aws-kms.so".toList)], none)
    | (expanded, []) =>
        let shown : List CnfDiag :=
          if expanded = raw then []
          else [.ok ("module = ".toList ++ raw ++ " -> ".toList ++ expanded)]
        if !h.isAbsolute expanded then
          (shown ++ [.bad ("module path is relative: ".toList ++ expanded),
            .note "OpenSSL resolves it against its module search directory, not the cwd".toList,
            .note "and not the cnf's own directory. Use an absolute path.".toList], none)
        else if !hasModuleExtension expanded then
          (shown ++ [.bad ("module path has no platform extension: ".toList ++ expanded),
            .note "OpenSSL does not append one here. Use aws-kms.so / aws-kms.dylib.".toList],
            some expanded)
        else
          match h.stat expanded with
          | .ok size =>
              (shown ++ [.ok ("module exists (".toList ++ size ++ " bytes)".toList)],
                some expanded)
          | .error code =>
              (shown ++ [.bad ("module path does not exist: ".toList ++ expanded ++
                  " (".toList ++ code ++ [')']),
                .note "This is the most common cause: the cnf was generated for a different".toList,
                .note "install location, or the archive was unpacked somewhere else.".toList],
                some expanded)

/-- What `inspectCnf` prints before it comes to the module, what it prints of
the module, and the absolute path it takes for it. -/
structure CnfReport where
  settings : List CnfDiag
  module : List CnfDiag
  path : Option (List Char)

def inspectCnf (h : CheckerHost) (text : List Char) : CnfReport :=
  let st := readCnf text
  match inspectSettings st with
  | (settings, none) => ⟨settings, [], none⟩
  | (settings, some ourSect) =>
      let m := inspectModule h st ourSect
      ⟨settings, m.1, m.2⟩

end AwsKms.Model
