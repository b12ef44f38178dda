import AwsKms.Model.Checker

/-!
# The command line and `NODE_OPTIONS`

`bin/awskms.js` starts a program with the provider active. Before that it looks
for an OpenSSL configuration that is already chosen, and if it is to replace
one it writes `NODE_OPTIONS` anew: it takes the value apart, drops the option,
and puts every token back with its own in the end. A string is its code points;
what comes from the environment has no lone surrogates.
-/

namespace AwsKms.Model

def apostrophe : Char := Char.ofNat 0x27

structure OptionsState where
  args : List (List Char)
  current : List Char
  quote : Option Char
  escaped : Bool

def OptionsState.start : OptionsState := ⟨[], [], none, false⟩

def OptionsState.step (st : OptionsState) (character : Char) : OptionsState :=
  if st.escaped then
    { st with current := st.current ++ [character], escaped := false }
  else if character = '\\' ∧ st.quote ≠ some apostrophe then
    { st with escaped := true }
  else
    match st.quote with
    | some quote =>
        if character = quote then { st with quote := none }
        else { st with current := st.current ++ [character] }
    | none =>
        if character = '"' ∨ character = apostrophe then
          { st with quote := some character }
        else if isJsSpace character then
          if st.current ≠ [] then { st with args := st.args ++ [st.current], current := [] }
          else st
        else { st with current := st.current ++ [character] }

/-- `parseNodeOptions`; `none` is an unset variable. -/
def parseNodeOptions (value : Option (List Char)) : Except String (List (List Char)) :=
  let st := (value.getD []).foldl .step OptionsState.start
  let current := if st.escaped then st.current ++ ['\\'] else st.current
  if st.quote ≠ none then .error "NODE_OPTIONS contains an unmatched quote"
  else .ok (if current ≠ [] then st.args ++ [current] else st.args)

def openSSLConfig : List Char := "--openssl-config".toList

def openSSLConfigIs : List Char := "--openssl-config=".toList

def hasOpenSSLConfig (args : List (List Char)) : Bool :=
  args.any fun arg => arg = openSSLConfig || openSSLConfigIs.isPrefixOf arg

/-- What the CLI has been started with. -/
structure CliProcess where
  opensslConf : Option (List Char)
  nodeOptions : Option (List Char)
  execArgv : List (List Char)

def existingConfigSources (p : CliProcess) (targetArguments : List (List Char)) :
    Except String (List String) := do
  let fromConf := if p.opensslConf.getD [] ≠ [] then ["OPENSSL_CONF"] else []
  let options ← parseNodeOptions p.nodeOptions
  let fromOptions := if hasOpenSSLConfig options then ["NODE_OPTIONS"] else []
  let fromExec :=
    if hasOpenSSLConfig p.execArgv then ["the current node command line"] else []
  let fromTarget :=
    if hasOpenSSLConfig targetArguments then ["the target command line"] else []
  pure (fromConf ++ fromOptions ++ fromExec ++ fromTarget)

/-- The option's separate value goes with it, whatever it is. -/
def withoutOpenSSLConfig : List (List Char) → List (List Char)
  | [] => []
  | arg :: rest =>
      if arg = openSSLConfig then
        match rest with
        | [] => []
        | _ :: rest => withoutOpenSSLConfig rest
      else if openSSLConfigIs.isPrefixOf arg then withoutOpenSSLConfig rest
      else arg :: withoutOpenSSLConfig rest

def hexDigit (n : Nat) : Char := "0123456789abcdef".toList.getD n '0'

/-- A character of a string, as `JSON.stringify` writes it. -/
def jsonChar (c : Char) : List Char :=
  if c = '"' ∨ c = '\\' then ['\\', c]
  else if c.toNat < 0x20 then
    if c.toNat = 8 then ['\\', 'b']
    else if c.toNat = 9 then ['\\', 't']
    else if c.toNat = 10 then ['\\', 'n']
    else if c.toNat = 12 then ['\\', 'f']
    else if c.toNat = 13 then ['\\', 'r']
    else ['\\', 'u', '0', '0', hexDigit (c.toNat / 16), hexDigit (c.toNat % 16)]
  else [c]

def jsonStringify (argument : List Char) : List Char :=
  '"' :: (argument.flatMap jsonChar ++ ['"'])

def nodeOptionsWithConfig (value : Option (List Char)) (path : List Char) :
    Except String (List Char) := do
  let args ← parseNodeOptions value
  let retained := withoutOpenSSLConfig args ++ [openSSLConfigIs ++ path]
  pure ([' '].intercalate (retained.map jsonStringify))

end AwsKms.Model
