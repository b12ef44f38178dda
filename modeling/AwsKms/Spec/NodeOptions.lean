import AwsKms.Model.Cli

/-!
# How Node reads `NODE_OPTIONS`

Only the space separates tokens; a double quote begins or ends quoted text and
is no part of a token; a backslash takes the next character as it is, but in
quoted text only. A token begins with its first character, so quotes with
nothing between them are none.
-/

namespace AwsKms.Spec

open AwsKms.Model

structure NodeReading where
  tokens : List (List Char)
  token : List Char
  quoted : Bool
  escaped : Bool

def NodeReading.start : NodeReading := ⟨[], [], false, false⟩

def NodeReading.put (r : NodeReading) (c : Char) : NodeReading :=
  { r with token := r.token ++ [c], escaped := false }

/-- The token, if one has begun, is over. -/
def NodeReading.all (r : NodeReading) : List (List Char) :=
  if r.token = [] then r.tokens else r.tokens ++ [r.token]

def NodeReading.step (r : NodeReading) (c : Char) : NodeReading :=
  if r.escaped then r.put c
  else if c = '"' then { r with quoted := !r.quoted }
  else if r.quoted then if c = '\\' then { r with escaped := true } else r.put c
  else if c = ' ' then { r with tokens := r.all, token := [] }
  else r.put c

def nodeTokens (value : List Char) : List (List Char) :=
  (value.foldl .step NodeReading.start).all

/-- Node takes an underscore in the name of an option for a dash. -/
def underscored : List Char := "--openssl_config".toList

def spellings : List (List Char) := [openSSLConfig, underscored]

/-- The option with its value in one word. -/
def Assigns (name arg : List Char) : Prop := ∃ v, arg = name ++ '=' :: v

/-- No option is left: neither the two-word form with its value, nor the other. -/
inductive Without : List (List Char) → List (List Char) → Prop where
  | nil : Without [] []
  | option {name} : name ∈ spellings → Without [name] []
  | value {name v rest kept} : name ∈ spellings → Without rest kept →
      Without (name :: v :: rest) kept
  | assigned {name arg rest kept} : name ∈ spellings → Assigns name arg →
      Without rest kept → Without (arg :: rest) kept
  | other {arg rest kept} : arg ∉ spellings → (∀ name ∈ spellings, ¬ Assigns name arg) →
      Without rest kept → Without (arg :: rest) (arg :: kept)

/-- Node finds the option among its tokens. -/
def NodeSees (tokens : List (List Char)) : Prop :=
  ∃ arg ∈ tokens, ∃ name ∈ spellings, arg = name ∨ Assigns name arg

/-- In quoted text everything; outside it no single quote, no space but the
space, and a backslash only in the end. -/
def plainFrom (quoted escaped : Bool) : List Char → Bool
  | [] => true
  | c :: rest =>
      if escaped then plainFrom quoted false rest
      else if c = '"' then plainFrom (!quoted) false rest
      else if quoted then plainFrom quoted (c = '\\') rest
      else if c = '\\' then rest = []
      else c ≠ apostrophe && (c = ' ' || !isJsSpace c) && plainFrom false false rest

/-- Nothing that the two read, or `JSON.stringify` writes, in a way of its own. -/
structure Plain (value path : List Char) : Prop where
  rules : plainFrom false false value = true
  spelled : ∀ arg ∈ nodeTokens value, arg ≠ underscored ∧ ¬ Assigns underscored arg
  value : ∀ c ∈ value, 0x20 ≤ c.toNat
  path : ∀ c ∈ path, 0x20 ≤ c.toNat

/-- The CLI reports the option when Node sees it, and what it writes has, for
Node, the tokens that were there, without the option, and then its own. -/
structure AgreesWithNode (p : CliProcess) (path : List Char) : Prop where
  reports : ∀ targetArguments sources,
    existingConfigSources p targetArguments = .ok sources →
    ("NODE_OPTIONS" ∈ sources ↔ NodeSees (nodeTokens (p.nodeOptions.getD [])))
  rewrites : ∀ rewritten, nodeOptionsWithConfig p.nodeOptions path = .ok rewritten →
    ∃ kept, Without (nodeTokens (p.nodeOptions.getD [])) kept ∧
      nodeTokens rewritten = kept ++ [openSSLConfigIs ++ path]

end AwsKms.Spec
