import AwsKms.Lib.Quoted
import AwsKms.Spec.PropertyQuery

/-!
# Property queries in full

The queries a caller hands over are not ours, and libcrypto takes more from
them than from the defaults a process sets: a value that no quote begins runs
on over every printable character up to a blank or a comma, quotes included. A
query may be empty.
-/

namespace AwsKms.Spec

open AwsKms.Lib AwsKms.Model

/-- A character of a value no quote begins. -/
def isTextChar (c : UInt8) : Bool := 33 ≤ c && c ≤ 126 && c ≠ 44

inductive QueryValue where
  | unquoted (first : UInt8) (rest : Bytes) (begins : isQuote first = false)
      (chars : ∀ c ∈ first :: rest, isTextChar c = true)
  | quoted (quote : UInt8) (text : Bytes) (isQuote : isQuote quote = true)
      (outside : quote ∉ text)

def QueryValue.text : QueryValue → Bytes
  | .unquoted first rest _ _ => first :: rest
  | .quoted quote text _ _ => quote :: (text ++ [quote])

/-- A test of a property: what is behind its name. -/
structure QueryTest where
  op : PropertyOp
  gap : Blanks
  value : QueryValue
  trail : Blanks

structure QueryClause where
  lead : Blanks
  mark : ClauseMark
  name : PropertyName
  gap : Blanks
  test : Option QueryTest

def QueryTest.text (t : QueryTest) : Bytes :=
  t.op.text ++ (t.gap.text ++ (t.value.text ++ t.trail.text))

def QueryClause.text (c : QueryClause) : Bytes :=
  c.lead.text ++ (c.mark.text ++ (c.name.text ++
    (c.gap.text ++ (c.test.map QueryTest.text).getD [])))

/-- The text of clauses, with commas between them. -/
def clausesText (cs : List QueryClause) : Bytes :=
  [44].intercalate (cs.map QueryClause.text)

/-- The text is a query of these clauses. -/
def IsQuery (cs : List QueryClause) (text : Bytes) : Prop :=
  match cs with
  | [] => ∀ c ∈ text, awskmsIsSpace c = true
  | _ :: _ => text = clausesText cs

def QueryClause.names (c : QueryClause) (property : Bytes) : Bool :=
  awskmsAsciiEqual c.name.text property

/-- The value is `yes`: a word in any case, or just that in quotes. -/
def QueryValue.isYes : QueryValue → Bool
  | .unquoted first rest _ _ => awskmsAsciiEqual (first :: rest) (ascii "yes")
  | .quoted _ text _ _ => text == ascii "yes"

/-- The clause asks, or prefers, that the property is true. A name alone does;
a dash takes an earlier clause back and asks for nothing. -/
def QueryClause.requests (c : QueryClause) (property : Bytes) : Bool :=
  c.names property &&
    match c.mark, c.test with
    | .override _, _ => false
    | _, none => true
    | _, some t => t.op = .eq && t.value.isYes

/-- The text of a value without its quotes. -/
def QueryValue.inner : QueryValue → Bytes
  | .unquoted first rest _ _ => first :: rest
  | .quoted _ text _ _ => text

/-- The clause asks for the property in so many words: `=yes` or a preference
for it, quoted or not, in any case and layout. -/
def QueryClause.spells (c : QueryClause) (property : Bytes) : Bool :=
  c.names property &&
    match c.mark, c.test with
    | .override _, _ => false
    | _, none => false
    | _, some t => t.op = .eq && awskmsAsciiEqual t.value.inner (ascii "yes")

/-- The quote and the text of a quoted value. -/
def QueryClause.quotedValue (c : QueryClause) : Option (UInt8 × Bytes) :=
  match c.test with
  | some ⟨_, _, .quoted quote text _ _, _⟩ => some (quote, text)
  | _ => none

/-- The quote left open by the clauses, when quotes are paired left to right
wherever they stand, in unquoted values too. -/
def quoteBehind (cs : List QueryClause) : Option UInt8 :=
  openAfter isQuote none (cs.flatMap fun c => c.text ++ [44])

/-- Some clause says `property=yes`, and no quote is open before it. -/
def SaidOutside (property : Bytes) (cs : List QueryClause) : Prop :=
  ∃ before c after, cs = before ++ c :: after ∧
    c.spells property = true ∧ quoteBehind before = none

/-- Some quoted value has the text of such a clause between two commas, and no
quote is open there. -/
def SaidInside (property : Bytes) (cs : List QueryClause) : Prop :=
  ∃ before c after quote text t₁ d t₂, cs = before ++ c :: after ∧
    c.quotedValue = some (quote, text) ∧
    text = t₁ ++ 44 :: (QueryClause.text d ++ 44 :: t₂) ∧
    d.spells property = true ∧
    openAfter isQuote (quoteBehind before) (quote :: t₁) = none

end AwsKms.Spec
