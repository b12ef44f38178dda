import AwsKms.Model.Provider

/-!
# Property queries as libcrypto writes them

A query is clauses with commas between them. A clause is a property name, in
front of which a question mark makes it a preference and a dash takes an
earlier clause back, and behind which a value can be asked for, or asked not
to be there. A value is a word or a number, or any text in quotes that are not
in the text. Blanks may stand between any two of these.

The layout is part of a clause here, so that every text a query can have is
the text of some list of clauses.
-/

namespace AwsKms.Spec

open AwsKms.Model

structure Blanks where
  text : Bytes
  blank : ∀ c ∈ text, awskmsIsSpace c = true

inductive ClauseMark where
  | required
  | optional (gap : Blanks)
  | override (gap : Blanks)

def ClauseMark.text : ClauseMark → Bytes
  | .required => []
  | .optional gap => 63 :: gap.text
  | .override gap => 45 :: gap.text

structure PropertyName where
  text : Bytes
  named : text ≠ []
  chars : ∀ c ∈ text, isNameChar c = true

/-- A character of an unquoted value. -/
def isValueChar (c : UInt8) : Bool := isNameChar c || c = 43 || c = 45

inductive PropertyValue where
  | unquoted (text : Bytes) (given : text ≠ [])
      (chars : ∀ c ∈ text, isValueChar c = true)
  | quoted (quote : UInt8) (text : Bytes) (isQuote : isQuote quote = true)
      (outside : quote ∉ text)

def PropertyValue.text : PropertyValue → Bytes
  | .unquoted text _ _ => text
  | .quoted quote text _ _ => quote :: (text ++ [quote])

inductive PropertyOp where
  | eq
  | ne
  deriving DecidableEq

def PropertyOp.text : PropertyOp → Bytes
  | .eq => [61]
  | .ne => [33, 61]

structure PropertyTest where
  op : PropertyOp
  gap : Blanks
  value : PropertyValue
  trail : Blanks

structure Clause where
  lead : Blanks
  mark : ClauseMark
  name : PropertyName
  gap : Blanks
  test : Option PropertyTest

def PropertyTest.text (t : PropertyTest) : Bytes :=
  t.op.text ++ (t.gap.text ++ (t.value.text ++ t.trail.text))

def Clause.text (c : Clause) : Bytes :=
  c.lead.text ++ (c.mark.text ++ (c.name.text ++
    (c.gap.text ++ (c.test.map PropertyTest.text).getD [])))

/-- The text of a query. -/
def queryText (cs : List Clause) : Bytes :=
  [44].intercalate (cs.map Clause.text)

/-- What follows the name, less the blanks at the end of the clause. -/
def Clause.tail (c : Clause) : Bytes :=
  match c.test with
  | none => []
  | some t => c.gap.text ++ (t.op.text ++ (t.gap.text ++ t.value.text))

/-- The blanks at the end of the clause. -/
def Clause.trail (c : Clause) : Blanks :=
  match c.test with
  | none => c.gap
  | some t => t.trail

/-- The dash of a clause stands right before the name. -/
def Clause.dashTight (c : Clause) : Bool :=
  match c.mark with
  | .override gap => gap.text = []
  | _ => true

/-- Clauses that libcrypto can print: it puts no blank behind a dash. -/
def Printed (cs : List Clause) : Prop := ∀ c ∈ cs, c.dashTight = true

/-- The clause is about the property; case does not matter. -/
def Clause.uses (c : Clause) (property : Bytes) : Bool :=
  awskmsAsciiEqual c.name.text property

/-- The clause is `?property!=yes`, in any layout and case. -/
def Clause.prefersWithout (c : Clause) (property : Bytes) : Bool :=
  c.uses property &&
    match c.mark, c.test with
    | .optional _, some ⟨.ne, _, .unquoted value _ _, _⟩ =>
        awskmsAsciiEqual value (ascii "yes")
    | _, _ => false

end AwsKms.Spec
