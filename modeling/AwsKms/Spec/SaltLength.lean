import Mathlib.Data.Nat.Digits.Defs
import AwsKms.Model.Host

/-!
# How a salt length is spelled

A PSS salt length is an `int`, and its text is one of three names or a decimal:
an optional sign and at least one digit. The digits stand for the number they
stand for everywhere, so this file needs no scanner to say what a text means.
-/

namespace AwsKms.Spec

open AwsKms.Model

/-- At least one character, and nothing but `0` to `9`. -/
structure Decimal (digits : Bytes) : Prop where
  nonempty : digits ≠ []
  digit : ∀ c ∈ digits, 48 ≤ c.toNat ∧ c.toNat ≤ 57

/-- The number some digits stand for. -/
def decimalValue (digits : Bytes) : Nat :=
  Nat.ofDigits 10 (digits.map fun c => c.toNat - 48).reverse

/-- A text, and the salt length it stands for. -/
inductive SaltText : Bytes → Int → Prop where
  | digest : SaltText (ascii "digest") (-1)
  | auto : SaltText (ascii "auto") (-2)
  | max : SaltText (ascii "max") (-3)
  | plain {digits : Bytes} : Decimal digits → SaltText digits (decimalValue digits)
  | plus {digits : Bytes} : Decimal digits →
      SaltText (43 :: digits) (decimalValue digits)
  | minus {digits : Bytes} : Decimal digits →
      SaltText (45 :: digits) (-decimalValue digits)

/-- A text short enough to be read, of a salt length an `int` can hold. -/
structure Spells (text : Bytes) (n : Int) : Prop where
  short : text.length ≤ 31
  salt : SaltText text n
  low : intMin ≤ n
  high : n ≤ intMax

end AwsKms.Spec
