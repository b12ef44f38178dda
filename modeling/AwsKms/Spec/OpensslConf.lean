import AwsKms.Model.Loader

/-!
# A line of an OpenSSL configuration

Where libcrypto has a line begin and end, and what it takes from one that
assigns a value in double quotes: a backslash makes the next character literal,
and nothing else in there means anything. Only a newline ends a line, where
JavaScript has three more characters that do, and a line may go on below.
-/

namespace AwsKms.Spec

open AwsKms.Lib AwsKms.Model

/-- The text up to the closing quote, and what is behind that; `literal` is
whether a backslash has just been read. -/
def quotedText (literal : Bool) : List Char → Option (List Char × List Char)
  | [] => none
  | c :: rest =>
      if literal then (quotedText false rest).map fun r => (c :: r.1, r.2)
      else if c = '"' then some ([], rest)
      else if c = '\\' then quotedText true rest
      else (quotedText false rest).map fun r => (c :: r.1, r.2)

/-- A value in double quotes, with no more than blanks behind it. -/
def quotedValue : List Char → Option (List Char)
  | [] => none
  | c :: rest =>
      if c = '"' then
        match quotedText false rest with
        | some (value, trail) => if trail.all isBlank then some value else none
        | none => none
      else none

def trimBlanks (s : List Char) : List Char :=
  ((s.dropWhile isBlank).reverse.dropWhile isBlank).reverse

/-- The name and the value of an assignment. -/
def readAssignment (line : List Char) : Option (List Char × List Char) :=
  match line.dropWhile (· ≠ '=') with
  | [] => none
  | _ :: value =>
      (quotedValue (value.dropWhile isBlank)).map fun v =>
        (trimBlanks (line.takeWhile (· ≠ '=')), v)

/-- The line goes on below: it ends in one backslash. -/
def goesOn (line : List Char) : Bool :=
  line.getLast? = some '\\' && line.dropLast.getLast? ≠ some '\\'

/-- Carriage returns before a newline are no part of the line. -/
def withoutReturns (line : List Char) : List Char :=
  (line.reverse.dropWhile (· = '\r')).reverse

/-- Lines that go on are joined to what stands below them; `held` is what has
been read of such a line. -/
def joinContinued (held : List Char) : List (List Char) → List (List Char)
  | [] => if held = [] then [] else [held]
  | l :: ls =>
      let line := held ++ withoutReturns l
      if goesOn line then joinContinued line.dropLast ls
      else line :: joinContinued [] ls

/-- The lines libcrypto reads. -/
def configLines (text : List Char) : List (List Char) :=
  joinContinued [] ((cutLines (· = '\n') text).map Prod.fst)

example : configLines "a = b\\\n  c\r\nd".toList = ["a = b  c".toList, "d".toList] := by
  decide

/-- What stands between is cut off by newlines on either side, and the line
above does not go on. -/
structure StandsAlone (pre post : List Char) : Prop where
  begins : pre = [] ∨ ∃ t, pre = t ++ ['\n'] ∧ (withoutReturns t).getLast? ≠ some '\\'
  ends : post = [] ∨ ∃ t, post = '\n' :: t

/-- A line that takes the module from the environment. -/
def IsModuleLine (line : List Char) : Prop :=
  ∃ a b c d : List Char, (∀ s ∈ [a, b, c, d], ∀ e ∈ s, isBlank e = true) ∧
    line = a ++ ("module".toList ++ (b ++ ('=' ::
      (c ++ ("$ENV::AWSKMS_MODULE".toList ++ d)))))

end AwsKms.Spec
