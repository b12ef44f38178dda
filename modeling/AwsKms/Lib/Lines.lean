import Mathlib.Data.List.Basic

/-!
# The lines of a text

A text is lines, each with the terminator that ends it; the last line has
none. Which characters end a line is the reader's business. `cutLines` and
`joinLines` are inverse to each other, so a text that is changed in one line
only is the lines before, another line, and the lines after.
-/

namespace AwsKms.Lib

section

variable {α : Type} {isEnd : α → Bool}

/-- A line, and what ends it. -/
abbrev Line (α : Type) := List α × Option α

/-- One more character at the beginning of the first line. -/
def consLine (c : α) : List (Line α) → List (Line α)
  | [] => [([c], none)]
  | (l, t) :: more => (c :: l, t) :: more

def cutLines (isEnd : α → Bool) : List α → List (Line α)
  | [] => [([], none)]
  | c :: rest =>
      if isEnd c then ([], some c) :: cutLines isEnd rest
      else consLine c (cutLines isEnd rest)

def joinLines (ls : List (Line α)) : List α :=
  ls.flatMap fun l => l.1 ++ l.2.toList

theorem joinLines_append (ls ms : List (Line α)) :
    joinLines (ls ++ ms) = joinLines ls ++ joinLines ms := List.flatMap_append

theorem joinLines_cons (l : Line α) (ls : List (Line α)) :
    joinLines (l :: ls) = l.1 ++ l.2.toList ++ joinLines ls := List.flatMap_cons

theorem joinLines_consLine (c : α) (ls : List (Line α)) :
    joinLines (consLine c ls) = c :: joinLines ls := by
  cases ls with
  | nil => rfl
  | cons l more => rfl

theorem joinLines_cutLines (s : List α) : joinLines (cutLines isEnd s) = s := by
  induction s with
  | nil => rfl
  | cons c s ih =>
      rw [cutLines]
      split
      · rw [joinLines_cons, ih]
        rfl
      · rw [joinLines_consLine, ih]

theorem consLine_append (c : α) {ls : List (Line α)} (h : ls ≠ [])
    (ms : List (Line α)) : consLine c (ls ++ ms) = consLine c ls ++ ms := by
  cases ls with
  | nil => exact absurd rfl h
  | cons l more => rfl

/-- A text with no end in it is one line. -/
theorem cutLines_last {l : List α} (hl : ∀ c ∈ l, isEnd c = false) :
    cutLines isEnd l = [(l, none)] := by
  induction l with
  | nil => rfl
  | cons c l ih =>
      have hc := hl c List.mem_cons_self
      rw [cutLines, ih fun d hd => hl d (List.mem_cons_of_mem _ hd)]
      simp [hc, consLine]

/-- The first line, and the lines behind it. -/
theorem cutLines_first {l rest : List α} {c : α} (hl : ∀ d ∈ l, isEnd d = false)
    (hc : isEnd c = true) :
    cutLines isEnd (l ++ c :: rest) = (l, some c) :: cutLines isEnd rest := by
  induction l with
  | nil => simp [cutLines, hc]
  | cons d l ih =>
      have hd := hl d List.mem_cons_self
      rw [List.cons_append, cutLines, ih fun e he => hl e (List.mem_cons_of_mem _ he)]
      simp [hd, consLine]

/-- What ends with a line is lines, whatever follows. -/
theorem cutLines_before (s : List α) {c : α} (hc : isEnd c = true) :
    ∃ ls, joinLines ls = s ++ [c] ∧
      ∀ rest, cutLines isEnd (s ++ c :: rest) = ls ++ cutLines isEnd rest := by
  induction s with
  | nil => exact ⟨[([], some c)], rfl, fun rest => by simp [cutLines, hc]⟩
  | cons d s ih =>
      obtain ⟨ls, hjoin, hcut⟩ := ih
      have hne : ls ≠ [] := by
        rintro rfl
        simp [joinLines] at hjoin
      by_cases hd : isEnd d = true
      · refine ⟨([], some d) :: ls, ?_, fun rest => ?_⟩
        · rw [joinLines_cons, hjoin]
          rfl
        · rw [List.cons_append, cutLines, if_pos hd, hcut]
          rfl
      · refine ⟨consLine d ls, ?_, fun rest => ?_⟩
        · rw [joinLines_consLine, hjoin]
          rfl
        · rw [List.cons_append, cutLines, if_neg hd, hcut, consLine_append d hne]

end

end AwsKms.Lib
