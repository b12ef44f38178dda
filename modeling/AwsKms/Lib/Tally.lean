import Mathlib.Data.List.Basic
import Mathlib.Logic.Function.Basic

/-!
# Counting in a table

A table is a function from addresses to slots, an address in use below a
bound. `tally` counts the slots below the bound whose content satisfies a
test. Writing one slot moves the count by the difference the test makes
there, and nothing else does; that one equation, `tally_update`, is all a
proof about who holds what needs from a table.
-/

namespace AwsKms.Lib

variable {α : Type} {p : α → Bool} {f : Nat → Option α}

/-- How many of the slots below `n` hold something that satisfies `p`. -/
def tally (p : α → Bool) (f : Nat → Option α) (n : Nat) : Nat :=
  (List.range n).countP fun i => (f i).any p

@[simp] theorem tally_zero : tally p f 0 = 0 := rfl

theorem tally_succ (n : Nat) :
    tally p f (n + 1) = tally p f n + ((f n).any p).toNat := by
  unfold tally
  rw [List.range_succ, List.countP_append, List.countP_singleton]
  cases (f n).any p with
  | false => rfl
  | true => rfl

/-- A slot at or above the bound is not counted. -/
theorem tally_update_ge {i n : Nat} (v : Option α) (hi : n ≤ i) :
    tally p (Function.update f i v) n = tally p f n := by
  induction n with
  | zero => rfl
  | succ n ih =>
      have hne : n ≠ i := by omega
      rw [tally_succ, tally_succ, ih (by omega), Function.update_of_ne hne]

/-- What a write to one slot does to the count. -/
theorem tally_update {i n : Nat} {u : Option α} (hf : f i = u)
    (v : Option α) (hi : i < n) :
    tally p (Function.update f i v) n + (u.any p).toNat =
      tally p f n + (v.any p).toNat := by
  induction n with
  | zero => omega
  | succ n ih =>
      rw [tally_succ, tally_succ]
      by_cases hn : n = i
      · subst hn
        rw [tally_update_ge v (Nat.le_refl n), Function.update_self, hf]
        omega
      · rw [Function.update_of_ne hn]
        have := ih (by omega)
        omega

/-- The count after the slot at the bound is filled and the bound moved. -/
theorem tally_push {n : Nat} (v : Option α) :
    tally p (Function.update f n v) (n + 1) =
      tally p f n + (v.any p).toNat := by
  rw [tally_succ, tally_update_ge v (Nat.le_refl n), Function.update_self]

/-- A slot that satisfies the test is counted. -/
theorem tally_pos {i n : Nat} {a : α} (hi : i < n) (hf : f i = some a)
    (hp : p a = true) : 0 < tally p f n := by
  have h := tally_update (p := p) hf none hi
  have hone : ((some a).any p).toNat = 1 := by
    rw [Option.any_some, hp]
    rfl
  have hnone : (Option.any p none).toNat = 0 := rfl
  omega

end AwsKms.Lib
