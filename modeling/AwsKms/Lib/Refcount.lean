import Mathlib.Data.List.Basic
import Mathlib.Logic.Function.Basic

/-!
# Reference counts

An object with a counter is freed when a decrement brings the counter to
zero. What its holders need is that the counter equals their number, and
what makes it so is one discipline: nobody moves the counter of an object
that nobody holds. `Backed` states the discipline over a list of moves, in
terms of the number of holders alone, and the three results about it are
everything there is to say: the counters follow the holders (`counts_play`),
no move touches a freed object (`live_of_backed`), and an object is freed
once at most (`freedBy_count`).
-/

namespace AwsKms.Lib

/-- A counted object, as far as its counter goes. -/
structure Cell where
  count : Int
  freed : Bool
  deriving DecidableEq, Repr

/-- One indivisible update of a counter. -/
inductive Move (K : Type) where
  | take (k : K)
  | give (k : K)
  deriving DecidableEq, Repr

namespace Cell

/-- `refcnt++` -/
def take (c : Cell) : Cell := { c with count := c.count + 1 }

/-- `if (--refcnt <= 0) free` -/
def give (c : Cell) : Cell :=
  ⟨c.count - 1, c.freed || decide (c.count - 1 ≤ 0)⟩

/-- The counter of an object with `n` holders. -/
structure Counts (c : Cell) (n : Nat) : Prop where
  count : c.count = n
  freed : c.freed = true ↔ n = 0

theorem Counts.live {c : Cell} {n : Nat} (h : c.Counts n) (hn : 0 < n) :
    c.freed = false := by
  cases hf : c.freed with
  | false => rfl
  | true =>
      have := h.freed.mp hf
      omega

theorem Counts.take {c : Cell} {n : Nat} (h : c.Counts n) (hn : 0 < n) :
    c.take.Counts (n + 1) where
  count := by
    show c.count + 1 = _
    rw [h.count]
    omega
  freed := by
    show c.freed = true ↔ _
    rw [h.live hn]
    constructor
    · intro hf
      cases hf
    · omega

theorem Counts.give {c : Cell} {n : Nat} (h : c.Counts n) (hn : 0 < n) :
    c.give.Counts (n - 1) where
  count := by
    show c.count - 1 = _
    rw [h.count]
    omega
  freed := by
    show (c.freed || decide (c.count - 1 ≤ 0)) = true ↔ _
    rw [h.live hn, h.count, Bool.false_or, decide_eq_true_iff]
    omega

end Cell

section

variable {K : Type} [DecidableEq K]

namespace Move

def target : Move K → K
  | .take k | .give k => k

/-- A move, made. -/
def apply (mem : K → Cell) : Move K → K → Cell
  | .take k => Function.update mem k (mem k).take
  | .give k => Function.update mem k (mem k).give

/-- A move, as the holders see it. -/
def tick (n : K → Nat) : Move K → K → Nat
  | .take k => Function.update n k (n k + 1)
  | .give k => Function.update n k (n k - 1)

/-- Whether a move frees its object. -/
def frees (mem : K → Cell) : Move K → Bool
  | .take _ => false
  | .give k => decide ((mem k).count - 1 ≤ 0)

end Move

/-- The counters after a list of moves. -/
def play (mem : K → Cell) : List (Move K) → K → Cell
  | [] => mem
  | m :: ms => play (m.apply mem) ms

/-- The holders after a list of moves. -/
def after (n : K → Nat) : List (Move K) → K → Nat
  | [] => n
  | m :: ms => after (m.tick n) ms

/-- Every move is of an object somebody holds. -/
def Backed (n : K → Nat) : List (Move K) → Prop
  | [] => True
  | m :: ms => 0 < n m.target ∧ Backed (m.tick n) ms

/-- No move is of an object that was freed. -/
def AllLive (mem : K → Cell) : List (Move K) → Prop
  | [] => True
  | m :: ms => (mem m.target).freed = false ∧ AllLive (m.apply mem) ms

/-- The objects a list of moves frees, in order. -/
def freedBy (mem : K → Cell) : List (Move K) → List K
  | [] => []
  | m :: ms =>
      (if m.frees mem then [m.target] else []) ++ freedBy (m.apply mem) ms

variable {mem : K → Cell} {n : K → Nat} {P : K → Prop}

theorem counts_apply (h : ∀ k, P k → (mem k).Counts (n k)) {m : Move K}
    (hm : 0 < n m.target) (k : K) (hk : P k) :
    (m.apply mem k).Counts (m.tick n k) := by
  cases m with
  | take j =>
      by_cases hj : k = j
      · subst hj
        rw [Move.apply, Move.tick, Function.update_self, Function.update_self]
        exact (h k hk).take hm
      · rw [Move.apply, Move.tick, Function.update_of_ne hj,
          Function.update_of_ne hj]
        exact h k hk
  | give j =>
      by_cases hj : k = j
      · subst hj
        rw [Move.apply, Move.tick, Function.update_self, Function.update_self]
        exact (h k hk).give hm
      · rw [Move.apply, Move.tick, Function.update_of_ne hj,
          Function.update_of_ne hj]
        exact h k hk

/-- The counters of the objects in `P` follow their holders. -/
theorem counts_play {ms : List (Move K)}
    (h : ∀ k, P k → (mem k).Counts (n k)) (hb : Backed n ms) (k : K)
    (hk : P k) : (play mem ms k).Counts (after n ms k) := by
  induction ms generalizing mem n with
  | nil => exact h k hk
  | cons m ms ih => exact ih (counts_apply h hb.1) hb.2

theorem tick_eq_zero {m : Move K} (hm : 0 < n m.target) {k : K}
    (hk : n k = 0) : m.tick n k = 0 := by
  cases m with
  | take j =>
      have hne : k ≠ j := by
        rintro rfl
        exact absurd hk (Nat.pos_iff_ne_zero.mp hm)
      rw [Move.tick, Function.update_of_ne hne]
      exact hk
  | give j =>
      have hne : k ≠ j := by
        rintro rfl
        exact absurd hk (Nat.pos_iff_ne_zero.mp hm)
      rw [Move.tick, Function.update_of_ne hne]
      exact hk

/-- Backed moves touch no freed object, when every object somebody holds is
one whose counter is right. -/
theorem live_of_backed {ms : List (Move K)}
    (h : ∀ k, P k → (mem k).Counts (n k)) (h0 : ∀ k, ¬P k → n k = 0)
    (hb : Backed n ms) : AllLive mem ms := by
  induction ms generalizing mem n with
  | nil => trivial
  | cons m ms ih =>
      have hP : P m.target := by
        by_contra hn
        exact absurd (h0 _ hn) (Nat.pos_iff_ne_zero.mp hb.1)
      refine ⟨(h _ hP).live hb.1, ih (counts_apply h hb.1) ?_ hb.2⟩
      intro k hk
      exact tick_eq_zero hb.1 (h0 k hk)

/-- An object nobody holds is left alone. -/
theorem play_of_unheld {ms : List (Move K)} (hb : Backed n ms) {k : K}
    (hk : n k = 0) : play mem ms k = mem k := by
  induction ms generalizing mem n with
  | nil => rfl
  | cons m ms ih =>
      rw [play, ih hb.2 (tick_eq_zero hb.1 hk)]
      have hne : k ≠ m.target := by
        rintro rfl
        exact absurd hk (Nat.pos_iff_ne_zero.mp hb.1)
      cases m with
      | take j => exact Function.update_of_ne hne ..
      | give j => exact Function.update_of_ne hne ..

theorem not_mem_of_unheld {ms : List (Move K)} (hb : Backed n ms) {k : K}
    (hk : n k = 0) : Move.take k ∉ ms := by
  induction ms generalizing n with
  | nil => exact List.not_mem_nil
  | cons m ms ih =>
      rw [List.mem_cons, not_or]
      refine ⟨?_, ih hb.2 (tick_eq_zero hb.1 hk)⟩
      rintro rfl
      exact absurd hk (Nat.pos_iff_ne_zero.mp hb.1)

/-! ### How often a list of moves takes and gives an object -/

@[simp] theorem count_take_cons_take (j k : K) (ms : List (Move K)) :
    (Move.take j :: ms).count (.take k) =
      ms.count (.take k) + if j = k then 1 else 0 := by
  by_cases hj : j = k
  · rw [hj, List.count_cons_self, if_pos rfl]
  · rw [if_neg hj, List.count_cons_of_ne]
    · rfl
    · intro he
      injection he with he
      exact hj he

@[simp] theorem count_give_cons_give (j k : K) (ms : List (Move K)) :
    (Move.give j :: ms).count (.give k) =
      ms.count (.give k) + if j = k then 1 else 0 := by
  by_cases hj : j = k
  · rw [hj, List.count_cons_self, if_pos rfl]
  · rw [if_neg hj, List.count_cons_of_ne]
    · rfl
    · intro he
      injection he with he
      exact hj he

@[simp] theorem count_give_cons_take (j k : K) (ms : List (Move K)) :
    (Move.take j :: ms).count (.give k) = ms.count (.give k) :=
  List.count_cons_of_ne (by intro he; cases he)

@[simp] theorem count_take_cons_give (j k : K) (ms : List (Move K)) :
    (Move.give j :: ms).count (.take k) = ms.count (.take k) :=
  List.count_cons_of_ne (by intro he; cases he)

theorem tick_count {m : Move K} (hm : 0 < n m.target) (k : K) :
    m.tick n k + [m].count (.give k) = n k + [m].count (.take k) := by
  cases m with
  | take j =>
      rw [count_give_cons_take, count_take_cons_take, List.count_nil,
        List.count_nil]
      by_cases hj : k = j
      · subst hj
        rw [Move.tick, Function.update_self, if_pos rfl]
      · rw [Move.tick, Function.update_of_ne hj, if_neg (Ne.symm hj)]
  | give j =>
      have hm : 0 < n j := hm
      rw [count_give_cons_give, count_take_cons_give, List.count_nil,
        List.count_nil]
      by_cases hj : k = j
      · subst hj
        rw [Move.tick, Function.update_self, if_pos rfl]
        omega
      · rw [Move.tick, Function.update_of_ne hj, if_neg (Ne.symm hj)]

/-- The holders after a list of moves are those before it, and as many more
as it took than gave. -/
theorem after_count {ms : List (Move K)} (hb : Backed n ms) (k : K) :
    after n ms k + ms.count (.give k) = n k + ms.count (.take k) := by
  induction ms generalizing n with
  | nil => rfl
  | cons m ms ih =>
      have hhead := tick_count hb.1 k
      have htail := ih hb.2
      rw [← List.singleton_append, List.count_append, List.count_append]
      show after (m.tick n) ms k + _ = _
      omega

theorem tick_take_pos {j k : K} (hk : 0 < n k) :
    0 < (Move.take j).tick n k := by
  by_cases hj : k = j
  · subst hj
    rw [Move.tick, Function.update_self]
    omega
  · rw [Move.tick, Function.update_of_ne hj]
    exact hk

theorem frees_apply {m : Move K} (hl : (mem m.target).freed = false) (k : K) :
    (if m.frees mem then [m.target] else []).count k +
      (mem k).freed.toNat = (m.apply mem k).freed.toNat := by
  cases m with
  | take j =>
      by_cases hj : k = j
      · subst hj
        rw [Move.apply, Function.update_self]
        show 0 + _ = (mem k).freed.toNat
        omega
      · rw [Move.apply, Function.update_of_ne hj]
        show 0 + _ = _
        omega
  | give j =>
      have hl : (mem j).freed = false := hl
      by_cases hj : k = j
      · subst hj
        rw [Move.apply, Function.update_self]
        show _ = ((mem k).freed || decide ((mem k).count - 1 ≤ 0)).toNat
        rw [hl, Bool.false_or]
        show (if decide ((mem k).count - 1 ≤ 0) then [k] else []).count k + 0 = _
        by_cases hz : (mem k).count - 1 ≤ 0
        · rw [decide_eq_true hz]
          simp
        · rw [decide_eq_false hz]
          simp
      · rw [Move.apply, Function.update_of_ne hj]
        have hnot : (if (Move.give j).frees mem then [j] else []).count k = 0 := by
          split
          · exact List.count_eq_zero_of_not_mem (by simpa using hj)
          · rfl
        show (if (Move.give j).frees mem then [j] else []).count k + _ = _
        omega

/-- How often a list of moves that touches no freed object frees one: once, if
the object is freed at the end and was not before. -/
theorem freedBy_count {ms : List (Move K)} (hl : AllLive mem ms) (k : K) :
    (freedBy mem ms).count k + (mem k).freed.toNat =
      (play mem ms k).freed.toNat := by
  induction ms generalizing mem with
  | nil =>
      show 0 + _ = (mem k).freed.toNat
      omega
  | cons m ms ih =>
      have hhead := frees_apply hl.1 k
      have htail := ih hl.2
      rw [freedBy, List.count_append, play]
      omega

end

end AwsKms.Lib
