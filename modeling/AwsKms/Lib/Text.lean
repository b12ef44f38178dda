import Mathlib.Data.List.Basic

/-!
# Attribute syntax over bytes

The two things every `name=value` syntax with percent-encoding needs, said
once over plain byte lists: what it means to cut a string at the first
occurrence of a separator, and what it means for one string to be the decoding
of another. Both are relations, so that a parser can be held against them
without a word about how it is written.
-/

namespace AwsKms.Lib

section

variable {α : Type} [DecidableEq α]

/-- A string with a separator in it is what stands before the first one, the
separator, and the rest. -/
theorem cut_mem {sep : α} {s : List α} (hs : sep ∈ s) :
    sep ∉ s.takeWhile (· ≠ sep) ∧
      s = s.takeWhile (· ≠ sep) ++ sep :: (s.dropWhile (· ≠ sep)).drop 1 := by
  induction s with
  | nil => cases hs
  | cons c s ih =>
      by_cases hc : c = sep
      · subst hc
        simp
      · obtain ⟨hno, heq⟩ := ih ((List.mem_cons.mp hs).resolve_left (Ne.symm hc))
        rw [List.takeWhile_cons_of_pos (by simpa using hc),
          List.dropWhile_cons_of_pos (by simpa using hc)]
        refine ⟨fun hmem => ?_, ?_⟩
        · rcases List.mem_cons.mp hmem with rfl | hmem
          · exact hc rfl
          · exact hno hmem
        · rw [List.cons_append, ← heq]

theorem takeWhile_cut {sep : α} {a b : List α} (ha : sep ∉ a) :
    (a ++ sep :: b).takeWhile (· ≠ sep) = a := by
  induction a with
  | nil => simp
  | cons c a ih =>
      have hc : c ≠ sep := fun h => ha (h ▸ List.mem_cons_self)
      rw [List.cons_append, List.takeWhile_cons_of_pos (by simpa using hc),
        ih fun h => ha (List.mem_cons_of_mem _ h)]

theorem dropWhile_cut {sep : α} {a b : List α} (ha : sep ∉ a) :
    ((a ++ sep :: b).dropWhile (· ≠ sep)).drop 1 = b := by
  induction a with
  | nil => simp
  | cons c a ih =>
      have hc : c ≠ sep := fun h => ha (h ▸ List.mem_cons_self)
      rw [List.cons_append, List.dropWhile_cons_of_pos (by simpa using hc),
        ih fun h => ha (List.mem_cons_of_mem _ h)]

/-- A string is cut at its first separator in one way. -/
theorem cut_unique {sep : α} {a a' b b' : List α} (ha : sep ∉ a)
    (ha' : sep ∉ a') (heq : a ++ sep :: b = a' ++ sep :: b') :
    a = a' ∧ b = b' := by
  have htake := takeWhile_cut (b := b) ha
  have hdrop := dropWhile_cut (b := b) ha
  rw [heq, takeWhile_cut ha'] at htake
  rw [heq, dropWhile_cut ha'] at hdrop
  exact ⟨htake.symm, hdrop.symm⟩

end

/-- A hexadecimal digit in either case, and its value. -/
inductive HexDigit : UInt8 → UInt8 → Prop where
  | decimal {c : UInt8} : 48 ≤ c → c ≤ 57 → HexDigit c (c - 48)
  | lower {c : UInt8} : 97 ≤ c → c ≤ 102 → HexDigit c (c - 97 + 10)
  | upper {c : UInt8} : 65 ≤ c → c ≤ 70 → HexDigit c (c - 65 + 10)

/-- The second string is the first with its escapes resolved; an escape never
stands for a NUL. -/
inductive PercentDecodes : List UInt8 → List UInt8 → Prop where
  | nil : PercentDecodes [] []
  | plain {c : UInt8} {s v : List UInt8} : c ≠ 37 → PercentDecodes s v →
      PercentDecodes (c :: s) (c :: v)
  | escape {hi lo a b : UInt8} {s v : List UInt8} : HexDigit hi a →
      HexDigit lo b → a * 16 + b ≠ 0 → PercentDecodes s v →
      PercentDecodes (37 :: hi :: lo :: s) ((a * 16 + b) :: v)

theorem HexDigit.unique {c a b : UInt8} (ha : HexDigit c a)
    (hb : HexDigit c b) : a = b := by
  cases ha <;> cases hb <;> first | rfl | grind

theorem PercentDecodes.unique {s v v' : List UInt8} (hv : PercentDecodes s v)
    (hv' : PercentDecodes s v') : v = v' := by
  induction hv generalizing v' with
  | nil => cases hv'; rfl
  | plain hc _ ih =>
      cases hv' with
      | plain _ hv' => rw [ih hv']
      | escape => exact absurd rfl hc
  | escape ha hb _ _ ih =>
      cases hv' with
      | plain hc _ => exact absurd rfl hc
      | escape ha' hb' _ hv' => rw [ha.unique ha', hb.unique hb', ih hv']

/-- What decodes to a string without NUL has none itself, and the reverse. -/
theorem PercentDecodes.nul {s v : List UInt8} (hv : PercentDecodes s v)
    (hs : 0 ∉ s) : 0 ∉ v := by
  induction hv with
  | nil => exact hs
  | plain _ _ ih =>
      intro hmem
      rcases List.mem_cons.mp hmem with rfl | hmem
      · exact hs List.mem_cons_self
      · exact ih (fun h => hs (List.mem_cons_of_mem _ h)) hmem
  | escape _ _ hne _ ih =>
      intro hmem
      rcases List.mem_cons.mp hmem with hz | hmem
      · exact hne hz.symm
      · exact ih (fun h => hs (by simp [h])) hmem

/-- The upper-case digit of a value. -/
def hexChar (n : UInt8) : UInt8 := if n < 10 then 48 + n else 55 + n

/-- Every byte as an escape. -/
def percentEncode (v : List UInt8) : List UInt8 :=
  v.flatMap fun c => [37, hexChar (c / 16), hexChar (c % 16)]

theorem hexDigit_hexChar {n : UInt8} (hn : n < 16) : HexDigit (hexChar n) n := by
  unfold hexChar
  split
  · have h : HexDigit (48 + n) (48 + n - 48) := .decimal (by grind) (by grind)
    have heq : 48 + n - 48 = n := by grind
    rwa [heq] at h
  · have h : HexDigit (55 + n) (55 + n - 65 + 10) := .upper (by grind) (by grind)
    have heq : 55 + n - 65 + 10 = n := by grind
    rwa [heq] at h

/-- Whatever has no NUL in it can be written in escapes. -/
theorem percentDecodes_encode {v : List UInt8} (hv : 0 ∉ v) :
    PercentDecodes (percentEncode v) v := by
  induction v with
  | nil => exact .nil
  | cons c v ih =>
      have hc : c / 16 * 16 + c % 16 = c := by grind
      have hrest := ih fun h => hv (List.mem_cons_of_mem _ h)
      have h : PercentDecodes (percentEncode (c :: v))
          ((c / 16 * 16 + c % 16) :: v) :=
        .escape (hexDigit_hexChar (by grind)) (hexDigit_hexChar (by grind))
          (by rw [hc]; rintro rfl; exact hv List.mem_cons_self) hrest
      rwa [hc] at h

/-- An encoded string is made of escapes alone. -/
theorem mem_percentEncode {v : List UInt8} {c : UInt8}
    (hc : c ∈ percentEncode v) :
    c = 37 ∨ 48 ≤ c ∧ c ≤ 57 ∨ 65 ≤ c ∧ c ≤ 70 := by
  obtain ⟨d, _, hd⟩ := List.mem_flatMap.mp hc
  simp only [List.mem_cons, List.not_mem_nil, or_false] at hd
  unfold hexChar at hd
  grind

end AwsKms.Lib
