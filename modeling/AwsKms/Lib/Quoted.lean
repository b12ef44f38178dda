import Mathlib.Data.List.Basic

/-!
# Splitting outside quotes

A separator ends an item unless it stands between two equal quotes. The split
is written the way such scanners are, over the item read so far and the quote
that is open. `Closed` is all that is needed of an item: read from outside
quotes it is taken in whole, and leaves the scanner outside quotes. Text with
neither quotes nor separators is closed, so is text between quotes, and so is
what closed texts make one after the other.

What the scanner takes for an item need not be what the text means by one.
`openAfter` is the quote it thinks it is in, and `mem_splitOutside` says of any
text which pieces of it become items.
-/

namespace AwsKms.Lib

/-- A character that is not in the first of two texts is in the second. -/
theorem cut_behind {α : Type} {s t x y : List α} {c : α} (hc : c ∉ s)
    (h : s ++ t = x ++ c :: y) : ∃ z, x = s ++ z ∧ t = z ++ c :: y := by
  rcases List.append_eq_append_iff.mp h with ⟨z, hx, ht⟩ | ⟨z, hs, hy⟩
  · exact ⟨z, hx, ht⟩
  · cases z with
    | nil => exact ⟨[], by simpa using hs.symm, by simpa using hy.symm⟩
    | cons d z =>
        obtain ⟨rfl, -⟩ := List.cons.inj hy
        exact absurd (by simp [hs]) hc

/-- A character that is not in the second of two texts is in the first. -/
theorem cut_before {α : Type} {s t x y : List α} {c : α} (hc : c ∉ t)
    (h : s ++ t = x ++ c :: y) : ∃ z, y = z ++ t ∧ s = x ++ c :: z := by
  rcases List.append_eq_append_iff.mp h with ⟨z, -, ht⟩ | ⟨z, hs, hy⟩
  · exact absurd (by simp [ht]) hc
  · cases z with
    | nil =>
        have ht : t = c :: y := by simpa using hy.symm
        exact absurd (by simp [ht]) hc
    | cons d z =>
        obtain ⟨rfl, rfl⟩ := List.cons.inj hy
        exact ⟨z, rfl, hs⟩

section

variable {α : Type} [DecidableEq α] {sep : α} {isQuote : α → Bool}

def splitOutside (sep : α) (isQuote : α → Bool) (item : List α)
    (quote : Option α) : List α → List (List α)
  | [] => [item]
  | c :: rest =>
      match quote with
      | none =>
          if c = sep then item :: splitOutside sep isQuote [] none rest
          else if isQuote c then
            splitOutside sep isQuote (item ++ [c]) (some c) rest
          else splitOutside sep isQuote (item ++ [c]) none rest
      | some q =>
          if c = q then splitOutside sep isQuote (item ++ [c]) none rest
          else splitOutside sep isQuote (item ++ [c]) (some q) rest

/-- The text is read in whole, from outside quotes to outside quotes. -/
def Closed (sep : α) (isQuote : α → Bool) (s : List α) : Prop :=
  ∀ item rest, splitOutside sep isQuote item none (s ++ rest) =
    splitOutside sep isQuote (item ++ s) none rest

theorem closed_append {s t : List α} (hs : Closed sep isQuote s)
    (ht : Closed sep isQuote t) : Closed sep isQuote (s ++ t) := by
  intro item rest
  rw [List.append_assoc, hs, ht, List.append_assoc]

theorem closed_plain {s : List α} (hsep : sep ∉ s)
    (hquote : ∀ c ∈ s, isQuote c = false) : Closed sep isQuote s := by
  induction s with
  | nil =>
      intro item rest
      rw [List.append_nil, List.nil_append]
  | cons c s ih =>
      intro item rest
      have hc : c ≠ sep := fun h => hsep (h ▸ List.mem_cons_self)
      have hrest := ih (fun h => hsep (List.mem_cons_of_mem _ h))
        fun d hd => hquote d (List.mem_cons_of_mem _ hd)
      rw [List.cons_append, splitOutside]
      simp only [if_neg hc, hquote c List.mem_cons_self]
      rw [if_neg Bool.false_ne_true, hrest, List.append_assoc,
        List.singleton_append]

/-- Inside a quote everything but that quote is text. -/
theorem splitOutside_inside {q : α} {s : List α} (hs : q ∉ s)
    (item rest : List α) :
    splitOutside sep isQuote item (some q) (s ++ q :: rest) =
      splitOutside sep isQuote (item ++ s ++ [q]) none rest := by
  induction s generalizing item with
  | nil => simp [splitOutside]
  | cons c s ih =>
      have hc : c ≠ q := fun h => hs (h ▸ List.mem_cons_self)
      rw [List.cons_append, splitOutside]
      simp only [if_neg hc]
      rw [ih fun h => hs (List.mem_cons_of_mem _ h)]
      simp

theorem closed_quoted {q : α} {s : List α} (hq : isQuote q = true)
    (hne : q ≠ sep) (hs : q ∉ s) :
    Closed sep isQuote (q :: (s ++ [q])) := by
  intro item rest
  rw [List.cons_append, splitOutside]
  simp only [if_neg hne, if_pos hq]
  rw [List.append_assoc, List.singleton_append, splitOutside_inside hs]
  simp

/-- Closed items, joined by the separator, are what the text splits into. -/
theorem splitOutside_intercalate {items : List (List α)}
    (h : ∀ i ∈ items, Closed sep isQuote i) (hne : items ≠ []) :
    splitOutside sep isQuote [] none ([sep].intercalate items) = items := by
  induction items with
  | nil => exact absurd rfl hne
  | cons i items ih =>
      have hi := h i List.mem_cons_self
      cases items with
      | nil =>
          have hsplit := hi [] []
          rw [List.append_nil, List.nil_append] at hsplit
          rw [List.intercalate_singleton, hsplit]
          rfl
      | cons j items =>
          have hrest := ih (fun k hk => h k (List.mem_cons_of_mem _ hk))
            (List.cons_ne_nil _ _)
          rw [List.intercalate_cons_cons, List.append_assoc, hi,
            List.nil_append, List.singleton_append, splitOutside]
          simp only [if_true]
          rw [hrest]

/-- The quote that is open after the text: quotes pair up as they come. -/
def openAfter (isQuote : α → Bool) (quote : Option α) : List α → Option α
  | [] => quote
  | c :: rest =>
      match quote with
      | none => openAfter isQuote (if isQuote c then some c else none) rest
      | some q => openAfter isQuote (if c = q then none else some q) rest

theorem openAfter_append (quote : Option α) (s t : List α) :
    openAfter isQuote quote (s ++ t) =
      openAfter isQuote (openAfter isQuote quote s) t := by
  induction s generalizing quote with
  | nil => rfl
  | cons c s ih =>
      cases quote with
      | none => exact ih _
      | some q => exact ih _

theorem openAfter_plain {quote : Option α} {s : List α}
    (hquote : ∀ q ∈ quote, isQuote q = true)
    (h : ∀ c ∈ s, isQuote c = false) : openAfter isQuote quote s = quote := by
  induction s with
  | nil => rfl
  | cons c s ih =>
      have hc := h c List.mem_cons_self
      have hrest := ih fun d hd => h d (List.mem_cons_of_mem _ hd)
      cases quote with
      | none => simpa only [openAfter, hc, Bool.false_eq_true, if_false] using hrest
      | some q =>
          have hq : c ≠ q := fun heq => by simp [heq, hquote q rfl] at hc
          simpa only [openAfter, if_neg hq] using hrest

theorem openAfter_inside {q : α} {s : List α} (h : q ∉ s) :
    openAfter isQuote (some q) s = some q := by
  induction s with
  | nil => rfl
  | cons c s ih =>
      have hc : c ≠ q := fun heq => h (heq ▸ List.mem_cons_self)
      simp only [openAfter, if_neg hc]
      exact ih fun hmem => h (List.mem_cons_of_mem _ hmem)

theorem openAfter_quoted {q : α} {s : List α} (hq : isQuote q = true)
    (h : q ∉ s) : openAfter isQuote none (q :: (s ++ [q])) = none := by
  simp only [openAfter, hq, if_true, openAfter_append, openAfter_inside h]

/-- Only a quote is ever open. -/
theorem isQuote_openAfter {quote : Option α} {s : List α}
    (hquote : ∀ q ∈ quote, isQuote q = true) :
    ∀ q ∈ openAfter isQuote quote s, isQuote q = true := by
  induction s generalizing quote with
  | nil => exact hquote
  | cons c s ih =>
      cases quote with
      | none =>
          refine ih fun q hq => ?_
          by_cases hc : isQuote c = true
          · simp only [hc, if_true, Option.mem_some_iff] at hq
            exact hq ▸ hc
          · simp [hc] at hq
      | some r =>
          refine ih fun q hq => ?_
          by_cases hc : c = r
          · simp [hc] at hq
          · simp only [if_neg hc] at hq
            exact hquote q hq

/-- The text before an item: nothing, or what a separator ends. -/
def EndsItem (sep : α) (s : List α) : Prop := s = [] ∨ ∃ t, s = t ++ [sep]

/-- What is behind an item is nothing, or a separator outside its quotes. -/
def ItemEnds (sep : α) (quote : Option α) (s : List α) : Prop :=
  s = [] ∨ quote = none ∧ ∃ t, s = sep :: t

theorem splitOutside_past {item s rest : List α} {quote : Option α}
    (hs : sep ∉ s) :
    splitOutside sep isQuote item quote (s ++ rest) =
      splitOutside sep isQuote (item ++ s) (openAfter isQuote quote s) rest := by
  induction s generalizing item quote with
  | nil => simp [openAfter]
  | cons c s ih =>
      have hc : c ≠ sep := fun h => hs (h ▸ List.mem_cons_self)
      have hrest : sep ∉ s := fun h => hs (List.mem_cons_of_mem _ h)
      cases quote with
      | none =>
          by_cases hq : isQuote c = true
          · simp [splitOutside, openAfter, hc, hq, ih hrest]
          · simp [splitOutside, openAfter, hc, hq, ih hrest]
      | some q =>
          by_cases hq : c = q
          · simp [splitOutside, openAfter, hq, ih hrest]
          · simp [splitOutside, openAfter, hq, ih hrest]

/-- Behind a separator that stands outside quotes the scan begins anew. -/
theorem splitOutside_anew (hsep : isQuote sep = false) {s : List α}
    (item rest : List α) {quote : Option α} (hs : openAfter isQuote quote s = none) :
    ∃ items, splitOutside sep isQuote item quote (s ++ sep :: rest) =
      items ++ splitOutside sep isQuote [] none rest := by
  induction s generalizing item quote with
  | nil =>
      rw [openAfter] at hs
      subst hs
      exact ⟨[item], by simp [splitOutside]⟩
  | cons c s ih =>
      cases quote with
      | none =>
          by_cases hc : c = sep
          · subst hc
            simp only [openAfter, hsep, Bool.false_eq_true, if_false] at hs
            obtain ⟨items, h⟩ := ih [] hs
            exact ⟨item :: items, by simp [splitOutside, h]⟩
          · by_cases hq : isQuote c = true
            · simp only [openAfter, hq, if_true] at hs
              obtain ⟨items, h⟩ := ih (item ++ [c]) hs
              exact ⟨items, by simp [splitOutside, hc, hq, h]⟩
            · simp only [openAfter, hq, Bool.false_eq_true, if_false] at hs
              obtain ⟨items, h⟩ := ih (item ++ [c]) hs
              exact ⟨items, by simp [splitOutside, hc, hq, h]⟩
      | some q =>
          by_cases hq : c = q
          · simp only [openAfter, hq, if_true] at hs
            obtain ⟨items, h⟩ := ih (item ++ [c]) hs
            exact ⟨items, by simp [splitOutside, hq, ← h]⟩
          · simp only [openAfter, if_neg hq] at hs
            obtain ⟨items, h⟩ := ih (item ++ [c]) hs
            exact ⟨items, by simp [splitOutside, hq, h]⟩

/-- An item is the rest of the one begun, or one of its own. -/
theorem of_mem_splitOutside (hsep : isQuote sep = false)
    {item p s : List α} {quote : Option α}
    (h : p ∈ splitOutside sep isQuote item quote s) :
    (∃ x b, s = x ++ b ∧ p = item ++ x ∧
      ItemEnds sep (openAfter isQuote quote x) b) ∨
      ∃ a b, s = a ++ sep :: (p ++ b) ∧ openAfter isQuote quote a = none ∧
        ItemEnds sep (openAfter isQuote none p) b := by
  induction s generalizing item quote with
  | nil =>
      rw [splitOutside, List.mem_singleton] at h
      exact .inl ⟨[], [], rfl, by simp [h], .inl rfl⟩
  | cons c s ih =>
      -- one more character, be it of this item or of one before the next
      have hmore : ∀ quote', p ∈ splitOutside sep isQuote (item ++ [c]) quote' s →
          (∀ a, openAfter isQuote quote (c :: a) = openAfter isQuote quote' a) →
          (∃ x b, c :: s = x ++ b ∧ p = item ++ x ∧
            ItemEnds sep (openAfter isQuote quote x) b) ∨
            ∃ a b, c :: s = a ++ sep :: (p ++ b) ∧
              openAfter isQuote quote a = none ∧
              ItemEnds sep (openAfter isQuote none p) b := by
        intro quote' hmem hopen
        rcases ih hmem with ⟨x, b, rfl, rfl, hb⟩ | ⟨a, b, rfl, ha, hb⟩
        · exact .inl ⟨c :: x, b, rfl, by simp, hopen x ▸ hb⟩
        · exact .inr ⟨c :: a, b, rfl, (hopen a).trans ha, hb⟩
      cases quote with
      | none =>
          rw [splitOutside] at h
          by_cases hc : c = sep
          · simp only [hc, if_true, List.mem_cons] at h
            subst hc
            rcases h with rfl | h
            · exact .inl ⟨[], c :: s, rfl, by simp, .inr ⟨rfl, s, rfl⟩⟩
            · rcases ih h with ⟨x, b, rfl, rfl, hb⟩ | ⟨a, b, rfl, ha, hb⟩
              · exact .inr ⟨[], b, by simp, rfl, hb⟩
              · refine .inr ⟨c :: a, b, rfl, ?_, hb⟩
                simpa [openAfter, hsep] using ha
          · by_cases hq : isQuote c = true
            · simp only [if_neg hc, hq, if_true] at h
              exact hmore _ h fun a => by simp [openAfter, hq]
            · simp only [if_neg hc, hq] at h
              exact hmore _ h fun a => by simp [openAfter, hq]
      | some q =>
          rw [splitOutside] at h
          by_cases hq : c = q
          · simp only [hq, if_true] at h
            exact hmore none (hq ▸ h) fun a => by simp [openAfter, hq]
          · simp only [if_neg hq] at h
            exact hmore _ h fun a => by simp [openAfter, hq]

/-- A text with no separator in it is an item just where it stands between
separators, or at an end, and no quote is open on either side. -/
theorem mem_splitOutside (hsep : isQuote sep = false) {p s : List α}
    (hp : sep ∉ p) :
    p ∈ splitOutside sep isQuote [] none s ↔
      ∃ a b, s = a ++ (p ++ b) ∧ EndsItem sep a ∧
        openAfter isQuote none a = none ∧
        ItemEnds sep (openAfter isQuote none p) b := by
  constructor
  · intro h
    rcases of_mem_splitOutside hsep h with ⟨x, b, rfl, rfl, hb⟩ | ⟨a, b, rfl, ha, hb⟩
    · exact ⟨[], b, rfl, .inl rfl, rfl, hb⟩
    · refine ⟨a ++ [sep], b, by simp, .inr ⟨a, rfl⟩, ?_, hb⟩
      rw [openAfter_append, ha]
      simp [openAfter, hsep]
  · rintro ⟨a, b, rfl, ha, hopen, hb⟩
    have hitem : p ∈ splitOutside sep isQuote [] none (p ++ b) := by
      rw [splitOutside_past hp, List.nil_append]
      rcases hb with rfl | ⟨hclosed, t, rfl⟩
      · simp [splitOutside]
      · simp [splitOutside, hclosed]
    rcases ha with rfl | ⟨t, rfl⟩
    · exact hitem
    · have ht : openAfter isQuote none t = none := by
        rw [openAfter_append] at hopen
        cases hq : openAfter isQuote none t with
        | none => rfl
        | some q =>
            rw [hq] at hopen
            have hnone : ∀ r ∈ (none : Option α), isQuote r = true := by simp
            have hquote := isQuote_openAfter hnone q hq
            have hs : sep ≠ q := fun heq => by simp [← heq, hsep] at hquote
            simp [openAfter, hs] at hopen
      obtain ⟨items, h⟩ := splitOutside_anew hsep [] (p ++ b) ht
      rw [List.append_assoc, List.singleton_append, h]
      exact List.mem_append_right _ hitem

end

end AwsKms.Lib
