import Mathlib.Data.List.TakeWhile
import AwsKms.Lib.Text
import AwsKms.Spec.OpensslConf

/-!
# The rendered configuration names the module

Three replacements, one after the other, are one: a backslash before every
backslash, quote and dollar sign, since the first of them has put in all the
backslashes that the later ones find. libcrypto takes each of these off again,
so the value it reads is the path. The line is the only one that matches, so
it is the only one that changes.
-/

namespace AwsKms.Model

open AwsKms.Lib AwsKms.Spec

/-- The three replacements at once. -/
def escapeValue (value : List Char) : List Char :=
  value.flatMap fun c =>
    if c = '\\' ∨ c = '"' ∨ c = '$' then ['\\', c] else [c]

theorem escapeValue_cons (c : Char) (value : List Char) : escapeValue (c :: value) =
    (if c = '\\' ∨ c = '"' ∨ c = '$' then ['\\', c] else [c]) ++ escapeValue value :=
  List.flatMap_cons

theorem escapeAll_all (value : List Char) :
    escapeAll '$' (escapeAll '"' (escapeAll '\\' value)) = escapeValue value := by
  induction value with
  | nil => rfl
  | cons c value ih =>
      have hstep : escapeAll '$' (escapeAll '"' (escapeAll '\\' (c :: value))) =
          escapeAll '$' (escapeAll '"' (escapeAll '\\' [c])) ++
            escapeAll '$' (escapeAll '"' (escapeAll '\\' value)) := by
        simp [escapeAll]
      rw [hstep, ih, escapeValue_cons]
      congr 1
      by_cases h1 : c = '\\'
      · subst h1
        decide
      · by_cases h2 : c = '"'
        · subst h2
          decide
        · by_cases h3 : c = '$'
          · subst h3
            decide
          · simp [escapeAll, h1, h2, h3]

/-- libcrypto takes off what the loader puts on. -/
theorem quotedText_escapeValue (value rest : List Char) :
    quotedText false (escapeValue value ++ '"' :: rest) = some (value, rest) := by
  induction value with
  | nil => simp [escapeValue, quotedText]
  | cons c value ih =>
      rw [escapeValue_cons]
      by_cases hc : c = '\\' ∨ c = '"' ∨ c = '$'
      · rw [if_pos hc]
        simp [quotedText, ih]
      · rw [if_neg hc]
        rw [not_or, not_or] at hc
        simp [quotedText, hc.1, hc.2.1, ih]

theorem mem_escapeValue {value : List Char} {c : Char} (h : c ∈ escapeValue value) :
    c ∈ value ∨ c = '\\' := by
  obtain ⟨d, hd, hc⟩ := List.mem_flatMap.mp h
  split at hc
  · rcases List.mem_cons.mp hc with rfl | hc
    · exact .inr rfl
    · exact .inl (List.mem_singleton.mp hc ▸ hd)
  · exact .inl (List.mem_singleton.mp hc ▸ hd)

theorem quoteOpenSSLConfigValue_eq (value : List Char) :
    quoteOpenSSLConfigValue value =
      if value.any isControl then .error errUnsafeModulePath
      else .ok ('"' :: (escapeValue value ++ ['"'])) := by
  rw [quoteOpenSSLConfigValue, escapeAll_all]

/-! ## The line

What the pattern has matched is blanks, the name, an equals sign and blanks;
the new line keeps all of that and has the quoted value behind it. libcrypto
cuts at the first equals sign and takes the quotes off. -/

theorem skipText_append (text s : List Char) : skipText text (text ++ s) = some s := by
  simp [skipText]

theorem of_skipText {text s rest : List Char} (h : skipText text s = some rest) :
    s = text ++ rest := by
  rw [skipText] at h
  split at h
  · next hprefix =>
      obtain ⟨u, rfl⟩ := List.isPrefixOf_iff_prefix.mp hprefix
      simpa using h
  · cases h

/-- What the group of the pattern has. -/
def leadText (a b c : List Char) : List Char :=
  a ++ ("module".toList ++ (b ++ ('=' :: c)))

structure Blank (s : List Char) : Prop where
  all : ∀ c ∈ s, isBlank c = true

theorem Blank.drop {s rest : List Char} (h : Blank s) {c : Char}
    (hc : isBlank c = false) :
    (s ++ c :: rest).dropWhile isBlank = c :: rest := by
  rw [List.dropWhile_append_of_pos h.all, List.dropWhile_cons_of_neg (by simp [hc])]

theorem blank_takeWhile (s : List Char) : Blank (s.takeWhile isBlank) :=
  ⟨fun _ hc => List.mem_takeWhile_imp hc⟩

theorem moduleText : "module".toList = 'm' :: "odule".toList := by decide

theorem sourceText :
    "$ENV::AWSKMS_MODULE".toList = '$' :: "ENV::AWSKMS_MODULE".toList := by decide

theorem matchModuleLine_eq {a b c d : List Char} (ha : Blank a) (hb : Blank b)
    (hc : Blank c) (hd : Blank d) :
    matchModuleLine (a ++ ("module".toList ++ (b ++ ('=' ::
      (c ++ ("$ENV::AWSKMS_MODULE".toList ++ d)))))) = some (leadText a b c) := by
  have hm : isBlank 'm' = false := by decide
  have heq : isBlank '=' = false := by decide
  have hdollar : isBlank '$' = false := by decide
  have hname : (a ++ ("module".toList ++ (b ++ ('=' ::
      (c ++ ("$ENV::AWSKMS_MODULE".toList ++ d)))))).dropWhile isBlank =
      "module".toList ++ (b ++ ('=' :: (c ++ ("$ENV::AWSKMS_MODULE".toList ++ d)))) := by
    rw [moduleText, List.cons_append, ha.drop hm]
  have hequals : (b ++ ('=' :: (c ++ ("$ENV::AWSKMS_MODULE".toList ++ d)))).dropWhile
      isBlank = ['='] ++ (c ++ ("$ENV::AWSKMS_MODULE".toList ++ d)) := hb.drop heq
  have hvalue : (c ++ ("$ENV::AWSKMS_MODULE".toList ++ d)).dropWhile isBlank =
      "$ENV::AWSKMS_MODULE".toList ++ d := by
    rw [sourceText, List.cons_append, hc.drop hdollar]
  have htrail : d.all isBlank = true := List.all_eq_true.mpr hd.all
  simp only [matchModuleLine, hname, skipText_append, hequals, hvalue, htrail,
    Option.bind_eq_bind, Option.bind_some, if_true]
  refine congrArg some ?_
  have hsplit : a ++ ("module".toList ++ (b ++ ('=' ::
      (c ++ ("$ENV::AWSKMS_MODULE".toList ++ d))))) =
      leadText a b c ++ ("$ENV::AWSKMS_MODULE".toList ++ d) := by simp [leadText]
  rw [hsplit, List.length_append, Nat.add_sub_cancel, List.take_left]

theorem of_matchModuleLine {line lead : List Char}
    (h : matchModuleLine line = some lead) : ∃ a b c d : List Char,
      Blank a ∧ Blank b ∧ Blank c ∧ Blank d ∧
      line = a ++ ("module".toList ++ (b ++ ('=' ::
        (c ++ ("$ENV::AWSKMS_MODULE".toList ++ d))))) ∧ lead = leadText a b c := by
  have hmatch := h
  simp only [matchModuleLine, Option.bind_eq_bind, Option.bind_eq_some_iff,
    Option.ite_none_right_eq_some] at hmatch
  obtain ⟨name, hname, equals, hequals, trail, htrail, hblank, -⟩ := hmatch
  have hd : Blank trail := ⟨List.all_eq_true.mp hblank⟩
  have hline : line = line.takeWhile isBlank ++ ("module".toList ++
      (name.takeWhile isBlank ++ ('=' :: (equals.takeWhile isBlank ++
        ("$ENV::AWSKMS_MODULE".toList ++ trail))))) := by
    rw [← of_skipText htrail, List.takeWhile_append_dropWhile,
      ← List.singleton_append, ← of_skipText hequals,
      List.takeWhile_append_dropWhile, ← of_skipText hname,
      List.takeWhile_append_dropWhile]
  have hlead := matchModuleLine_eq (blank_takeWhile line) (blank_takeWhile name)
    (blank_takeWhile equals) hd
  rw [← hline, h] at hlead
  exact ⟨_, _, _, _, blank_takeWhile line, blank_takeWhile name,
    blank_takeWhile equals, hd, hline, Option.some.inj hlead⟩

theorem isModuleLine_iff (line : List Char) :
    IsModuleLine line ↔ ∃ lead, matchModuleLine line = some lead := by
  constructor
  · rintro ⟨a, b, c, d, hblank, rfl⟩
    exact ⟨_, matchModuleLine_eq ⟨hblank a (by simp)⟩ ⟨hblank b (by simp)⟩
      ⟨hblank c (by simp)⟩ ⟨hblank d (by simp)⟩⟩
  · rintro ⟨lead, h⟩
    obtain ⟨a, b, c, d, ha, hb, hc, hd, hline, -⟩ := of_matchModuleLine h
    refine ⟨a, b, c, d, ?_, hline⟩
    simp only [List.mem_cons, List.not_mem_nil, or_false]
    rintro s (rfl | rfl | rfl | rfl)
    · exact ha.all
    · exact hb.all
    · exact hc.all
    · exact hd.all

theorem trimBlanks_module {a b : List Char} (ha : Blank a) (hb : Blank b) :
    trimBlanks (a ++ ("module".toList ++ b)) = "module".toList := by
  have hm : isBlank 'm' = false := by decide
  have he : isBlank 'e' = false := by decide
  have hback : (b.reverse ++ 'e' :: "ludom".toList).dropWhile isBlank =
      'e' :: "ludom".toList :=
    Blank.drop ⟨fun c hc => hb.all c (List.mem_reverse.mp hc)⟩ he
  have hrev : "module".toList.reverse = 'e' :: "ludom".toList := by decide
  have hfront : (a ++ ("module".toList ++ b)).dropWhile isBlank =
      "module".toList ++ b := by
    rw [moduleText, List.cons_append, ha.drop hm]
  rw [trimBlanks, hfront, List.reverse_append, hrev, hback]
  decide

theorem noEquals {a b : List Char} (ha : Blank a) (hb : Blank b) :
    '=' ∉ a ++ ("module".toList ++ b) := by
  have hblank : ∀ {s : List Char}, Blank s → '=' ∉ s := fun hs hmem =>
    absurd (hs.all '=' hmem) (by decide)
  have hm : '=' ∉ "module".toList := by decide
  simp only [List.mem_append, not_or]
  exact ⟨hblank ha, hm, hblank hb⟩

/-- The new line assigns the path, for libcrypto. -/
theorem readAssignment_rendered {a b c value : List Char} (ha : Blank a)
    (hb : Blank b) (hc : Blank c) :
    readAssignment (leadText a b c ++ ('"' :: (escapeValue value ++ ['"']))) =
      some ("module".toList, value) := by
  have hquote : isBlank '"' = false := by decide
  have hline : leadText a b c ++ ('"' :: (escapeValue value ++ ['"'])) =
      (a ++ ("module".toList ++ b)) ++ '=' ::
        (c ++ ('"' :: (escapeValue value ++ ['"']))) := by simp [leadText]
  have hno := noEquals ha hb
  have hname := takeWhile_cut (b := c ++ ('"' :: (escapeValue value ++ ['"']))) hno
  have hall : ∀ d ∈ a ++ ("module".toList ++ b), decide (d ≠ '=') = true :=
    fun d hd => by simpa using fun heq : d = '=' => hno (heq ▸ hd)
  have hdrop : ((a ++ ("module".toList ++ b)) ++ '=' ::
      (c ++ ('"' :: (escapeValue value ++ ['"'])))).dropWhile (fun d => d ≠ '=') =
      '=' :: (c ++ ('"' :: (escapeValue value ++ ['"']))) := by
    rw [List.dropWhile_append_of_pos hall]
    simp
  rw [hline, readAssignment, hdrop]
  simp only [hc.drop hquote, quotedValue, if_true, quotedText_escapeValue, hname,
    trimBlanks_module ha hb, List.all_nil, Option.map_some]

theorem noneEnds_of_any {s : List Char} (h : s.any isLineTerminator = false) :
    ∀ c ∈ s, isLineTerminator c = false := by
  simpa using h

theorem moduleLine_ends {line : List Char} (h : IsModuleLine line) :
    ∀ d ∈ line, isLineTerminator d = false := by
  obtain ⟨a, b, c, d, hblank, rfl⟩ := h
  have hb : ∀ s ∈ [a, b, c, d], ∀ e ∈ s, isLineTerminator e = false := by
    intro s hs e he
    have heb := hblank s hs e he
    rw [isBlank, Bool.or_eq_true, decide_eq_true_eq, decide_eq_true_eq] at heb
    rcases heb with rfl | rfl
    · decide
    · decide
  have hm := noneEnds_of_any (show "module".toList.any isLineTerminator = false by decide)
  have hsrc := noneEnds_of_any
    (show "$ENV::AWSKMS_MODULE".toList.any isLineTerminator = false by decide)
  intro e he
  simp only [List.mem_append, List.mem_cons] at he
  rcases he with he | he | he | rfl | he | he | he
  · exact hb a (by simp) e he
  · exact hm e he
  · exact hb b (by simp) e he
  · decide
  · exact hb c (by simp) e he
  · exact hsrc e he
  · exact hb d (by simp) e he

theorem newline_ends : isLineTerminator '\n' = true := by decide

/-- The line as it is rendered. -/
def renderedLine (line path : List Char) : List Char :=
  (matchModuleLine line).getD [] ++ ('"' :: (escapeValue path ++ ['"']))

theorem renderedLine_newline {line path : List Char} (hline : IsModuleLine line)
    (hpath : path.any isControl = false) : '\n' ∉ renderedLine line path := by
  obtain ⟨lead, hlead⟩ := (isModuleLine_iff line).mp hline
  obtain ⟨a, b, c, d, -, -, -, -, htext, rfl⟩ := of_matchModuleLine hlead
  have hlead' : '\n' ∉ leadText a b c := by
    intro hmem
    have hin : '\n' ∈ line := by
      rw [htext]
      simp only [leadText, List.mem_append, List.mem_cons] at hmem ⊢
      grind
    have := moduleLine_ends hline '\n' hin
    rw [newline_ends] at this
    cases this
  have hvalue : '\n' ∉ escapeValue path := by
    intro hmem
    rcases mem_escapeValue hmem with hmem | heq
    · have := List.any_eq_false.mp hpath '\n' hmem
      exact absurd (by decide) this
    · exact absurd heq (by decide)
  rw [renderedLine, hlead]
  simp only [Option.getD_some, List.mem_append, List.mem_cons, List.not_mem_nil,
    or_false, not_or]
  exact ⟨hlead', by decide, hvalue, by decide⟩

/-! ## The lines libcrypto reads

libcrypto reads lines that end in a newline, leaves the carriage returns at
their end out, and joins a line that ends in a backslash with the next. A line
that begins and ends at such an edge can be exchanged for another with the
rest untouched. -/

theorem cutLines_begins (isEnd : Char → Bool) (hend : isEnd '\n' = true)
    {pre : List Char} (h : pre = [] ∨ ∃ t, pre = t ++ ['\n']) :
    ∃ ls, joinLines ls = pre ∧
      ∀ rest, cutLines isEnd (pre ++ rest) = ls ++ cutLines isEnd rest := by
  rcases h with rfl | ⟨t, rfl⟩
  · exact ⟨[], rfl, fun rest => rfl⟩
  · obtain ⟨ls, hjoin, hcut⟩ := cutLines_before t hend
    refine ⟨ls, hjoin, fun rest => ?_⟩
    rw [List.append_assoc]
    exact hcut rest

/-- A line's own text can be exchanged. -/
theorem cutLines_here {isEnd : Char → Bool} {post : List Char}
    (h : post = [] ∨ ∃ c t, post = c :: t ∧ isEnd c = true) :
    ∃ t ls, (∀ x, (∀ d ∈ x, isEnd d = false) →
        cutLines isEnd (x ++ post) = (x, t) :: ls) ∧
      ∀ x, joinLines ((x, t) :: ls) = x ++ post := by
  rcases h with rfl | ⟨c, t, rfl, hc⟩
  · refine ⟨none, [], fun x hx => ?_, fun x => by simp [joinLines]⟩
    rw [List.append_nil, cutLines_last hx]
  · refine ⟨some c, cutLines isEnd t, fun x hx => cutLines_first hx hc, fun x => ?_⟩
    rw [joinLines_cons, joinLines_cutLines]
    simp

theorem head?_dropWhile_append {α : Type} {p : α → Bool} {xs ys : List α} {a : α}
    (h : (xs.dropWhile p).head? = some a) : ((xs ++ ys).dropWhile p).head? = some a := by
  induction xs with
  | nil => cases h
  | cons x xs ih =>
      rw [List.cons_append]
      by_cases hx : p x = true
      · rw [List.dropWhile_cons_of_pos hx] at h ⊢
        exact ih h
      · rw [List.dropWhile_cons_of_neg hx] at h ⊢
        exact h

/-- How a text ends is how its last line does. -/
theorem withoutReturns_suffix {l t : List Char} (h : l <:+ t) {c : Char}
    (hl : (withoutReturns l).getLast? = some c) :
    (withoutReturns t).getLast? = some c := by
  obtain ⟨before, rfl⟩ := h
  simp only [withoutReturns, List.getLast?_reverse, List.reverse_append] at hl ⊢
  exact head?_dropWhile_append hl

/-- What ends with a newline is lines, the last of them the end of the text. -/
theorem cutLines_last_line (t : List Char) : ∃ (ls : List (Line Char)) (l : List Char),
    t = joinLines ls ++ l ∧ ∀ rest, cutLines (· = '\n') (t ++ '\n' :: rest) =
      ls ++ (l, some '\n') :: cutLines (· = '\n') rest := by
  induction t with
  | nil => exact ⟨[], [], rfl, fun rest => by simp [cutLines]⟩
  | cons d t ih =>
      obtain ⟨ls, l, htext, hcut⟩ := ih
      by_cases hd : d = '\n'
      · refine ⟨([], some d) :: ls, l, ?_, fun rest => ?_⟩
        · rw [joinLines_cons, htext]
          simp
        · rw [List.cons_append, cutLines, if_pos (by simpa using hd), hcut, List.cons_append]
      · have hfirst : ∀ rest, cutLines (· = '\n') (d :: t ++ '\n' :: rest) =
            consLine d (ls ++ (l, some '\n') :: cutLines (· = '\n') rest) := by
          intro rest
          rw [List.cons_append, cutLines, if_neg (by simpa using hd), hcut]
        cases ls with
        | nil =>
            obtain rfl : t = l := htext
            exact ⟨[], d :: t, rfl, hfirst⟩
        | cons first more =>
            refine ⟨consLine d (first :: more), l, ?_, hfirst⟩
            rw [joinLines_consLine, htext, List.cons_append]

theorem nil_not_backslash : ([] : List Char).getLast? ≠ some '\\' := by simp

theorem joinContinued_line {held line : List Char} (hheld : held.getLast? ≠ some '\\')
    (hline : (withoutReturns line).getLast? ≠ some '\\') (rest : List (List Char)) :
    joinContinued held (line :: rest) =
      (held ++ withoutReturns line) :: joinContinued [] rest := by
  have hlast : (held ++ withoutReturns line).getLast? ≠ some '\\' := by
    rw [List.getLast?_append]
    cases hw : (withoutReturns line).getLast? with
    | none => exact hheld
    | some c =>
        rw [hw] at hline
        exact hline
  have hgo : goesOn (held ++ withoutReturns line) = false := by
    rw [goesOn, decide_eq_false hlast, Bool.false_and]
  rw [joinContinued]
  simp only [hgo, Bool.false_eq_true, if_false]

/-- Behind a line that does not go on, the lines are what they are. -/
theorem joinContinued_break (before : List (List Char)) {held line : List Char}
    (hheld : held.getLast? ≠ some '\\')
    (hline : (withoutReturns line).getLast? ≠ some '\\') :
    ∃ ls, ∀ rest, joinContinued held (before ++ line :: rest) =
      ls ++ joinContinued [] rest := by
  induction before generalizing held with
  | nil => exact ⟨[_], joinContinued_line hheld hline⟩
  | cons l before ih =>
      cases hgo : goesOn (held ++ withoutReturns l) with
      | true =>
          obtain ⟨-, hdrop⟩ := Bool.and_eq_true_iff.mp hgo
          obtain ⟨ls, hls⟩ := ih (of_decide_eq_true hdrop)
          refine ⟨ls, fun rest => ?_⟩
          rw [List.cons_append, joinContinued]
          simp only [hgo, if_true, hls]
      | false =>
          obtain ⟨ls, hls⟩ := ih nil_not_backslash
          refine ⟨(held ++ withoutReturns l) :: ls, fun rest => ?_⟩
          rw [List.cons_append, joinContinued]
          simp only [hgo, Bool.false_eq_true, if_false, hls, List.cons_append]

/-- The end of a line that libcrypto leaves as it is. -/
structure PlainEnd (x : List Char) : Prop where
  newline : '\n' ∉ x
  last : ∃ c, x.getLast? = some c ∧ c ≠ '\r' ∧ c ≠ '\\'

theorem PlainEnd.withoutReturns {x : List Char} (h : PlainEnd x) : withoutReturns x = x := by
  obtain ⟨c, hc, hreturn, -⟩ := h.last
  rw [← List.head?_reverse] at hc
  obtain ⟨rest, hrest⟩ := List.head?_eq_some_iff.mp hc
  have hkeep : x.reverse.dropWhile (· = '\r') = x.reverse := by
    rw [hrest, List.dropWhile_cons_of_neg (by simpa using hreturn)]
  rw [Spec.withoutReturns, hkeep, List.reverse_reverse]

theorem PlainEnd.not_backslash {x : List Char} (h : PlainEnd x) :
    (Spec.withoutReturns x).getLast? ≠ some '\\' := by
  obtain ⟨c, hc, -, hne⟩ := h.last
  rw [h.withoutReturns, hc]
  exact fun heq => hne (Option.some.inj heq)

/-- A line that stands alone can be exchanged. -/
theorem configLines_here {pre post : List Char} (h : StandsAlone pre post) :
    ∃ ls ms, ∀ x, PlainEnd x → configLines (pre ++ (x ++ post)) = ls ++ x :: ms := by
  have hends : post = [] ∨ ∃ c t, post = c :: t ∧ decide (c = '\n') = true := by
    refine h.ends.imp_right ?_
    rintro ⟨t, rfl⟩
    exact ⟨'\n', t, rfl, by decide⟩
  obtain ⟨e, below, hhere, -⟩ := cutLines_here hends
  have hline : ∀ x, PlainEnd x → joinContinued []
      ((cutLines (· = '\n') (x ++ post)).map Prod.fst) =
        x :: joinContinued [] (below.map Prod.fst) := by
    intro x hx
    have hends : ∀ d ∈ x, decide (d = '\n') = false := fun d hd =>
      decide_eq_false fun heq => hx.newline (heq ▸ hd)
    rw [hhere x hends, List.map_cons, joinContinued_line nil_not_backslash hx.not_backslash,
      hx.withoutReturns, List.nil_append]
  rcases h.begins with rfl | ⟨t, rfl, hplain⟩
  · exact ⟨[], _, hline⟩
  · obtain ⟨above, l, rfl, hcut⟩ := cutLines_last_line t
    have hl : (withoutReturns l).getLast? ≠ some '\\' := fun heq =>
      hplain (withoutReturns_suffix (List.suffix_append ..) heq)
    obtain ⟨ls, hls⟩ := joinContinued_break (above.map Prod.fst) nil_not_backslash hl
    refine ⟨ls, joinContinued [] (below.map Prod.fst), fun x hx => ?_⟩
    have hx := hline x hx
    rw [configLines, List.append_assoc, List.singleton_append, hcut, List.map_append,
      List.map_cons, hls, hx]

/-- Exactly one line takes the module from the environment. -/
structure OneModuleLine (template : List Char) (before : List (Line Char))
    (line : Line Char) (after : List (Line Char)) : Prop where
  cut : cutLines isLineTerminator template = before ++ line :: after
  here : IsModuleLine line.1
  only : ∀ l ∈ before ++ after, ¬ IsModuleLine l.1

theorem not_module_iff (line : List Char) :
    ¬ IsModuleLine line ↔ matchModuleLine line = none := by
  rw [isModuleLine_iff, Option.eq_none_iff_forall_ne_some, not_exists]

/-- One match is one line that matches. -/
theorem oneModuleLine_iff (template : List Char) :
    ((cutLines isLineTerminator template).filterMap
      fun l => matchModuleLine l.1).length = 1 ↔
    ∃ before line after, OneModuleLine template before line after := by
  rw [List.length_eq_one_iff]
  constructor
  · rintro ⟨lead, hlead⟩
    obtain ⟨before, line, after, hcut, hbefore, hline, hafter⟩ :=
      List.filterMap_eq_cons_iff.mp hlead
    rw [List.filterMap_eq_nil_iff] at hafter
    refine ⟨before, line, after, hcut, (isModuleLine_iff _).mpr ⟨lead, hline⟩, ?_⟩
    intro l hl
    rw [not_module_iff]
    exact (List.mem_append.mp hl).elim (hbefore l) (hafter l)
  · rintro ⟨before, line, after, h⟩
    obtain ⟨lead, hlead⟩ := (isModuleLine_iff _).mp h.here
    refine ⟨lead, ?_⟩
    rw [h.cut]
    refine List.filterMap_eq_cons_iff.mpr ⟨before, line, after, rfl, ?_, hlead, ?_⟩
    · exact fun l hl => (not_module_iff _).mp (h.only l (List.mem_append_left _ hl))
    · rw [List.filterMap_eq_nil_iff]
      exact fun l hl => (not_module_iff _).mp (h.only l (List.mem_append_right _ hl))

/-- Lines that do not match are kept. -/
theorem renderLines_plain {module : List Char} {ls : List (Line Char)}
    (h : ∀ l ∈ ls, matchModuleLine l.1 = none) (rest : List (Line Char)) :
    renderLines module (ls ++ rest) =
      match renderLines module rest with
      | .error e => .error e
      | .ok rest' => .ok (ls ++ rest') := by
  induction ls with
  | nil =>
      rw [List.nil_append]
      cases renderLines module rest with
      | error e => rfl
      | ok rest' => rfl
  | cons l ls ih =>
      have hl := h l List.mem_cons_self
      simp only [List.cons_append, renderLines, renderLine, hl,
        ih fun m hm => h m (List.mem_cons_of_mem _ hm)]
      cases renderLines module rest with
      | error e => rfl
      | ok rest' => rfl

/-- What a rendering does, given the line. -/
theorem renderConfig_one {template module lead : List Char} {before after : List (Line Char)}
    {line : Line Char} (h : OneModuleLine template before line after)
    (hlead : matchModuleLine line.1 = some lead) :
    renderConfig template module = if module.any isControl then
      .error errUnsafeModulePath
    else .ok (joinLines (before ++
      (lead ++ ('"' :: (escapeValue module ++ ['"'])), line.2) :: after)) := by
  have hone := (oneModuleLine_iff template).mpr ⟨before, line, after, h⟩
  have hbefore : ∀ l ∈ before, matchModuleLine l.1 = none := fun l hl =>
    (not_module_iff _).mp (h.only l (List.mem_append_left _ hl))
  have hafter : ∀ l ∈ after, matchModuleLine l.1 = none := fun l hl =>
    (not_module_iff _).mp (h.only l (List.mem_append_right _ hl))
  have hrest : renderLines module after = .ok after := by
    simpa [renderLines] using renderLines_plain hafter []
  rw [renderConfig, if_neg (not_not.mpr hone), h.cut, renderLines_plain hbefore]
  simp only [renderLines, renderLine, hlead, quoteOpenSSLConfigValue_eq, hrest]
  cases module.any isControl with
  | true => rfl
  | false => rfl

theorem moduleLine_plainEnd {line : List Char} (hline : IsModuleLine line) :
    PlainEnd line := by
  refine ⟨fun hmem => ?_, ?_⟩
  · have hends := moduleLine_ends hline '\n' hmem
    rw [newline_ends] at hends
    cases hends
  · obtain ⟨a, b, c, d, hblank, rfl⟩ := hline
    have hlast : ∃ e, ('E' :: d).getLast? = some e ∧ e ≠ '\r' ∧ e ≠ '\\' := by
      refine ⟨_, List.getLast?_eq_some_getLast (List.cons_ne_nil _ _), ?_⟩
      have hmem := List.getLast_mem (List.cons_ne_nil 'E' d)
      rcases List.mem_cons.mp hmem with heq | hmem
      · rw [heq]
        decide
      · have hb := hblank d (by simp) _ hmem
        constructor
        · intro heq
          rw [heq] at hb
          revert hb
          decide
        · intro heq
          rw [heq] at hb
          revert hb
          decide
    obtain ⟨e, he, hne⟩ := hlast
    refine ⟨e, ?_, hne⟩
    have hsplit : a ++ ("module".toList ++ (b ++ ('=' ::
        (c ++ ("$ENV::AWSKMS_MODULE".toList ++ d))))) =
        (a ++ ("module".toList ++ (b ++ ('=' :: (c ++ "$ENV::AWSKMS_MODUL".toList))))) ++
          'E' :: d := by
      have hname : "$ENV::AWSKMS_MODULE".toList = "$ENV::AWSKMS_MODUL".toList ++ ['E'] := by
        decide
      rw [hname]
      simp
    rw [hsplit, List.getLast?_append, he]
    rfl

theorem renderedLine_plainEnd {line path : List Char} (hline : IsModuleLine line)
    (hpath : path.any isControl = false) : PlainEnd (renderedLine line path) := by
  refine ⟨renderedLine_newline hline hpath, '"', ?_, by decide, by decide⟩
  rw [renderedLine]
  simp [List.getLast?_append, List.getLast?_cons]

/-- For every template and path: with one module line and a path without
control characters, only that line changes, and libcrypto reads the path from
it; and where the line is one of libcrypto's, it is the one line that changes for
libcrypto. Otherwise rendering throws. -/
theorem renderConfig_spec (template module : List Char) :
    (∀ before line after, OneModuleLine template before line after →
      (∀ c ∈ module, isControl c = false) →
      ∃ line' : List Char,
        renderConfig template module =
          .ok (joinLines (before ++ (line', line.2) :: after)) ∧
        readAssignment line' = some ("module".toList, module) ∧
        (StandsAlone (joinLines before) (line.2.toList ++ joinLines after) →
          ∃ ls ms, configLines template = ls ++ line.1 :: ms ∧
            configLines (joinLines (before ++ (line', line.2) :: after)) =
              ls ++ line' :: ms)) ∧
    (¬ ((∃ before line after, OneModuleLine template before line after) ∧
        ∀ c ∈ module, isControl c = false) →
      ∃ e, renderConfig template module = .error e) := by
  have hcontrol : module.any isControl = false ↔ ∀ c ∈ module, isControl c = false := by
    rw [List.any_eq_false]
    simp
  constructor
  · intro before line after h hmodule
    obtain ⟨lead, hlead⟩ := (isModuleLine_iff _).mp h.here
    obtain ⟨a, b, c, d, ha, hb, hc, -, -, rfl⟩ := of_matchModuleLine hlead
    rw [renderConfig_one h hlead, hcontrol.mpr hmodule]
    refine ⟨_, rfl, readAssignment_rendered ha hb hc, fun halone => ?_⟩
    obtain ⟨ls, ms, hexchange⟩ := configLines_here halone
    have hrendered := renderedLine_plainEnd h.here (hcontrol.mpr hmodule)
    rw [renderedLine, hlead, Option.getD_some] at hrendered
    have htext : ∀ x, joinLines (before ++ (x, line.2) :: after) =
        joinLines before ++ (x ++ (line.2.toList ++ joinLines after)) := by
      intro x
      rw [joinLines_append, joinLines_cons, List.append_assoc]
    refine ⟨ls, ms, ?_, ?_⟩
    · have htemplate : joinLines (before ++ (line.1, line.2) :: after) = template := by
        rw [← joinLines_cutLines template, ← h.cut]
      rw [← htemplate, htext line.1]
      exact hexchange line.1 (moduleLine_plainEnd h.here)
    · rw [htext]
      exact hexchange _ hrendered
  · intro hno
    by_cases hone : ∃ before line after, OneModuleLine template before line after
    · obtain ⟨before, line, after, h⟩ := hone
      obtain ⟨lead, hlead⟩ := (isModuleLine_iff _).mp h.here
      have hany : module.any isControl = true := by
        rw [← Bool.not_eq_false, hcontrol]
        exact fun hall => hno ⟨⟨before, line, after, h⟩, hall⟩
      rw [renderConfig_one h hlead, if_pos hany]
      exact ⟨_, rfl⟩
    · rw [← oneModuleLine_iff] at hone
      rw [renderConfig]
      exact ⟨errBadConfigTemplate, if_pos hone⟩

example : (renderConfig "module = $ENV::AWSKMS_MODULE".toList "/a b$&\\".toList).toOption =
    some "module = \"/a b\\$&\\\\\"".toList := by decide

end AwsKms.Model
