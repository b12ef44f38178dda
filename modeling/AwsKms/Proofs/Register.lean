import Mathlib.Data.List.TakeWhile
import AwsKms.Lib.Quoted
import AwsKms.Model.Register
import AwsKms.Spec.PropertyQuery

/-!
# Registration is a transaction

The scan is held against the clauses of a query, in any layout the grammar
allows. Two facts carry it: cutting at the commas outside quotes gives the
clauses back, and one clause is judged by its mark, its name and its test. The
one layout the scan misjudges is a blank between the dash and the reserved
name, which it takes for a clause without a name. libcrypto's parser takes that
blank, but no query it prints has it.

What is left is three ends of a registration: refused, undone, or done.
-/

namespace AwsKms.Model

open AwsKms.Lib AwsKms.Spec

theorem nameChar_class {c : UInt8} (h : isNameChar c = true) :
    awskmsIsSpace c = false ∧ isQuote c = false ∧ c ≠ 44 ∧ c ≠ 45 ∧ c ≠ 63 := by
  grind [isNameChar, awskmsIsSpace, isQuote]

theorem space_class {c : UInt8} (h : awskmsIsSpace c = true) :
    isNameChar c = false ∧ isQuote c = false ∧ c ≠ 44 := by
  grind [isNameChar, awskmsIsSpace, isQuote]

theorem valueChar_class {c : UInt8} (h : isValueChar c = true) :
    awskmsIsSpace c = false ∧ isQuote c = false ∧ c ≠ 44 := by
  rw [isValueChar, Bool.or_eq_true, Bool.or_eq_true, decide_eq_true_eq,
    decide_eq_true_eq] at h
  rcases h with (hname | rfl) | rfl
  · obtain ⟨hspace, hquote, hcomma, -⟩ := nameChar_class hname
    exact ⟨hspace, hquote, hcomma⟩
  · decide
  · decide

theorem quote_class {c : UInt8} (h : isQuote c = true) :
    awskmsIsSpace c = false ∧ c ≠ 44 ∧ asciiLower c ≠ 121 := by
  grind [awskmsIsSpace, isQuote, asciiLower]

/-- A text that neither begins nor ends with a blank. -/
structure Trimmed (s : Bytes) : Prop where
  first : ∃ c t, s = c :: t ∧ awskmsIsSpace c = false
  last : ∃ t c, s = t ++ [c] ∧ awskmsIsSpace c = false

theorem dropSpaces_cons {c : UInt8} {s : Bytes} (hc : awskmsIsSpace c = false) :
    dropSpaces (c :: s) = c :: s :=
  List.dropWhile_cons_of_neg (by simp [hc])

theorem dropSpaces_append {b s : Bytes} (hb : ∀ c ∈ b, awskmsIsSpace c = true) :
    dropSpaces (b ++ s) = dropSpaces s := List.dropWhile_append_of_pos hb

theorem Trimmed.of_bare {s : Bytes} (hne : s ≠ [])
    (hs : ∀ c ∈ s, awskmsIsSpace c = false) : Trimmed s where
  first := by
    obtain ⟨c, t, rfl⟩ := List.exists_cons_of_ne_nil hne
    exact ⟨c, t, rfl, hs c List.mem_cons_self⟩
  last := by
    obtain ⟨t, c, rfl⟩ := (List.eq_nil_or_concat' s).resolve_left hne
    exact ⟨t, c, rfl, hs c (by simp)⟩

theorem Trimmed.append {s u : Bytes} (hs : Trimmed s) (m : Bytes)
    (hu : Trimmed u) : Trimmed (s ++ (m ++ u)) where
  first := by
    obtain ⟨c, t, rfl, hc⟩ := hs.first
    exact ⟨c, t ++ (m ++ u), rfl, hc⟩
  last := by
    obtain ⟨t, c, rfl, hc⟩ := hu.last
    exact ⟨s ++ (m ++ t), c, by simp, hc⟩

theorem Trimmed.dropSpaces {s : Bytes} (h : Trimmed s) (t : Bytes) :
    dropSpaces (s ++ t) = s ++ t := by
  obtain ⟨c, u, rfl, hc⟩ := h.first
  exact dropSpaces_cons hc

theorem trimSpaces_of (lead trail : Blanks) {s : Bytes} (h : Trimmed s) :
    trimSpaces (lead.text ++ (s ++ trail.text)) = s := by
  obtain ⟨t, c, rfl, hc⟩ := h.last
  have hback : ∀ d ∈ trail.text.reverse, awskmsIsSpace d = true :=
    fun d hd => trail.blank d (List.mem_reverse.mp hd)
  rw [trimSpaces, dropSpaces_append lead.blank, h.dropSpaces,
    List.reverse_append, dropSpaces_append hback, List.reverse_append,
    List.reverse_singleton, List.singleton_append, dropSpaces_cons hc]
  simp

/-! ## A clause

What the scan makes of one clause is settled by the name and by what stands
behind it. Blanks may stand in every place the grammar has for them, and in
all of these but one the scan skips them. -/

theorem name_trimmed (n : PropertyName) : Trimmed n.text :=
  .of_bare n.named fun c hc => (nameChar_class (n.chars c hc)).1

theorem value_trimmed (v : PropertyValue) : Trimmed v.text := by
  cases v with
  | unquoted text given chars =>
      exact .of_bare given fun c hc => (valueChar_class (chars c hc)).1
  | quoted quote text hquote _ =>
      have hq := (quote_class hquote).1
      exact ⟨⟨quote, text ++ [quote], rfl, hq⟩, ⟨quote :: text, quote, rfl, hq⟩⟩

theorem op_trimmed (op : PropertyOp) : Trimmed op.text := by
  cases op with
  | eq => exact .of_bare (List.cons_ne_nil _ _) (by simp [PropertyOp.text, awskmsIsSpace])
  | ne => exact .of_bare (List.cons_ne_nil _ _) (by simp [PropertyOp.text, awskmsIsSpace])

theorem op_text (op : PropertyOp) :
    ∃ d u, op.text = d :: u ∧ isNameChar d = false := by
  cases op with
  | eq => exact ⟨61, [], rfl, by decide⟩
  | ne => exact ⟨33, [61], rfl, by decide⟩

theorem clauseText_eq (c : Clause) : c.text = c.lead.text ++
    ((c.mark.text ++ (c.name.text ++ c.tail)) ++ c.trail.text) := by
  obtain ⟨lead, mark, name, gap, test⟩ := c
  cases test with
  | none => simp [Clause.text, Clause.tail, Clause.trail]
  | some t => simp [Clause.text, Clause.tail, Clause.trail, PropertyTest.text]

/-- What may stand behind a name, less the blanks at the end: nothing, or a
text that ends the name and does not end in a blank. -/
structure Tail (t : Bytes) : Prop where
  ends_name : t = [] ∨ ∃ d u, t = d :: u ∧ isNameChar d = false
  trimmed : t = [] ∨ ∃ u d, t = u ++ [d] ∧ awskmsIsSpace d = false

theorem tail_nil : Tail [] := ⟨.inl rfl, .inl rfl⟩

theorem tail_test (gap : Blanks) (op : PropertyOp) (vgap : Blanks) {v : Bytes}
    (hv : Trimmed v) : Tail (gap.text ++ (op.text ++ (vgap.text ++ v))) where
  ends_name := by
    refine .inr ?_
    cases hgap : gap.text with
    | nil =>
        obtain ⟨d, u, hop, hd⟩ := op_text op
        exact ⟨d, u ++ (vgap.text ++ v), by simp [hop], hd⟩
    | cons d rest =>
        have hd := gap.blank d (by simp [hgap])
        exact ⟨d, _, rfl, (space_class hd).1⟩
  trimmed := by
    obtain ⟨u, d, rfl, hd⟩ := hv.last
    exact .inr ⟨gap.text ++ (op.text ++ (vgap.text ++ u)), d, by simp, hd⟩

theorem body_trimmed (name : PropertyName) {t : Bytes} (ht : Tail t) :
    Trimmed (name.text ++ t) := by
  have hname := name_trimmed name
  rcases ht.trimmed with rfl | ⟨u, d, rfl, hd⟩
  · rw [List.append_nil]
    exact hname
  · exact hname.append u (.of_bare (List.cons_ne_nil _ _) (by simpa using hd))

theorem core_trimmed (mark : ClauseMark) (name : PropertyName) {t : Bytes}
    (ht : Tail t) : Trimmed (mark.text ++ (name.text ++ t)) := by
  have hbody := body_trimmed name ht
  have hmark : ∀ d : UInt8, awskmsIsSpace d = false → ∀ gap : Bytes,
      Trimmed ((d :: gap) ++ (name.text ++ t)) := by
    intro d hd gap
    have hone : Trimmed [d] := .of_bare (List.cons_ne_nil _ _) (by simpa using hd)
    exact hone.append gap hbody
  cases mark with
  | required => exact hbody
  | optional gap => exact hmark 63 (by decide) gap.text
  | override gap => exact hmark 45 (by decide) gap.text

/-- The name ends where it ends. -/
theorem name_cut (name : PropertyName) {t : Bytes} (ht : Tail t) :
    (name.text ++ t).takeWhile isNameChar = name.text ∧
      (name.text ++ t).dropWhile isNameChar = t := by
  rw [List.takeWhile_append_of_pos name.chars,
    List.dropWhile_append_of_pos name.chars]
  rcases ht.ends_name with rfl | ⟨d, u, rfl, hd⟩
  · simp
  · simp [hd]

/-- A body begins with its name, so with neither mark. -/
theorem body_head (name : PropertyName) (t : Bytes) :
    ∃ d u, name.text ++ t = d :: u ∧ d ≠ 63 ∧ d ≠ 45 := by
  obtain ⟨n, u, hn⟩ := List.exists_cons_of_ne_nil name.named
  have hclass := nameChar_class (name.chars n (by simp [hn]))
  exact ⟨n, u ++ t, by simp [hn], hclass.2.2.2.2, hclass.2.2.2.1⟩

theorem clause_tail (c : Clause) : Tail c.tail := by
  unfold Clause.tail
  cases c.test with
  | none => exact tail_nil
  | some t => exact tail_test c.gap t.op t.gap (value_trimmed t.value)

/-- The clause takes the property back, with a blank behind the dash. -/
def overlooked (c : Clause) (property : Bytes) : Bool :=
  c.uses property &&
    match c.mark with
    | .override gap => gap.text ≠ []
    | _ => false

/-- An unquoted `yes` is told from every other value. -/
theorem isYes_value (v : PropertyValue) : isYes v.text =
    match v with
    | .unquoted text _ _ => awskmsAsciiEqual text (ascii "yes")
    | .quoted _ _ _ _ => false := by
  cases v with
  | unquoted text given chars =>
      have hall : ∀ c ∈ text, (!awskmsIsSpace c) = true := by
        intro c hc
        simp [(valueChar_class (chars c hc)).1]
      have htake := List.takeWhile_eq_self_iff.mpr hall
      have hdrop := List.dropWhile_eq_nil_iff.mpr hall
      simp only [isYes, PropertyValue.text, htake, hdrop]
      rfl
  | quoted quote text hquote _ =>
      obtain ⟨hspace, -, hy⟩ := quote_class hquote
      have htake : (quote :: (text ++ [quote])).takeWhile
          (fun c => !awskmsIsSpace c) =
          quote :: (text ++ [quote]).takeWhile fun c => !awskmsIsSpace c :=
        List.takeWhile_cons_of_pos (by simp [hspace])
      have hne : awskmsAsciiEqual
          (quote :: (text ++ [quote]).takeWhile fun c => !awskmsIsSpace c)
          (ascii "yes") = false := by
        rw [awskmsAsciiEqual, beq_eq_false_iff_ne, List.map_cons]
        intro heq
        injection heq with hfirst _
        exact hy (hfirst.trans (by decide))
      simp only [isYes, PropertyValue.text, htake, hne, Bool.and_false]

theorem markerTest_tail (c : Clause) (optional : Bool) :
    markerTest optional c.tail =
      if optional &&
        (match c.test with
          | some ⟨.ne, _, .unquoted value _ _, _⟩ =>
              awskmsAsciiEqual value (ascii "yes")
          | _ => false) then .guard
      else .conflict := by
  unfold Clause.tail
  cases c.test with
  | none =>
      simp only [Bool.and_false, Bool.false_eq_true, if_false]
      rfl
  | some t =>
      obtain ⟨op, gap, value, trail⟩ := t
      have hrest := (op_trimmed op).dropSpaces (gap.text ++ value.text)
      have hyes := (value_trimmed value).dropSpaces []
      rw [List.append_nil] at hyes
      simp only [markerTest, dropSpaces_append c.gap.blank, hrest]
      cases op with
      | eq =>
          simp only [PropertyOp.text, Bool.and_false, Bool.false_eq_true, if_false]
          cases gap.text ++ value.text with
          | nil => rfl
          | cons d rest => simp
      | ne =>
          simp only [PropertyOp.text, List.cons_append, List.nil_append,
            dropSpaces_append gap.blank, hyes, isYes_value]
          cases value with
          | unquoted text given chars => simp
          | quoted quote text hquote houtside => simp

/-- What the scan makes of one clause. -/
def markerOf (c : Clause) : MarkerState :=
  if c.uses (ascii awskms_KEYOBJECT_PROPERTY) then
    if c.prefersWithout (ascii awskms_KEYOBJECT_PROPERTY) then .guard
    else if overlooked c (ascii awskms_KEYOBJECT_PROPERTY) then .absent
    else .conflict
  else .absent

/-- From the name on, whatever stood before it. -/
theorem markerBody (c : Clause) (optional : Bool) :
    (if awskmsAsciiEqual ((c.name.text ++ c.tail).takeWhile isNameChar)
        (ascii awskms_KEYOBJECT_PROPERTY) then
      markerTest optional ((c.name.text ++ c.tail).dropWhile isNameChar)
    else .absent) =
    if c.uses (ascii awskms_KEYOBJECT_PROPERTY) then
      markerTest optional c.tail
    else .absent := by
  have hcut := name_cut c.name (clause_tail c)
  rw [hcut.1, hcut.2]
  rfl

theorem awskmsMarkerClause_text (c : Clause) :
    awskmsMarkerClause c.text = markerOf c := by
  have hbody := markerBody c
  have htail := clause_tail c
  have hspaces := (body_trimmed c.name htail).dropSpaces []
  obtain ⟨d, t, hd, hname⟩ := body_head c.name c.tail
  have h63 : (some d == some (63 : UInt8)) = false := by simp [hname.1]
  have h45 : (some d == some (45 : UInt8)) = false := by simp [hname.2]
  have htrim : trimSpaces c.text = c.mark.text ++ (d :: t) := by
    rw [clauseText_eq, trimSpaces_of c.lead c.trail (core_trimmed c.mark c.name htail),
      hd]
  rw [List.append_nil] at hspaces
  rw [hd] at hbody hspaces
  simp only [awskmsMarkerClause, htrim]
  unfold markerOf Clause.prefersWithout overlooked
  cases c.mark with
  | required =>
      simp only [ClauseMark.text, List.nil_append, List.head?_cons, h63, h45,
        Bool.false_eq_true, if_false, hbody, markerTest_tail, Bool.false_and,
        Bool.and_false]
  | optional gap =>
      have hdrop : dropSpaces (gap.text ++ d :: t) = d :: t := by
        rw [dropSpaces_append gap.blank, hspaces]
      simp only [ClauseMark.text, List.cons_append, List.head?_cons, beq_self_eq_true,
        if_true, List.tail_cons, hdrop, h45, Bool.false_eq_true, if_false, hbody,
        markerTest_tail, Bool.true_and, Bool.and_false]
      split
      · next huses =>
          rw [huses, Bool.true_and]
          rcases c.test with _ | ⟨op, tgap, value, trail⟩
          · rfl
          · cases op with
            | eq => rfl
            | ne =>
                cases value with
                | unquoted text given chars => rfl
                | quoted quote text hquote houtside => rfl
      · rfl
  | override gap =>
      have hdash : (some (45 : UInt8) == some 63) = false := by decide
      simp only [ClauseMark.text, List.cons_append, List.head?_cons, hdash,
        beq_self_eq_true, if_true, List.tail_cons, Bool.false_eq_true, if_false,
        Bool.and_false]
      rcases gap with ⟨gap, hgap⟩
      cases gap with
      | nil =>
          simp only [List.nil_append, hbody, markerTest_tail, Bool.false_and,
            Bool.false_eq_true, if_false, ne_eq, not_true_eq_false,
            decide_false, Bool.and_false]
      | cons e gap =>
          have he := (space_class (hgap e List.mem_cons_self)).1
          have hempty : awskmsAsciiEqual []
              (ascii awskms_KEYOBJECT_PROPERTY) = false := by decide
          simp only [List.cons_append, List.takeWhile_cons_of_neg
            (Bool.not_eq_true _ ▸ he), hempty, Bool.false_eq_true, if_false]
          split
          · next huses => simp [huses]
          · rfl

/-- What the scan makes of the clauses of a query, one after the other. -/
def markAll (found : MarkerState) : List MarkerState → MarkerState
  | [] => found
  | current :: rest =>
      match noteMarker found current with
      | none => .conflict
      | some found => markAll found rest

theorem scanMarker_eq (found : MarkerState) (clause : Bytes)
    (quote : Option UInt8) (s : Bytes) :
    scanMarker clause quote found s = markAll found
      ((splitOutside 44 isQuote clause quote s).map awskmsMarkerClause) := by
  induction s generalizing found clause quote with
  | nil =>
      rw [scanMarker, splitOutside, List.map_singleton, markAll]
      cases noteMarker found (awskmsMarkerClause clause) with
      | none => rfl
      | some found => rfl
  | cons c s ih =>
      cases quote with
      | none =>
          rw [scanMarker, splitOutside]
          split
          · rw [List.map_cons, markAll]
            cases noteMarker found (awskmsMarkerClause clause) with
            | none => rfl
            | some found => exact ih found [] none
          · split
            · exact ih _ _ _
            · exact ih _ _ _
      | some q =>
          rw [scanMarker, splitOutside]
          split
          · exact ih _ _ _
          · exact ih _ _ _

theorem closed_bare {s : Bytes}
    (h : ∀ c ∈ s, isQuote c = false ∧ c ≠ 44) : Closed 44 isQuote s :=
  closed_plain (fun hmem => (h 44 hmem).2 rfl) fun c hc => (h c hc).1

theorem closed_blanks (b : Blanks) : Closed 44 isQuote b.text :=
  closed_bare fun c hc => (space_class (b.blank c hc)).2

theorem clauseText_closed (c : Clause) : Closed 44 isQuote c.text := by
  have hmark : Closed 44 isQuote c.mark.text := by
    cases c.mark with
    | required => exact closed_bare (by simp [ClauseMark.text])
    | optional gap =>
        exact closed_append (s := [63]) (closed_bare (by simp [isQuote])) (closed_blanks gap)
    | override gap =>
        exact closed_append (s := [45]) (closed_bare (by simp [isQuote])) (closed_blanks gap)
  have hname : Closed 44 isQuote c.name.text :=
    closed_bare fun d hd => by
      have hclass := nameChar_class (c.name.chars d hd)
      exact ⟨hclass.2.1, hclass.2.2.1⟩
  have htest : Closed 44 isQuote ((c.test.map PropertyTest.text).getD []) := by
    rcases c.test with _ | ⟨op, gap, value, trail⟩
    · exact closed_bare (by simp)
    · have hop : Closed 44 isQuote op.text := by
        cases op with
        | eq => exact closed_bare (by simp [PropertyOp.text, isQuote])
        | ne => exact closed_bare (by simp [PropertyOp.text, isQuote])
      have hvalue : Closed 44 isQuote value.text := by
        cases value with
        | unquoted text given chars =>
            exact closed_bare fun d hd => (valueChar_class (chars d hd)).2
        | quoted quote text hquote houtside =>
            exact closed_quoted hquote (quote_class hquote).2.1 houtside
      exact closed_append hop (closed_append (closed_blanks gap)
        (closed_append hvalue (closed_blanks trail)))
  exact closed_append (closed_blanks c.lead) (closed_append hmark
    (closed_append hname (closed_append (closed_blanks c.gap) htest)))

theorem awskmsMarkerState_text (cs : List Clause) :
    awskmsMarkerState (queryText cs) = markAll .absent (cs.map markerOf) := by
  rw [awskmsMarkerState, scanMarker_eq]
  cases cs with
  | nil => decide
  | cons c cs =>
      rw [queryText, splitOutside_intercalate, List.map_map]
      · refine congrArg (markAll .absent) (List.map_congr_left fun c _ => ?_)
        exact awskmsMarkerClause_text c
      · intro i hi
        obtain ⟨c, -, rfl⟩ := List.mem_map.mp hi
        exact clauseText_closed c
      · simp

/-- How many guards a scan has found when it has found this. -/
def MarkerState.guards : MarkerState → Nat
  | .guard => 1
  | _ => 0

theorem markAll_eq {found : MarkerState} (hf : found ≠ .conflict)
    (ms : List MarkerState) : markAll found ms =
      if .conflict ∈ ms ∨ 2 ≤ ms.count .guard + found.guards then .conflict
      else if ms.count .guard + found.guards = 1 then .guard else .absent := by
  induction ms generalizing found with
  | nil =>
      cases found with
      | absent => rfl
      | guard => rfl
      | conflict => exact absurd rfl hf
  | cons m ms ih =>
      cases m with
      | conflict => simp [markAll, noteMarker]
      | absent =>
          rw [markAll]
          simp only [noteMarker]
          rw [ih hf]
          simp
      | guard =>
          cases found with
          | conflict => exact absurd rfl hf
          | guard => simp [markAll, noteMarker, MarkerState.guards]
          | absent =>
              rw [markAll]
              simp only [noteMarker, reduceCtorEq, if_false]
              rw [ih (by simp)]
              simp [MarkerState.guards]

/-! ## Uses of the reserved property

The guard is one clause, `?keyobject.aws_kms!=yes`. Any other clause with that
name is a misuse, and so is a second guard beside it. -/

/-- The clause uses the reserved property. -/
def reserved (c : Clause) : Bool := c.uses (ascii awskms_KEYOBJECT_PROPERTY)

/-- The clause is the guard. -/
def isGuard (c : Clause) : Bool :=
  c.prefersWithout (ascii awskms_KEYOBJECT_PROPERTY)

/-- A dash, at least one blank, and the reserved property. -/
def dashed (c : Clause) : Bool := overlooked c (ascii awskms_KEYOBJECT_PROPERTY)

/-- The query uses the reserved property in another way than as the guard, or
more than once. -/
def Misuses (cs : List Clause) : Prop :=
  (∃ c ∈ cs, reserved c = true ∧ isGuard c = false) ∨ 2 ≤ cs.countP isGuard

instance (cs : List Clause) : Decidable (Misuses cs) :=
  inferInstanceAs (Decidable ((∃ c ∈ cs, reserved c = true ∧ isGuard c = false) ∨
    2 ≤ cs.countP isGuard))

theorem isGuard_reserved {c : Clause} (h : isGuard c = true) :
    reserved c = true := by
  unfold isGuard Clause.prefersWithout at h
  exact (Bool.and_eq_true _ _ ▸ h).1

theorem isGuard_not_dashed {c : Clause} (h : isGuard c = true) :
    dashed c = false := by
  unfold isGuard Clause.prefersWithout at h
  unfold dashed overlooked
  cases hm : c.mark with
  | required => simp
  | optional gap => simp
  | override gap =>
      rw [hm] at h
      simp at h

theorem dashed_reserved {c : Clause} (h : dashed c = true) :
    reserved c = true ∧ isGuard c = false := by
  refine ⟨?_, ?_⟩
  · unfold dashed overlooked at h
    exact (Bool.and_eq_true _ _ ▸ h).1
  · by_contra hg
    rw [Bool.not_eq_false] at hg
    rw [isGuard_not_dashed hg] at h
    cases h

theorem markerOf_guard {c : Clause} : markerOf c = .guard ↔ isGuard c = true := by
  unfold markerOf
  split
  · next huses =>
      split
      · next hg => simp [isGuard, hg]
      · next hg =>
          split
          · simp [isGuard, hg]
          · simp [isGuard, hg]
  · next huses =>
      refine ⟨fun h => ?_, fun h => absurd (isGuard_reserved h) huses⟩
      cases h

theorem markerOf_conflict {c : Clause} : markerOf c = .conflict ↔
    reserved c = true ∧ isGuard c = false ∧ dashed c = false := by
  unfold markerOf reserved isGuard dashed
  split
  · next huses =>
      split
      · next hg => simp [hg]
      · next hg =>
          split
          · next hd => simp [hd]
          · next hd => simp [huses, hg, hd]
  · next huses => simp [huses]

/-- What the scan does not overlook of a query. -/
def seen (cs : List Clause) : List Clause := cs.filter fun c => !dashed c

theorem countP_seen (cs : List Clause) :
    (seen cs).countP isGuard = cs.countP isGuard := by
  rw [seen, List.countP_filter]
  refine List.countP_congr fun c _ => ?_
  by_cases h : isGuard c = true
  · simp [h, isGuard_not_dashed h]
  · simp [h]

/-- The scan decides the clauses it sees. -/
theorem awskmsMarkerState_eq (cs : List Clause) :
    awskmsMarkerState (queryText cs) =
      if Misuses (seen cs) then .conflict
      else if cs.countP isGuard = 1 then .guard else .absent := by
  have hcount : (cs.map markerOf).count .guard = cs.countP isGuard := by
    rw [List.count, List.countP_map]
    refine List.countP_congr fun c _ => ?_
    simp [markerOf_guard]
  have hconflict : .conflict ∈ cs.map markerOf ↔
      ∃ c ∈ seen cs, reserved c = true ∧ isGuard c = false := by
    rw [List.mem_map]
    refine exists_congr fun c => ?_
    rw [markerOf_conflict, seen, List.mem_filter]
    simp only [Bool.not_eq_true']
    tauto
  rw [awskmsMarkerState_text, markAll_eq (by simp)]
  simp only [MarkerState.guards, Nat.add_zero, hcount, Misuses, countP_seen,
    hconflict]

/-- The clause registration adds. -/
def guardClause : Clause where
  lead := ⟨[], by simp⟩
  mark := .optional ⟨[], by simp⟩
  name := ⟨ascii awskms_KEYOBJECT_PROPERTY, by decide,
    List.all_eq_true.mp (by decide)⟩
  gap := ⟨[], by simp⟩
  test := some ⟨.ne, ⟨[], by simp⟩, .unquoted (ascii "yes") (by decide)
    (List.all_eq_true.mp (by decide)),
    ⟨[], by simp⟩⟩

theorem guardClause_text : guardClause.text = ascii awskms_DEFAULT_PROPQ := by
  decide

theorem guardClause_isGuard : isGuard guardClause = true := by decide

/-- The query with the guard in it. -/
def withGuard (cs : List Clause) : List Clause :=
  if cs.any isGuard then cs else cs ++ [guardClause]

theorem queryText_ne_nil {c : Clause} {cs : List Clause} :
    queryText (c :: cs) ≠ [] := by
  obtain ⟨d, t, hd, -⟩ := (core_trimmed c.mark c.name (clause_tail c)).first
  have hc : c.text ≠ [] := by
    rw [clauseText_eq, hd]
    simp
  rw [queryText, List.map_cons]
  cases cs with
  | nil => simpa using hc
  | cons d cs =>
      rw [List.map_cons, List.intercalate_cons_cons]
      simp

theorem queryText_append {cs : List Clause} {d : Clause} :
    queryText (cs ++ [d]) =
      queryText cs ++ (if queryText cs = [] then [] else [44]) ++ d.text := by
  induction cs with
  | nil => simp [queryText]
  | cons c cs ih =>
      rw [if_neg queryText_ne_nil]
      cases cs with
      | nil => simp [queryText]
      | cons e cs =>
          rw [if_neg queryText_ne_nil] at ih
          simp only [queryText, List.cons_append, List.map_cons,
            List.intercalate_cons_cons] at ih ⊢
          rw [ih]
          simp

/-- The merged text has a length. -/
def Fits (q : Bytes) : Prop :=
  q.length + (ascii awskms_DEFAULT_PROPQ).length + 2 ≤ sizeMax

instance (q : Bytes) : Decidable (Fits q) :=
  inferInstanceAs (Decidable (_ ≤ _))

/-- The guard is appended, unless the text would be longer than a `size_t`
can say or the allocation fails. -/
theorem append_eq (malloc : Bool) (cs : List Clause) :
    awskmsAppendDefaultProperty malloc (queryText cs) =
      if malloc = true ∧ Fits (queryText cs) then
        some (queryText (cs ++ [guardClause]))
      else none := by
  have hfits : Fits (queryText cs) ↔ ¬ (queryText cs).length >
      sizeMax - (ascii awskms_DEFAULT_PROPQ).length -
        (if queryText cs = [] then [] else [44] : Bytes).length - 1 := by
    have hlen : (ascii awskms_DEFAULT_PROPQ).length = 23 := by decide
    unfold Fits sizeMax
    rw [hlen]
    by_cases hq : queryText cs = []
    · simp [hq]
    · rw [if_neg hq, List.length_singleton]
      omega
  rw [queryText_append, guardClause_text]
  unfold awskmsAppendDefaultProperty
  by_cases hroom : Fits (queryText cs)
  · simp only [if_neg (hfits.mp hroom), hroom, and_true]
  · have hlong := Decidable.of_not_not (mt hfits.mpr hroom)
    simp only [if_pos hlong, hroom, and_false, if_false]

theorem append_some {malloc : Bool} {cs : List Clause} {merged : Bytes}
    (h : awskmsAppendDefaultProperty malloc (queryText cs) = some merged) :
    Fits (queryText cs) ∧ merged = queryText (cs ++ [guardClause]) := by
  rw [append_eq] at h
  split at h
  · next hfits => exact ⟨hfits.2, (Option.some.inj h).symm⟩
  · cases h

/-- The guard is found where it was put. -/
theorem marker_append {malloc : Bool} {cs : List Clause} {merged : Bytes}
    (habsent : awskmsMarkerState (queryText cs) = .absent)
    (h : awskmsAppendDefaultProperty malloc (queryText cs) = some merged) :
    awskmsMarkerState merged = .guard := by
  rw [awskmsMarkerState_eq] at habsent
  split at habsent
  · cases habsent
  next hgood =>
    split at habsent
    · cases habsent
    next hone =>
      have hnone : cs.countP isGuard = 0 := by
        unfold Misuses at hgood
        rw [countP_seen] at hgood
        omega
      have hcount : (cs ++ [guardClause]).countP isGuard = 1 := by
        rw [List.countP_append, hnone]
        rfl
      have hseen : ¬ Misuses (seen (cs ++ [guardClause])) := by
        rintro (⟨c, hc, hres, hg⟩ | htwo)
        · rw [seen, List.filter_append, List.mem_append] at hc
          rcases hc with hc | hc
          · exact hgood (.inl ⟨c, hc, hres, hg⟩)
          · obtain rfl := List.mem_singleton.mp (List.mem_of_mem_filter hc)
            rw [guardClause_isGuard] at hg
            cases hg
        · rw [countP_seen, hcount] at htwo
          omega
      rw [(append_some h).2, awskmsMarkerState_eq, if_neg hseen, if_pos hcount]

/-! ## The transaction

A registration looks at the query, sets the merged one, and loads the
provider; where the load fails it sets the old query again. So it ends in one
of three ways: nothing was touched, all was undone, or query and provider are
both in force. -/

/-- What activation leaves, restoring a query being assumed to work. -/
theorem awskmsActivate_cases {o : RegisterHost} (ho : o.restore = true)
    (existing : Bytes) (merged : Option Bytes) :
    ((awskmsActivate o existing merged).succeeded = false ∧
      (awskmsActivate o existing merged).defaultProperties = existing) ∨
    ((awskmsActivate o existing merged).succeeded = true ∧
      (awskmsActivate o existing merged).defaultProperties =
        merged.getD existing) := by
  unfold awskmsActivate
  split
  · exact .inl ⟨rfl, rfl⟩
  · split
    · exact .inl ⟨rfl, rfl⟩
    · split
      · rw [ho, Bool.not_true, Bool.and_false, if_neg Bool.false_ne_true]
        exact .inl ⟨rfl, rfl⟩
      · exact .inr ⟨rfl, rfl⟩

/-- The ways a registration ends. -/
theorem awskmsRegister_cases {o : RegisterHost} (ho : o.restore = true)
    (cs : List Clause) :
    ((awskmsRegister o (queryText cs)).succeeded = false ∧
      (awskmsRegister o (queryText cs)).defaultProperties = queryText cs) ∨
    (¬ Misuses (seen cs) ∧
      (awskmsRegister o (queryText cs)).succeeded = true ∧
      (awskmsRegister o (queryText cs)).defaultProperties =
        queryText (withGuard cs) ∧
      (withGuard cs).countP isGuard = 1 ∧
      (cs.countP isGuard = 0 → Fits (queryText cs))) := by
  unfold awskmsRegister
  split
  · exact .inl ⟨rfl, rfl⟩
  split
  · exact .inl ⟨rfl, rfl⟩
  cases hm : awskmsMarkerState (queryText cs) with
  | conflict => exact .inl ⟨rfl, rfl⟩
  | guard =>
      rw [awskmsMarkerState_eq] at hm
      split at hm
      · cases hm
      next hgood =>
        split at hm
        next hone =>
          have hany : cs.any isGuard = true := by
            obtain ⟨c, hc, hg⟩ := List.countP_pos_iff.mp (by omega : 0 < cs.countP isGuard)
            exact List.any_eq_true.mpr ⟨c, hc, hg⟩
          rcases awskmsActivate_cases ho (queryText cs) none with hend | hend
          · exact .inl hend
          · rw [withGuard, if_pos hany]
            exact .inr ⟨hgood, hend.1, hend.2, hone, fun hnone => by omega⟩
        · cases hm
  | absent =>
      cases happ : awskmsAppendDefaultProperty o.malloc (queryText cs) with
      | none => exact .inl ⟨rfl, rfl⟩
      | some merged =>
          obtain ⟨hfits, hmerged⟩ := append_some happ
          rw [awskmsMarkerState_eq] at hm
          split at hm
          · cases hm
          next hgood =>
            split at hm
            · cases hm
            next hone =>
              have hnone : cs.countP isGuard = 0 := by
                unfold Misuses at hgood
                rw [countP_seen] at hgood
                omega
              have hany : ¬ cs.any isGuard = true := by
                rw [List.any_eq_true]
                rintro ⟨c, hc, hg⟩
                have hpos := List.countP_pos_iff.mpr ⟨c, hc, hg⟩
                omega
              rcases awskmsActivate_cases ho (queryText cs) (some merged) with
                hend | hend
              · exact .inl hend
              · rw [withGuard, if_neg hany]
                refine .inr ⟨hgood, hend.1, hend.2.trans hmerged, ?_, fun _ => hfits⟩
                rw [List.countP_append, hnone]
                rfl

/-- What a registration owes, of a query and what libcrypto answers. -/
structure Transaction (cs : List Clause) (o : RegisterHost) : Prop where
  failed : (awskmsRegister o (queryText cs)).succeeded = false →
    (awskmsRegister o (queryText cs)).defaultProperties = queryText cs
  succeeded : (awskmsRegister o (queryText cs)).succeeded = true →
    (awskmsRegister o (queryText cs)).defaultProperties =
      queryText (withGuard cs) ∧ (withGuard cs).countP isGuard = 1
  rejected : Misuses cs → (awskmsRegister o (queryText cs)).succeeded = false
  accepted : awskmsMarkerState (queryText cs) = .conflict → Misuses cs
  marked : ∀ malloc merged, awskmsMarkerState (queryText cs) = .absent →
    awskmsAppendDefaultProperty malloc (queryText cs) = some merged →
    awskmsMarkerState merged = .guard

/-- A use of the reserved property goes unseen, and nothing else is in the
way of the registration. -/
structure Unseen (cs : List Clause) : Prop where
  dashed : ∃ c ∈ cs, dashed c = true
  rest : ¬ Misuses (seen cs)
  room : cs.countP isGuard = 0 → Fits (queryText cs)

theorem misuses_of_seen {cs : List Clause} (h : Misuses (seen cs)) :
    Misuses cs := by
  rcases h with ⟨c, hc, huse⟩ | htwo
  · exact .inl ⟨c, List.mem_of_mem_filter hc, huse⟩
  · rw [countP_seen] at htwo
    exact .inr htwo

/-- With nothing overlooked the scan sees every misuse. -/
theorem seen_of_misuses {cs : List Clause} (h : Misuses cs)
    (hno : ∀ c ∈ cs, dashed c = false) : Misuses (seen cs) := by
  rcases h with ⟨c, hc, huse⟩ | htwo
  · refine .inl ⟨c, List.mem_filter.mpr ⟨hc, ?_⟩, huse⟩
    rw [hno c hc]
    rfl
  · rw [← countP_seen] at htwo
    exact .inr htwo

/-- Registration is a transaction on every query, whatever libcrypto answers,
unless the query takes the reserved property back with a blank behind the
dash and the scan finds nothing else to refuse. -/
theorem register_transaction_iff (cs : List Clause) :
    (∀ o : RegisterHost, o.restore = true → Transaction cs o) ↔ ¬ Unseen cs := by
  refine ⟨fun hall hunseen => ?_, fun hno o ho => ?_⟩
  · obtain ⟨⟨c, hc, hdash⟩, hrest, hroom⟩ := hunseen
    have hmisuse : Misuses cs := .inl ⟨c, hc, dashed_reserved hdash⟩
    have hfail := (hall ⟨true, true, true, true, true, true, true, true⟩ rfl).rejected
      hmisuse
    -- every call succeeds, and so does the registration
    have hdone : (awskmsRegister ⟨true, true, true, true, true, true, true, true⟩
        (queryText cs)).succeeded = true := by
      unfold awskmsRegister
      rw [awskmsMarkerState_eq, if_neg hrest]
      by_cases hone : cs.countP isGuard = 1
      · rw [if_pos hone]
        rfl
      · have hnone : cs.countP isGuard = 0 := by
          unfold Misuses at hrest
          rw [countP_seen] at hrest
          omega
        simp only [if_neg hone, append_eq, true_and, if_pos (hroom hnone)]
        rfl
    rw [hdone] at hfail
    cases hfail
  · have hcases := awskmsRegister_cases ho cs
    refine ⟨fun hf => ?_, fun hs => ?_, fun hmisuse => ?_, fun hm => ?_, fun malloc merged => marker_append⟩
    · rcases hcases with ⟨-, hq⟩ | ⟨-, hs, -⟩
      · exact hq
      · rw [hs] at hf
        cases hf
    · rcases hcases with ⟨hf, -⟩ | ⟨-, -, hq, hone, -⟩
      · rw [hf] at hs
        cases hs
      · exact ⟨hq, hone⟩
    · rcases hcases with ⟨hf, -⟩ | ⟨hrest, -, -, -, hroom⟩
      · exact hf
      · refine absurd ⟨?_, hrest, hroom⟩ hno
        by_contra hnone
        refine hrest (seen_of_misuses hmisuse fun c hc => ?_)
        by_contra hdash
        exact hnone ⟨c, hc, by simpa using hdash⟩
    · rw [awskmsMarkerState_eq] at hm
      split at hm
      · next hmisuse => exact misuses_of_seen hmisuse
      · split at hm
        · cases hm
        · cases hm

theorem printed_not_dashed {cs : List Clause} (hp : Printed cs) {c : Clause}
    (hc : c ∈ cs) : dashed c = false := by
  have htight := hp c hc
  unfold Clause.dashTight at htight
  unfold dashed overlooked
  cases hm : c.mark with
  | required => simp
  | optional gap => simp
  | override gap =>
      rw [hm] at htight
      simp [of_decide_eq_true htight]

/-- Registration is a transaction on every query that libcrypto prints, whatever
it answers afterwards. -/
theorem register_transaction {cs : List Clause} (hp : Printed cs) {o : RegisterHost}
    (ho : o.restore = true) : Transaction cs o := by
  refine (register_transaction_iff cs).mpr (fun hunseen => ?_) o ho
  obtain ⟨c, hc, hdash⟩ := hunseen.dashed
  rw [printed_not_dashed hp hc] at hdash
  cases hdash

/-- `-legacy`, a preference, and a quoted text that looks like the guard. -/
def printedClauses : List Clause :=
  let noBlank : Blanks := ⟨[], by simp⟩
  let blank : Blanks := ⟨[32], List.all_eq_true.mp (by decide)⟩
  [⟨noBlank, .override noBlank, ⟨ascii "legacy", by decide, List.all_eq_true.mp (by decide)⟩,
      blank, none⟩,
    ⟨blank, .optional blank, ⟨ascii "Provider", by decide, List.all_eq_true.mp (by decide)⟩,
      blank, some ⟨.ne, blank, .unquoted (ascii "default") (by decide)
        (List.all_eq_true.mp (by decide)), noBlank⟩⟩,
    ⟨blank, .required, ⟨ascii "note", by decide, List.all_eq_true.mp (by decide)⟩, noBlank,
      some ⟨.eq, noBlank, .quoted 39 (ascii "a,?keyobject.aws_kms!=yes,b") (by decide)
        (by decide), noBlank⟩⟩]

theorem register_transaction_printed :
    queryText printedClauses =
      ascii "-legacy , ? Provider != default, note='a,?keyobject.aws_kms!=yes,b'" ∧
    Transaction printedClauses ⟨true, true, true, true, true, true, true, true⟩ :=
  ⟨by decide, register_transaction (List.forall_mem_cons.mpr ⟨rfl,
    List.forall_mem_cons.mpr ⟨rfl, List.forall_mem_cons.mpr ⟨rfl, List.forall_mem_nil _⟩⟩⟩)
    rfl⟩

end AwsKms.Model
