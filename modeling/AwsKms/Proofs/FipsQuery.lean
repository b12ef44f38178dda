import AwsKms.Proofs.Register
import AwsKms.Spec.FullQuery

/-!
# What the FIPS scan reads

The scan looks for one spelling, `fips=yes`, and libcrypto has another: the
name alone. It also pairs quotes wherever they stand, where libcrypto takes a
quote in the middle of a value for a character like any other.

Both differences are made exact here. On any text the scan finds the pieces
between commas that stand outside the quotes it has paired, and
`clauseRequestsFips` reads a piece right. So what is left is where, in a query
of the full grammar, such a piece can stand: it is a clause no quote is open
before, or it lies inside a quoted value, in a stretch the scan takes for
outside.
-/

namespace AwsKms.Model

open AwsKms.Lib AwsKms.Spec

/-! ## One clause

A single clause that spells the request out is heard in any layout: the blanks
are cut off, the mark is taken, the name and the value are compared. What is
not heard is the name standing alone, which libcrypto takes for the same
request. -/

theorem textChar_class {c : UInt8} (h : isTextChar c = true) :
    awskmsIsSpace c = false ∧ c ≠ 44 := by
  grind [isTextChar, awskmsIsSpace]

theorem queryValue_trimmed (v : QueryValue) : Trimmed v.text := by
  cases v with
  | unquoted first rest begins chars =>
      exact .of_bare (List.cons_ne_nil _ _) fun c hc => (textChar_class (chars c hc)).1
  | quoted quote text hquote _ =>
      have hq := (quote_class hquote).1
      exact ⟨⟨quote, text ++ [quote], rfl, hq⟩, ⟨quote :: text, quote, rfl, hq⟩⟩

/-- What follows the name, less the blanks at the end of the clause. -/
def queryTail (c : QueryClause) : Bytes :=
  match c.test with
  | none => []
  | some t => c.gap.text ++ (t.op.text ++ (t.gap.text ++ t.value.text))

def queryTrail (c : QueryClause) : Blanks :=
  match c.test with
  | none => c.gap
  | some t => t.trail

theorem queryTail_tail (c : QueryClause) : Tail (queryTail c) := by
  unfold queryTail
  cases c.test with
  | none => exact tail_nil
  | some t => exact tail_test c.gap t.op t.gap (queryValue_trimmed t.value)

theorem queryClause_text (c : QueryClause) : c.text = c.lead.text ++
    ((c.mark.text ++ (c.name.text ++ queryTail c)) ++ (queryTrail c).text) := by
  obtain ⟨lead, mark, name, gap, test⟩ := c
  cases test with
  | none => simp [QueryClause.text, queryTail, queryTrail]
  | some t => simp [QueryClause.text, queryTail, queryTrail, QueryTest.text]

theorem clauseValue_text (v : QueryValue) :
    clauseValue v.text = (v.inner, []) := by
  cases v with
  | unquoted first rest begins chars =>
      have hall : ∀ c ∈ first :: rest, (!awskmsIsSpace c) = true := by
        intro c hc
        simp [(textChar_class (chars c hc)).1]
      have htake := List.takeWhile_eq_self_iff.mpr hall
      have hdrop := List.dropWhile_eq_nil_iff.mpr hall
      simp only [clauseValue, QueryValue.text, QueryValue.inner, begins,
        Bool.false_eq_true, if_false, htake, hdrop]
  | quoted quote text hquote houtside =>
      have hall : ∀ c ∈ text, decide (c ≠ quote) = true := by
        intro c hc
        simpa using fun heq : c = quote => houtside (heq ▸ hc)
      simp only [clauseValue, QueryValue.text, QueryValue.inner, hquote, if_true,
        List.takeWhile_append_of_pos hall, List.dropWhile_append_of_pos hall]
      simp

/-- From the name on. -/
def bodyRequestsFips (body : Bytes) : Bool :=
  match body with
  | [] => false
  | c :: _ =>
      if c = 45 then false
      else
        match dropSpaces (body.dropWhile isNameChar) with
        | eq :: rest =>
            if eq = 61 then
              let value := clauseValue (dropSpaces rest)
              dropSpaces value.2 == [] &&
                awskmsAsciiEqual (body.takeWhile isNameChar) (ascii "fips") &&
                awskmsAsciiEqual value.1 (ascii "yes")
            else false
        | [] => false

theorem clauseRequestsFips_eq (clause : Bytes) :
    clauseRequestsFips clause = bodyRequestsFips
      (match trimSpaces clause with
        | c :: rest => if c = 63 then dropSpaces rest else trimSpaces clause
        | [] => []) := rfl

theorem bodyRequestsFips_text (c : QueryClause) :
    bodyRequestsFips (c.name.text ++ queryTail c) = (c.names (ascii "fips") &&
      match c.test with
      | none => false
      | some t => t.op = .eq && awskmsAsciiEqual t.value.inner (ascii "yes")) := by
  have hcut := name_cut c.name (queryTail_tail c)
  obtain ⟨d, u, hd, -, hdash⟩ := body_head c.name (queryTail c)
  rw [hd] at hcut ⊢
  simp only [bodyRequestsFips, if_neg hdash, hcut.1, hcut.2]
  unfold queryTail
  cases c.test with
  | none => simp [dropSpaces]
  | some t =>
      obtain ⟨op, gap, value, trail⟩ := t
      have hop := (op_trimmed op).dropSpaces (gap.text ++ value.text)
      have hvalue := (queryValue_trimmed value).dropSpaces []
      rw [List.append_nil] at hvalue
      simp only [dropSpaces_append c.gap.blank, hop]
      cases op with
      | eq =>
          simp only [PropertyOp.text, List.cons_append, List.nil_append, if_true,
            dropSpaces_append gap.blank, hvalue, clauseValue_text]
          simp [dropSpaces, QueryClause.names]
      | ne => simp [PropertyOp.text]

/-- A clause of the grammar is read right. -/
theorem clauseRequestsFips_text (c : QueryClause) :
    clauseRequestsFips c.text = c.spells (ascii "fips") := by
  have hbody := bodyRequestsFips_text c
  have htail := queryTail_tail c
  have hspaces := (body_trimmed c.name htail).dropSpaces []
  obtain ⟨d, u, hd, hmark, -⟩ := body_head c.name (queryTail c)
  have htrim : trimSpaces c.text = c.mark.text ++ (d :: u) := by
    rw [queryClause_text, trimSpaces_of c.lead (queryTrail c)
      (core_trimmed c.mark c.name htail), hd]
  rw [List.append_nil] at hspaces
  rw [hd] at hbody hspaces
  rw [clauseRequestsFips_eq, htrim, QueryClause.spells]
  cases c.mark with
  | required =>
      simp only [ClauseMark.text, List.nil_append, if_neg hmark, hbody]
      rcases c.test with _ | t
      · rfl
      · rfl
  | optional gap =>
      simp only [ClauseMark.text, List.cons_append, if_true,
        dropSpaces_append gap.blank, hspaces, hbody]
      rcases c.test with _ | t
      · rfl
      · rfl
  | override gap => simp [ClauseMark.text, bodyRequestsFips]

theorem yes_chars {v : Bytes} (h : awskmsAsciiEqual v (ascii "yes") = true) :
    v ≠ [] ∧ ∀ c ∈ v, isTextChar c = true ∧ isQuote c = false := by
  have hmap : v.map asciiLower = [121, 101, 115] := by
    rw [awskmsAsciiEqual, beq_iff_eq] at h
    exact h.trans (by decide)
  refine ⟨fun hv => by simp [hv] at hmap, fun c hc => ?_⟩
  have hlower : asciiLower c ∈ [121, 101, 115] :=
    hmap ▸ List.mem_map_of_mem hc
  grind [asciiLower, isTextChar, isQuote]

theorem dropSpaces_cut (s : Bytes) :
    ∃ gap : Blanks, s = gap.text ++ dropSpaces s :=
  ⟨⟨s.takeWhile awskmsIsSpace, fun _ hc => List.mem_takeWhile_imp hc⟩,
    List.takeWhile_append_dropWhile.symm⟩

theorem trimSpaces_cut (s : Bytes) :
    ∃ lead trail : Blanks, s = lead.text ++ (trimSpaces s ++ trail.text) := by
  obtain ⟨lead, hlead⟩ := dropSpaces_cut s
  obtain ⟨trail, htrail⟩ := dropSpaces_cut (dropSpaces s).reverse
  refine ⟨lead, ⟨trail.text.reverse,
    fun c hc => trail.blank c (List.mem_reverse.mp hc)⟩, ?_⟩
  have hback := congrArg List.reverse htrail
  rw [List.reverse_reverse, List.reverse_append] at hback
  rw [trimSpaces, ← hback]
  exact hlead

/-- A piece the scan takes for `fips=yes` though its quote is not closed. -/
structure Unclosed (p : Bytes) : Prop where
  comma : 44 ∉ p
  opened : openAfter isQuote none p ≠ none
  /-- the last character but blanks belongs to the value -/
  ends : ∃ t c w, p = t ++ c :: w ∧ isTextChar c = true ∧
    isQuote c = false ∧ ∀ d ∈ w, awskmsIsSpace d = true

theorem value_cut {w : Bytes} (hend : dropSpaces (clauseValue w).2 = [])
    (hyes : awskmsAsciiEqual (clauseValue w).1 (ascii "yes") = true) :
    (∃ (v : QueryValue) (trail : Blanks), w = v.text ++ trail.text ∧
        awskmsAsciiEqual v.inner (ascii "yes") = true) ∨
      ∃ q v, w = q :: v ∧ isQuote q = true ∧
        awskmsAsciiEqual v (ascii "yes") = true := by
  have hchars := yes_chars hyes
  obtain ⟨trail, htrail⟩ := dropSpaces_cut (clauseValue w).2
  rw [hend, List.append_nil] at htrail
  cases w with
  | nil => exact absurd rfl hchars.1
  | cons q rest =>
      rw [clauseValue] at htrail hchars hyes
      by_cases hq : isQuote q = true
      · simp only [if_pos hq] at htrail hchars hyes
        have houtside : q ∉ rest.takeWhile fun c => decide (c ≠ q) := fun hmem => by
          simpa using List.mem_takeWhile_imp hmem
        have hcut := List.takeWhile_append_dropWhile
          (p := fun c => decide (c ≠ q)) (l := rest)
        cases hdrop : rest.dropWhile fun c => decide (c ≠ q) with
        | nil =>
            rw [hdrop, List.append_nil] at hcut
            exact .inr ⟨q, rest, rfl, hq, hcut ▸ hyes⟩
        | cons r after =>
            have hr : r = q := by
              have hhead := List.head?_dropWhile_not (fun c => decide (c ≠ q)) rest
              rw [hdrop] at hhead
              simpa using hhead
            refine .inl ⟨.quoted q _ hq houtside, trail, ?_, hyes⟩
            rw [hdrop, List.drop_one, List.tail_cons] at htrail
            rw [← htrail, QueryValue.text, List.cons_append, List.append_assoc,
              List.singleton_append, ← hr, ← hdrop, hr, hcut]
      · simp only [if_neg hq] at htrail hchars hyes
        have hcut := List.takeWhile_append_dropWhile
          (p := fun c => !awskmsIsSpace c) (l := q :: rest)
        obtain ⟨first, more, hfirst⟩ := List.exists_cons_of_ne_nil hchars.1
        have hhead : first = q := by
          rw [hfirst, List.cons_append] at hcut
          exact (List.cons.inj hcut).1
        rw [hfirst] at hchars hyes
        refine .inl ⟨.unquoted first more (by simpa [hhead] using hq)
          fun c hc => (hchars.2 c hc).1, trail, ?_, hyes⟩
        rw [QueryValue.text, ← hfirst, ← htrail, hcut]

/-- A piece that begins like a clause, up to the value. -/
theorem body_cut {body : Bytes} (h : bodyRequestsFips body = true) :
    ∃ (name : PropertyName) (gap vgap : Blanks) (w : Bytes),
      body = name.text ++ (gap.text ++ (61 :: (vgap.text ++ w))) ∧
      awskmsAsciiEqual name.text (ascii "fips") = true ∧
      dropSpaces (clauseValue w).2 = [] ∧
      awskmsAsciiEqual (clauseValue w).1 (ascii "yes") = true := by
  cases body with
  | nil => simp [bodyRequestsFips] at h
  | cons c rest =>
      by_cases hdash : c = 45
      · simp [bodyRequestsFips, hdash] at h
      simp only [bodyRequestsFips, if_neg hdash] at h
      obtain ⟨gap, hgap⟩ := dropSpaces_cut ((c :: rest).dropWhile isNameChar)
      cases htest : dropSpaces ((c :: rest).dropWhile isNameChar) with
      | nil => simp [htest] at h
      | cons eq after =>
          by_cases heq : eq = 61
          · obtain ⟨vgap, hvgap⟩ := dropSpaces_cut after
            simp only [htest, heq, if_true, Bool.and_eq_true, beq_iff_eq] at h
            obtain ⟨⟨hend, hname⟩, hyes⟩ := h
            have hnamed : (c :: rest).takeWhile isNameChar ≠ [] := by
              intro hnil
              rw [hnil] at hname
              exact absurd hname (by decide)
            refine ⟨⟨_, hnamed, fun _ hd => List.mem_takeWhile_imp hd⟩, gap, vgap,
              dropSpaces after, ?_, hname, hend, hyes⟩
            rw [← hvgap, ← heq, ← htest, ← hgap, List.takeWhile_append_dropWhile]
          · simp [htest, heq] at h

/-- The characters in front of a value. -/
def Plain (s : Bytes) : Prop := ∀ c ∈ s, isQuote c = false ∧ c ≠ 44

theorem plain_append {s t : Bytes} (hs : Plain s) (ht : Plain t) :
    Plain (s ++ t) := fun c hc =>
  (List.mem_append.mp hc).elim (hs c) (ht c)

theorem plain_blanks (b : Blanks) : Plain b.text :=
  fun c hc => (space_class (b.blank c hc)).2

theorem plain_name (name : PropertyName) : Plain name.text := fun c hc => by
  have hclass := nameChar_class (name.chars c hc)
  exact ⟨hclass.2.1, hclass.2.2.1⟩

theorem plain_mark (mark : ClauseMark) : Plain mark.text := by
  cases mark with
  | required => simp [Plain, ClauseMark.text]
  | optional gap =>
      exact plain_append (s := [63]) (by simp [Plain, isQuote]) (plain_blanks gap)
  | override gap =>
      exact plain_append (s := [45]) (by simp [Plain, isQuote]) (plain_blanks gap)

theorem plain_op (op : PropertyOp) : Plain op.text := by
  cases op with
  | eq => simp [Plain, PropertyOp.text, isQuote]
  | ne => simp [Plain, PropertyOp.text, isQuote]

theorem plain_yes {v : Bytes} (h : awskmsAsciiEqual v (ascii "yes") = true) :
    Plain v := fun c hc => by
  obtain ⟨hchar, hquote⟩ := (yes_chars h).2 c hc
  exact ⟨hquote, (textChar_class hchar).2⟩

theorem Plain.open {s : Bytes} (h : Plain s) {quote : Option UInt8}
    (hquote : ∀ q ∈ quote, isQuote q = true) :
    openAfter isQuote quote s = quote :=
  openAfter_plain hquote fun c hc => (h c hc).1

/-- What is read as `fips=yes` spells it, up to a quote that is missing. -/
theorem spells_or_unclosed {p : Bytes} (h : clauseRequestsFips p = true) :
    (∃ d : QueryClause, d.spells (ascii "fips") = true ∧ d.text = p) ∨
      Unclosed p := by
  obtain ⟨lead, trail, hp⟩ := trimSpaces_cut p
  -- the mark is none, or a question mark
  obtain ⟨mark, body, hcore, hmark, hbody⟩ : ∃ (mark : ClauseMark) (body : Bytes),
      trimSpaces p = mark.text ++ body ∧ (∀ gap, mark ≠ .override gap) ∧
        bodyRequestsFips body = true := by
    rw [clauseRequestsFips_eq] at h
    cases htrim : trimSpaces p with
    | nil => simp [htrim, bodyRequestsFips] at h
    | cons c rest =>
        rw [htrim] at h
        by_cases hc : c = 63
        · obtain ⟨gap, hgap⟩ := dropSpaces_cut rest
          simp only [if_pos hc] at h
          refine ⟨.optional gap, dropSpaces rest, ?_, by simp, h⟩
          rw [ClauseMark.text, List.cons_append, ← hgap, hc]
        · simp only [if_neg hc] at h
          exact ⟨.required, c :: rest, rfl, by simp, h⟩
  obtain ⟨name, gap, vgap, w, hw, hname, hend, hyes⟩ := body_cut hbody
  rcases value_cut hend hyes with ⟨v, vtrail, rfl, hv⟩ | ⟨q, v, rfl, hq, hv⟩
  · -- a clause, with the blanks of both ends
    let trail' : Blanks := ⟨vtrail.text ++ trail.text, fun c hc =>
      (List.mem_append.mp hc).elim (vtrail.blank c) (trail.blank c)⟩
    refine .inl ⟨⟨lead, mark, name, gap, some ⟨.eq, vgap, v, trail'⟩⟩, ?_, ?_⟩
    · rw [QueryClause.spells, QueryClause.names, hname]
      cases mark with
      | required => simp [hv]
      | optional gap => simp [hv]
      | override gap => exact absurd rfl (hmark gap)
    · rw [hp, hcore, hw]
      simp [QueryClause.text, QueryTest.text, PropertyOp.text, trail']
  · -- no closing quote, so the value runs to the last character
    refine .inr ?_
    obtain ⟨head, hhead, hlayout⟩ : ∃ head : Bytes, Plain head ∧
        p = head ++ (q :: (v ++ trail.text)) := by
      refine ⟨lead.text ++ (mark.text ++ (name.text ++ (gap.text ++
        ([61] ++ vgap.text)))), ?_, ?_⟩
      · exact plain_append (plain_blanks lead) (plain_append (plain_mark mark)
          (plain_append (plain_name name) (plain_append (plain_blanks gap)
            (plain_append (plain_op .eq) (plain_blanks vgap)))))
      · rw [hp, hcore, hw]
        simp
    have htail : Plain (v ++ trail.text) :=
      plain_append (plain_yes hv) (plain_blanks trail)
    have hinside : q ∉ v ++ trail.text := fun hmem => by
      simp [(htail q hmem).1] at hq
    constructor
    · rw [hlayout]
      intro hmem
      rcases List.mem_append.mp hmem with hmem | hmem
      · exact (hhead 44 hmem).2 rfl
      · rcases List.mem_cons.mp hmem with rfl | hmem
        · simp [isQuote] at hq
        · exact (htail 44 hmem).2 rfl
    · rw [hlayout, openAfter_append, hhead.open (by simp)]
      simp only [openAfter, hq, if_true, openAfter_inside hinside]
      exact Option.some_ne_none q
    · obtain ⟨u, c, rfl⟩ := (List.eq_nil_or_concat' v).resolve_left (yes_chars hv).1
      have hc := (yes_chars hv).2 c (by simp)
      refine ⟨head ++ (q :: u), c, trail.text, ?_, hc.1, hc.2, trail.blank⟩
      rw [hlayout]
      simp

/-- A clause with a value: what is before the value has neither. -/
theorem clause_head (c : QueryClause) {t : QueryTest} (ht : c.test = some t) :
    ∃ head, Plain head ∧ c.text = head ++ (t.value.text ++ t.trail.text) := by
  refine ⟨c.lead.text ++ (c.mark.text ++ (c.name.text ++ (c.gap.text ++
    (t.op.text ++ t.gap.text)))), ?_, ?_⟩
  · exact plain_append (plain_blanks c.lead) (plain_append (plain_mark c.mark)
      (plain_append (plain_name c.name) (plain_append (plain_blanks c.gap)
        (plain_append (plain_op t.op) (plain_blanks t.gap)))))
  · simp [QueryClause.text, QueryTest.text, ht]

theorem clause_bare (c : QueryClause) (ht : c.test = none) : Plain c.text := by
  have hplain : Plain (c.lead.text ++ (c.mark.text ++ (c.name.text ++ c.gap.text))) :=
    plain_append (plain_blanks c.lead) (plain_append (plain_mark c.mark)
      (plain_append (plain_name c.name) (plain_blanks c.gap)))
  simpa [QueryClause.text, ht] using hplain

theorem quote_ne_comma {q : UInt8} (h : isQuote q = true) : q ≠ 44 :=
  (quote_class h).2.1

theorem clause_quoted {c : QueryClause} {q : UInt8} {text : Bytes}
    (h : c.quotedValue = some (q, text)) :
    isQuote q = true ∧ q ∉ text ∧ ∃ (head : Bytes) (trail : Blanks),
      Plain head ∧ c.text = head ++ (q :: (text ++ q :: trail.text)) := by
  cases ht : c.test with
  | none => simp [QueryClause.quotedValue, ht] at h
  | some t =>
      obtain ⟨head, hhead, htext⟩ := clause_head c ht
      obtain ⟨op, gap, value, trail⟩ := t
      cases value with
      | unquoted first rest begins chars => simp [QueryClause.quotedValue, ht] at h
      | quoted q' text' hq hout =>
          simp only [QueryClause.quotedValue, ht, Option.some.injEq,
            Prod.mk.injEq] at h
          obtain ⟨rfl, rfl⟩ := h
          refine ⟨hq, hout, head, trail, hhead, ?_⟩
          simp [htext, QueryValue.text]

/-- A comma in a clause is in a quoted value. -/
theorem clause_cut {c : QueryClause} {x y : Bytes} (h : c.text = x ++ 44 :: y) :
    ∃ (q : UInt8) (text head t₁ t₂ : Bytes) (trail : Blanks),
      c.quotedValue = some (q, text) ∧ Plain head ∧ text = t₁ ++ 44 :: t₂ ∧
      x = head ++ q :: t₁ ∧ y = t₂ ++ q :: trail.text := by
  have hcomma : 44 ∈ c.text := by simp [h]
  cases ht : c.test with
  | none => exact absurd rfl (clause_bare c ht 44 hcomma).2
  | some t =>
      obtain ⟨head, hhead, htext⟩ := clause_head c ht
      have htrail := plain_blanks t.trail
      cases hv : t.value with
      | unquoted first rest begins chars =>
          rw [htext, hv] at hcomma
          simp only [List.mem_append] at hcomma
          rcases hcomma with hmem | hmem | hmem
          · exact absurd rfl (hhead 44 hmem).2
          · exact absurd rfl (textChar_class (chars 44 hmem)).2
          · exact absurd rfl (htrail 44 hmem).2
      | quoted q text hq hout =>
          have hquoted : c.quotedValue = some (q, text) := by
            obtain ⟨op, gap, value, trail⟩ := t
            subst hv
            simp [QueryClause.quotedValue, ht]
          rw [htext, hv, QueryValue.text] at h
          obtain ⟨u, rfl, hu⟩ := cut_behind (fun hmem => (hhead 44 hmem).2 rfl) h
          obtain ⟨z, rfl, hz⟩ := cut_before (fun hmem => (htrail 44 hmem).2 rfl) hu
          have hne : (44 : UInt8) ∉ [q] := by simpa using (quote_ne_comma hq).symm
          obtain ⟨t₂, rfl, ht₂⟩ := cut_before (s := q :: text) hne hz
          obtain ⟨t₁, rfl, ht₁⟩ := cut_behind (s := [q]) hne ht₂
          exact ⟨q, text, head, t₁, t₂, t.trail, hquoted, hhead, ht₁, by simp,
            by simp⟩

theorem spells_iff (c : QueryClause) (property : Bytes) :
    c.spells property = true ↔ c.names property = true ∧
      (∀ gap, c.mark ≠ .override gap) ∧
      ∃ t, c.test = some t ∧ t.op = .eq ∧
        awskmsAsciiEqual t.value.inner (ascii "yes") = true := by
  rw [QueryClause.spells]
  cases c.mark with
  | required => cases c.test <;> simp
  | optional gap => cases c.test <;> simp
  | override gap => simp

/-- The clause the scan knows: no comma, and its quotes come in pairs. -/
structure Paired (p : Bytes) : Prop where
  comma : 44 ∉ p
  closed : openAfter isQuote none p = none
  count : ∀ q, isQuote q = true → p.count q ≠ 1

theorem spells_paired {d : QueryClause} (h : d.spells (ascii "fips") = true) :
    Paired d.text := by
  obtain ⟨-, -, t, ht, -, hyes⟩ := (spells_iff d _).mp h
  obtain ⟨head, hhead, htext⟩ := clause_head d ht
  have htrail := plain_blanks t.trail
  have hinner := plain_yes hyes
  have hcount : ∀ {s : Bytes} {q : UInt8}, Plain s → isQuote q = true →
      s.count q = 0 := fun hs hq =>
    List.count_eq_zero.mpr fun hmem => by simp [(hs _ hmem).1] at hq
  cases hv : t.value with
  | unquoted first rest begins chars =>
      rw [hv] at hinner htext
      have hall : Plain d.text := htext ▸
        plain_append hhead (plain_append hinner htrail)
      refine ⟨fun hmem => (hall 44 hmem).2 rfl, hall.open (by simp), fun q hq => ?_⟩
      rw [hcount hall hq]
      exact Nat.zero_ne_one
  | quoted r text hr hout =>
      rw [hv] at hinner htext
      change Plain text at hinner
      rw [QueryValue.text] at htext
      constructor
      · rw [htext]
        have hne := (quote_ne_comma hr).symm
        have h1 : 44 ∉ head := fun hmem => (hhead 44 hmem).2 rfl
        have h2 : 44 ∉ text := fun hmem => (hinner 44 hmem).2 rfl
        have h3 : 44 ∉ t.trail.text := fun hmem => (htrail 44 hmem).2 rfl
        simp [h1, h2, h3, hne]
      · rw [htext, openAfter_append, openAfter_append, hhead.open (by simp),
          openAfter_quoted hr hout, htrail.open (by simp)]
      · intro q hq
        rw [htext, List.count_append, List.count_append, hcount hhead hq,
          hcount htrail hq, List.count_cons, List.count_append, hcount hinner hq,
          List.count_singleton]
        split
        · omega
        · omega

/-- The last character but blanks. -/
theorem last_unique {t u w x : Bytes} {c d : UInt8}
    (hc : awskmsIsSpace c = false) (hd : awskmsIsSpace d = false)
    (hw : ∀ e ∈ w, awskmsIsSpace e = true) (hx : ∀ e ∈ x, awskmsIsSpace e = true)
    (h : t ++ c :: w = u ++ d :: x) : c = d := by
  have hback : ∀ {t w : Bytes} {c : UInt8}, awskmsIsSpace c = false →
      (∀ e ∈ w, awskmsIsSpace e = true) →
      dropSpaces (t ++ c :: w).reverse = c :: t.reverse := by
    intro t w c hc hw
    rw [List.reverse_append, List.reverse_cons, List.append_assoc,
      dropSpaces_append fun e he => hw e (List.mem_reverse.mp he),
      List.singleton_append, dropSpaces_cons hc]
  have heq := congrArg (fun s => dropSpaces s.reverse) h
  simp only [hback hc hw, hback hd hx] at heq
  exact (List.cons.inj heq).1

/-- What holds of every piece that is read as `fips=yes`. -/
structure Read (p : Bytes) : Prop where
  comma : 44 ∉ p
  given : p ≠ []
  /-- it does not end with the quote of a value it began inside -/
  ends : ∀ t q w, isQuote q = true → q ∉ t →
    (∀ d ∈ w, awskmsIsSpace d = true) → p ≠ t ++ q :: w

theorem read_of_requests {p : Bytes} (h : clauseRequestsFips p = true) : Read p := by
  have hgiven : p ≠ [] := by
    rintro rfl
    exact absurd h (by decide)
  rcases spells_or_unclosed h with ⟨d, hd, rfl⟩ | hun
  · have hpaired := spells_paired hd
    refine ⟨hpaired.comma, hgiven, ?_⟩
    rintro t q w hq ht hw heq
    have hw0 : q ∉ w := fun hmem => by
      exact absurd (hw q hmem) (by simp [(quote_class hq).1])
    refine hpaired.count q hq ?_
    rw [heq, List.count_append, List.count_cons_self, List.count_eq_zero.mpr ht,
      List.count_eq_zero.mpr hw0]
  · refine ⟨hun.comma, hgiven, ?_⟩
    rintro t q w hq - hw heq
    obtain ⟨u, c, x, hp, hchar, hc, hx⟩ := hun.ends
    have hsame := last_unique (quote_class hq).1 (textChar_class hchar).1 hw hx
      (heq.symm.trans hp)
    simp [← hsame, hq] at hc

/-- Before a comma of a clause its quote is open. -/
theorem clause_open {c : QueryClause} {x y : Bytes} (h : c.text = x ++ 44 :: y) :
    openAfter isQuote none x ≠ none := by
  obtain ⟨q, text, head, t₁, t₂, trail, hquoted, hhead, rfl, rfl, -⟩ := clause_cut h
  have hq := clause_quoted hquoted
  have houtside : q ∉ t₁ := fun hmem => hq.2.1 (by simp [hmem])
  rw [openAfter_append, hhead.open (by simp)]
  simp [openAfter, hq.1, openAfter_inside houtside]

/-! ## Where a piece stands

The scan cuts at the commas it finds outside its quotes. In the text of a
query such a comma is one of two: the end of a clause, or a comma of a quoted
value that the scan has taken for outside, since a quote before it was counted
twice. -/

/-- The text of the clauses that follow, with the comma before them. -/
def textBehind : List QueryClause → Bytes
  | [] => []
  | c :: cs => 44 :: clausesText (c :: cs)

theorem clausesText_cons (c : QueryClause) (cs : List QueryClause) :
    clausesText (c :: cs) = c.text ++ textBehind cs := by
  cases cs with
  | nil => simp [clausesText, textBehind]
  | cons d cs => simp [clausesText, textBehind, List.intercalate_cons_cons]

theorem clausesText_append (before : List QueryClause) (c : QueryClause)
    (after : List QueryClause) : clausesText (before ++ c :: after) =
      (before.flatMap fun d => d.text ++ [44]) ++ (c.text ++ textBehind after) := by
  induction before with
  | nil => exact clausesText_cons c after
  | cons d before ih =>
      rw [List.cons_append, clausesText_cons, List.flatMap_cons]
      cases hrest : before ++ c :: after with
      | nil => simp at hrest
      | cons e rest =>
          rw [textBehind, ← hrest, ih]
          simp

theorem textBehind_ends (cs : List QueryClause) :
    textBehind cs = [] ∨ ∃ t, textBehind cs = 44 :: t := by
  cases cs with
  | nil => exact .inl rfl
  | cons c cs => exact .inr ⟨_, rfl⟩

/-- The piece is one whole clause, or lies in a quoted value. -/
inductive Located (cs : List QueryClause) (a p : Bytes) : Prop
  | clause (before : List QueryClause) (c : QueryClause)
      (after : List QueryClause) (split : cs = before ++ c :: after)
      (whole : p = c.text)
      (start : a = before.flatMap fun d => d.text ++ [44])
  | inside (before : List QueryClause) (c : QueryClause)
      (after : List QueryClause) (q : UInt8) (text head t₁ t₂ : Bytes)
      (split : cs = before ++ c :: after)
      (value : c.quotedValue = some (q, text)) (plain : Plain head)
      (within : text = t₁ ++ 44 :: (p ++ 44 :: t₂))
      (closed : openAfter isQuote none p = none)
      (start : a = (before.flatMap fun d => d.text ++ [44]) ++
        (head ++ (q :: t₁ ++ [44])))

theorem Located.cons {cs : List QueryClause} {a p : Bytes} (c : QueryClause)
    (h : Located cs a p) : Located (c :: cs) (c.text ++ 44 :: a) p := by
  cases h with
  | clause before d after split whole start =>
      exact .clause (c :: before) d after (by rw [split, List.cons_append]) whole
        (by rw [List.flatMap_cons, start]; simp)
  | inside before d after q text head t₁ t₂ split value plain within closed start =>
      exact .inside (c :: before) d after q text head t₁ t₂
        (by rw [split, List.cons_append]) value plain within closed
        (by rw [List.flatMap_cons, start]; simp)

theorem Read.not_comma {p s : Bytes} {x : List UInt8} (hp : Read p)
    (hs : s = [] ∨ ∃ t, s = 44 :: t) {b : Bytes} (h : s = x ++ b)
    (hx : ∀ c ∈ x, c ∈ p) : x = [] := by
  cases x with
  | nil => rfl
  | cons c x =>
      rcases hs with rfl | ⟨t, rfl⟩
      · simp at h
      · obtain ⟨rfl, -⟩ := List.cons.inj h
        exact absurd (hx 44 List.mem_cons_self) hp.comma

theorem located {cs : List QueryClause} (hne : cs ≠ []) {a p b : Bytes}
    (hp : Read p) (h : clausesText cs = a ++ (p ++ b)) (ha : EndsItem 44 a)
    (hb : ItemEnds 44 (openAfter isQuote none p) b) : Located cs a p := by
  induction cs generalizing a with
  | nil => exact absurd rfl hne
  | cons c cs ih =>
      have hbehind := textBehind_ends cs
      rw [clausesText_cons] at h
      rcases List.append_eq_append_iff.mp h with ⟨x, rfl, hx⟩ | ⟨y, hy, hpb⟩
      · -- behind this clause
        cases x with
        | nil =>
            rw [List.nil_append] at hx
            exact absurd (hp.not_comma hbehind hx fun _ hc => hc) hp.given
        | cons d x =>
            cases cs with
            | nil => simp [textBehind] at hx
            | cons c' cs =>
                obtain ⟨rfl, hrest⟩ := List.cons.inj hx
                have hx : EndsItem 44 x := by
                  rcases List.eq_nil_or_concat' x with rfl | ⟨x, e, rfl⟩
                  · exact .inl rfl
                  · rcases ha with ha | ⟨t, ha⟩
                    · simp at ha
                    · rw [← List.cons_append, ← List.append_assoc] at ha
                      have hlast := (List.append_inj' ha rfl).2
                      exact .inr ⟨x, by rw [List.singleton_inj.mp hlast]⟩
                exact (ih (List.cons_ne_nil _ _) hrest hx).cons c
      · rcases ha with rfl | ⟨a, rfl⟩
        · -- from the clause's first character on
          rw [List.nil_append] at hy
          subst hy
          refine .clause [] c cs rfl ?_ rfl
          rcases List.append_eq_append_iff.mp hpb with ⟨z, hz, hb'⟩ | ⟨z, hz, hb'⟩
          · cases z with
            | nil => rw [hz, List.append_nil]
            | cons e z =>
                rcases hb with rfl | ⟨hclosed, t, rfl⟩
                · simp at hb'
                · obtain ⟨rfl, -⟩ := List.cons.inj hb'
                  exact absurd hclosed (clause_open hz)
          · have hnil := hp.not_comma hbehind hb' fun d hd => by simp [hz, hd]
            rw [hz, hnil, List.append_nil]
        · -- behind a comma of this clause
          rw [List.append_assoc] at hy
          obtain ⟨q, text, head, t₁, t₂, trail, hquoted, hhead, rfl, rfl, rfl⟩ :=
            clause_cut hy
          have hq := clause_quoted hquoted
          have houtside : q ∉ t₂ := fun hmem => hq.2.1 (by simp [hmem])
          have hclose : ∀ s, b ≠ q :: s := by
            rintro s rfl
            rcases hb with hb | ⟨-, t, hb⟩
            · simp at hb
            · exact quote_ne_comma hq.1 (List.cons.inj hb).1
          rw [List.append_assoc, List.cons_append] at hpb
          rcases List.append_eq_append_iff.mp hpb with ⟨z, hz, hb'⟩ | ⟨z, hz, hb'⟩
          · -- up to a comma of the quoted value
            cases z with
            | nil => exact absurd hb' (hclose _)
            | cons e z =>
                rcases hb with rfl | ⟨hclosed, t, rfl⟩
                · simp at hb'
                · obtain ⟨rfl, -⟩ := List.cons.inj hb'
                  exact .inside [] c cs q _ head t₁ z rfl hquoted hhead
                    (by rw [hz]) hclosed (by simp)
          · -- past the closing quote, so up to the end of the clause
            cases z with
            | nil => exact absurd hb'.symm (hclose _)
            | cons e w =>
                obtain ⟨rfl, hw⟩ := List.cons.inj hb'
                refine absurd hz (hp.ends t₂ q w hq.1 houtside ?_)
                rcases List.append_eq_append_iff.mp hw with ⟨v, rfl, hv⟩ | ⟨v, hv, -⟩
                · have hnil := hp.not_comma hbehind hv fun d hd => by simp [hz, hd]
                  rw [hnil, List.append_nil]
                  exact trail.blank
                · intro d hd
                  exact trail.blank d (by simp [hv, hd])

theorem scanPropq_eq (clause : Bytes) (quote : Option UInt8) (s : Bytes) :
    scanPropq clause quote s =
      (splitOutside 44 isQuote clause quote s).any clauseRequestsFips := by
  induction s generalizing clause quote with
  | nil => simp [scanPropq, splitOutside]
  | cons c s ih =>
      cases quote with
      | none =>
          rw [scanPropq, splitOutside]
          split
          · rw [List.any_cons, ih]
          · split
            · exact ih _ _
            · exact ih _ _
      | some q =>
          rw [scanPropq, splitOutside]
          split
          · exact ih _ _
          · exact ih _ _

/-- On any text: a piece that is read as `fips=yes`, between commas that stand
outside quotes. -/
theorem scanPropq_iff (s : Bytes) : scanPropq [] none s = true ↔
    ∃ a p b, s = a ++ (p ++ b) ∧ clauseRequestsFips p = true ∧ EndsItem 44 a ∧
      openAfter isQuote none a = none ∧
      ItemEnds 44 (openAfter isQuote none p) b := by
  rw [scanPropq_eq, List.any_eq_true]
  have hcomma : isQuote 44 = false := by decide
  constructor
  · rintro ⟨p, hmem, hp⟩
    obtain ⟨a, b, hs, ha, hopen, hb⟩ :=
      (mem_splitOutside hcomma (read_of_requests hp).comma).mp hmem
    exact ⟨a, p, b, hs, hp, ha, hopen, hb⟩
  · rintro ⟨a, p, b, hs, hp, ha, hopen, hb⟩
    exact ⟨p, (mem_splitOutside hcomma (read_of_requests hp).comma).mpr
      ⟨a, b, hs, ha, hopen, hb⟩, hp⟩

/-- What is open at a comma of a quoted value. -/
theorem openAfter_inside_value (before : List QueryClause) {head : Bytes}
    (hhead : Plain head) (u : Bytes) :
    openAfter isQuote none ((before.flatMap fun d => d.text ++ [44]) ++
      (head ++ (u ++ [44]))) = openAfter isQuote (quoteBehind before) u := by
  have hbefore : ∀ q ∈ quoteBehind before, isQuote q = true :=
    isQuote_openAfter (by simp)
  rw [openAfter_append, openAfter_append, openAfter_append]
  change openAfter isQuote (openAfter isQuote
    (openAfter isQuote (quoteBehind before) head) u) [44] = _
  rw [hhead.open hbefore]
  exact openAfter_plain (isQuote_openAfter hbefore) (by simp [isQuote])

theorem endsItem_flatMap (cs : List QueryClause) :
    EndsItem 44 (cs.flatMap fun d => d.text ++ [44]) := by
  rcases List.eq_nil_or_concat' cs with rfl | ⟨cs, c, rfl⟩
  · exact .inl rfl
  · exact .inr ⟨(cs.flatMap fun d => d.text ++ [44]) ++ c.text, by simp⟩

/-- In a query the scan finds what is said outside quotes, as it pairs them. -/
theorem scan_clauses {cs : List QueryClause} (hne : cs ≠ []) :
    scanPropq [] none (clausesText cs) = true ↔
      SaidOutside (ascii "fips") cs ∨ SaidInside (ascii "fips") cs := by
  rw [scanPropq_iff]
  constructor
  · rintro ⟨a, p, b, hs, hp, ha, hopen, hb⟩
    cases located hne (read_of_requests hp) hs ha hb with
    | clause before c after split whole start =>
        refine .inl ⟨before, c, after, split, ?_, ?_⟩
        · rw [← clauseRequestsFips_text, ← whole]
          exact hp
        · rw [quoteBehind, ← start]
          exact hopen
    | inside before c after q text head t₁ t₂ split value plain within closed start =>
        rcases spells_or_unclosed hp with ⟨d, hd, rfl⟩ | hun
        · refine .inr ⟨before, c, after, q, text, t₁, d, t₂, split, value, within, hd, ?_⟩
          rw [← openAfter_inside_value before plain (q :: t₁), ← start]
          exact hopen
        · exact absurd closed hun.opened
  · rintro (⟨before, c, after, rfl, hc, hopen⟩ |
      ⟨before, c, after, q, text, t₁, d, t₂, rfl, hvalue, rfl, hd, hopen⟩)
    · refine ⟨_, c.text, textBehind after, clausesText_append before c after, ?_,
        endsItem_flatMap before, hopen, ?_⟩
      · rw [clauseRequestsFips_text, hc]
      · rw [(spells_paired hc).closed]
        exact (textBehind_ends after).imp id fun h => ⟨rfl, h⟩
    · obtain ⟨hq, hout, head, trail, hhead, htext⟩ := clause_quoted hvalue
      have hpaired := spells_paired hd
      refine ⟨(before.flatMap fun e => e.text ++ [44]) ++ (head ++ (q :: t₁ ++ [44])),
        d.text, 44 :: (t₂ ++ q :: (trail.text ++ textBehind after)), ?_, ?_, ?_, ?_, ?_⟩
      · rw [clausesText_append, htext]
        simp
      · rw [clauseRequestsFips_text, hd]
      · exact .inr ⟨(before.flatMap fun e => e.text ++ [44]) ++ (head ++ (q :: t₁)),
          by simp⟩
      · rw [openAfter_inside_value before hhead]
        exact hopen
      · exact .inr ⟨hpaired.closed, _, rfl⟩

theorem scan_blank {s : Bytes} (h : ∀ c ∈ s, awskmsIsSpace c = true) :
    scanPropq [] none s = false := by
  have hclosed := closed_blanks ⟨s, h⟩ [] []
  rw [List.append_nil, List.nil_append] at hclosed
  have htrim : trimSpaces s = [] := by
    have hdrop : dropSpaces s = [] := List.dropWhile_eq_nil_iff.mpr h
    rw [trimSpaces, hdrop]
    rfl
  rw [scanPropq_eq, hclosed]
  simp [splitOutside, clauseRequestsFips_eq, htrim, bodyRequestsFips]

/-! ## When the policy is heard

What is left is to say it in clauses. The policy is heard where a clause asks
for it with a value and no quote is open before it, or where a value happens
to hold a piece that reads like such a clause. -/

theorem spells_names {c : QueryClause} {property : Bytes}
    (h : c.spells property = true) : c.names property = true :=
  ((spells_iff c property).mp h).1

/-- For every query, what the scan must hear it hears, and what it must not it
does not, exactly when what is asked for is also said where the scan listens,
and no quoted value says it there. -/
theorem fips_scan_iff {cs : List QueryClause} {text : Bytes} (h : IsQuery cs text) :
    (((∃ c ∈ cs, c.requests (ascii "fips") = true) →
        awskmsPropqRequestsFips (some text) = true) ∧
      ((∀ c ∈ cs, c.names (ascii "fips") = false) →
        awskmsPropqRequestsFips (some text) = false)) ↔
    (((∃ c ∈ cs, c.requests (ascii "fips") = true) →
        SaidOutside (ascii "fips") cs ∨ SaidInside (ascii "fips") cs) ∧
      ((∀ c ∈ cs, c.names (ascii "fips") = false) →
        ¬ SaidInside (ascii "fips") cs)) := by
  have hscan : awskmsPropqRequestsFips (some text) = true ↔
      SaidOutside (ascii "fips") cs ∨ SaidInside (ascii "fips") cs := by
    cases cs with
    | nil =>
        have hblank := scan_blank h
        constructor
        · intro htrue
          exact absurd htrue (by simp [awskmsPropqRequestsFips, hblank])
        · rintro (⟨before, c, after, hcs, -⟩ | ⟨before, c, after, q, t, t₁, d, t₂, hcs, -⟩)
          · simp at hcs
          · simp at hcs
    | cons c cs =>
        obtain rfl : text = clausesText (c :: cs) := h
        exact scan_clauses (List.cons_ne_nil _ _)
  refine and_congr (by rw [hscan]) (imp_congr_right fun hnone => ?_)
  have houtside : ¬ SaidOutside (ascii "fips") cs := by
    rintro ⟨before, c, after, rfl, hc, -⟩
    have hnames := hnone c (by simp)
    rw [spells_names hc] at hnames
    exact Bool.noConfusion hnames
  rw [← Bool.not_eq_true, hscan, or_iff_right houtside]

theorem blank_nil : ∀ c ∈ ([] : Bytes), awskmsIsSpace c = true := nofun

def noBlanks : Blanks := ⟨[], blank_nil⟩

/-- `x=a'b,fips=yes`: the quote in the first value is never closed. -/
def strayQuote : List QueryClause :=
  [⟨noBlanks, .required, ⟨ascii "x", by decide, List.all_eq_true.mp (by decide)⟩,
    noBlanks, some ⟨.eq, noBlanks, .unquoted 97 (ascii "'b") (by decide)
      (List.all_eq_true.mp (by decide)), noBlanks⟩⟩,
   ⟨noBlanks, .required, ⟨ascii "fips", by decide, List.all_eq_true.mp (by decide)⟩,
    noBlanks, some ⟨.eq, noBlanks, .unquoted 121 (ascii "es") (by decide)
      (List.all_eq_true.mp (by decide)), noBlanks⟩⟩]

theorem fips_scan_iff_strayQuote :
    IsQuery strayQuote (ascii "x=a'b,fips=yes") ∧
    ((((∃ c ∈ strayQuote, c.requests (ascii "fips") = true) →
        awskmsPropqRequestsFips (some (ascii "x=a'b,fips=yes")) = true) ∧
      ((∀ c ∈ strayQuote, c.names (ascii "fips") = false) →
        awskmsPropqRequestsFips (some (ascii "x=a'b,fips=yes")) = false)) ↔
    (((∃ c ∈ strayQuote, c.requests (ascii "fips") = true) →
        SaidOutside (ascii "fips") strayQuote ∨ SaidInside (ascii "fips") strayQuote) ∧
      ((∀ c ∈ strayQuote, c.names (ascii "fips") = false) →
        ¬ SaidInside (ascii "fips") strayQuote))) := by
  have hquery : IsQuery strayQuote (ascii "x=a'b,fips=yes") := by
    show ascii "x=a'b,fips=yes" = clausesText strayQuote
    decide
  exact ⟨hquery, fips_scan_iff hquery⟩

/-- `fips`, which is `fips=yes`. -/
def bareFips : QueryClause :=
  ⟨noBlanks, .required, ⟨ascii "fips", by decide, List.all_eq_true.mp (by decide)⟩,
    noBlanks, none⟩

theorem bareFips_not_heard :
    IsQuery [bareFips] (ascii "fips") ∧
    (∃ c ∈ [bareFips], c.requests (ascii "fips") = true) ∧
    awskmsPropqRequestsFips (some (ascii "fips")) = false := by
  refine ⟨?_, ⟨bareFips, by simp, by decide⟩, by decide⟩
  show ascii "fips" = clausesText [bareFips]
  decide

/-- No quote in a value but the two around it. -/
def QueryClause.wordsUnquoted (c : QueryClause) : Prop :=
  ∀ t ∈ c.test, ∀ first rest begins chars,
    t.value = .unquoted first rest begins chars → ∀ d ∈ rest, isQuote d = false

theorem wordsUnquoted_closed {c : QueryClause} (h : QueryClause.wordsUnquoted c) :
    openAfter isQuote none c.text = none := by
  cases ht : c.test with
  | none => exact (clause_bare c ht).open (by simp)
  | some t =>
      obtain ⟨head, hhead, htext⟩ := clause_head c ht
      have hnone : ∀ q ∈ (none : Option UInt8), isQuote q = true := by simp
      have htrail := (plain_blanks t.trail).open hnone
      rw [htext, openAfter_append, openAfter_append, hhead.open (by simp)]
      cases hv : t.value with
      | unquoted first rest begins chars =>
          have hplain : ∀ d ∈ first :: rest, isQuote d = false := by
            intro d hd
            rcases List.mem_cons.mp hd with rfl | hd
            · exact begins
            · exact h t ht first rest begins chars hv d hd
          rw [QueryValue.text, openAfter_plain (by simp) hplain, htrail]
      | quoted q text hq hout =>
          rw [QueryValue.text, openAfter_quoted hq hout, htrail]

theorem quoteBehind_none {cs : List QueryClause}
    (h : ∀ c ∈ cs, QueryClause.wordsUnquoted c) : quoteBehind cs = none := by
  induction cs with
  | nil => rfl
  | cons c cs ih =>
      have hrest := ih fun d hd => h d (List.mem_cons_of_mem _ hd)
      rw [quoteBehind, List.flatMap_cons, openAfter_append, openAfter_append,
        wordsUnquoted_closed (h c List.mem_cons_self)]
      exact hrest

/-- Where no word has a quote in it, all that goes unheard is the bare name. -/
theorem scan_wordsUnquoted {cs : List QueryClause} (hne : cs ≠ [])
    (h : ∀ c ∈ cs, QueryClause.wordsUnquoted c) :
    scanPropq [] none (clausesText cs) = true ↔
      ∃ c ∈ cs, c.spells (ascii "fips") = true := by
  rw [scan_clauses hne]
  constructor
  · rintro (⟨before, c, after, rfl, hc, -⟩ |
      ⟨before, c, after, q, text, t₁, d, t₂, rfl, hvalue, rfl, hd, hopen⟩)
    · exact ⟨c, by simp, hc⟩
    · -- inside a quoted value its quote is open
      obtain ⟨hq, hout, -⟩ := clause_quoted hvalue
      have hbefore := quoteBehind_none fun c hc => h c (List.mem_append_left _ hc)
      have houtside : q ∉ t₁ := fun hmem => hout (by simp [hmem])
      rw [hbefore] at hopen
      simp [openAfter, hq, openAfter_inside houtside] at hopen
  · rintro ⟨c, hmem, hc⟩
    obtain ⟨before, after, rfl⟩ := List.append_of_mem hmem
    exact .inl ⟨before, c, after, rfl, hc,
      quoteBehind_none fun d hd => h d (List.mem_append_left _ hd)⟩

end AwsKms.Model
