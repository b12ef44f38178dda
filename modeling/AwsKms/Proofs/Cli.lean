import AwsKms.Spec.NodeOptions

/-!
# What the command line makes of `NODE_OPTIONS`

Node and the CLI take a value apart by different rules. As long as none of the
differences is met they are in the same state. At the first one Node puts a
character into a token that the CLI leaves out, and from then on Node is ahead:
what it is ahead by is backslashes, single quotes and odd spaces, and the CLI
never writes one of those unless Node does. So it never catches up.

What the CLI writes Node reads back, but for control characters, which
`JSON.stringify` writes as escapes Node does not know.
-/

namespace AwsKms.Model

open AwsKms.Spec

/-! ## Without a difference

Node and the CLI are compared state by state, on one character at a time.
While no odd character is met they hold the same tokens, the same quotes and
the same escape. -/

def OptionsState.all (st : OptionsState) : List (List Char) :=
  let current := if st.escaped then st.current ++ ['\\'] else st.current
  if current ≠ [] then st.args ++ [current] else st.args

theorem parseNodeOptions_eq (value : Option (List Char)) :
    parseNodeOptions value =
      let st := (value.getD []).foldl .step OptionsState.start
      if st.quote ≠ none then .error "NODE_OPTIONS contains an unmatched quote"
      else .ok st.all := rfl

def OptionsState.put (st : OptionsState) (c : Char) : OptionsState :=
  { st with current := st.current ++ [c], escaped := false }

/-- The token, if one has begun, is over. -/
def OptionsState.flush (st : OptionsState) : OptionsState :=
  if st.current ≠ [] then { st with args := st.args ++ [st.current], current := [] }
  else st

theorem step_escaped {st : OptionsState} (hesc : st.escaped = true) (c : Char) :
    st.step c = st.put c := by
  rw [OptionsState.step, if_pos hesc]
  rfl

/-- Between double quotes. -/
theorem step_double {st : OptionsState} (hesc : st.escaped = false)
    (hquote : st.quote = some '"') (c : Char) :
    st.step c = if c = '\\' then { st with escaped := true }
      else if c = '"' then { st with quote := none } else st.put c := by
  have hne : (some '"' : Option Char) ≠ some apostrophe := by decide
  simp only [OptionsState.step, OptionsState.put, hesc, hquote, hne, and_true, ne_eq,
    not_false_eq_true, Bool.false_eq_true, if_false]

/-- Between single quotes. -/
theorem step_single {st : OptionsState} (hesc : st.escaped = false)
    (hquote : st.quote = some apostrophe) (c : Char) :
    st.step c = if c = apostrophe then { st with quote := none } else st.put c := by
  simp only [OptionsState.step, OptionsState.put, hesc, hquote, ne_eq, not_true_eq_false,
    and_false, Bool.false_eq_true, if_false]

theorem step_bare {st : OptionsState} (hesc : st.escaped = false)
    (hquote : st.quote = none) (c : Char) :
    st.step c = if c = '\\' then { st with escaped := true }
      else if c = '"' ∨ c = apostrophe then { st with quote := some c }
      else if isJsSpace c then st.flush else st.put c := by
  have hne : (none : Option Char) ≠ some apostrophe := by decide
  simp only [OptionsState.step, OptionsState.flush, OptionsState.put, hesc, hquote, hne,
    and_true, ne_eq, not_false_eq_true, Bool.false_eq_true, if_false]

theorem read_escaped {r : NodeReading} (hesc : r.escaped = true) (c : Char) :
    r.step c = r.put c := by
  rw [NodeReading.step, if_pos hesc]

theorem read_double {r : NodeReading} (hesc : r.escaped = false)
    (hquoted : r.quoted = true) (c : Char) :
    r.step c = if c = '"' then { r with quoted := false }
      else if c = '\\' then { r with escaped := true } else r.put c := by
  simp only [NodeReading.step, hesc, hquoted, Bool.not_true, Bool.false_eq_true, if_false,
    if_true]

theorem read_bare {r : NodeReading} (hesc : r.escaped = false)
    (hquoted : r.quoted = false) (c : Char) :
    r.step c = if c = '"' then { r with quoted := true }
      else if c = ' ' then { r with tokens := r.all, token := [] } else r.put c := by
  simp only [NodeReading.step, hesc, hquoted, Bool.not_false, Bool.false_eq_true, if_false]

/-- The same state, under two names. -/
structure Alike (st : OptionsState) (r : NodeReading) : Prop where
  args : st.args = r.tokens
  current : st.current = r.token
  quote : st.quote = if r.quoted then some '"' else none
  escaped : st.escaped = r.escaped
  inside : r.escaped = true → r.quoted = true

theorem Alike.put {st : OptionsState} {r : NodeReading} (h : Alike st r) (c : Char) :
    Alike (st.put c) (r.put c) :=
  ⟨h.args, congrArg (· ++ [c]) h.current, h.quote, rfl, fun hesc => by cases hesc⟩

theorem Alike.flush {st : OptionsState} {r : NodeReading} (h : Alike st r) :
    Alike st.flush { r with tokens := r.all, token := [] } := by
  rw [OptionsState.flush, NodeReading.all]
  by_cases hcur : r.token = []
  · rw [if_neg (not_not.mpr (h.current.trans hcur)), if_pos hcur]
    exact ⟨h.args, h.current.trans hcur, h.quote, h.escaped, h.inside⟩
  · rw [if_pos (h.current ▸ hcur), if_neg hcur]
    refine ⟨?_, rfl, h.quote, h.escaped, h.inside⟩
    rw [h.args, h.current]

theorem Alike.all {st : OptionsState} {r : NodeReading} (h : Alike st r)
    (hesc : r.escaped = false) : st.all = r.all := by
  rw [OptionsState.all, NodeReading.all, h.escaped, hesc, h.current, h.args]
  by_cases hcur : r.token = []
  · simp [hcur]
  · simp [hcur]

/-- A backslash at the very end: the CLI puts it back. -/
theorem Alike.all_backslash {st : OptionsState} {r : NodeReading} (h : Alike st r) :
    OptionsState.all { st with escaped := true } = (r.put '\\').all := by
  rw [OptionsState.all, NodeReading.all]
  simp [NodeReading.put, h.current, h.args]

theorem Alike.quote_none {st : OptionsState} {r : NodeReading} (h : Alike st r) :
    st.quote = none ↔ r.quoted = false := by
  rw [h.quote]
  cases r.quoted with
  | false => simp
  | true => simp

/-- A character that Node may put into a token when the CLI does not. -/
def Odd (c : Char) : Prop :=
  c = '\\' ∨ c = apostrophe ∨ (isJsSpace c = true ∧ c ≠ ' ')

theorem odd_ne {c : Char} (h : Odd c) : c ≠ ' ' ∧ c ≠ '"' := by
  rcases h with rfl | rfl | ⟨hspace, hne⟩
  · decide
  · decide
  · refine ⟨hne, ?_⟩
    rintro rfl
    exact absurd hspace (by decide)

theorem plainFrom_odd {c : Char} (hc : Odd c) (rest : List Char) :
    plainFrom false false (c :: rest) = decide (c = '\\' ∧ rest = []) := by
  have hdouble := (odd_ne hc).2
  rw [plainFrom, if_neg Bool.false_ne_true, if_neg hdouble, if_neg Bool.false_ne_true]
  by_cases hback : c = '\\'
  · simp [hback]
  · rcases hc with hc | hc | ⟨hspace, hne⟩
    · exact absurd hc hback
    · simp [hc]
    · simp [hback, hspace, hne]

/-- One character, unless it is odd and outside quotes. -/
theorem Alike.step {st : OptionsState} {r : NodeReading} (h : Alike st r) {c : Char}
    (hno : r.escaped = false → r.quoted = false → ¬ Odd c) (rest : List Char) :
    Alike (st.step c) (r.step c) ∧ plainFrom r.quoted r.escaped (c :: rest) =
      plainFrom (r.step c).quoted (r.step c).escaped rest := by
  rw [plainFrom]
  cases hesc : r.escaped with
  | true =>
      rw [if_pos rfl, step_escaped (h.escaped.trans hesc), read_escaped hesc]
      exact ⟨h.put c, rfl⟩
  | false =>
      have hst : st.escaped = false := h.escaped.trans hesc
      rw [if_neg Bool.false_ne_true]
      cases hquoted : r.quoted with
      | true =>
          have hquote : st.quote = some '"' := by
            rw [h.quote, hquoted]
            rfl
          rw [step_double hst hquote, read_double hesc hquoted]
          by_cases hdouble : c = '"'
          · have hback : c ≠ '\\' := by
              rw [hdouble]
              decide
            rw [if_neg hback, if_pos hdouble, if_pos hdouble, if_pos hdouble]
            refine ⟨⟨h.args, h.current, rfl, h.escaped, fun hin => ?_⟩, ?_⟩
            · rw [hesc] at hin
              cases hin
            · rw [hesc]
              rfl
          · rw [if_neg hdouble, if_pos rfl, if_neg hdouble, if_neg hdouble]
            by_cases hback : c = '\\'
            · rw [if_pos hback, if_pos hback, decide_eq_true hback, hquoted]
              exact ⟨⟨h.args, h.current, h.quote.trans (by rw [hquoted]), rfl,
                fun _ => rfl⟩, rfl⟩
            · rw [if_neg hback, if_neg hback, decide_eq_false hback]
              refine ⟨h.put c, ?_⟩
              rw [NodeReading.put, hquoted]
      | false =>
          have hodd := hno hesc hquoted
          rw [step_bare hst (h.quote_none.mpr hquoted), read_bare hesc hquoted,
            if_neg Bool.false_ne_true]
          by_cases hdouble : c = '"'
          · have hback : c ≠ '\\' := by
              rw [hdouble]
              decide
            rw [if_neg hback, if_pos (.inl hdouble), if_pos hdouble, if_pos hdouble, hdouble]
            refine ⟨⟨h.args, h.current, rfl, h.escaped, fun _ => rfl⟩, ?_⟩
            rw [hesc]
            rfl
          · have hback : c ≠ '\\' := fun heq => hodd (.inl heq)
            have hsingle : c ≠ apostrophe := fun heq => hodd (.inr (.inl heq))
            rw [if_neg hback, if_neg (not_or.mpr ⟨hdouble, hsingle⟩), if_neg hdouble,
              if_neg hdouble, if_neg hback]
            by_cases hblank : c = ' '
            · have hsp : isJsSpace ' ' = true := by decide
              rw [if_pos hblank, hblank, if_pos hsp]
              refine ⟨h.flush, ?_⟩
              rw [hquoted, hesc]
              rfl
            · have hspace : isJsSpace c = false := by
                by_contra hne
                exact hodd (.inr (.inr ⟨by simpa using hne, hblank⟩))
              rw [if_neg hblank, hspace, if_neg Bool.false_ne_true]
              refine ⟨h.put c, ?_⟩
              rw [NodeReading.put, hquoted]
              simp [hsingle]

theorem Alike.run {st : OptionsState} {r : NodeReading} (h : Alike st r) {s : List Char}
    (hp : plainFrom r.quoted r.escaped s = true)
    (hclosed : (s.foldl .step st).quote = none) :
    (s.foldl .step st).all = (s.foldl .step r).all := by
  induction s generalizing st r with
  | nil =>
      have hquoted := h.quote_none.mp hclosed
      refine h.all ?_
      cases hesc : r.escaped with
      | false => rfl
      | true => rw [h.inside hesc] at hquoted; cases hquoted
  | cons c rest ih =>
      by_cases hno : r.escaped = false → r.quoted = false → ¬ Odd c
      · obtain ⟨hnext, hrest⟩ := h.step hno rest
        rw [hrest] at hp
        exact ih hnext hp hclosed
      · simp only [Classical.not_imp, not_not] at hno
        obtain ⟨hesc, hquoted, hodd⟩ := hno
        rw [hesc, hquoted, plainFrom_odd hodd, decide_eq_true_eq] at hp
        obtain ⟨rfl, rfl⟩ := hp
        have hread : r.step '\\' = r.put '\\' := by
          rw [read_bare hesc hquoted]
          rfl
        rw [List.foldl_cons, List.foldl_cons, hread,
          step_bare (h.escaped.trans hesc) (h.quote_none.mpr hquoted), if_pos rfl]
        exact h.all_backslash

/-! ## After the first difference

From there on the two are compared by what they have put out in all. Node is
ahead by odd characters, and the CLI writes no odd character that Node does
not. So it stays behind, or has something else in that place, and the two are
apart for good. -/

def OptionsState.out (st : OptionsState) : List Char := st.args.flatten ++ st.current

def outOf (r : NodeReading) : List Char := r.tokens.flatten ++ r.token

theorem OptionsState.all_flatten (st : OptionsState) :
    st.all.flatten = st.out ++ if st.escaped then ['\\'] else [] := by
  rw [OptionsState.all, OptionsState.out]
  cases st.escaped with
  | true => simp
  | false =>
      by_cases hcur : st.current = []
      · simp [hcur]
      · simp [hcur]

theorem all_flatten (r : NodeReading) : r.all.flatten = outOf r := by
  rw [NodeReading.all, outOf]
  by_cases hcur : r.token = []
  · simp [hcur]
  · simp [hcur]

theorem out_put (st : OptionsState) (c : Char) : (st.put c).out = st.out ++ [c] := by
  simp [OptionsState.out, OptionsState.put]

theorem outOf_put (r : NodeReading) (c : Char) : outOf (r.put c) = outOf r ++ [c] := by
  simp [outOf, NodeReading.put]

theorem out_flush (st : OptionsState) : st.flush.out = st.out := by
  rw [OptionsState.flush, OptionsState.out, OptionsState.out]
  by_cases hcur : st.current = []
  · simp [hcur]
  · simp [hcur]

theorem outOf_over (r : NodeReading) :
    outOf { r with tokens := r.all, token := [] } = outOf r := by
  have hover : r.all.flatten ++ [] = outOf r := by
    rw [List.append_nil, all_flatten]
  exact hover

/-- The two texts part at some place. -/
def Apart (x y : List Char) : Prop :=
  ∃ w a b x' y', a ≠ b ∧ x = w ++ a :: x' ∧ y = w ++ b :: y'

theorem Apart.append {x y : List Char} (h : Apart x y) (u v : List Char) :
    Apart (x ++ u) (y ++ v) := by
  obtain ⟨w, a, b, x', y', hne, rfl, rfl⟩ := h
  exact ⟨w, a, b, x' ++ u, y' ++ v, hne, by simp, by simp⟩

theorem Apart.ne {x y : List Char} (h : Apart x y) : x ≠ y := by
  obtain ⟨w, a, b, x', y', hne, rfl, rfl⟩ := h
  intro heq
  exact hne (List.cons.inj (List.append_cancel_left heq)).1

/-- Node is ahead by `p`. -/
structure Ahead (st : OptionsState) (r : NodeReading) (p : List Char) : Prop where
  out : outOf r = st.out ++ p
  odd : ∀ c ∈ p, Odd c
  quote : st.quote = none ∨ st.quote = some '"' ∨ st.quote = some apostrophe
  quoted : r.quoted = decide (st.quote = some '"')
  escaped : r.escaped = (st.escaped && r.quoted)
  single : st.escaped = true → st.quote ≠ some apostrophe
  long : (if st.escaped && !r.quoted then 2 else 1) ≤ p.length

theorem Ahead.pos {st : OptionsState} {r : NodeReading} {p : List Char}
    (h : Ahead st r p) : 1 ≤ p.length := by
  have hlong := h.long
  split at hlong
  · omega
  · omega

/-- Both write the character: what Node is ahead by goes round. -/
theorem Ahead.both {st : OptionsState} {r : NodeReading} {p : List Char}
    (h : Ahead st r p) (c : Char) :
    (∃ p', p'.length = p.length ∧ (∀ d ∈ p', Odd d) ∧
      outOf (r.put c) = (st.put c).out ++ p') ∨
    Apart (st.put c).out (outOf (r.put c)) := by
  rw [out_put, outOf_put, h.out]
  have hpos := h.pos
  obtain ⟨d, p, rfl⟩ := List.exists_cons_of_ne_nil (List.ne_nil_of_length_pos hpos)
  by_cases hd : c = d
  · subst hd
    refine .inl ⟨p ++ [c], by simp, fun e he => ?_, by simp⟩
    exact h.odd e (by simpa [or_comm] using he)
  · exact .inr ⟨st.out, c, d, [], p ++ [c], hd, rfl, by simp⟩

/-- The CLI alone writes a character that Node is never ahead by. -/
theorem Ahead.alone {st : OptionsState} {r : NodeReading} {p : List Char}
    (h : Ahead st r p) {c : Char} (hc : ¬ Odd c) (v : List Char) :
    Apart (st.put c).out (outOf r ++ v) := by
  rw [out_put, h.out]
  have hpos := h.pos
  obtain ⟨d, p, rfl⟩ := List.exists_cons_of_ne_nil (List.ne_nil_of_length_pos hpos)
  have hd : c ≠ d := fun heq => hc (heq ▸ h.odd d List.mem_cons_self)
  exact ⟨st.out, c, d, [], p ++ v, hd, rfl, by simp⟩

/-- Node alone writes the character. -/
theorem Ahead.more {st : OptionsState} {r : NodeReading} {p : List Char}
    (h : Ahead st r p) {c : Char} (hc : Odd c) :
    (∀ d ∈ p ++ [c], Odd d) ∧ outOf (r.put c) = st.out ++ (p ++ [c]) := by
  constructor
  · intro d hd
    rcases List.mem_append.mp hd with hd | hd
    · exact h.odd d hd
    · exact List.mem_singleton.mp hd ▸ hc
  · rw [outOf_put, h.out, List.append_assoc]

theorem Ahead.put {st : OptionsState} {r : NodeReading} {p : List Char}
    (h : Ahead st r p) (c : Char) :
    (∃ p', Ahead (st.put c) (r.put c) p') ∨ Apart (st.put c).out (outOf (r.put c)) := by
  rcases h.both c with ⟨p', hlen, hodd, hout⟩ | hapart
  · refine .inl ⟨p', hout, hodd, h.quote, h.quoted, rfl, nofun, ?_⟩
    rw [hlen]
    exact h.pos
  · exact .inr hapart

/-- What neither writes leaves Node ahead by the same. -/
theorem Ahead.keep {st st' : OptionsState} {r r' : NodeReading} {p : List Char}
    (h : Ahead st r p) (hst : st'.out = st.out) (hr : outOf r' = outOf r)
    (hquote : st'.quote = none ∨ st'.quote = some '"')
    (hquoted : r'.quoted = decide (st'.quote = some '"'))
    (hsame : r'.escaped = st'.escaped)
    (hinside : st'.escaped = true → st'.quote = some '"') : Ahead st' r' p := by
  have hlong : ¬ (st'.escaped && !r'.quoted) = true := by
    cases hesc : st'.escaped with
    | false => simp
    | true => simp [hquoted, hinside hesc]
  refine ⟨?_, h.odd, hquote.imp_right .inl, hquoted, ?_, fun hesc heq => ?_, ?_⟩
  · rw [hr, hst]
    exact h.out
  · cases hesc : st'.escaped with
    | false => rw [hsame, hesc]; rfl
    | true => rw [hsame, hesc, hquoted, hinside hesc]; rfl
  · rw [hinside hesc] at heq
    exact absurd heq (by decide)
  · rw [if_neg hlong]
    exact h.pos

/-- What Node alone writes adds to it. -/
theorem Ahead.add {st st' : OptionsState} {r : NodeReading} {p : List Char}
    (h : Ahead st r p) {c : Char} (hc : Odd c) (hst : st'.out = st.out)
    (hquote : st'.quote = none ∨ st'.quote = some apostrophe) (hq : r.quoted = false)
    (hsingle : st'.escaped = true → st'.quote = none) :
    Ahead st' (r.put c) (p ++ [c]) := by
  obtain ⟨hodd, hout⟩ := h.more hc
  have hno : decide (st'.quote = some '"') = false := by
    rcases hquote with hquote | hquote
    · rw [hquote]
      rfl
    · rw [hquote]
      decide
  refine ⟨?_, hodd, ?_, ?_, ?_, fun hesc heq => ?_, ?_⟩
  · rw [hout, hst]
  · rcases hquote with hquote | hquote
    · exact .inl hquote
    · exact .inr (.inr hquote)
  · rw [hno]
    exact hq
  · have hputq : (r.put c).quoted = false := hq
    rw [hputq, Bool.and_false]
    rfl
  · rw [hsingle hesc] at heq
    cases heq
  · have hpos := h.pos
    rw [List.length_append, List.length_singleton]
    split
    · omega
    · omega

theorem Ahead.step {st : OptionsState} {r : NodeReading} {p : List Char}
    (h : Ahead st r p) (c : Char) :
    (∃ p', Ahead (st.step c) (r.step c) p') ∨
      Apart (st.step c).out (outOf (r.step c)) := by
  have hquoted := h.quoted
  have hescaped := h.escaped
  rcases h.quote with hquote | hquote | hquote
  · -- outside quotes, for both
    have hq : r.quoted = false := by
      rw [hquoted, hquote]
      rfl
    have hre : r.escaped = false := by
      rw [hescaped, hq, Bool.and_false]
    cases hesc : st.escaped with
    | true =>
        rw [step_escaped hesc, read_bare hre hq]
        by_cases hdouble : c = '"'
        · rw [if_pos hdouble]
          have hodd : ¬ Odd c := fun hc => (odd_ne hc).2 hdouble
          exact .inr (by simpa [outOf] using h.alone hodd [])
        · rw [if_neg hdouble]
          by_cases hblank : c = ' '
          · rw [if_pos hblank, outOf_over]
            have hodd : ¬ Odd c := fun hc => (odd_ne hc).1 hblank
            exact .inr (by simpa using h.alone hodd [])
          · rw [if_neg hblank]
            exact h.put c
    | false =>
        rw [step_bare hesc hquote, read_bare hre hq]
        by_cases hback : c = '\\'
        · have hne : c ≠ '"' ∧ c ≠ ' ' := by
            rw [hback]
            decide
          rw [if_pos hback, if_neg hne.1, if_neg hne.2]
          exact .inl ⟨_, h.add (.inl hback) rfl (.inl hquote) hq fun _ => hquote⟩
        · rw [if_neg hback]
          by_cases hdouble : c = '"'
          · rw [if_pos (.inl hdouble), if_pos hdouble, hdouble]
            exact .inl ⟨p, h.keep rfl rfl (.inr rfl) rfl (hre.trans hesc.symm) fun _ => rfl⟩
          · rw [if_neg hdouble]
            by_cases hsingle : c = apostrophe
            · have hne : c ≠ ' ' := by
                rw [hsingle]
                decide
              rw [if_pos (.inr hsingle), if_neg hne]
              refine .inl ⟨_, h.add (.inr (.inl hsingle)) rfl (.inr ?_) hq fun hin => ?_⟩
              · exact congrArg some hsingle
              · exact absurd hin (by simp [hesc])
            · rw [if_neg (not_or.mpr ⟨hdouble, hsingle⟩)]
              cases hspace : isJsSpace c with
              | false =>
                  have hblank : c ≠ ' ' := by
                    rintro rfl
                    exact absurd hspace (by decide)
                  rw [if_neg Bool.false_ne_true, if_neg hblank]
                  exact h.put c
              | true =>
                  rw [if_pos rfl]
                  have hflush : st.flush.quote = none ∧ st.flush.escaped = false := by
                    rw [OptionsState.flush]
                    split
                    · exact ⟨hquote, hesc⟩
                    · exact ⟨hquote, hesc⟩
                  have hin : st.flush.escaped ≠ true := by simp [hflush.2]
                  by_cases hblank : c = ' '
                  · rw [if_pos hblank]
                    refine .inl ⟨p, h.keep (out_flush st) (outOf_over r) (.inl hflush.1) ?_
                      (hre.trans hflush.2.symm) fun hesc' => absurd hesc' hin⟩
                    rw [hflush.1]
                    exact hq
                  · rw [if_neg hblank]
                    exact .inl ⟨_, h.add (.inr (.inr ⟨hspace, hblank⟩)) (out_flush st)
                      (.inl hflush.1) hq fun hesc' => absurd hesc' hin⟩
  · -- between double quotes, for both
    have hq : r.quoted = true := by
      rw [hquoted, hquote]
      rfl
    cases hesc : st.escaped with
    | true =>
        have hre : r.escaped = true := by
          rw [hescaped, hesc, hq]
          rfl
        rw [step_escaped hesc, read_escaped hre]
        exact h.put c
    | false =>
        have hre : r.escaped = false := by
          rw [hescaped, hesc]
          rfl
        rw [step_double hesc hquote, read_double hre hq]
        by_cases hdouble : c = '"'
        · have hback : c ≠ '\\' := by
            rw [hdouble]
            decide
          rw [if_neg hback, if_pos hdouble, if_pos hdouble]
          refine .inl ⟨p, h.keep rfl rfl (.inl rfl) rfl (hre.trans hesc.symm) fun hin => ?_⟩
          exact absurd hin (by simp [hesc])
        · rw [if_neg hdouble, if_neg hdouble]
          by_cases hback : c = '\\'
          · rw [if_pos hback, if_pos hback]
            exact .inl ⟨p, h.keep rfl rfl (.inr hquote) h.quoted rfl fun _ => hquote⟩
          · rw [if_neg hback, if_neg hback]
            exact h.put c
  · -- between single quotes, for the CLI
    have hq : r.quoted = false := by
      rw [hquoted, hquote]
      decide
    have hesc : st.escaped = false := by
      by_contra hne
      exact h.single (by simpa using hne) hquote
    have hre : r.escaped = false := by
      rw [hescaped, hesc]
      rfl
    rw [step_single hesc hquote, read_bare hre hq]
    by_cases hsingle : c = apostrophe
    · have hne : c ≠ '"' ∧ c ≠ ' ' := by
        rw [hsingle]
        decide
      rw [if_pos hsingle, if_neg hne.1, if_neg hne.2]
      exact .inl ⟨_, h.add (.inr (.inl hsingle)) rfl (.inl rfl) hq fun _ => rfl⟩
    · rw [if_neg hsingle]
      by_cases hdouble : c = '"'
      · rw [if_pos hdouble]
        have hodd : ¬ Odd c := fun hc => (odd_ne hc).2 hdouble
        exact .inr (by simpa [outOf] using h.alone hodd [])
      · rw [if_neg hdouble]
        by_cases hblank : c = ' '
        · rw [if_pos hblank, outOf_over]
          have hodd : ¬ Odd c := fun hc => (odd_ne hc).1 hblank
          exact .inr (by simpa using h.alone hodd [])
        · rw [if_neg hblank]
          exact h.put c

/-- A step writes the character, or nothing. -/
theorem out_step (st : OptionsState) (c : Char) :
    ∃ u, (∀ d ∈ u, d = c) ∧ (st.step c).out = st.out ++ u := by
  have hone : ∀ d ∈ [c], d = c := fun d hd => List.mem_singleton.mp hd
  have hnone : ∀ d ∈ ([] : List Char), d = c := nofun
  rw [OptionsState.step]
  split
  · exact ⟨[c], hone, out_put st c⟩
  · split
    · exact ⟨[], hnone, (List.append_nil _).symm⟩
    · split
      · split
        · exact ⟨[], hnone, (List.append_nil _).symm⟩
        · exact ⟨[c], hone, out_put st c⟩
      · split
        · exact ⟨[], hnone, (List.append_nil _).symm⟩
        · split
          · exact ⟨[], hnone, (out_flush st).trans (List.append_nil _).symm⟩
          · exact ⟨[c], hone, out_put st c⟩

theorem outOf_step (r : NodeReading) (c : Char) :
    ∃ u, outOf (r.step c) = outOf r ++ u := by
  rw [NodeReading.step]
  split
  · exact ⟨[c], outOf_put r c⟩
  · split
    · exact ⟨[], (List.append_nil _).symm⟩
    · split
      · split
        · exact ⟨[], (List.append_nil _).symm⟩
        · exact ⟨[c], outOf_put r c⟩
      · split
        · exact ⟨[], (outOf_over r).trans (List.append_nil _).symm⟩
        · exact ⟨[c], outOf_put r c⟩

/-- What has been read by the two is not the same, and will not be. -/
def Differ (st : OptionsState) (r : NodeReading) : Prop :=
  (∃ p, Ahead st r p) ∨ Apart st.out (outOf r)

theorem Differ.step {st : OptionsState} {r : NodeReading} (h : Differ st r) (c : Char) :
    Differ (st.step c) (r.step c) := by
  rcases h with ⟨p, h⟩ | h
  · exact h.step c
  · obtain ⟨u, -, hu⟩ := out_step st c
    obtain ⟨v, hv⟩ := outOf_step r c
    refine .inr ?_
    rw [hu, hv]
    exact h.append u v

theorem Differ.run {st : OptionsState} {r : NodeReading} (h : Differ st r)
    (s : List Char) : Differ (s.foldl .step st) (s.foldl .step r) := by
  induction s generalizing st r with
  | nil => exact h
  | cons c rest ih => exact ih (h.step c)

theorem Differ.ne {st : OptionsState} {r : NodeReading} (h : Differ st r)
    (hclosed : st.quote = none) : st.all ≠ r.all := by
  intro heq
  have hflat : st.out ++ (if st.escaped then ['\\'] else []) = outOf r := by
    rw [← st.all_flatten, heq, all_flatten]
  rcases h with ⟨p, h⟩ | h
  · have hp : p = if st.escaped then ['\\'] else [] := by
      rw [h.out] at hflat
      exact (List.append_cancel_left hflat).symm
    have hq : r.quoted = false := by
      rw [h.quoted, hclosed]
      rfl
    have hlong := h.long
    rw [hp, hq] at hlong
    cases hesc : st.escaped with
    | true => simp [hesc] at hlong
    | false => simp [hesc] at hlong
  · have happart := h.append (if st.escaped then ['\\'] else []) []
    rw [List.append_nil] at happart
    exact happart.ne hflat

theorem Alike.out {st : OptionsState} {r : NodeReading} (h : Alike st r) :
    outOf r = st.out := by
  rw [outOf, OptionsState.out, h.args, h.current]

/-- Node is ahead by one character. -/
theorem Ahead.one {st : OptionsState} {r : NodeReading} {c : Char} (hc : Odd c)
    (hout : outOf r = st.out) (hquote : st.quote = none ∨ st.quote = some apostrophe)
    (hesc : st.escaped = false) (hquoted : r.quoted = false) :
    Ahead st (r.put c) [c] := by
  refine ⟨?_, fun d hd => List.mem_singleton.mp hd ▸ hc, ?_, ?_, ?_, fun hin => ?_, ?_⟩
  · rw [outOf_put, hout]
  · exact hquote.imp_right .inr
  · rcases hquote with hquote | hquote
    · rw [hquote]
      exact hquoted
    · rw [hquote]
      exact hquoted
  · rw [hesc]
    rfl
  · rw [hesc] at hin
    cases hin
  · simp [hesc]

/-- An odd character that comes first. -/
theorem Alike.first {st : OptionsState} {r : NodeReading} (h : Alike st r) {c : Char}
    (hesc : r.escaped = false) (hquoted : r.quoted = false) (hodd : Odd c)
    (hback : c ≠ '\\') : Differ (st.step c) (r.step c) := by
  have hst : st.escaped = false := h.escaped.trans hesc
  have hquote : st.quote = none := h.quote_none.mpr hquoted
  obtain ⟨hblank, hdouble⟩ := odd_ne hodd
  rw [step_bare hst hquote, read_bare hesc hquoted, if_neg hback, if_neg hdouble,
    if_neg hblank]
  by_cases hsingle : c = apostrophe
  · rw [if_pos (.inr hsingle)]
    exact .inl ⟨[c], .one hodd h.out (.inr (congrArg some hsingle)) hst hquoted⟩
  · have hspace : isJsSpace c = true := by
      rcases hodd with hc | hc | ⟨hspace, -⟩
      · exact absurd hc hback
      · exact absurd hc hsingle
      · exact hspace
    rw [if_neg (not_or.mpr ⟨hdouble, hsingle⟩), if_pos hspace]
    have hflush : st.flush.quote = none ∧ st.flush.escaped = false := by
      rw [OptionsState.flush]
      split
      · exact ⟨hquote, hst⟩
      · exact ⟨hquote, hst⟩
    exact .inl ⟨[c], .one hodd (h.out.trans (out_flush st).symm) (.inl hflush.1)
      hflush.2 hquoted⟩

/-- A backslash, and what it stands before. -/
theorem Alike.backslash {st : OptionsState} {r : NodeReading} (h : Alike st r)
    (hesc : r.escaped = false) (hquoted : r.quoted = false) (c : Char) :
    Differ ((st.step '\\').step c) ((r.step '\\').step c) := by
  have hst : st.escaped = false := h.escaped.trans hesc
  have hquote : st.quote = none := h.quote_none.mpr hquoted
  have hcli : (st.step '\\').step c = OptionsState.put { st with escaped := true } c := by
    rw [step_bare hst hquote, if_pos rfl, step_escaped rfl]
  have hread : r.step '\\' = r.put '\\' := by
    rw [read_bare hesc hquoted]
    rfl
  have hout : (OptionsState.put { st with escaped := true } c).out = st.out ++ [c] :=
    out_put { st with escaped := true } c
  have hnode : outOf (r.put '\\') = st.out ++ ['\\'] := by
    rw [outOf_put, h.out]
  rw [hcli, hread]
  by_cases hback : c = '\\'
  · have hne : c ≠ '"' ∧ c ≠ ' ' := by
      rw [hback]
      decide
    rw [read_bare (r := r.put '\\') rfl hquoted, if_neg hne.1, if_neg hne.2]
    refine .inl ⟨[c], .one (.inl hback) ?_ (.inl hquote) rfl hquoted⟩
    rw [hnode, hout, hback]
  · obtain ⟨u, hu⟩ := outOf_step (r.put '\\') c
    refine .inr ⟨st.out, c, '\\', [], u, hback, hout, ?_⟩
    rw [hu, hnode, List.append_assoc]
    rfl

theorem Alike.differ {st : OptionsState} {r : NodeReading} (h : Alike st r)
    {s : List Char} (hp : plainFrom r.quoted r.escaped s = false) :
    Differ (s.foldl .step st) (s.foldl .step r) := by
  induction s generalizing st r with
  | nil => cases hp
  | cons c rest ih =>
      by_cases hno : r.escaped = false → r.quoted = false → ¬ Odd c
      · obtain ⟨hnext, hrest⟩ := h.step hno rest
        rw [hrest] at hp
        exact ih hnext hp
      · simp only [Classical.not_imp, not_not] at hno
        obtain ⟨hesc, hquoted, hodd⟩ := hno
        by_cases hback : c = '\\'
        · rw [hesc, hquoted, plainFrom_odd hodd, decide_eq_false_iff_not] at hp
          cases rest with
          | nil => exact absurd ⟨hback, rfl⟩ hp
          | cons d rest =>
              rw [hback]
              exact (h.backslash hesc hquoted d).run rest
        · exact (h.first hesc hquoted hodd hback).run rest

theorem alike_start : Alike .start .start := ⟨rfl, rfl, rfl, rfl, nofun⟩

/-- The two read the same tokens from a value exactly when there is nothing odd
in it. -/
theorem parseNodeOptions_iff {value : Option (List Char)} {args : List (List Char)}
    (hargs : parseNodeOptions value = .ok args) :
    args = nodeTokens (value.getD []) ↔
      plainFrom false false (value.getD []) = true := by
  rw [parseNodeOptions_eq] at hargs
  simp only [] at hargs
  split at hargs
  · cases hargs
  · next hclosed =>
      obtain rfl := Except.ok.inj hargs
      rw [not_not] at hclosed
      constructor
      · intro heq
        by_contra hp
        have hodd : plainFrom false false (value.getD []) = false := by simpa using hp
        exact (alike_start.differ hodd).ne hclosed heq
      · exact fun hp => alike_start.run hp hclosed

/-! ## What is written, read back

`JSON.stringify` escapes more than Node's tokenizer takes off again. For every
character but the controls the two are inverse; for a control, what comes back
is the letters of the escape. -/

/-- What Node makes of a character that was written. -/
def readBackChar (c : Char) : List Char :=
  if c.toNat < 0x20 then (jsonChar c).drop 1 else [c]

def readBack (argument : List Char) : List Char := argument.flatMap readBackChar

/-- An escape: a backslash, a character, and what else belongs to it. -/
def isEscape : List Char → Bool
  | '\\' :: x :: more =>
      decide (0x20 ≤ x.toNat) &&
        more.all fun d => d ≠ '"' && d ≠ '\\' && decide (0x20 ≤ d.toNat)
  | _ => false

theorem isEscape_ofNat : ∀ n < 0x20, isEscape (jsonChar (Char.ofNat n)) = true := by
  decide

theorem jsonChar_control {c : Char} (hc : c.toNat < 0x20) :
    ∃ x more, jsonChar c = '\\' :: x :: more ∧ 0x20 ≤ x.toNat ∧
      ∀ d ∈ more, d ≠ '"' ∧ d ≠ '\\' ∧ 0x20 ≤ d.toNat := by
  have hescape := isEscape_ofNat c.toNat hc
  rw [Char.ofNat_toNat] at hescape
  unfold isEscape at hescape
  split at hescape
  · next x more heq =>
      simp only [Bool.and_eq_true, decide_eq_true_eq, List.all_eq_true] at hescape
      exact ⟨x, more, heq, hescape.1, fun d hd => by
        have := hescape.2 d hd
        grind⟩
  · cases hescape

theorem readBackChar_control (c : Char) : ∀ d ∈ readBackChar c, 0x20 ≤ d.toNat := by
  rw [readBackChar]
  split
  · next hc =>
      obtain ⟨x, more, heq, hx, hmore⟩ := jsonChar_control hc
      rw [heq]
      intro d hd
      rcases List.mem_cons.mp hd with rfl | hd
      · exact hx
      · exact (hmore d hd).2.2
  · next hc =>
      intro d hd
      rw [List.mem_singleton.mp hd]
      omega

theorem readBackChar_ne_nil (c : Char) : readBackChar c ≠ [] := by
  rw [readBackChar]
  split
  · next hc =>
      obtain ⟨x, more, heq, -⟩ := jsonChar_control hc
      rw [heq]
      exact List.cons_ne_nil _ _
  · exact List.cons_ne_nil _ _

/-- Between double quotes, characters that mean nothing there. -/
theorem read_plain {more : List Char} (hmore : ∀ d ∈ more, d ≠ '"' ∧ d ≠ '\\')
    (ts : List (List Char)) (t : List Char) :
    more.foldl .step (⟨ts, t, true, false⟩ : NodeReading) = ⟨ts, t ++ more, true, false⟩ := by
  induction more generalizing t with
  | nil => simp
  | cons d more ih =>
      obtain ⟨hdouble, hback⟩ := hmore d List.mem_cons_self
      have hput : NodeReading.step ⟨ts, t, true, false⟩ d = ⟨ts, t ++ [d], true, false⟩ := by
        rw [read_double rfl rfl, if_neg hdouble, if_neg hback]
        rfl
      rw [List.foldl_cons, hput, ih fun e he => hmore e (List.mem_cons_of_mem _ he)]
      simp

theorem read_escape {x : Char} {more : List Char}
    (hmore : ∀ d ∈ more, d ≠ '"' ∧ d ≠ '\\') (ts : List (List Char)) (t : List Char) :
    ('\\' :: x :: more).foldl .step (⟨ts, t, true, false⟩ : NodeReading) =
      ⟨ts, t ++ x :: more, true, false⟩ := by
  have hopen : NodeReading.step ⟨ts, t, true, false⟩ '\\' = ⟨ts, t, true, true⟩ := by
    rw [read_double rfl rfl]
    rfl
  have hput : NodeReading.step ⟨ts, t, true, true⟩ x = ⟨ts, t ++ [x], true, false⟩ :=
    read_escaped rfl x
  rw [List.foldl_cons, List.foldl_cons, hopen, hput, read_plain hmore]
  simp

theorem read_jsonChar (c : Char) (ts : List (List Char)) (t : List Char) :
    (jsonChar c).foldl .step (⟨ts, t, true, false⟩ : NodeReading) =
      ⟨ts, t ++ readBackChar c, true, false⟩ := by
  by_cases hc : c.toNat < 0x20
  · obtain ⟨x, more, heq, -, hmore⟩ := jsonChar_control hc
    rw [readBackChar, if_pos hc, heq,
      read_escape fun d hd => ⟨(hmore d hd).1, (hmore d hd).2.1⟩]
    rfl
  · rw [readBackChar, if_neg hc, jsonChar]
    by_cases hquote : c = '"' ∨ c = '\\'
    · rw [if_pos hquote]
      exact read_escape (by simp) ts t
    · rw [if_neg hquote, if_neg hc]
      exact read_plain (by simpa [not_or] using hquote) ts t

theorem read_jsonStringify (argument : List Char) (ts : List (List Char))
    (t : List Char) :
    (jsonStringify argument).foldl .step (⟨ts, t, false, false⟩ : NodeReading) =
      ⟨ts, t ++ readBack argument, false, false⟩ := by
  have hinner : ∀ (s t : List Char),
      (s.flatMap jsonChar).foldl .step (⟨ts, t, true, false⟩ : NodeReading) =
        ⟨ts, t ++ readBack s, true, false⟩ := by
    intro s
    induction s with
    | nil => simp [readBack]
    | cons c s ih =>
        intro t
        rw [List.flatMap_cons, List.foldl_append, read_jsonChar, ih]
        simp [readBack]
  have hopen : NodeReading.step ⟨ts, t, false, false⟩ '"' = ⟨ts, t, true, false⟩ := by
    rw [read_bare rfl rfl, if_pos rfl]
  have hclose : ∀ t, NodeReading.step ⟨ts, t, true, false⟩ '"' = ⟨ts, t, false, false⟩ := by
    intro t
    rw [read_double rfl rfl, if_pos rfl]
  rw [jsonStringify, List.foldl_cons, hopen, List.foldl_append, hinner, List.foldl_cons,
    List.foldl_nil, hclose]

theorem readBack_ne_nil {argument : List Char} (h : argument ≠ []) :
    readBack argument ≠ [] := by
  obtain ⟨c, rest, rfl⟩ := List.exists_cons_of_ne_nil h
  rw [readBack, List.flatMap_cons]
  exact List.append_ne_nil_of_left_ne_nil (readBackChar_ne_nil c) _

/-- The tokens Node reads from what was written. -/
theorem read_written {args : List (List Char)} (h : ∀ a ∈ args, a ≠ [])
    (ts : List (List Char)) :
    (([' '].intercalate (args.map jsonStringify)).foldl .step
      (⟨ts, [], false, false⟩ : NodeReading)).all = ts ++ args.map readBack := by
  induction args generalizing ts with
  | nil => simp [NodeReading.all, List.intercalate]
  | cons a args ih =>
      have hne := readBack_ne_nil (h a List.mem_cons_self)
      cases args with
      | nil => simp [List.intercalate, read_jsonStringify, NodeReading.all, hne]
      | cons b args =>
          have hjoin : [' '].intercalate ((a :: b :: args).map jsonStringify) =
              jsonStringify a ++ ' ' :: [' '].intercalate ((b :: args).map jsonStringify) := by
            simp [List.intercalate]
          have hover : NodeReading.step ⟨ts, readBack a, false, false⟩ ' ' =
              ⟨ts ++ [readBack a], [], false, false⟩ := by
            rw [read_bare rfl rfl]
            simp [NodeReading.all, hne]
          rw [hjoin, List.foldl_append, read_jsonStringify, List.nil_append, List.foldl_cons,
            hover, ih fun c hc => h c (List.mem_cons_of_mem _ hc)]
          simp

/-- No character that `JSON.stringify` writes as an escape Node does not know. -/
def Clean (s : List Char) : Prop := ∀ c ∈ s, 0x20 ≤ c.toNat

theorem clean_readBack (s : List Char) : Clean (readBack s) := by
  intro d hd
  obtain ⟨c, -, hd⟩ := List.mem_flatMap.mp hd
  exact readBackChar_control c d hd

theorem readBack_clean {s : List Char} (h : Clean s) : readBack s = s := by
  induction s with
  | nil => rfl
  | cons c s ih =>
      have hc : ¬ c.toNat < 0x20 := Nat.not_lt.mpr (h c List.mem_cons_self)
      have hs := ih fun d hd => h d (List.mem_cons_of_mem _ hd)
      rw [readBack, List.flatMap_cons, readBackChar, if_neg hc]
      exact congrArg (c :: ·) hs

theorem map_readBack {args : List (List Char)} (h : ∀ a ∈ args, Clean a) :
    args.map readBack = args := by
  induction args with
  | nil => rfl
  | cons a args ih =>
      rw [List.map_cons, readBack_clean (h a List.mem_cons_self),
        ih fun b hb => h b (List.mem_cons_of_mem _ hb)]

/-- Node keeps every control character. -/
theorem read_control {s : List Char} {c : Char} (hc : c ∈ s) (hcontrol : c.toNat < 0x20)
    (r : NodeReading) : c ∈ outOf (s.foldl .step r) := by
  have hgrows : ∀ (s : List Char) (r : NodeReading), c ∈ outOf r →
      c ∈ outOf (s.foldl .step r) := by
    intro s
    induction s with
    | nil => exact fun _ h => h
    | cons d s ih =>
        intro r h
        obtain ⟨u, hu⟩ := outOf_step r d
        exact ih _ (by rw [hu]; exact List.mem_append_left _ h)
  induction s generalizing r with
  | nil => cases hc
  | cons d s ih =>
      rcases List.mem_cons.mp hc with rfl | hc
      · have hput : r.step c = r.put c := by
          have hdouble : c ≠ '"' := by
            rintro rfl
            exact absurd hcontrol (by decide)
          have hback : c ≠ '\\' := by
            rintro rfl
            exact absurd hcontrol (by decide)
          have hblank : c ≠ ' ' := by
            rintro rfl
            exact absurd hcontrol (by decide)
          rw [NodeReading.step, if_neg hdouble, if_neg hback, if_neg hblank]
          simp
        refine hgrows s _ ?_
        rw [hput, outOf_put]
        exact List.mem_append_right _ (List.mem_singleton.mpr rfl)
      · exact ih hc (r.step d)

/-- The CLI writes nothing but what it has read. -/
theorem mem_out_run (s : List Char) (st : OptionsState) {c : Char}
    (hc : c ∈ (s.foldl .step st).out) : c ∈ st.out ∨ c ∈ s := by
  induction s generalizing st with
  | nil => exact .inl hc
  | cons d s ih =>
      rcases ih _ hc with hc | hc
      · obtain ⟨u, hd, hu⟩ := out_step st d
        rw [hu] at hc
        rcases List.mem_append.mp hc with hc | hc
        · exact .inl hc
        · rw [hd c hc]
          exact .inr List.mem_cons_self
      · exact .inr (List.mem_cons_of_mem _ hc)

theorem parseNodeOptions_clean {value : Option (List Char)} {args : List (List Char)}
    (hargs : parseNodeOptions value = .ok args) (h : Clean (value.getD [])) :
    ∀ a ∈ args, Clean a := by
  rw [parseNodeOptions_eq] at hargs
  simp only [] at hargs
  split at hargs
  · cases hargs
  · obtain rfl := Except.ok.inj hargs
    intro a ha c hc
    have hflat := List.mem_flatten_of_mem ha hc
    rw [OptionsState.all_flatten] at hflat
    rcases List.mem_append.mp hflat with hout | hback
    · rcases mem_out_run _ _ hout with hstart | hin
      · cases hstart
      · exact h c hin
    · split at hback
      · rw [List.mem_singleton.mp hback]
        decide
      · cases hback

theorem parseNodeOptions_ne_nil {value : Option (List Char)} {args : List (List Char)}
    (hargs : parseNodeOptions value = .ok args) : ∀ a ∈ args, a ≠ [] := by
  have hrun : ∀ (s : List Char) (st : OptionsState), (∀ a ∈ st.args, a ≠ []) →
      ∀ a ∈ (s.foldl .step st).args, a ≠ [] := by
    intro s
    induction s with
    | nil => exact fun _ h => h
    | cons c s ih =>
        intro st h
        refine ih _ ?_
        rw [OptionsState.step]
        split
        · exact h
        · split
          · exact h
          · split
            · split
              · exact h
              · exact h
            · split
              · exact h
              · split
                · split
                  · next hcur =>
                      intro a ha
                      rcases List.mem_append.mp ha with ha | ha
                      · exact h a ha
                      · exact List.mem_singleton.mp ha ▸ hcur
                  · exact h
                · exact h
  rw [parseNodeOptions_eq] at hargs
  simp only [] at hargs
  split at hargs
  · cases hargs
  · obtain rfl := Except.ok.inj hargs
    have hargs := hrun (value.getD []) .start nofun
    intro a ha
    simp only [OptionsState.all] at ha
    by_cases hcur : (if ((value.getD []).foldl OptionsState.step .start).escaped then
        ((value.getD []).foldl OptionsState.step .start).current ++ ['\\']
      else ((value.getD []).foldl OptionsState.step .start).current) = []
    · rw [if_neg (not_not.mpr hcur)] at ha
      exact hargs a ha
    · rw [if_pos hcur] at ha
      rcases List.mem_append.mp ha with ha | ha
      · exact hargs a ha
      · exact List.mem_singleton.mp ha ▸ hcur

/-! ## The option

Which tokens are the option is asked twice, by the CLI for one spelling and by
Node for two. Where no token has the second, both questions have one answer,
and what is left over when the option is taken out is the same list. -/

theorem isPrefix_iff (arg : List Char) :
    openSSLConfigIs.isPrefixOf arg = true ↔ Assigns openSSLConfig arg := by
  rw [List.isPrefixOf_iff_prefix]
  constructor
  · rintro ⟨v, rfl⟩
    exact ⟨v, rfl⟩
  · rintro ⟨v, rfl⟩
    exact ⟨v, rfl⟩

/-- The option is spelled with dashes, where it is. -/
def Dashed (args : List (List Char)) : Prop :=
  ∀ arg ∈ args, arg ≠ underscored ∧ ¬ Assigns underscored arg

theorem Dashed.tail {arg : List Char} {args : List (List Char)}
    (h : Dashed (arg :: args)) : Dashed args :=
  fun a ha => h a (List.mem_cons_of_mem _ ha)

theorem dashed_of_unseen {args : List (List Char)} (h : ¬ NodeSees args) : Dashed args :=
  fun arg harg => ⟨fun heq => h ⟨arg, harg, underscored, by simp [spellings], .inl heq⟩,
    fun has => h ⟨arg, harg, underscored, by simp [spellings], .inr has⟩⟩

theorem dashed_of_prefixes {args : List (List Char)}
    (h : args.any underscored.isPrefixOf = false) : Dashed args := by
  intro arg harg
  have hno := List.any_eq_false.mp h arg harg
  rw [List.isPrefixOf_iff_prefix] at hno
  exact ⟨fun heq => hno (heq ▸ List.prefix_rfl), fun ⟨v, heq⟩ => hno ⟨_, heq.symm⟩⟩

/-- What Node sees, the code sees, in its own spelling. -/
theorem hasOpenSSLConfig_iff {args : List (List Char)} (hd : Dashed args) :
    hasOpenSSLConfig args = true ↔ NodeSees args := by
  simp only [hasOpenSSLConfig, NodeSees, List.any_eq_true, Bool.or_eq_true,
    decide_eq_true_eq, isPrefix_iff]
  refine exists_congr fun arg => and_congr_right fun harg => ?_
  simp [spellings, hd arg harg]

theorem assigned_ne (v : List Char) : openSSLConfig ++ '=' :: v ≠ openSSLConfig := by
  intro heq
  have hlen := congrArg List.length heq
  rw [List.length_append, List.length_cons] at hlen
  omega

theorem without_cons {arg : List Char} (hne : arg ≠ openSSLConfig)
    (rest : List (List Char)) : withoutOpenSSLConfig (arg :: rest) =
      if openSSLConfigIs.isPrefixOf arg then withoutOpenSSLConfig rest
      else arg :: withoutOpenSSLConfig rest := by
  rw [withoutOpenSSLConfig.eq_def]
  simp only [hne, if_false]

theorem eq_of_spelling {arg name : List Char} (hd : arg ≠ underscored)
    (hname : name ∈ spellings) (h : arg = name) : arg = openSSLConfig := by
  rcases List.mem_cons.mp hname with rfl | hname
  · exact h
  · exact absurd (h.trans (List.mem_singleton.mp hname)) hd

theorem assigns_of_spelling {arg name : List Char} (hd : ¬ Assigns underscored arg)
    (hname : name ∈ spellings) (h : Assigns name arg) : Assigns openSSLConfig arg := by
  rcases List.mem_cons.mp hname with rfl | hname
  · exact h
  · exact absurd (List.mem_singleton.mp hname ▸ h) hd

/-- Leaving the option out, in the spelling the code knows, is what it does. -/
theorem without_eq {args kept : List (List Char)} (h : Without args kept)
    (hd : Dashed args) : kept = withoutOpenSSLConfig args := by
  induction h with
  | nil => rfl
  | option hname =>
      rw [eq_of_spelling (hd _ List.mem_cons_self).1 hname rfl]
      rfl
  | value hname _ ih =>
      rw [eq_of_spelling (hd _ List.mem_cons_self).1 hname rfl, withoutOpenSSLConfig,
        if_pos rfl, ih hd.tail.tail]
  | assigned hname has _ ih =>
      have hours := assigns_of_spelling (hd _ List.mem_cons_self).2 hname has
      obtain ⟨v, rfl⟩ := hours
      rw [without_cons (assigned_ne v), if_pos ((isPrefix_iff _).mpr ⟨v, rfl⟩), ih hd.tail]
  | @other arg rest kept hne hno _ ih =>
      have hours : arg ≠ openSSLConfig := fun heq => hne (heq ▸ List.mem_cons_self)
      rw [without_cons hours,
        if_neg ((isPrefix_iff arg).not.mpr (hno _ List.mem_cons_self)), ih hd.tail]

theorem without_withoutOpenSSLConfig {args : List (List Char)} (hd : Dashed args) :
    Without args (withoutOpenSSLConfig args) := by
  have hours : openSSLConfig ∈ spellings := List.mem_cons_self
  fun_induction withoutOpenSSLConfig args with
  | case1 => exact .nil
  | case2 => exact .option hours
  | case3 v rest ih => exact .value hours (ih hd.tail.tail)
  | case4 arg rest hne hpre ih =>
      exact .assigned hours ((isPrefix_iff arg).mp hpre) (ih hd.tail)
  | case5 arg rest hne hpre ih =>
      have harg := hd arg List.mem_cons_self
      refine .other (fun hname => hne (eq_of_spelling harg.1 hname rfl))
        (fun name hname has => ?_) (ih hd.tail)
      exact hpre ((isPrefix_iff arg).mpr (assigns_of_spelling harg.2 hname has))

theorem without_iff {args kept : List (List Char)} (hd : Dashed args) :
    Without args kept ↔ kept = withoutOpenSSLConfig args :=
  ⟨fun h => without_eq h hd, fun h => h ▸ without_withoutOpenSSLConfig hd⟩

theorem without_unnamed {args : List (List Char)} (h : ¬ hasOpenSSLConfig args = true) :
    withoutOpenSSLConfig args = args := by
  induction args with
  | nil => rfl
  | cons arg args ih =>
      simp only [hasOpenSSLConfig, List.any_cons, Bool.or_eq_true, decide_eq_true_eq,
        not_or] at h
      rw [without_cons h.1.1, if_neg h.1.2, ih h.2]

theorem mem_without {args : List (List Char)} {a : List Char}
    (h : a ∈ withoutOpenSSLConfig args) : a ∈ args := by
  fun_induction withoutOpenSSLConfig args with
  | case1 => exact h
  | case2 => cases h
  | case3 v rest ih => exact List.mem_cons_of_mem _ (List.mem_cons_of_mem _ (ih h))
  | case4 arg rest hne hpre ih => exact List.mem_cons_of_mem _ (ih h)
  | case5 arg rest hne hpre ih =>
      rcases List.mem_cons.mp h with rfl | h
      · exact List.mem_cons_self
      · exact List.mem_cons_of_mem _ (ih h)

theorem reported_iff {p : CliProcess} {args targetArguments : List (List Char)}
    {sources : List String} (hargs : parseNodeOptions p.nodeOptions = .ok args)
    (h : existingConfigSources p targetArguments = .ok sources) :
    "NODE_OPTIONS" ∈ sources ↔ hasOpenSSLConfig args = true := by
  have hin : ∀ (b : Bool) (name : String), name ≠ "NODE_OPTIONS" →
      "NODE_OPTIONS" ∉ if b then [name] else [] := by
    intro b name hne
    cases b with
    | false => simp
    | true => simpa using Ne.symm hne
  have hconf : "NODE_OPTIONS" ∉ if p.opensslConf.getD [] ≠ [] then ["OPENSSL_CONF"] else [] := by
    split
    · decide
    · simp
  simp only [existingConfigSources, hargs, bind, Except.bind, pure, Except.pure,
    Except.ok.injEq] at h
  rw [← h]
  simp only [List.mem_append, hconf, hin _ "the current node command line" (by decide),
    hin _ "the target command line" (by decide), false_or, or_false]
  cases hasOpenSSLConfig args with
  | false => simp
  | true => simp

theorem existingConfigSources_ok {p : CliProcess} {args : List (List Char)}
    (hargs : parseNodeOptions p.nodeOptions = .ok args)
    (targetArguments : List (List Char)) :
    ∃ sources, existingConfigSources p targetArguments = .ok sources := by
  rw [existingConfigSources, hargs]
  exact ⟨_, rfl⟩

theorem openSSLConfigIs_clean : Clean openSSLConfigIs := by
  have hall : openSSLConfigIs.all (fun c => decide (0x20 ≤ c.toNat)) = true := by decide
  simpa [Clean] using hall

/-- What Node reads from the value that is written. -/
theorem nodeTokens_written {value : Option (List Char)} {args : List (List Char)}
    {path rewritten : List Char} (hargs : parseNodeOptions value = .ok args)
    (h : nodeOptionsWithConfig value path = .ok rewritten) :
    nodeTokens rewritten =
      (withoutOpenSSLConfig args).map readBack ++ [openSSLConfigIs ++ readBack path] := by
  rw [nodeOptionsWithConfig, hargs] at h
  obtain rfl := Except.ok.inj h
  have hne : ∀ a ∈ withoutOpenSSLConfig args ++ [openSSLConfigIs ++ path], a ≠ [] := by
    intro a ha
    rcases List.mem_append.mp ha with ha | ha
    · exact parseNodeOptions_ne_nil hargs a (mem_without ha)
    · rw [List.mem_singleton.mp ha]
      exact List.append_ne_nil_of_left_ne_nil (by decide) _
  have hnew : readBack (openSSLConfigIs ++ path) = openSSLConfigIs ++ readBack path := by
    rw [readBack, List.flatMap_append]
    exact congrArg (· ++ readBack path) (readBack_clean openSSLConfigIs_clean)
  refine (read_written hne []).trans ?_
  rw [List.nil_append, List.map_append, List.map_singleton, hnew]

/-- Agreement, token by token. -/
theorem agreesWithNode_iff {p : CliProcess} {args : List (List Char)} {path : List Char}
    (hargs : parseNodeOptions p.nodeOptions = .ok args)
    (hd : Dashed (nodeTokens (p.nodeOptions.getD []))) :
    AgreesWithNode p path ↔
      (hasOpenSSLConfig args = true ↔ NodeSees (nodeTokens (p.nodeOptions.getD []))) ∧
      (withoutOpenSSLConfig args).map readBack =
        withoutOpenSSLConfig (nodeTokens (p.nodeOptions.getD [])) ∧
      Clean path := by
  obtain ⟨rewritten, hwritten⟩ : ∃ rewritten,
      nodeOptionsWithConfig p.nodeOptions path = .ok rewritten := by
    rw [nodeOptionsWithConfig, hargs]
    exact ⟨_, rfl⟩
  constructor
  · intro h
    obtain ⟨sources, hsources⟩ := existingConfigSources_ok hargs []
    obtain ⟨kept, hkept, htokens⟩ := h.rewrites rewritten hwritten
    rw [nodeTokens_written hargs hwritten, (without_iff hd).mp hkept] at htokens
    obtain ⟨hargs', hpath⟩ := List.append_inj' htokens rfl
    refine ⟨?_, hargs', ?_⟩
    · rw [← h.reports [] sources hsources, reported_iff hargs hsources]
    · have hback := List.append_cancel_left (List.singleton_inj.mp hpath)
      rw [← hback]
      exact clean_readBack path
  · rintro ⟨hsees, hkept, hpath⟩
    refine ⟨fun targetArguments sources hsources => ?_, fun other hother => ?_⟩
    · rw [reported_iff hargs hsources, hsees]
    · obtain rfl := Except.ok.inj (hwritten.symm.trans hother)
      refine ⟨_, (without_iff hd).mpr rfl, ?_⟩
      rw [nodeTokens_written hargs hwritten, hkept, readBack_clean hpath]

/-- A value without control characters is one whose tokens, for Node, have none. -/
theorem clean_of_tokens {value : List Char} (h : ∀ a ∈ nodeTokens value, Clean a) :
    Clean value := by
  intro c hc
  by_contra hcontrol
  have hout := read_control hc (Nat.lt_of_not_le hcontrol) .start
  rw [← all_flatten] at hout
  obtain ⟨a, ha, hca⟩ := List.mem_flatten.mp hout
  exact hcontrol (h a ha c hca)

/-- A value that is plain is rewritten as Node reads it. When Node sees no
OpenSSL option in it, no other is. -/
theorem options_agree_iff {p : CliProcess} {args : List (List Char)}
    (hargs : parseNodeOptions p.nodeOptions = .ok args) (path : List Char) :
    (Plain (p.nodeOptions.getD []) path → AgreesWithNode p path) ∧
    (¬ NodeSees (nodeTokens (p.nodeOptions.getD [])) →
      (AgreesWithNode p path ↔ Plain (p.nodeOptions.getD []) path)) := by
  have hplain : Plain (p.nodeOptions.getD []) path → AgreesWithNode p path := by
    intro h
    have heq := (parseNodeOptions_iff hargs).mpr h.rules
    have hclean := parseNodeOptions_clean hargs h.value
    have hd := h.spelled
    rw [← heq] at hd
    rw [agreesWithNode_iff hargs h.spelled, ← heq]
    exact ⟨hasOpenSSLConfig_iff hd, map_readBack fun a ha => hclean a (mem_without ha), h.path⟩
  refine ⟨hplain, fun hunseen => ⟨fun h => ?_, hplain⟩⟩
  have hd := dashed_of_unseen hunseen
  obtain ⟨hsees, hkept, hpath⟩ := (agreesWithNode_iff hargs hd).mp h
  rw [without_unnamed ((hasOpenSSLConfig_iff hd).not.mpr hunseen),
    without_unnamed (hsees.not.mpr hunseen)] at hkept
  have hvalue : Clean (p.nodeOptions.getD []) := by
    refine clean_of_tokens fun a ha => ?_
    rw [← hkept] at ha
    obtain ⟨b, -, rfl⟩ := List.mem_map.mp ha
    exact clean_readBack b
  rw [map_readBack (parseNodeOptions_clean hargs hvalue)] at hkept
  exact ⟨(parseNodeOptions_iff hargs).mp hkept, hd, hvalue, hpath⟩

/-- Two options, one of them quoted. -/
def plainProcess : CliProcess :=
  ⟨none, some "--no-warnings --title=\"a \\\" b\"".toList, []⟩

theorem plainProcess_args : parseNodeOptions plainProcess.nodeOptions =
    .ok ["--no-warnings".toList, "--title=a \" b".toList] := by
  decide +kernel

theorem options_agree_iff_plain :
    (Plain (plainProcess.nodeOptions.getD []) "/tmp/x.cnf".toList →
      AgreesWithNode plainProcess "/tmp/x.cnf".toList) ∧
    (¬ NodeSees (nodeTokens (plainProcess.nodeOptions.getD [])) →
      (AgreesWithNode plainProcess "/tmp/x.cnf".toList ↔
        Plain (plainProcess.nodeOptions.getD []) "/tmp/x.cnf".toList)) :=
  options_agree_iff plainProcess_args "/tmp/x.cnf".toList

def windowsProcess : CliProcess := ⟨none, some "--require C:\\hook.js".toList, []⟩

/-- The backslash of a path is gone. -/
theorem options_lost :
    parseNodeOptions windowsProcess.nodeOptions =
      .ok ["--require".toList, "C:hook.js".toList] ∧
    nodeTokens "--require C:\\hook.js".toList =
      ["--require".toList, "C:\\hook.js".toList] ∧
    ¬ AgreesWithNode windowsProcess "/tmp/x.cnf".toList := by
  have hargs : parseNodeOptions windowsProcess.nodeOptions =
      .ok ["--require".toList, "C:hook.js".toList] := by decide +kernel
  have hnode : nodeTokens "--require C:\\hook.js".toList =
      ["--require".toList, "C:\\hook.js".toList] := by decide +kernel
  refine ⟨hargs, hnode, fun h => ?_⟩
  have hd : Dashed (nodeTokens (windowsProcess.nodeOptions.getD [])) :=
    dashed_of_prefixes (by decide +kernel)
  have hkept := ((agreesWithNode_iff hargs hd).mp h).2.1
  exact absurd hkept (by decide +kernel)

end AwsKms.Model
