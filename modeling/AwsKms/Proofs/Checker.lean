import AwsKms.Model.Checker
import AwsKms.Proofs.Render

/-!
# The checker does not read what the loader writes

The loader writes the path in quotes, and the checker does not take quotes
off. So the value it has for the rendered line begins with a quote, no
expansion changes that, and no absolute path does: it reports the module as
relative. What it says about everything else is what it would say about the
template, since one line differs and that line only assigns `module`.

The claim that it reads the path back can so be true for one reason only:
another line counts, and happens to name the same path.
-/

namespace AwsKms.Model

open AwsKms.Lib AwsKms.Spec

theorem matchEnv_quote (rest : List Char) : matchEnv ('"' :: rest) = none := rfl

theorem expandEnv_quote (env : List Char → Option (List Char)) (rest : List Char) :
    ∃ more, (expandEnv env ('"' :: rest)).1 = '"' :: more := by
  rw [expandEnv, List.length_cons, expandEnvFrom, matchEnv_quote]
  exact ⟨_, rfl⟩

/-- What the checker asks for an absolute path. -/
structure NodePaths (h : CheckerHost) : Prop where
  isAbsolute : h.isAbsolute = posixIsAbsolute ∨ h.isAbsolute = win32IsAbsolute

theorem quote_relative {h : CheckerHost} (hn : NodePaths h) (rest : List Char) :
    h.isAbsolute ('"' :: rest) = false := by
  rcases hn.isAbsolute with heq | heq
  · rw [heq]
    rfl
  · have hsep : isSeparator '"' = false := by decide
    have halpha : '"'.isAlpha = false := by decide
    rw [heq]
    rcases rest with _ | ⟨d, _ | ⟨e, rest⟩⟩
    · simp [win32IsAbsolute, hsep]
    · simp [win32IsAbsolute, hsep]
    · simp [win32IsAbsolute, hsep, halpha]

theorem inspectModule_quote {h : CheckerHost} (hn : NodePaths h) {st : CnfState}
    {ourSect rest : List Char}
    (hraw : st.get (some ourSect) "module" = some ('"' :: rest)) :
    (inspectModule h st ourSect).2 = none := by
  obtain ⟨more, hmore⟩ := expandEnv_quote h.env rest
  simp only [inspectModule, hraw, isFalsy, Option.getD_some, reduceCtorEq, decide_false,
    Bool.false_eq_true, if_false]
  split
  · rfl
  · next expanded hexpand =>
      rw [hexpand] at hmore
      obtain rfl : expanded = '"' :: more := hmore
      simp [quote_relative hn]

/-! ## Two readings that differ in one assignment

The checker folds over the lines with one state, so two files that differ in
one line differ in what that line does to the state. When the line assigns
`module` in some section, that assignment is the whole difference, and it
lasts until a later line of the section assigns `module` again. -/

theorem get_update (st : CnfState) (key value : List Char) (s : Option (List Char))
    (k : String) :
    CnfState.get ⟨st.current, Function.update st.sections st.current
      ((st.sections st.current).map fun m => Function.update m key (some value))⟩ s k =
    if s = st.current ∧ k.toList = key then
      (st.sections st.current).map fun _ => value
    else st.get s k := by
  rw [CnfState.get, CnfState.get]
  by_cases hs : s = st.current
  · subst hs
    simp only [Function.update_self]
    cases st.sections st.current with
    | none => simp
    | some m =>
        by_cases hk : k.toList = key
        · simp [hk]
        · simp [hk]
  · simp [hs]

theorem isSome_update (st : CnfState) (f : CnfSection → CnfSection)
    (s : Option (List Char)) :
    (Function.update st.sections st.current ((st.sections st.current).map f) s).isSome =
      (st.sections s).isSome := by
  by_cases hs : s = st.current
  · subst hs
    simp
  · simp [hs]

/-- The same sections, and the same settings but for `module` in one of them. -/
structure SameBut (s₀ : Option (List Char)) (st st' : CnfState) : Prop where
  current : st.current = st'.current
  isSome : ∀ s, (st.sections s).isSome = (st'.sections s).isSome
  get : ∀ s k, s ≠ s₀ ∨ k ≠ "module" → st.get s k = st'.get s k

theorem map_isSome {α β γ : Type} {x : Option α} {y : Option β} (v : γ)
    (h : x.isSome = y.isSome) : (x.map fun _ => v) = y.map fun _ => v := by
  cases x with
  | none =>
      cases y with
      | none => rfl
      | some b => simp at h
  | some a =>
      cases y with
      | none => simp at h
      | some b => rfl

/-- A header's section, new or not, has the settings it had. -/
theorem header_get (st : CnfState) (name : List Char) (s : Option (List Char))
    (k : String) :
    CnfState.get ⟨some name, if (st.sections (some name)).isSome then st.sections
      else Function.update st.sections (some name) (some fun _ => none)⟩ s k =
    st.get s k := by
  rw [CnfState.get, CnfState.get]
  cases hname : st.sections (some name) with
  | some m => simp
  | none =>
      by_cases hs : s = some name
      · subst hs
        simp [hname]
      · simp [hs]

theorem header_isSome (st : CnfState) (name : List Char) (s : Option (List Char)) :
    ((if (st.sections (some name)).isSome then st.sections
      else Function.update st.sections (some name) (some fun _ => none)) s).isSome =
    ((st.sections s).isSome || s = some name) := by
  cases hname : st.sections (some name) with
  | some m =>
      by_cases hs : s = some name
      · subst hs
        simp [hname]
      · simp [hs]
  | none =>
      by_cases hs : s = some name
      · subst hs
        simp
      · simp [hs]

theorem SameBut.step {s₀ : Option (List Char)} {st st' : CnfState}
    (h : SameBut s₀ st st') (l : List Char) : SameBut s₀ (st.step l) (st'.step l) := by
  unfold CnfState.step
  cases readCnfLine l with
  | other => exact h
  | header name =>
      refine ⟨rfl, fun s => ?_, fun s k hne => ?_⟩
      · rw [header_isSome, header_isSome, h.isSome]
      · rw [header_get, header_get, h.get s k hne]
  | assign key value =>
      refine ⟨h.current, fun s => ?_, fun s k hne => ?_⟩
      · simp only [isSome_update]
        exact h.isSome s
      · simp only [get_update]
        rw [h.current, map_isSome value (h.isSome st'.current), h.get s k hne]

theorem SameBut.fold {s₀ : Option (List Char)} {st st' : CnfState}
    (h : SameBut s₀ st st') (ls : List (List Char)) :
    SameBut s₀ (ls.foldl .step st) (ls.foldl .step st') := by
  induction ls generalizing st st' with
  | nil => exact h
  | cons l ls ih => exact ih (h.step l)

/-- Some of the lines assigns `module` in the section `s₀`; `current` is the
section they begin in. -/
def assignsModule (s₀ current : Option (List Char)) : List (List Char) → Bool
  | [] => false
  | l :: ls =>
      match readCnfLine l with
      | .header name => assignsModule s₀ (some name) ls
      | .assign key _ =>
          (current = s₀ && key = "module".toList) || assignsModule s₀ current ls
      | .other => assignsModule s₀ current ls

/-- What the two agree on they go on agreeing on. -/
theorem SameBut.step_module {s₀ : Option (List Char)} {st st' : CnfState}
    (h : SameBut s₀ st st') (hm : st.get s₀ "module" = st'.get s₀ "module")
    (l : List Char) :
    (st.step l).get s₀ "module" = (st'.step l).get s₀ "module" := by
  unfold CnfState.step
  cases readCnfLine l with
  | other => exact hm
  | header name =>
      rw [header_get, header_get]
      exact hm
  | assign key value =>
      simp only [get_update]
      rw [h.current, map_isSome value (h.isSome st'.current), hm]

theorem SameBut.fold_module {s₀ : Option (List Char)} {st st' : CnfState}
    (h : SameBut s₀ st st') (hm : st.get s₀ "module" = st'.get s₀ "module")
    (ls : List (List Char)) : (ls.foldl .step st).get s₀ "module" =
      (ls.foldl .step st').get s₀ "module" := by
  induction ls generalizing st st' with
  | nil => exact hm
  | cons l ls ih => exact ih (h.step l) (h.step_module hm l)

/-- A later assignment makes up the difference. -/
theorem SameBut.fold_assigned {s₀ : Option (List Char)} {st st' : CnfState}
    (h : SameBut s₀ st st') {ls : List (List Char)}
    (ha : assignsModule s₀ st.current ls = true) :
    (ls.foldl .step st).get s₀ "module" = (ls.foldl .step st').get s₀ "module" := by
  induction ls generalizing st st' with
  | nil => cases ha
  | cons l ls ih =>
      rw [assignsModule] at ha
      cases hl : readCnfLine l with
      | other =>
          rw [hl] at ha
          refine ih (h.step l) ?_
          rw [CnfState.step, hl]
          exact ha
      | header name =>
          rw [hl] at ha
          refine ih (h.step l) ?_
          rw [CnfState.step, hl]
          exact ha
      | assign key value =>
          simp only [hl, Bool.or_eq_true, Bool.and_eq_true, decide_eq_true_eq] at ha
          rcases ha with ⟨hcur, hkey⟩ | ha
          · refine (h.step l).fold_module ?_ ls
            simp only [CnfState.step, hl, get_update]
            rw [if_pos ⟨hcur.symm, hkey.symm⟩, if_pos ⟨by rw [← h.current, hcur], hkey.symm⟩]
            rw [h.current, map_isSome value (h.isSome st'.current)]
          · refine ih (h.step l) ?_
            rw [CnfState.step, hl]
            exact ha

/-- Without a later assignment the setting stays. -/
theorem fold_unassigned {s₀ : Option (List Char)} {st : CnfState}
    {ls : List (List Char)} (ha : assignsModule s₀ st.current ls = false) :
    (ls.foldl .step st).get s₀ "module" = st.get s₀ "module" := by
  induction ls generalizing st with
  | nil => rfl
  | cons l ls ih =>
      rw [assignsModule] at ha
      cases hl : readCnfLine l with
      | other =>
          have hstep : st.step l = st := by
            rw [CnfState.step, hl]
          rw [hl] at ha
          rw [List.foldl_cons, hstep, ih ha]
      | header name =>
          rw [hl] at ha
          have hcur : (st.step l).current = some name := by
            rw [CnfState.step, hl]
          rw [List.foldl_cons, ih (hcur ▸ ha), CnfState.step, hl]
          exact header_get st name s₀ "module"
      | assign key value =>
          simp only [hl, Bool.or_eq_false_iff, Bool.and_eq_false_iff,
            decide_eq_false_iff_not] at ha
          have hcur : (st.step l).current = st.current := by
            rw [CnfState.step, hl]
          rw [List.foldl_cons, ih (hcur ▸ ha.2), CnfState.step, hl]
          simp only [get_update]
          refine if_neg fun hboth => ?_
          rcases ha.1 with hne | hne
          · exact hne hboth.1.symm
          · exact hne hboth.2.symm

/-- The section lines are read into is there. -/
theorem fold_current_isSome {st : CnfState} (h : (st.sections st.current).isSome)
    (ls : List (List Char)) :
    ((ls.foldl .step st).sections (ls.foldl CnfState.step st).current).isSome := by
  induction ls generalizing st with
  | nil => exact h
  | cons l ls ih =>
      refine ih ?_
      unfold CnfState.step
      cases readCnfLine l with
      | other => exact h
      | header name =>
          rw [header_isSome]
          simp
      | assign key value =>
          simp only [isSome_update]
          exact h

/-- The settings depend on no `module`. -/
theorem inspectSettings_congr {s₀ : Option (List Char)} {st st' : CnfState}
    (h : SameBut s₀ st st') : inspectSettings st = inspectSettings st' := by
  have hnone : ∀ s, (st.sections s).isNone = (st'.sections s).isNone := fun s => by
    rw [← Option.not_isSome, ← Option.not_isSome, h.isSome]
  have hget : ∀ s k, k ≠ "module" → st.get s k = st'.get s k :=
    fun s k hk => h.get s k (.inr hk)
  have h1 := fun s => hget s "nodejs_conf" (by decide)
  have h2 := fun s => hget s "providers" (by decide)
  have h3 := fun s => hget s "default" (by decide)
  have h4 := fun s => hget s "activate" (by decide)
  have h5 := fun s => hget s "aws-kms" (by decide)
  simp only [inspectSettings, hnone, h1, h2, h3, h4, h5]

theorem blank_jsSpace {c : Char} (h : isBlank c = true) : isJsSpace c = true := by
  rw [isBlank, Bool.or_eq_true, decide_eq_true_eq, decide_eq_true_eq] at h
  rcases h with rfl | rfl
  · decide
  · decide

theorem stripComment_append {s : List Char} (hs : '#' ∉ s) (t : List Char) :
    stripComment (s ++ t) = s ++ stripComment t := by
  induction s with
  | nil => rfl
  | cons c s ih =>
      have hc : c ≠ '#' := fun h => hs (h ▸ List.mem_cons_self)
      rw [List.cons_append, stripComment, ih fun h => hs (List.mem_cons_of_mem _ h)]
      simp [hc]

/-- The end is taken off behind the last character that is no blank. -/
theorem trimEnd_append (s : List Char) {q : Char} (hq : isJsSpace q = false)
    (t : List Char) : ∃ t', trimEnd (s ++ q :: t) = s ++ q :: t' := by
  have hback : (s ++ q :: t).reverse = t.reverse ++ q :: s.reverse := by simp
  rw [trimEnd, hback]
  by_cases hall : ∀ c ∈ t.reverse, isJsSpace c = true
  · refine ⟨[], ?_⟩
    rw [List.dropWhile_append_of_pos hall, List.dropWhile_cons_of_neg (by simp [hq])]
    simp
  · have hne : t.reverse.dropWhile isJsSpace ≠ [] := fun h =>
      hall (List.dropWhile_eq_nil_iff.mp h)
    refine ⟨(t.reverse.dropWhile isJsSpace).reverse, ?_⟩
    rw [List.dropWhile_append]
    simp [hne]

theorem trim_module {b : List Char} (hb : Blank b) :
    trim ("module".toList ++ b) = "module".toList := by
  have hm : isJsSpace 'm' = false := by decide
  have he : isJsSpace 'e' = false := by decide
  have hfront : ("module".toList ++ b).dropWhile isJsSpace = "module".toList ++ b := by
    rw [moduleText, List.cons_append, List.dropWhile_cons_of_neg (by simp [hm])]
  have hrev : "module".toList.reverse = 'e' :: "ludom".toList := by decide
  have hall : ∀ c ∈ b.reverse, isJsSpace c = true := fun c hc =>
    blank_jsSpace (hb.all c (List.mem_reverse.mp hc))
  rw [trim, hfront, trimEnd, List.reverse_append, List.dropWhile_append_of_pos hall,
    hrev, List.dropWhile_cons_of_neg (by simp [he])]
  decide

/-- A line that begins as the module line does assigns `module` a value with
the same first character, or is not read. -/
theorem readCnfLine_lead {a b c : List Char} (ha : Blank a) (hb : Blank b)
    (hc : Blank c) {q : Char} (hq : isJsSpace q = false) (hhash : q ≠ '#')
    (x : List Char) :
    readCnfLine (leadText a b c ++ q :: x) = .other ∨
      ∃ rest, readCnfLine (leadText a b c ++ q :: x) =
        .assign "module".toList (q :: rest) := by
  have hblank : ∀ {s : List Char}, Blank s → '#' ∉ s := fun hs hmem =>
    absurd (hs.all '#' hmem) (by decide)
  have hlead : '#' ∉ leadText a b c := by
    have hm : '#' ∉ "module".toList := by decide
    simp only [leadText, List.mem_append, List.mem_cons, not_or]
    exact ⟨hblank ha, hm, hblank hb, by decide, hblank hc⟩
  have hstrip : stripComment (leadText a b c ++ q :: x) =
      leadText a b c ++ q :: stripComment x := by
    rw [stripComment_append hlead, stripComment]
    simp [hhash]
  have hm : isJsSpace 'm' = false := by decide
  have hfront : (leadText a b c ++ q :: stripComment x).dropWhile isJsSpace =
      ("module".toList ++ b) ++ '=' :: (c ++ q :: stripComment x) := by
    have hall : ∀ d ∈ a, isJsSpace d = true := fun d hd => blank_jsSpace (ha.all d hd)
    rw [leadText, List.append_assoc, List.dropWhile_append_of_pos hall, moduleText,
      List.cons_append, List.cons_append, List.dropWhile_cons_of_neg (by simp [hm])]
    simp
  obtain ⟨y, hy⟩ := trimEnd_append (("module".toList ++ b) ++ '=' :: c) hq (stripComment x)
  have htrim : trim (stripComment (leadText a b c ++ q :: x)) =
      ("module".toList ++ b) ++ '=' :: (c ++ q :: y) := by
    rw [hstrip, trim, hfront]
    simpa using hy
  have hheader : matchHeader (("module".toList ++ b) ++ '=' :: (c ++ q :: y)) = none := by
    rw [moduleText]
    rfl
  have hnil : Blank [] := ⟨by simp⟩
  have hno : '=' ∉ "module".toList ++ b := noEquals hnil hb
  have hkey := takeWhile_cut (b := c ++ q :: y) hno
  have hall : ∀ d ∈ "module".toList ++ b, decide (d ≠ '=') = true :=
    fun d hd => by simpa using fun heq : d = '=' => hno (heq ▸ hd)
  have hdrop : (("module".toList ++ b) ++ '=' :: (c ++ q :: y)).dropWhile
      (fun d => d ≠ '=') = '=' :: (c ++ q :: y) := by
    rw [List.dropWhile_append_of_pos hall]
    simp
  have hvalue : (c ++ q :: y).dropWhile isJsSpace = q :: y := by
    have hallc : ∀ d ∈ c, isJsSpace d = true := fun d hd => blank_jsSpace (hc.all d hd)
    rw [List.dropWhile_append_of_pos hallc, List.dropWhile_cons_of_neg (by simp [hq])]
  have hnamed : "module".toList ++ b ≠ [] := by
    rw [moduleText]
    exact List.cons_ne_nil _ _
  obtain ⟨z, hz⟩ := trimEnd_append [] hq y
  have hlast : trim (q :: y) = q :: z := by
    rw [trim, List.dropWhile_cons_of_neg (by simp [hq])]
    exact hz
  rw [readCnfLine, htrim, hheader]
  simp only [matchAssign, hkey, hdrop, hvalue, hnamed, decide_false, Bool.false_or,
    trim_module hb, hlast]
  cases (q :: y).any isLineTerminator with
  | true => exact .inl rfl
  | false => exact .inr ⟨z, rfl⟩

/-! ## The lines of the rendered file

The loader and the checker do not mean the same by a line: for the first a CR
ends one too, and two separators of Unicode. The module line is therefore
taken with what stands behind it up to the next newline. -/

/-- Where the module line stands: it begins the text or follows a newline, and
up to the next newline there is nothing but what a terminator cuts off. A module
line that begins behind another terminator is left out: it is no line of its own
for libcrypto. -/
structure ModuleLineAt (template pre line trail post : List Char) : Prop where
  text : template = pre ++ (line ++ (trail ++ post))
  here : IsModuleLine line
  begins : pre = [] ∨ ∃ t, pre = t ++ ['\n']
  cut : ∀ c ∈ trail.head?, isLineTerminator c = true
  within : '\n' ∉ trail
  ends : post = [] ∨ ∃ t, post = '\n' :: t

/-- What satisfies `P` once in a list stands in one place. -/
theorem cut_once {α : Type} {P : α → Prop} {l m : α} {before after ls ms : List α}
    (h : before ++ l :: after = ls ++ m :: ms) (hm : P m)
    (honly : ∀ x ∈ before ++ after, ¬ P x) : before = ls ∧ l = m ∧ after = ms := by
  rcases List.append_eq_append_iff.mp h with ⟨z, rfl, hz⟩ | ⟨z, rfl, hz⟩
  · cases z with
    | nil =>
        obtain ⟨rfl, rfl⟩ := List.cons.inj hz
        exact ⟨by simp, rfl, rfl⟩
    | cons x z =>
        obtain ⟨rfl, rfl⟩ := List.cons.inj hz
        exact absurd hm (honly m (by simp))
  · cases z with
    | nil =>
        obtain ⟨rfl, rfl⟩ := List.cons.inj hz
        exact ⟨by simp, rfl, rfl⟩
    | cons x z =>
        obtain ⟨rfl, rfl⟩ := List.cons.inj hz
        exact absurd hm (honly m (by simp))

theorem rendered_text {template pre line trail post path rendered : List Char}
    (hat : ModuleLineAt template pre line trail post)
    (hr : renderConfig template path = .ok rendered) :
    path.any isControl = false ∧
      rendered = pre ++ (renderedLine line path ++ (trail ++ post)) := by
  obtain ⟨ls, hjoin, hls⟩ := cutLines_begins _ newline_ends hat.begins
  have hend : trail ++ post = [] ∨
      ∃ c t, trail ++ post = c :: t ∧ isLineTerminator c = true := by
    cases htrail : trail with
    | nil =>
        rcases hat.ends with rfl | ⟨t, rfl⟩
        · exact .inl rfl
        · exact .inr ⟨'\n', t, rfl, newline_ends⟩
    | cons c t => exact .inr ⟨c, t ++ post, rfl, hat.cut c (by rw [htrail]; rfl)⟩
  obtain ⟨t, ms, hcut, hms⟩ := cutLines_here hend
  have htemplate : cutLines isLineTerminator template = ls ++ (line, t) :: ms := by
    rw [hat.text, hls, hcut line (moduleLine_ends hat.here)]
  by_cases hone : ∃ before l after, OneModuleLine template before l after
  · obtain ⟨before, l, after, h⟩ := hone
    obtain ⟨rfl, rfl, rfl⟩ := cut_once (P := fun l : Line Char => IsModuleLine l.1)
      (h.cut.symm.trans htemplate) hat.here h.only
    obtain ⟨lead, hlead⟩ := (isModuleLine_iff line).mp hat.here
    rw [renderConfig_one h hlead] at hr
    cases hcontrol : path.any isControl with
    | true => simp [hcontrol] at hr
    | false =>
        simp only [hcontrol, Bool.false_eq_true, if_false, Except.ok.injEq] at hr
        refine ⟨rfl, ?_⟩
        rw [← hr, joinLines_append, hjoin, hms, renderedLine, hlead]
        rfl
  · rw [← oneModuleLine_iff] at hone
    rw [renderConfig, if_pos hone] at hr
    cases hr

theorem splitNewlines_at {pre post : List Char}
    (hbegins : pre = [] ∨ ∃ t, pre = t ++ ['\n'])
    (hends : post = [] ∨ ∃ t, post = '\n' :: t) :
    ∃ ls ms : List (List Char), (∀ x, '\n' ∉ x →
      splitNewlines (pre ++ (x ++ post)) = ls ++ x :: ms) ∧
      splitNewlines pre = ls ++ [[]] ∧ splitNewlines post = [] :: ms := by
  obtain ⟨ls, -, hls⟩ := cutLines_begins (fun c => c = '\n') (by decide) hbegins
  have hend : post = [] ∨ ∃ c t, post = c :: t ∧ decide (c = '\n') = true := by
    rcases hends with rfl | ⟨t, rfl⟩
    · exact .inl rfl
    · exact .inr ⟨'\n', t, rfl, by decide⟩
  obtain ⟨t, ms, hms, -⟩ := cutLines_here hend
  refine ⟨ls.map Prod.fst, ms.map Prod.fst, fun x hx => ?_, ?_, ?_⟩
  · have hx : ∀ d ∈ x, decide (d = '\n') = false := fun d hd => by
      simpa using fun heq : d = '\n' => hx (heq ▸ hd)
    rw [splitNewlines, hls, hms x hx, List.map_append, List.map_cons]
  · have hpre := hls []
    rw [List.append_nil] at hpre
    rw [splitNewlines, hpre, List.map_append]
    rfl
  · have hpost := hms [] (by simp)
    rw [List.nil_append] at hpost
    rw [splitNewlines, hpost, List.map_cons]

/-! ## What the checker makes of it

Rendered or not, the settings are the same, since the line that changed
assigns nothing that they look at. What the file gives for a module path is
then decided by who assigns `module` last, and a value in quotes is never a
path. -/

theorem inspectCnf_settings (h : CheckerHost) (text : List Char) :
    (inspectCnf h text).settings = (inspectSettings (readCnf text)).1 := by
  rw [inspectCnf]
  rcases inspectSettings (readCnf text) with ⟨settings, _ | ourSect⟩
  · rfl
  · rfl

theorem inspectCnf_path (h : CheckerHost) (text : List Char) :
    (inspectCnf h text).path = match (inspectSettings (readCnf text)).2 with
      | none => none
      | some ourSect => (inspectModule h (readCnf text) ourSect).2 := by
  rw [inspectCnf]
  rcases inspectSettings (readCnf text) with ⟨settings, _ | ourSect⟩
  · rfl
  · rfl

/-- An assignment to `module` makes no other difference. -/
theorem sameBut_assign {st : CnfState} {l value : List Char}
    (hl : readCnfLine l = .assign "module".toList value) :
    SameBut st.current (st.step l) st := by
  have hstep : st.step l = ⟨st.current, Function.update st.sections st.current
      ((st.sections st.current).map fun m =>
        Function.update m "module".toList (some value))⟩ := by
    rw [CnfState.step, hl]
  rw [hstep]
  refine ⟨rfl, fun s => isSome_update st _ s, fun s k hne => ?_⟩
  rw [get_update]
  refine if_neg fun hboth => ?_
  rcases hne with hne | hne
  · exact hne hboth.1
  · exact hne (String.toList_injective hboth.2)

theorem step_other {st : CnfState} {l : List Char} (hl : readCnfLine l = .other) :
    st.step l = st := by
  rw [CnfState.step, hl]

/-- The path that is looked for, of a value that expands. -/
theorem inspectModule_path {h : CheckerHost} {st : CnfState}
    {ourSect raw expanded : List Char}
    (hraw : st.get (some ourSect) "module" = some raw) (hempty : raw ≠ [])
    (hexpand : expandEnv h.env raw = (expanded, [])) :
    (inspectModule h st ourSect).2 =
      if h.isAbsolute expanded then some expanded else none := by
  simp only [inspectModule, hraw, isFalsy, Option.getD_some, hempty, decide_false,
    Bool.false_eq_true, if_false, hexpand]
  cases h.isAbsolute expanded with
  | false => rfl
  | true =>
      cases hasModuleExtension expanded with
      | false => rfl
      | true =>
          cases h.stat expanded with
          | ok size => rfl
          | error code => rfl

theorem inspectModule_path_iff {h : CheckerHost} {st : CnfState}
    {ourSect path : List Char} :
    (inspectModule h st ourSect).2 = some path ↔
      ∃ raw, st.get (some ourSect) "module" = some raw ∧ raw ≠ [] ∧
        expandEnv h.env raw = (path, []) ∧ h.isAbsolute path = true := by
  constructor
  · intro hpath
    cases hraw : st.get (some ourSect) "module" with
    | none =>
        simp only [inspectModule, hraw, isFalsy, Option.getD_none, decide_true, if_true] at hpath
        cases hpath
    | some raw =>
        by_cases hempty : raw = []
        · simp only [inspectModule, hraw, isFalsy, Option.getD_some, hempty, decide_true,
            if_true] at hpath
          cases hpath
        · rcases hexpand : expandEnv h.env raw with ⟨expanded, _ | ⟨name, names⟩⟩
          · rw [inspectModule_path hraw hempty hexpand, Option.ite_none_right_eq_some] at hpath
            obtain ⟨habs, hsome⟩ := hpath
            obtain rfl := Option.some.inj hsome
            exact ⟨raw, rfl, hempty, hexpand, habs⟩
          · simp only [inspectModule, hraw, isFalsy, Option.getD_some, hempty, decide_false,
              Bool.false_eq_true, if_false, hexpand] at hpath
            cases hpath
  · rintro ⟨raw, hraw, hempty, hexpand, habs⟩
    rw [inspectModule_path hraw hempty hexpand, if_pos habs]

/-- Another line counts, and names the path. With the module line left out the
provider's section has a `module` that expands to it; and the module line, as
rendered, is in another section, or is not read, since the path has a separator
of lines or paragraphs in it, or a later line assigns `module` again. -/
structure NamedElsewhere (h : CheckerHost)
    (pre line trail post path ourSect raw : List Char) : Prop where
  inSection : (inspectSettings (readCnf (pre ++ post))).2 = some ourSect
  setting : (readCnf (pre ++ post)).get (some ourSect) "module" = some raw
  nonempty : raw ≠ []
  expands : expandEnv h.env raw = (path, [])
  absolute : h.isAbsolute path = true
  discounted : (readCnf pre).current ≠ some ourSect ∨
    readCnfLine (renderedLine line path ++ trail) = .other ∨
    assignsModule (some ourSect) (some ourSect) (splitNewlines post) = true

/-- A line that is not read, or assigns `module`. -/
def MayAssign (q : Char) (l : List Char) : Prop :=
  readCnfLine l = .other ∨
    ∃ rest, readCnfLine l = .assign "module".toList (q :: rest)

theorem sameBut_refl (s₀ : Option (List Char)) (st : CnfState) : SameBut s₀ st st :=
  ⟨rfl, fun _ => rfl, fun _ _ _ => rfl⟩

theorem MayAssign.sameBut {q : Char} {l : List Char} (h : MayAssign q l)
    (st : CnfState) : SameBut st.current (st.step l) st := by
  rcases h with h | ⟨rest, h⟩
  · rw [step_other h]
    exact sameBut_refl _ st
  · exact sameBut_assign h

/-- The module line and the rendered line, as the checker sees them. -/
theorem moduleLine_reads {line : List Char} (hline : IsModuleLine line)
    (path trail : List Char) :
    MayAssign '$' (line ++ trail) ∧ MayAssign '"' (renderedLine line path ++ trail) := by
  obtain ⟨lead, hlead⟩ := (isModuleLine_iff line).mp hline
  obtain ⟨a, b, c, d, ha, hb, hc, -, htext, rfl⟩ := of_matchModuleLine hlead
  have hsource : line ++ trail =
      leadText a b c ++ '$' :: ("ENV::AWSKMS_MODULE".toList ++ (d ++ trail)) := by
    rw [htext, sourceText]
    simp [leadText]
  have hquoted : renderedLine line path ++ trail =
      leadText a b c ++ '"' :: (escapeValue path ++ ('"' :: trail)) := by
    rw [renderedLine, hlead]
    simp
  rw [hsource, hquoted]
  exact ⟨readCnfLine_lead ha hb hc (by decide) (by decide) _,
    readCnfLine_lead ha hb hc (by decide) (by decide) _⟩

/-- The three readings: of the template, of the rendered file, and of the text
without the module line. One line apart, they read the same lines. -/
structure Readings (template pre line trail post path rendered : List Char)
    (st : CnfState) (ls : List (List Char)) : Prop where
  current : (readCnf pre).current = st.current
  isSome : (st.sections st.current).isSome
  template : readCnf template = ls.foldl .step (st.step (line ++ trail))
  rendered : readCnf rendered =
    ls.foldl .step (st.step (renderedLine line path ++ trail))
  without : readCnf (pre ++ post) = ls.foldl .step st
  later : ∀ s, assignsModule s s (splitNewlines post) = assignsModule s s ls

theorem readings {template pre line trail post path rendered : List Char}
    (hat : ModuleLineAt template pre line trail post)
    (hr : renderConfig template path = .ok rendered) :
    ∃ st ls, Readings template pre line trail post path rendered st ls := by
  obtain ⟨hpath, hrendered⟩ := rendered_text hat hr
  obtain ⟨before, after, hsplit, hpre, hpost⟩ := splitNewlines_at hat.begins hat.ends
  have hempty : readCnfLine [] = .other := by decide
  have hread : ∀ x, '\n' ∉ x → readCnf (pre ++ (x ++ post)) =
      after.foldl .step ((before.foldl CnfState.step .start).step x) := by
    intro x hx
    rw [readCnf, hsplit x hx, List.foldl_append, List.foldl_cons]
  have hline : '\n' ∉ line := fun hmem => by
    have := moduleLine_ends hat.here '\n' hmem
    rw [newline_ends] at this
    cases this
  have hquoted := renderedLine_newline hat.here hpath
  refine ⟨before.foldl CnfState.step .start, after, ?_, ?_, ?_, ?_, ?_, fun s => ?_⟩
  · rw [readCnf, hpre, List.foldl_append, List.foldl_cons, step_other hempty]
    rfl
  · exact fold_current_isSome rfl before
  · rw [hat.text, ← List.append_assoc line]
    exact hread _ (by simp [hline, hat.within])
  · rw [hrendered, ← List.append_assoc (renderedLine line path)]
    exact hread _ (by simp [hquoted, hat.within])
  · have hnone := hread [] (by simp)
    rw [step_other hempty] at hnone
    exact hnone
  · rw [hpost, assignsModule, hempty]

theorem Readings.settings {template pre line trail post path rendered : List Char}
    {st : CnfState} {ls : List (List Char)}
    (h : Readings template pre line trail post path rendered st ls)
    (hline : IsModuleLine line) :
    inspectSettings (readCnf template) = inspectSettings (readCnf (pre ++ post)) ∧
      inspectSettings (readCnf rendered) = inspectSettings (readCnf (pre ++ post)) := by
  obtain ⟨hsource, hquoted⟩ := moduleLine_reads hline path trail
  rw [h.template, h.rendered, h.without]
  exact ⟨inspectSettings_congr ((hsource.sameBut st).fold ls),
    inspectSettings_congr ((hquoted.sameBut st).fold ls)⟩

/-- A module line that does not count leaves `module` as it is without it. -/
theorem Readings.discounted {template pre line trail post path rendered : List Char}
    {st : CnfState} {ls : List (List Char)}
    (h : Readings template pre line trail post path rendered st ls)
    (hline : IsModuleLine line) {ourSect : List Char}
    (hd : (readCnf pre).current ≠ some ourSect ∨
      readCnfLine (renderedLine line path ++ trail) = .other ∨
      assignsModule (some ourSect) (some ourSect) (splitNewlines post) = true) :
    (readCnf rendered).get (some ourSect) "module" =
      (readCnf (pre ++ post)).get (some ourSect) "module" := by
  have hsame := (moduleLine_reads hline path trail).2.sameBut st
  rw [h.rendered, h.without]
  by_cases hcur : st.current = some ourSect
  · rcases hd with hne | hother | hassigns
    · exact absurd (h.current.trans hcur) hne
    · rw [step_other hother]
    · rw [h.later, ← hcur] at hassigns
      rw [← hcur]
      refine hsame.fold_assigned ?_
      rw [hsame.current]
      exact hassigns
  · exact (hsame.fold ls).get _ _ (.inl fun heq => hcur heq.symm)

/-- One that counts leaves a value that begins with a quote. -/
theorem Readings.counted {template pre line trail post path rendered : List Char}
    {st : CnfState} {ls : List (List Char)}
    (h : Readings template pre line trail post path rendered st ls)
    (hline : IsModuleLine line) {ourSect : List Char}
    (hd : ¬ ((readCnf pre).current ≠ some ourSect ∨
      readCnfLine (renderedLine line path ++ trail) = .other ∨
      assignsModule (some ourSect) (some ourSect) (splitNewlines post) = true)) :
    ∃ rest, (readCnf rendered).get (some ourSect) "module" = some ('"' :: rest) := by
  simp only [not_or, ne_eq, not_not, Bool.not_eq_true] at hd
  obtain ⟨hcur, hread, hassigns⟩ := hd
  rw [h.current] at hcur
  obtain hother | ⟨rest, hassign⟩ := (moduleLine_reads hline path trail).2
  · exact absurd hother hread
  · refine ⟨rest, ?_⟩
    have hstep : st.step (renderedLine line path ++ trail) =
        ⟨st.current, Function.update st.sections st.current
          ((st.sections st.current).map fun m =>
            Function.update m "module".toList (some ('"' :: rest)))⟩ := by
      rw [CnfState.step, hassign]
    obtain ⟨m, hm⟩ := Option.isSome_iff_exists.mp h.isSome
    have hset : (st.step (renderedLine line path ++ trail)).get st.current "module" =
        some ('"' :: rest) := by
      rw [hstep, get_update, if_pos ⟨rfl, rfl⟩, hm]
      rfl
    rw [h.later] at hassigns
    have hlater : assignsModule st.current
        (st.step (renderedLine line path ++ trail)).current ls = false := by
      rw [hstep, hcur]
      exact hassigns
    rw [h.rendered, ← hcur, fold_unassigned hlater, hset]

/-- The checker recovers the path the loader rendered, and says of the rest
what it says of the template, exactly when another line names that path and
the module line does not count. -/
theorem readsBack_iff {h : CheckerHost} (hn : NodePaths h)
    {template pre line trail post path rendered : List Char}
    (hat : ModuleLineAt template pre line trail post)
    (hr : renderConfig template path = .ok rendered) :
    ((inspectCnf h rendered).path = some path ∧
        (inspectCnf h rendered).settings = (inspectCnf h template).settings) ↔
      ∃ ourSect raw, NamedElsewhere h pre line trail post path ourSect raw := by
  obtain ⟨st, ls, hreads⟩ := readings hat hr
  obtain ⟨htemplate, hrendered⟩ := hreads.settings hat.here
  have hsettings : (inspectCnf h rendered).settings = (inspectCnf h template).settings := by
    rw [inspectCnf_settings, inspectCnf_settings, htemplate, hrendered]
  rw [inspectCnf_path, hrendered]
  constructor
  · rintro ⟨hpath, -⟩
    cases hsect : (inspectSettings (readCnf (pre ++ post))).2 with
    | none =>
        rw [hsect] at hpath
        cases hpath
    | some ourSect =>
        rw [hsect] at hpath
        obtain ⟨raw, hraw, hempty, hexpand, habs⟩ := inspectModule_path_iff.mp hpath
        by_cases hd : (readCnf pre).current ≠ some ourSect ∨
            readCnfLine (renderedLine line path ++ trail) = .other ∨
            assignsModule (some ourSect) (some ourSect) (splitNewlines post) = true
        · rw [hreads.discounted hat.here hd] at hraw
          exact ⟨ourSect, raw, hsect, hraw, hempty, hexpand, habs, hd⟩
        · obtain ⟨rest, hquoted⟩ := hreads.counted hat.here hd
          exact absurd (inspectModule_path_iff.mpr ⟨raw, hraw, hempty, hexpand, habs⟩)
            (by simp [inspectModule_quote hn hquoted])
  · rintro ⟨ourSect, raw, hnamed⟩
    refine ⟨?_, hsettings⟩
    rw [hnamed.inSection]
    refine inspectModule_path_iff.mpr
      ⟨raw, ?_, hnamed.nonempty, hnamed.expands, hnamed.absolute⟩
    rw [hreads.discounted hat.here hnamed.discounted, hnamed.setting]

def posixHost : CheckerHost :=
  ⟨fun _ => none, posixIsAbsolute, fun _ => .ok "69048".toList⟩

def chainBefore : List Char :=
  "nodejs_conf = init\n[init]\nproviders = prov\n[prov]\ndefault = def\naws-kms = awskms\n".toList ++
    "[def]\nactivate = 1\n[awskms]".toList ++ ['\n']

def chainAfter : List Char := '\n' :: "activate = 1".toList

def chainTemplate : List Char :=
  chainBefore ++ ("module = $ENV::AWSKMS_MODULE".toList ++ ([] ++ chainAfter))

def chainRendered : List Char :=
  chainBefore ++ ("module = \"/opt/aws-kms.so\"".toList ++ chainAfter)

theorem chain_at : ModuleLineAt chainTemplate chainBefore
    "module = $ENV::AWSKMS_MODULE".toList [] chainAfter where
  text := rfl
  here := ⟨[], [' '], [' '], [], by simp [isBlank], by decide⟩
  begins := .inr ⟨_, rfl⟩
  cut := by simp
  within := by simp
  ends := .inr ⟨_, rfl⟩

theorem readsBack_iff_chain :
    ((inspectCnf posixHost chainRendered).path = some "/opt/aws-kms.so".toList ∧
      (inspectCnf posixHost chainRendered).settings =
        (inspectCnf posixHost chainTemplate).settings) ↔
    ∃ ourSect raw, NamedElsewhere posixHost chainBefore
      "module = $ENV::AWSKMS_MODULE".toList [] chainAfter "/opt/aws-kms.so".toList
      ourSect raw :=
  readsBack_iff ⟨.inl rfl⟩ chain_at (by decide +kernel)

theorem rendered_relative :
    posixHost.isAbsolute "/opt/aws-kms.so".toList = true ∧
    renderConfig chainTemplate "/opt/aws-kms.so".toList = .ok chainRendered ∧
    (inspectCnf posixHost chainRendered).path = none ∧
    (inspectCnf posixHost chainRendered).module.head? =
      some (.bad "module path is relative: \"/opt/aws-kms.so\"".toList) := by
  decide +kernel

end AwsKms.Model
