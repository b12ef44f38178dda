import Mathlib.Data.List.Induction
import AwsKms.Lib.Act

/-!
# Runs of a machine

A machine is a start state and one routine per input. A run is recorded step
by step, each record keeping the state the step found, the input, and what
came out, so that a property of a whole run is a property of a list.

A few rules carry everything that is proved over runs. `Run.inv` is the
ordinary invariant rule. `Run.invHist` is the same rule for an invariant that
also speaks about the past: the past is a fold over the records, so a history
variable never has to be part of the machine. `outs_erase` compares two runs,
one with extra inputs that leave the state alone and one without them.
-/

namespace AwsKms.Lib

/-- A deterministic machine with inputs; `allowed` is what its callers owe. -/
structure Machine (σ ι ε : Type) where
  start : σ
  allowed : σ → ι → Prop
  step : ι → Act σ ε

/-- One recorded step. -/
structure Rec (σ ι ε : Type) where
  pre : σ
  input : ι
  out : Out σ ε

namespace Machine

variable {σ ι ε γ : Type} {M : Machine σ ι ε}

/-- The runs of a machine from its start state. -/
inductive Run (M : Machine σ ι ε) : List (Rec σ ι ε) → σ → Prop where
  | nil : Run M [] M.start
  | snoc {evs : List (Rec σ ι ε)} {s : σ} {i : ι} : Run M evs s →
      M.allowed s i →
      Run M (evs ++ [⟨s, i, M.step i s⟩]) (M.step i s).state

/-- An invariant kept by every allowed step holds after every run whose steps
all meet `C`. -/
theorem Run.invWhere {I : σ → Prop} {C : Rec σ ι ε → Prop}
    (h0 : I M.start)
    (hs : ∀ s i, I s → M.allowed s i → C ⟨s, i, M.step i s⟩ →
      I (M.step i s).state)
    {evs : List (Rec σ ι ε)} {s : σ} (h : Run M evs s)
    (hC : ∀ e ∈ evs, C e) : I s := by
  induction h with
  | nil => exact h0
  | @snoc evs s i _ ha ih =>
      have hpre : ∀ e ∈ evs, C e :=
        fun e he => hC e (List.mem_append_left _ he)
      exact hs s i (ih hpre) ha (hC _ (by simp))

/-- An invariant kept by every allowed step holds after every run. -/
theorem Run.inv {I : σ → Prop} (h0 : I M.start)
    (hs : ∀ s i, I s → M.allowed s i → I (M.step i s).state)
    {evs : List (Rec σ ι ε)} {s : σ} (h : Run M evs s) : I s :=
  h.invWhere (C := fun _ => True) h0 (fun s i hi ha _ => hs s i hi ha)
    (fun _ _ => trivial)

/-- The invariant rule with a past: `I` relates the state to a value folded
over the records so far. -/
theorem Run.invHist {I : σ → γ → Prop} {g0 : γ} {upd : γ → Rec σ ι ε → γ}
    (h0 : I M.start g0)
    (hs : ∀ s i g, I s g → M.allowed s i →
      I (M.step i s).state (upd g ⟨s, i, M.step i s⟩))
    {evs : List (Rec σ ι ε)} {s : σ} (h : Run M evs s) :
    I s (evs.foldl upd g0) := by
  induction h with
  | nil => exact h0
  | @snoc evs s i _ ha ih =>
      rw [List.foldl_append]
      exact hs s i _ ih ha

/-- Everything a run did, in order. -/
def effects (evs : List (Rec σ ι ε)) : List ε := evs.flatMap fun e => e.out.trace

/-- The invariant rule with everything the run has done so far. -/
theorem Run.invEffects {I : σ → List ε → Prop} (h0 : I M.start [])
    (hs : ∀ s i log, I s log → M.allowed s i →
      I (M.step i s).state (log ++ (M.step i s).trace))
    {evs : List (Rec σ ι ε)} {s : σ} (h : Run M evs s) : I s (effects evs) := by
  induction h with
  | nil => exact h0
  | @snoc evs s i _ ha ih =>
      rw [effects, List.flatMap_append, List.flatMap_singleton]
      exact hs s i _ ih ha

/-- Every record of a run was made at a state some run reaches. -/
theorem Run.of_mem {evs : List (Rec σ ι ε)} {s : σ} (h : Run M evs s) :
    ∀ e ∈ evs, ∃ before after, evs = before ++ e :: after ∧
      Run M before e.pre ∧ M.allowed e.pre e.input ∧
      e.out = M.step e.input e.pre := by
  induction h with
  | nil => simp
  | @snoc evs s i hr ha ih =>
      intro e he
      rcases List.mem_append.mp he with h | h
      · obtain ⟨before, after, hsplit, hrest⟩ := ih e h
        exact ⟨before, after ++ [⟨s, i, M.step i s⟩], by simp [hsplit], hrest⟩
      · rw [List.mem_singleton] at h
        subst h
        exact ⟨evs, [], rfl, hr, ha, rfl⟩

/-- A run cut at one of its records: the run before it, and its step. -/
theorem Run.at_split {before after : List (Rec σ ι ε)} {e : Rec σ ι ε}
    {s : σ} (h : Run M (before ++ e :: after) s) :
    Run M before e.pre ∧ M.allowed e.pre e.input ∧
      e.out = M.step e.input e.pre := by
  generalize hall : before ++ e :: after = evs at h
  induction h generalizing after with
  | nil => simp at hall
  | @snoc evs s i hr ha ih =>
      rcases List.eq_nil_or_concat after with rfl | ⟨mid, last, rfl⟩
      · obtain ⟨rfl, he⟩ := List.append_inj' hall rfl
        obtain rfl := List.singleton_inj.mp he
        exact ⟨hr, ha, rfl⟩
      · rw [List.concat_eq_append, ← List.cons_append, ← List.append_assoc]
          at hall
        exact ih (List.append_inj_left' hall rfl)

/-- A run up to one of its records, and through it. -/
theorem Run.through {before after : List (Rec σ ι ε)} {e : Rec σ ι ε} {s : σ}
    (h : Run M (before ++ e :: after) s) : Run M (before ++ [e]) e.out.state := by
  obtain ⟨hpre, ha, hout⟩ := h.at_split
  obtain ⟨pre, i, out⟩ := e
  obtain rfl : out = M.step i pre := hout
  exact hpre.snoc ha

/-- The records of a run say where it ended. -/
theorem Run.det {evs : List (Rec σ ι ε)} {s t : σ} (hs : Run M evs s)
    (ht : Run M evs t) : s = t := by
  cases hs with
  | nil =>
      generalize hevs : ([] : List (Rec σ ι ε)) = evs at ht
      cases ht with
      | nil => rfl
      | snoc => simp at hevs
  | @snoc evs s i _ _ =>
      generalize hevs : evs ++ [⟨s, i, M.step i s⟩] = evs' at ht
      cases ht with
      | nil => simp at hevs
      | @snoc evs' t j _ _ =>
          have hlast := List.append_inj_right' hevs rfl
          exact congrArg (·.out.state) (List.singleton_inj.mp hlast)

/-- A property of a state in the middle of a run that every later step keeps
holds at its end. -/
theorem Run.invFrom {I : σ → Prop} {C : Rec σ ι ε → Prop}
    (hs : ∀ evs s i, Run M evs s → I s → M.allowed s i →
      C ⟨s, i, M.step i s⟩ → I (M.step i s).state)
    {before after : List (Rec σ ι ε)} {s t : σ} (hb : Run M before s)
    (h : Run M (before ++ after) t) (hC : ∀ e ∈ after, C e) (hI : I s) :
    I t := by
  induction after using List.reverseRecOn generalizing t with
  | nil =>
      rw [List.append_nil] at h
      exact hb.det h ▸ hI
  | append_singleton after e ih =>
      rw [← List.append_assoc] at h
      generalize hevs : before ++ after ++ [e] = evs at h
      cases h with
      | nil => simp at hevs
      | @snoc evs t i hr ha =>
          obtain ⟨rfl, he⟩ := List.append_inj' hevs rfl
          obtain rfl := List.singleton_inj.mp he
          have hIt := ih hr fun e he => hC e (List.mem_append_left _ he)
          exact hs _ t i hr hIt ha (hC _ (by simp))

/-- The invariant rule with a past and a condition on every step, which may
speak about the past too. -/
theorem Run.invHistWhere {I : σ → γ → Prop} {C : γ → Rec σ ι ε → Prop}
    {b : γ} {f : γ → Rec σ ι ε → γ} (h0 : I M.start b)
    (hs : ∀ s i g, I s g → M.allowed s i → C g ⟨s, i, M.step i s⟩ →
      I (M.step i s).state (f g ⟨s, i, M.step i s⟩))
    {evs : List (Rec σ ι ε)} {s : σ} (h : Run M evs s)
    (hC : ∀ before e after, evs = before ++ e :: after →
      C (before.foldl f b) e) : I s (evs.foldl f b) := by
  induction h with
  | nil => exact h0
  | @snoc evs s i _ ha ih =>
      rw [List.foldl_append]
      have hpre : ∀ before e after, evs = before ++ e :: after →
          C (before.foldl f b) e := fun before e after hsplit =>
        hC before e (after ++ [⟨s, i, M.step i s⟩]) (by simp [hsplit])
      exact hs s i _ (ih hpre) ha (hC evs _ [] rfl)

/-- The records a list of inputs makes. -/
def records (M : Machine σ ι ε) : σ → List ι → List (Rec σ ι ε)
  | _, [] => []
  | s, i :: is => ⟨s, i, M.step i s⟩ :: M.records (M.step i s).state is

/-- The state a list of inputs leads to. -/
def drive (M : Machine σ ι ε) : σ → List ι → σ
  | s, [] => s
  | s, i :: is => M.drive (M.step i s).state is

/-- Every input is one its caller may give. -/
def AllowedAll (M : Machine σ ι ε) : σ → List ι → Prop
  | _, [] => True
  | s, i :: is => M.allowed s i ∧ M.AllowedAll (M.step i s).state is

theorem Run.extend {evs : List (Rec σ ι ε)} {s : σ} (h : Run M evs s)
    {is : List ι} (ha : M.AllowedAll s is) :
    Run M (evs ++ M.records s is) (M.drive s is) := by
  induction is generalizing evs s with
  | nil =>
      rw [records, List.append_nil]
      exact h
  | cons i is ih =>
      have hrest := ih (h.snoc ha.1) ha.2
      rw [List.append_assoc] at hrest
      exact hrest

theorem run_records {is : List ι} (ha : M.AllowedAll M.start is) :
    Run M (M.records M.start is) (M.drive M.start is) :=
  Run.nil.extend ha

instance decidableAllowedAll [∀ s i, Decidable (M.allowed s i)] :
    (s : σ) → (is : List ι) → Decidable (M.AllowedAll s is)
  | _, [] => .isTrue trivial
  | s, i :: is =>
      have : Decidable (M.AllowedAll (M.step i s).state is) :=
        decidableAllowedAll _ is
      inferInstanceAs (Decidable (_ ∧ _))

theorem records_append {s : σ} {is js : List ι} :
    M.records s (is ++ js) = M.records s is ++ M.records (M.drive s is) js := by
  induction is generalizing s with
  | nil => rfl
  | cons i is ih => exact congrArg (⟨s, i, M.step i s⟩ :: ·) ih

/-- The record an input makes at the end of a list of inputs. -/
def recordAfter (M : Machine σ ι ε) (is : List ι) (i : ι) : Rec σ ι ε :=
  ⟨M.drive M.start is, i, M.step i (M.drive M.start is)⟩

/-- The run of a list of inputs and one more. -/
theorem run_recordAfter {is : List ι} {i : ι}
    (ha : M.AllowedAll M.start (is ++ [i])) :
    Run M (M.records M.start is ++ [M.recordAfter is i])
      (M.drive M.start (is ++ [i])) := by
  have hr := run_records ha
  rw [records_append] at hr
  exact hr

theorem records_input {s : σ} {is : List ι} {e : Rec σ ι ε}
    (he : e ∈ M.records s is) : e.input ∈ is := by
  induction is generalizing s with
  | nil => cases he
  | cons i is ih =>
      rcases List.mem_cons.mp he with rfl | he
      · exact List.mem_cons_self
      · exact List.mem_cons_of_mem _ (ih he)

/-- What holds at every index of a list holds at every cut of it. -/
theorem forall_split {α : Type} {evs : List α} {P : List α → α → Prop}
    (h : ∀ k (hk : k < evs.length), P (evs.take k) (evs.get ⟨k, hk⟩)) :
    ∀ before e after, evs = before ++ e :: after → P before e := by
  rintro before e after rfl
  have hk := h before.length (by simp)
  simpa using hk

/-- Where two lists meet: a cut of both is a cut of the first, or one of the
second. -/
theorem cut_append {α : Type} {log more before after : List α} {e : α}
    (h : log ++ more = before ++ e :: after) :
    (∃ rest, log = before ++ e :: rest) ∨
      ∃ pre, before = log ++ pre ∧ more = pre ++ e :: after := by
  rcases List.append_eq_append_iff.mp h with ⟨pre, hb, hm⟩ | ⟨rest, hl, hm⟩
  · exact .inr ⟨pre, hb, hm⟩
  · cases rest with
    | nil =>
        refine .inr ⟨[], ?_, ?_⟩
        · rw [hl, List.append_nil, List.append_nil]
        · exact hm.symm
    | cons e' rest =>
        obtain ⟨rfl, -⟩ := List.cons.inj hm
        exact .inl ⟨rest, hl⟩

/-- The outputs of a list of inputs. -/
def outs (M : Machine σ ι ε) : σ → List ι → List (Out σ ε)
  | _, [] => []
  | s, i :: is => M.step i s :: M.outs (M.step i s).state is

/-- Every input flagged as an extra one satisfies `P` at the state it is given
in. -/
def ExtrasAt (M : Machine σ ι ε) (P : σ → ι → Prop) : σ → List (ι × Bool) → Prop
  | _, [] => True
  | s, (i, extra) :: is =>
      (extra = true → P s i) ∧ M.ExtrasAt P (M.step i s).state is

/-- The list without its extras. -/
def erase {α : Type} (is : List (α × Bool)) : List α :=
  is.filterMap fun p => if p.2 then none else some p.1

/-- The outputs of a flagged list, each with the flag of its input. -/
def flaggedOuts (M : Machine σ ι ε) (s : σ) (is : List (ι × Bool)) :
    List (Out σ ε × Bool) :=
  (M.outs s (is.map (·.1))).zip (is.map (·.2))

theorem flaggedOuts_cons {s : σ} {i : ι} {extra : Bool}
    {is : List (ι × Bool)} :
    M.flaggedOuts s ((i, extra) :: is) =
      (M.step i s, extra) :: M.flaggedOuts (M.step i s).state is := rfl

instance decidableExtrasAt {P : σ → ι → Prop} [∀ s i, Decidable (P s i)] :
    (s : σ) → (is : List (ι × Bool)) → Decidable (M.ExtrasAt P s is)
  | _, [] => .isTrue trivial
  | s, (i, extra) :: is =>
      have : Decidable (M.ExtrasAt P (M.step i s).state is) :=
        decidableExtrasAt _ is
      inferInstanceAs (Decidable ((extra = true → P s i) ∧ _))

/-- What every extra puts out is what its own condition says it puts out. -/
theorem flaggedOuts_extra {P : σ → ι → Prop} {Q : Out σ ε → Prop}
    (hQ : ∀ s i, P s i → Q (M.step i s)) {s : σ} {is : List (ι × Bool)}
    (h : M.ExtrasAt P s is) :
    ∀ p ∈ M.flaggedOuts s is, p.2 = true → Q p.1 := by
  induction is generalizing s with
  | nil => nofun
  | cons p is ih =>
      obtain ⟨i, extra⟩ := p
      intro out hout hextra
      rw [flaggedOuts_cons] at hout
      rcases List.mem_cons.mp hout with rfl | hout
      · exact hQ s i (h.1 hextra)
      · exact ih h.2 out hout hextra

/-- Extras that leave the state alone can be left out: every other input has
the output it would have had, and the run ends where it would have ended. -/
theorem outs_erase {P : σ → ι → Prop}
    (hquiet : ∀ s i, P s i → (M.step i s).state = s) {s : σ}
    {is : List (ι × Bool)} (h : M.ExtrasAt P s is) :
    erase (M.flaggedOuts s is) = M.outs s (erase is) ∧
      M.drive s (is.map (·.1)) = M.drive s (erase is) := by
  induction is generalizing s with
  | nil => exact ⟨rfl, rfl⟩
  | cons p is ih =>
      obtain ⟨i, extra⟩ := p
      obtain ⟨hp, hrest⟩ := h
      obtain ⟨houts, hdrive⟩ := ih hrest
      cases extra with
      | false =>
          refine ⟨?_, hdrive⟩
          exact congrArg (M.step i s :: ·) houts
      | true =>
          have hst := hquiet s i (hp rfl)
          rw [hst] at houts hdrive
          refine ⟨?_, ?_⟩
          · rw [flaggedOuts_cons, hst]
            exact houts
          · rw [List.map_cons, drive, hst]
            exact hdrive

/-- Two machines that cannot be told apart on one input cannot be told apart
on any list of them. -/
theorem outs_lockstep {τ κ : Type} {N : Machine τ κ ε} {R : σ → τ → Prop} {f : ι → κ}
    {is : List ι} (hstep : ∀ i ∈ is, Act.Lockstep R (M.step i) (N.step (f i)))
    {s : σ} {t : τ} (h : R s t) :
    (M.outs s is).map Out.reply = (N.outs t (is.map f)).map Out.reply := by
  induction is generalizing s t with
  | nil => rfl
  | cons i is ih =>
      have hone := hstep i List.mem_cons_self s t h
      have hrest := fun j hj => hstep j (List.mem_cons_of_mem _ hj)
      rw [List.map_cons, outs, outs, List.map_cons, List.map_cons, hone.reply,
        ih hrest hone.state]

/-- Extras that nobody else sees can be left out: what every other input sees
of the run is the same. -/
theorem outs_unseen {R : σ → σ → Prop} {P Q : ι → Prop}
    (hunseen : ∀ i, P i → ∀ s t, R s t → R (M.step i s).state t)
    (hstep : ∀ i, Q i → Act.Lockstep R (M.step i) (M.step i)) {s t : σ} (h : R s t)
    {is : List (ι × Bool)} (his : ∀ p ∈ is, if p.2 then P p.1 else Q p.1) :
    (erase (M.flaggedOuts s is)).map Out.reply =
      (M.outs t (erase is)).map Out.reply := by
  induction is generalizing s t with
  | nil => rfl
  | cons p is ih =>
      obtain ⟨i, extra⟩ := p
      have hi := his (i, extra) List.mem_cons_self
      have hrest := fun p hp => his p (List.mem_cons_of_mem _ hp)
      cases extra with
      | true =>
          have hone := hunseen i hi s t h
          rw [flaggedOuts_cons]
          exact ih hone hrest
      | false =>
          have hone := hstep i hi s t h
          have heq := congrArg ((M.step i s).reply :: ·) (ih hone.state hrest)
          rw [flaggedOuts_cons]
          refine heq.trans ?_
          rw [hone.reply]
          rfl

end Machine

end AwsKms.Lib
