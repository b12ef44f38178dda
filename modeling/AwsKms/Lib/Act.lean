import Mathlib.Data.List.Basic

/-!
# Routines that stop at the first failure

A C routine that works on one object, checks what it calls and returns early
has three observable parts: its return code, the object as it left it, and
the effects it had on the way out. `Act` is that shape and nothing more. What
makes it worth a name is that an early return keeps the writes made before
it: `andThen` hands back the state of the routine that failed, not the state
the caller started from.

The rules are the ones a proof about such code asks for. `all_inv` carries an
invariant through a sequence, `mem_trace_all` bounds the effects of one,
`track_all` relates the state to a history of what the sequence got through,
`all_writes` says what a sequence left behind, complete or not, when each of
its members is known by what it writes, and `lockstep_all` compares two
sequences member by member.
-/

namespace AwsKms.Lib

/-- What a routine hands back: its return code, the state it leaves, and its
effects in order. -/
structure Out (σ ε : Type) where
  ok : Bool
  state : σ
  trace : List ε

/-- A routine over a state, with effects. -/
abbrev Act (σ ε : Type) := σ → Out σ ε

/-- A routine that only reads the state: a return code and effects. -/
structure Reply (ε : Type) where
  ok : Bool
  trace : List ε

namespace Reply

variable {ε : Type}

/-- `if (!r) return 0; return k;` -/
def andThen (r k : Reply ε) : Reply ε :=
  if r.ok then ⟨k.ok, r.trace ++ k.trace⟩ else r

/-- A reader's answer beside the state it read. -/
def keep {σ : Type} (r : Reply ε) (s : σ) : Out σ ε := ⟨r.ok, s, r.trace⟩

@[simp] theorem keep_ok {σ : Type} (r : Reply ε) (s : σ) :
    (r.keep s).ok = r.ok := rfl

@[simp] theorem keep_state {σ : Type} (r : Reply ε) (s : σ) :
    (r.keep s).state = s := rfl

@[simp] theorem keep_trace {σ : Type} (r : Reply ε) (s : σ) :
    (r.keep s).trace = r.trace := rfl

theorem mem_andThen {r k : Reply ε} {e : ε} :
    e ∈ (r.andThen k).trace ↔ e ∈ r.trace ∨ r.ok = true ∧ e ∈ k.trace := by
  unfold andThen
  split <;> rename_i h
  · simp [h]
  · simp [h]

theorem andThen_ok {r k : Reply ε} :
    (r.andThen k).ok = true ↔ r.ok = true ∧ k.ok = true := by
  unfold andThen
  split <;> rename_i h
  · simp [h]
  · simp [h]

/-- A check that passes in silence is not seen. -/
theorem andThen_of_silent {r k : Reply ε} (hok : r.ok = true)
    (ht : r.trace = []) : r.andThen k = k := by
  rw [andThen, if_pos hok, ht, List.nil_append]

theorem andThen_of_failed {r k : Reply ε} (hok : r.ok = false) :
    r.andThen k = r := by
  rw [andThen, if_neg (by simp [hok])]

end Reply

namespace Act

variable {σ ε : Type}

/-- `return 1;` -/
def done : Act σ ε := fun s => ⟨true, s, []⟩

/-- `return 0;` after the given effects, with nothing written. -/
def refuse (es : List ε) : Act σ ε := fun s => ⟨false, s, es⟩

/-- `if (!a) return 0; return b;` -/
def andThen (a b : Act σ ε) : Act σ ε := fun s =>
  if (a s).ok then
    ⟨(b (a s).state).ok, (b (a s).state).state,
      (a s).trace ++ (b (a s).state).trace⟩
  else a s

/-- A sequence of routines, each run only when the ones before it returned 1. -/
def all : List (Act σ ε) → Act σ ε
  | [] => done
  | a :: as => a.andThen (all as)

/-- `goto err;`: what a failed routine does before it returns. -/
def onFail (a : Act σ ε) (cleanup : σ → σ) : Act σ ε := fun s =>
  if (a s).ok then a s else ⟨false, cleanup (a s).state, (a s).trace⟩

@[simp] theorem done_apply (s : σ) : (done : Act σ ε) s = ⟨true, s, []⟩ := rfl

@[simp] theorem refuse_apply (es : List ε) (s : σ) :
    refuse es s = ⟨false, s, es⟩ := rfl

@[simp] theorem all_nil : all ([] : List (Act σ ε)) = done := rfl

@[simp] theorem all_cons (a : Act σ ε) (as : List (Act σ ε)) :
    all (a :: as) = a.andThen (all as) := rfl

theorem andThen_of_ok {a b : Act σ ε} {s : σ} (h : (a s).ok = true) :
    a.andThen b s = ⟨(b (a s).state).ok, (b (a s).state).state,
      (a s).trace ++ (b (a s).state).trace⟩ := by
  rw [andThen, if_pos h]

theorem andThen_of_failed {a b : Act σ ε} {s : σ} (h : (a s).ok = false) :
    a.andThen b s = a s := by
  rw [andThen, if_neg (by simp [h])]

theorem andThen_ok {a b : Act σ ε} {s : σ} :
    (a.andThen b s).ok = true ↔
      (a s).ok = true ∧ (b (a s).state).ok = true := by
  cases h : (a s).ok with
  | false => simp [andThen_of_failed h, h]
  | true => simp [andThen_of_ok h]

theorem all_cons_ok {a : Act σ ε} {as : List (Act σ ε)} {s : σ} :
    (all (a :: as) s).ok = true ↔
      (a s).ok = true ∧ (all as (a s).state).ok = true := andThen_ok

theorem all_cons_state {a : Act σ ε} {as : List (Act σ ε)} {s : σ}
    (h : (a s).ok = true) :
    (all (a :: as) s).state = (all as (a s).state).state := by
  rw [all_cons, andThen_of_ok h]

theorem mem_trace_andThen {a b : Act σ ε} {s : σ} {e : ε} :
    e ∈ (a.andThen b s).trace ↔
      e ∈ (a s).trace ∨ (a s).ok = true ∧ e ∈ (b (a s).state).trace := by
  cases h : (a s).ok with
  | false => simp [andThen_of_failed h]
  | true => simp [andThen_of_ok h]

theorem andThen_done {a : Act σ ε} : a.andThen done = a := by
  funext s
  cases h : (a s).ok with
  | false => exact andThen_of_failed h
  | true =>
      rw [andThen_of_ok h, done_apply, List.append_nil, ← h]

theorem all_pair {a b : Act σ ε} : all [a, b] = a.andThen b := by
  rw [all_cons, all_cons, all_nil, andThen_done]

theorem all_append {as bs : List (Act σ ε)} {s : σ} :
    all (as ++ bs) s = (all as).andThen (all bs) s := by
  induction as generalizing s with
  | nil => simp [andThen]
  | cons a as ih =>
      rw [List.cons_append, all_cons, all_cons]
      cases ha : (a s).ok with
      | false =>
          have hseq : (a.andThen (all as) s).ok = false := by
            rw [andThen_of_failed ha]
            exact ha
          rw [andThen_of_failed ha, andThen_of_failed hseq, andThen_of_failed ha]
      | true =>
          rw [andThen_of_ok ha, ih]
          cases has : (all as (a s).state).ok with
          | false =>
              have hseq : (a.andThen (all as) s).ok = false := by
                rw [andThen_of_ok ha]
                exact has
              rw [andThen_of_failed has, andThen_of_failed hseq, andThen_of_ok ha]
          | true =>
              have hseq : (a.andThen (all as) s).ok = true := by
                rw [andThen_of_ok ha]
                exact has
              rw [andThen_of_ok has, andThen_of_ok hseq, andThen_of_ok ha]
              simp

theorem andThen_inv {P : σ → Prop} {a b : Act σ ε} {s : σ}
    (ha : P (a s).state) (hb : ∀ t, P t → P (b t).state) :
    P (a.andThen b s).state := by
  cases h : (a s).ok with
  | false => rw [andThen_of_failed h]; exact ha
  | true => rw [andThen_of_ok h]; exact hb _ ha

/-- What every member keeps, the sequence keeps, however far it gets. -/
theorem all_inv {P : σ → Prop} {as : List (Act σ ε)}
    (h : ∀ a ∈ as, ∀ s, P s → P (a s).state) {s : σ} (hs : P s) :
    P (all as s).state := by
  induction as generalizing s with
  | nil => exact hs
  | cons a as ih =>
      refine andThen_inv (h a List.mem_cons_self s hs) fun t ht => ?_
      exact ih (fun b hb => h b (List.mem_cons_of_mem _ hb)) ht

/-- Every effect of a sequence is an effect of one of its members, at a state
the invariant holds of. -/
theorem mem_trace_all {P : σ → Prop} {as : List (Act σ ε)}
    (h : ∀ a ∈ as, ∀ s, P s → P (a s).state) {s : σ} (hs : P s) {e : ε}
    (he : e ∈ (all as s).trace) :
    ∃ a ∈ as, ∃ t, P t ∧ e ∈ (a t).trace := by
  induction as generalizing s with
  | nil => cases he
  | cons a as ih =>
      rcases mem_trace_andThen.mp he with he | ⟨_, he⟩
      · exact ⟨a, List.mem_cons_self, s, hs, he⟩
      · obtain ⟨b, hb, t, ht, hmem⟩ :=
          ih (fun b hb => h b (List.mem_cons_of_mem _ hb))
            (h a List.mem_cons_self s hs) he
        exact ⟨b, List.mem_cons_of_mem _ hb, t, ht, hmem⟩

@[simp] theorem onFail_ok {a : Act σ ε} {cleanup : σ → σ} {s : σ} :
    (a.onFail cleanup s).ok = (a s).ok := by
  unfold onFail
  split
  · rfl
  · next hok => simpa using hok

@[simp] theorem onFail_trace {a : Act σ ε} {cleanup : σ → σ} {s : σ} :
    (a.onFail cleanup s).trace = (a s).trace := by
  unfold onFail
  split
  · rfl
  · rfl

theorem onFail_of_ok {a : Act σ ε} {cleanup : σ → σ} {s : σ}
    (hok : (a.onFail cleanup s).ok = true) : a.onFail cleanup s = a s := by
  rw [onFail_ok] at hok
  rw [onFail, if_pos hok]

theorem onFail_of_failed {a : Act σ ε} {cleanup : σ → σ} {s : σ}
    (hok : (a.onFail cleanup s).ok = false) :
    a.onFail cleanup s = ⟨false, cleanup (a s).state, (a s).trace⟩ := by
  rw [onFail_ok] at hok
  rw [onFail, if_neg (by simp [hok])]

/-- Every member of a sequence that succeeds succeeded where it ran, which is a
state the invariant holds of. -/
theorem all_ok_mem {P : σ → Prop} {as : List (Act σ ε)}
    (h : ∀ a ∈ as, ∀ s, P s → P (a s).state) {s : σ} (hs : P s)
    (hok : (all as s).ok = true) {a : Act σ ε} (ha : a ∈ as) :
    ∃ t, P t ∧ (a t).ok = true := by
  induction as generalizing s with
  | nil => cases ha
  | cons b as ih =>
      obtain ⟨hb, hrest⟩ := all_cons_ok.mp hok
      rcases List.mem_cons.mp ha with rfl | ha
      · exact ⟨s, hs, hb⟩
      · exact ih (fun c hc => h c (List.mem_cons_of_mem _ hc))
          (h b List.mem_cons_self s hs) hrest ha

/-- Two sequences whose members agree where an invariant holds, and keep it,
agree there. -/
theorem all_congr {P : σ → Prop} {as bs : List (Act σ ε)}
    (h : List.Forall₂ (fun a b => ∀ s, P s → a s = b s ∧ P (a s).state) as bs)
    {s : σ} (hs : P s) : all as s = all bs s := by
  induction h generalizing s with
  | nil => rfl
  | @cons a b as bs hab _ ih =>
      obtain ⟨heq, hP⟩ := hab s hs
      rw [all_cons, all_cons]
      cases hok : (a s).ok with
      | false =>
          rw [andThen_of_failed hok, andThen_of_failed (heq ▸ hok), heq]
      | true =>
          rw [andThen_of_ok hok, andThen_of_ok (heq ▸ hok), ih hP, heq]

/-- A routine that leaves its object alone when it fails. -/
def Atomic (a : Act σ ε) : Prop :=
  ∀ s, (a s).ok = false → (a s).state = s

theorem atomic_done : (done : Act σ ε).Atomic := fun _ _ => rfl

theorem atomic_refuse (es : List ε) : (refuse es : Act σ ε).Atomic :=
  fun _ _ => rfl

/-- What the members of a sequence are said to write, in order. -/
def writeAll (as : List (Act σ ε × (σ → σ))) (s : σ) : σ :=
  as.foldl (fun t a => a.2 t) s

/-- Members that write what is said of them when they succeed: a sequence of
them succeeds having written everything, or stops at a member that refuses
what the ones before it wrote. -/
theorem all_writes (as : List (Act σ ε × (σ → σ)))
    (hok : ∀ a ∈ as, ∀ t, (a.1 t).ok = true → (a.1 t).state = a.2 t) (s : σ) :
    let out := all (as.map (·.1)) s
    out.ok = true ∧ out.state = writeAll as s ∨
    out.ok = false ∧ ∃ before a after, as = before ++ a :: after ∧
      (a.1 (writeAll before s)).ok = false ∧
      out.state = (a.1 (writeAll before s)).state := by
  induction as generalizing s with
  | nil => exact .inl ⟨rfl, rfl⟩
  | cons a as ih =>
      intro out
      cases ha : (a.1 s).ok with
      | false =>
          have hout : out = a.1 s := andThen_of_failed ha
          rw [hout]
          exact .inr ⟨ha, [], a, as, rfl, ha, rfl⟩
      | true =>
          have hst := hok a List.mem_cons_self s ha
          have hout : out = _ := andThen_of_ok ha
          rw [hst] at hout
          rw [hout]
          rcases ih (fun b hb => hok b (List.mem_cons_of_mem _ hb)) (a.2 s) with
            ⟨hrest, hall⟩ | ⟨hrest, before, b, after, hsplit, hb, hstop⟩
          · exact .inl ⟨hrest, hall⟩
          · exact .inr ⟨hrest, a :: before, b, after, by rw [hsplit]; rfl, hb,
              hstop⟩

/-- A history kept beside a sequence: each member that succeeds adds its own
note, and the first failure ends it. -/
def track {γ : Type} : List (Act σ ε × (σ → γ → γ)) → σ → γ → γ
  | [], _, g => g
  | (a, note) :: as, s, g =>
      if (a s).ok then track as (a s).state (note s g) else g

/-- A relation between object and history that every success extends and no
failure disturbs holds after the sequence, complete or not. -/
theorem track_all {γ : Type} {R : σ → γ → Prop}
    {as : List (Act σ ε × (σ → γ → γ))}
    (hok : ∀ p ∈ as, ∀ s g, R s g → (p.1 s).ok = true →
      R (p.1 s).state (p.2 s g))
    (hfail : ∀ p ∈ as, ∀ s g, R s g → (p.1 s).ok = false →
      R (p.1 s).state g) {s : σ} {g : γ} (h : R s g) :
    R (all (as.map (·.1)) s).state (track as s g) := by
  induction as generalizing s g with
  | nil => exact h
  | cons p as ih =>
      obtain ⟨a, note⟩ := p
      rw [List.map_cons, all_cons]
      cases ha : (a s).ok with
      | false =>
          rw [andThen_of_failed ha, track, if_neg (by simp [ha])]
          exact hfail (a, note) List.mem_cons_self s g h ha
      | true =>
          rw [andThen_of_ok ha, track, if_pos ha]
          exact ih (fun q hq => hok q (List.mem_cons_of_mem _ hq))
            (fun q hq => hfail q (List.mem_cons_of_mem _ hq))
            (hok (a, note) List.mem_cons_self s g h ha)

end Act

section

variable {σ τ ε : Type}

/-- What a caller sees of an outcome. -/
def Out.reply (o : Out σ ε) : Reply ε := ⟨o.ok, o.trace⟩

/-- Outcomes a caller cannot tell apart, with states that are related. -/
structure Out.Agree (R : σ → τ → Prop) (o : Out σ ε) (o' : Out τ ε) : Prop where
  ok : o.ok = o'.ok
  trace : o.trace = o'.trace
  state : R o.state o'.state

theorem Out.Agree.reply {R : σ → τ → Prop} {o : Out σ ε} {o' : Out τ ε}
    (h : o.Agree R o') : o.reply = o'.reply := by
  rw [Out.reply, Out.reply, h.ok, h.trace]

namespace Act

variable {R : σ → τ → Prop} {a a' : Act σ ε} {b b' : Act τ ε}

/-- From related states the two cannot be told apart. -/
def Lockstep (R : σ → τ → Prop) (a : Act σ ε) (b : Act τ ε) : Prop :=
  ∀ s t, R s t → (a s).Agree R (b t)

theorem lockstep_done : Lockstep R (done : Act σ ε) done :=
  fun _ _ h => ⟨rfl, rfl, h⟩

theorem lockstep_refuse (es : List ε) : Lockstep R (refuse es) (refuse es) :=
  fun _ _ h => ⟨rfl, rfl, h⟩

theorem Lockstep.andThen (ha : Lockstep R a b) (hb : Lockstep R a' b') :
    Lockstep R (a.andThen a') (b.andThen b') := by
  intro s t h
  have hfirst := ha s t h
  cases hok : (a s).ok with
  | false =>
      rw [andThen_of_failed hok, andThen_of_failed (hfirst.ok.symm.trans hok)]
      exact hfirst
  | true =>
      have hsecond := hb _ _ hfirst.state
      rw [andThen_of_ok hok, andThen_of_ok (hfirst.ok.symm.trans hok)]
      refine ⟨hsecond.ok, ?_, hsecond.state⟩
      rw [hfirst.trace, hsecond.trace]

theorem lockstep_all {as : List (Act σ ε)} {bs : List (Act τ ε)}
    (h : List.Forall₂ (Lockstep R) as bs) : Lockstep R (all as) (all bs) := by
  induction h with
  | nil => exact lockstep_done
  | cons ha _ ih => exact ha.andThen ih

end Act

end

end AwsKms.Lib
