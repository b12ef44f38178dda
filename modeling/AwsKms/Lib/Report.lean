import AwsKms.Lib.Act

/-!
# Routines that report their failures

A routine reports when it leaves one error for every failure and none for a
success. Reporting composes: a sequence of routines that report is one that
reports, since nothing runs after the first failure.

A routine that takes an argument can go wrong in two ways, and only one of
them reports: it refuses the argument, or it cannot read it and gives up in
silence. `Reading` is what becomes of the argument, and the reading of a
sequence is the first one that is not `taken`.
-/

namespace AwsKms.Lib

variable {σ ε : Type}

section

variable (err : ε → Bool)

/-- One error for a failure, and none for a success. -/
def Reported (ok : Bool) (trace : List ε) : Prop :=
  trace.countP err = if ok then 0 else 1

instance (ok : Bool) (trace : List ε) : Decidable (Reported err ok trace) :=
  inferInstanceAs (Decidable (_ = _))

end

/-- What becomes of an argument. -/
inductive Reading where
  | taken
  | refused
  | unread
  deriving DecidableEq, Repr

namespace Reading

/-- A reading, and the one that follows it when the first is taken. -/
def andThen : Reading → Reading → Reading
  | .taken, r => r
  | .refused, _ => .refused
  | .unread, _ => .unread

/-- The reading of a sequence. -/
def all : List Reading → Reading
  | [] => .taken
  | r :: rs => r.andThen (all rs)

/-- A routine whose argument reads so does this. -/
def Of (err : ε → Bool) (r : Reading) (ok : Bool) (trace : List ε) : Prop :=
  match r with
  | .taken => ok = true ∧ trace.countP err = 0
  | .refused => ok = false ∧ trace.countP err = 1
  | .unread => ok = false ∧ trace.countP err = 0

variable {err : ε → Bool} {r r' : Reading}

theorem Of.reported_iff {ok : Bool} {trace : List ε} (hr : r.Of err ok trace) :
    Reported err ok trace ↔ r ≠ .unread := by
  unfold Reported
  cases r with
  | taken =>
      obtain ⟨rfl, hcount⟩ := hr
      simp [hcount]
  | refused =>
      obtain ⟨rfl, hcount⟩ := hr
      simp [hcount]
  | unread =>
      obtain ⟨rfl, hcount⟩ := hr
      simp [hcount]

end Reading

/-- A success leaves no error behind. -/
theorem Reported.quiet {err : ε → Bool} {ok : Bool} {trace : List ε}
    (hr : Reported err ok trace) (hok : ok = true) :
    trace.countP err = 0 := by
  rw [Reported, if_pos hok] at hr
  exact hr

theorem Reading.Of.quiet {err : ε → Bool} {r : Reading} {ok : Bool}
    {trace : List ε} (hr : r.Of err ok trace) (hok : ok = true) :
    trace.countP err = 0 := by
  cases r with
  | taken => exact hr.2
  | refused => rw [hr.1] at hok; cases hok
  | unread => exact hr.2

namespace Reply

variable {err : ε → Bool}

theorem andThen_reported {a b : Reply ε} (ha : Reported err a.ok a.trace)
    (hb : Reported err b.ok b.trace) :
    Reported err (a.andThen b).ok (a.andThen b).trace := by
  unfold andThen
  split
  · next hok =>
      unfold Reported at ha hb ⊢
      rw [if_pos hok] at ha
      rw [List.countP_append, ha, hb, Nat.zero_add]
  · exact ha

end Reply

namespace Act

variable {err : ε → Bool}

/-- What follows a routine that either reports or fails in silence matters to
neither. -/
theorem andThen_reported_iff {a b : Act σ ε} {s : σ}
    (ha : (a s).ok = true → (a s).trace.countP err = 0)
    (hb : (a s).ok = true →
      Reported err (b (a s).state).ok (b (a s).state).trace) :
    Reported err (a.andThen b s).ok (a.andThen b s).trace ↔
      Reported err (a s).ok (a s).trace := by
  cases hok : (a s).ok with
  | false => rw [andThen_of_failed hok, hok]
  | true =>
      have hnone := ha hok
      have hrest := hb hok
      rw [andThen_of_ok hok]
      unfold Reported at hrest ⊢
      rw [List.countP_append, hnone, hrest, Nat.zero_add]
      exact ⟨fun _ => rfl, fun _ => rfl⟩

theorem andThen_reported {a b : Act σ ε} {s : σ}
    (ha : Reported err (a s).ok (a s).trace)
    (hb : (a s).ok = true →
      Reported err (b (a s).state).ok (b (a s).state).trace) :
    Reported err (a.andThen b s).ok (a.andThen b s).trace := by
  exact (andThen_reported_iff ha.quiet hb).mpr ha

/-- A routine after one that is read: their readings in order. -/
theorem andThen_reading {a b : Act σ ε} {s : σ} {r r' : Reading}
    (ha : r.Of err (a s).ok (a s).trace)
    (hb : r'.Of err (b (a s).state).ok (b (a s).state).trace) :
    (r.andThen r').Of err (a.andThen b s).ok (a.andThen b s).trace := by
  cases r with
  | taken =>
      rw [andThen_of_ok ha.1]
      cases r' with
      | taken => exact ⟨hb.1, by rw [List.countP_append, ha.2, hb.2]⟩
      | refused => exact ⟨hb.1, by rw [List.countP_append, ha.2, hb.2]⟩
      | unread => exact ⟨hb.1, by rw [List.countP_append, ha.2, hb.2]⟩
  | refused =>
      rw [andThen_of_failed ha.1]
      exact ha
  | unread =>
      rw [andThen_of_failed ha.1]
      exact ha

theorem all_quiet {as : List (Act σ ε)}
    (h : ∀ a ∈ as, ∀ s, (a s).ok = true → (a s).trace.countP err = 0) {s : σ}
    (hok : (all as s).ok = true) : (all as s).trace.countP err = 0 := by
  induction as generalizing s with
  | nil => rfl
  | cons a as ih =>
      obtain ⟨ha, hrest⟩ := all_cons_ok.mp hok
      rw [all_cons, andThen_of_ok ha, List.countP_append,
        h a List.mem_cons_self s ha,
        ih (fun b hb => h b (List.mem_cons_of_mem _ hb)) hrest]

/-- A sequence of routines, each read the same way wherever an invariant that
all of them keep holds. -/
theorem all_reading {P : σ → Prop} {as : List (Act σ ε)} {rs : List Reading}
    (h : List.Forall₂ (fun a r => ∀ s, P s →
      P (a s).state ∧ r.Of err (a s).ok (a s).trace) as rs) {s : σ} (hs : P s) :
    P (all as s).state ∧
      (Reading.all rs).Of err (all as s).ok (all as s).trace := by
  induction h generalizing s with
  | nil => exact ⟨hs, rfl, rfl⟩
  | @cons a r as rs ha _ ih =>
      have hat := ha s hs
      have hrest := ih hat.1
      refine ⟨?_, andThen_reading hat.2 hrest.2⟩
      exact andThen_inv hat.1 fun t ht => (ih ht).1

/-- A routine that reports unless its argument is unread, after one that is
read. -/
theorem reading_andThen_iff {a b : Act σ ε} {s : σ} {r r' : Reading}
    (ha : r.Of err (a s).ok (a s).trace)
    (hb : Reported err (b (a s).state).ok (b (a s).state).trace ↔
      r' ≠ .unread) :
    Reported err (a.andThen b s).ok (a.andThen b s).trace ↔
      r.andThen r' ≠ .unread := by
  cases r with
  | taken =>
      have hcount : Reported err (a.andThen b s).ok (a.andThen b s).trace ↔
          Reported err (b (a s).state).ok (b (a s).state).trace := by
        rw [andThen_of_ok ha.1]
        unfold Reported
        rw [List.countP_append, ha.2, Nat.zero_add]
      exact hcount.trans hb
  | refused =>
      rw [andThen_of_failed ha.1]
      exact ha.reported_iff
  | unread =>
      rw [andThen_of_failed ha.1]
      exact ha.reported_iff

end Act

end AwsKms.Lib
