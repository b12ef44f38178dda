import AwsKms.Lib.Act
import AwsKms.Lib.Prog

/-!
# A pool of workers over a list of items

A pool starts a fixed number of workers. Each of them takes the next index
there is, runs the item's program, stores what it returned, and takes the
next one, until there are none. Between any two of a worker's moves the
others may make theirs, and the answer to a question comes whenever it
comes: a turn of the pool is one move of one worker.

`Pool.Inv` holds after every turn and says where every item is. No item is
ever run twice, and the questions asked for an item and the answers it got
are a path through its own program, whatever the other workers did. When the
workers have stopped and none has failed, every item was run to its end
(`Inv.settled`).
-/

namespace AwsKms.Lib

/-- Where a worker is. -/
inductive Worker (Q R E β : Type) where
  | idle
  | busy (index : Nat) (p : Prog Q R E β)
  | waiting (index : Nat) (q : Q) (k : R → Prog Q R E β)
  | stopped
  | failed (e : E)

/-- What is seen of a worker. -/
inductive Did (Q R : Type) where
  | took
  | asked (q : Q)
  | answered (q : Q) (r : R)
  | returned
  | threw

structure PoolEvent (Q R : Type) where
  worker : Nat
  index : Nat
  did : Did Q R

structure Pool (Q R E β : Type) where
  next : Nat
  workers : List (Worker Q R E β)
  output : List (Option β)
  rejected : Option E

variable {Q R E β ι : Type}

/-- The item a worker is at, what is left of its program, and the question
that is open. -/
def Worker.place : Worker Q R E β → Option (Nat × Prog Q R E β × List Q)
  | .busy i p => some (i, p, [])
  | .waiting i q k => some (i, .ask q k, [q])
  | _ => none

def Worker.holds (w : Worker Q R E β) : Option Nat := w.place.map Prod.fst

/-- A worker that runs an item. -/
def Worker.active (w : Worker Q R E β) : Bool := w.holds.isSome

def Worker.isStopped : Worker Q R E β → Bool
  | .stopped => true
  | _ => false

namespace Pool

/-- `limit` workers at most, and no more of them than there are items. -/
def start (count limit : Nat) : Pool Q R E β :=
  ⟨0, List.replicate (min limit count) .idle, List.replicate count none, none⟩

def put (s : Pool Q R E β) (w : Nat) (worker : Worker Q R E β) : Pool Q R E β :=
  { s with workers := s.workers.set w worker }

/-- One move of worker `w`; `r` is the answer that is there for it, if it
waits for one. -/
def turn (items : List ι) (fn : ι → Prog Q R E β) (w : Nat) (r : R) :
    Act (Pool Q R E β) (PoolEvent Q R) := fun s =>
  match s.workers[w]? with
  | some .idle =>
      match items[s.next]? with
      | none => ⟨true, { s.put w .stopped with next := s.next + 1 }, []⟩
      | some item =>
          ⟨true, { s.put w (.busy s.next (fn item)) with next := s.next + 1 },
            [⟨w, s.next, .took⟩]⟩
  | some (.busy i (.ret b)) =>
      ⟨true, { s.put w .idle with output := s.output.set i (some b) },
        [⟨w, i, .returned⟩]⟩
  | some (.busy i (.throw e)) =>
      -- `Promise.all` rejects with the first of them; the others go on
      ⟨true, { s.put w (.failed e) with rejected := s.rejected <|> some e },
        [⟨w, i, .threw⟩]⟩
  | some (.busy i (.ask q k)) =>
      ⟨true, s.put w (.waiting i q k), [⟨w, i, .asked q⟩]⟩
  | some (.waiting i q k) => ⟨true, s.put w (.busy i (k r)), [⟨w, i, .answered q r⟩]⟩
  | _ => ⟨false, s, []⟩

/-- Every worker came to the end of the items. -/
def done (s : Pool Q R E β) : Bool := s.workers.all Worker.isStopped

end Pool

/-- The question and its answer, where that is what was seen. -/
def Did.answer? : Did Q R → Option (Q × R)
  | .answered q r => some (q, r)
  | _ => none

def Did.question? : Did Q R → Option Q
  | .asked q => some q
  | _ => none

/-- What was seen of item `i`. -/
def eventsOf (i : Nat) (log : List (PoolEvent Q R)) : List (PoolEvent Q R) :=
  log.filter fun e => e.index = i

def answersOf (i : Nat) (log : List (PoolEvent Q R)) : List (Q × R) :=
  (eventsOf i log).filterMap fun e => e.did.answer?

def questionsOf (i : Nat) (log : List (PoolEvent Q R)) : List Q :=
  (eventsOf i log).filterMap fun e => e.did.question?

/-! ## Where every item is

The log of an item says how far it has come: not taken yet, in a worker's
hands at a certain continuation, or back with its outcome. The invariant puts
every item in one of these, and no item in two workers' hands. -/

namespace Pool

section

variable {items : List ι} {fn : ι → Prog Q R E β}

/-- What was seen of item `i` is one worker's way through `p` to `p'`, with
the questions `pending` still open. -/
structure Went (log : List (PoolEvent Q R)) (i w : Nat) (p p' : Prog Q R E β)
    (pending : List Q) : Prop where
  leads : p.Leads (answersOf i log) p'
  questions : questionsOf i log = (answersOf i log).map Prod.fst ++ pending
  worker : ∀ e ∈ log, e.index = i → e.worker = w

/-- Where item `i` is, if no worker is at it. -/
inductive Left (s : Pool Q R E β) (log : List (PoolEvent Q R)) (i : Nat)
    (p : Prog Q R E β) : Prop where
  | fresh : s.next ≤ i → s.output[i]? = some none → eventsOf i log = [] →
      Left s log i p
  | returned (w : Nat) (b : β) : i < s.next → s.output[i]? = some (some b) →
      Went log i w p (.ret b) [] → Left s log i p
  | threw (w : Nat) (e : E) : i < s.next → s.workers[w]? = some (.failed e) →
      Went log i w p (.throw e) [] → Left s log i p

/-- A worker is at item `i`. -/
def Held (s : Pool Q R E β) (i : Nat) : Prop :=
  ∃ (w : Nat) (worker : Worker Q R E β),
    s.workers[w]? = some worker ∧ worker.holds = some i

/-- What holds of a pool after every turn. -/
structure Inv (items : List ι) (fn : ι → Prog Q R E β) (limit : Nat)
    (s : Pool Q R E β) (log : List (PoolEvent Q R)) : Prop where
  workers : s.workers.length = min limit items.length
  output : s.output.length = items.length
  held : ∀ (w : Nat) (worker : Worker Q R E β) (i : Nat) (p : Prog Q R E β)
    (pending : List Q), s.workers[w]? = some worker →
    worker.place = some (i, p, pending) →
    i < s.next ∧ s.output[i]? = some none ∧
      ∃ item, items[i]? = some item ∧ Went log i w (fn item) p pending
  alone : ∀ (w w' : Nat) (worker worker' : Worker Q R E β) (i : Nat),
    s.workers[w]? = some worker → s.workers[w']? = some worker' →
    worker.holds = some i → worker'.holds = some i → w = w'
  past : Worker.stopped ∈ s.workers → items.length ≤ s.next
  thrown : (∃ e, Worker.failed e ∈ s.workers) ↔ s.rejected.isSome
  cause : ∀ e, Worker.failed e ∈ s.workers →
    ∃ item t, item ∈ items ∧ (fn item).Leads t (.throw e)
  indices : ∀ e ∈ log, e.index < items.length
  status : ∀ i item, items[i]? = some item →
    Held s i ∨ Left s log i (fn item)

/-- The moves of worker `w`, with the state each leaves and what is seen of
it. -/
inductive Moved (items : List ι) (fn : ι → Prog Q R E β) (w : Nat) (r : R)
    (s : Pool Q R E β) : Pool Q R E β → List (PoolEvent Q R) → Prop where
  | stop : s.workers[w]? = some .idle → items[s.next]? = none →
      Moved items fn w r s { s.put w .stopped with next := s.next + 1 } []
  | take (item : ι) : s.workers[w]? = some .idle → items[s.next]? = some item →
      Moved items fn w r s
        { s.put w (.busy s.next (fn item)) with next := s.next + 1 }
        [⟨w, s.next, .took⟩]
  | returned (i : Nat) (b : β) : s.workers[w]? = some (.busy i (.ret b)) →
      Moved items fn w r s
        { s.put w .idle with output := s.output.set i (some b) }
        [⟨w, i, .returned⟩]
  | threw (i : Nat) (e : E) : s.workers[w]? = some (.busy i (.throw e)) →
      Moved items fn w r s
        { s.put w (.failed e) with rejected := s.rejected <|> some e }
        [⟨w, i, .threw⟩]
  | asked (i : Nat) (q : Q) (k : R → Prog Q R E β) :
      s.workers[w]? = some (.busy i (.ask q k)) →
      Moved items fn w r s (s.put w (.waiting i q k)) [⟨w, i, .asked q⟩]
  | answered (i : Nat) (q : Q) (k : R → Prog Q R E β) :
      s.workers[w]? = some (.waiting i q k) →
      Moved items fn w r s (s.put w (.busy i (k r))) [⟨w, i, .answered q r⟩]

theorem turn_moved {w : Nat} {r : R} {s : Pool Q R E β}
    (h : (turn items fn w r s).ok = true) :
    Moved items fn w r s (turn items fn w r s).state
      (turn items fn w r s).trace := by
  revert h
  unfold turn
  cases hw : s.workers[w]? with
  | none => simp
  | some worker =>
      cases worker with
      | idle =>
          cases hi : items[s.next]? with
          | none => exact fun _ => .stop hw hi
          | some item => exact fun _ => .take item hw hi
      | busy i p =>
          cases p with
          | ret b => exact fun _ => .returned i b hw
          | throw e => exact fun _ => .threw i e hw
          | ask q k => exact fun _ => .asked i q k hw
      | waiting i q k => exact fun _ => .answered i q k hw
      | stopped => simp
      | failed => simp

theorem answersOf_append {i : Nat} {log more : List (PoolEvent Q R)} :
    answersOf i (log ++ more) = answersOf i log ++ answersOf i more := by
  simp [answersOf, eventsOf]

theorem questionsOf_append {i : Nat} {log more : List (PoolEvent Q R)} :
    questionsOf i (log ++ more) = questionsOf i log ++ questionsOf i more := by
  simp [questionsOf, eventsOf]

/-- What is seen of other items is nothing to this one. -/
theorem eventsOf_apart {i : Nat} {log more : List (PoolEvent Q R)}
    (h : ∀ e ∈ more, e.index ≠ i) : eventsOf i (log ++ more) = eventsOf i log := by
  simp only [eventsOf, List.filter_append, List.append_right_eq_self]
  simpa using h

theorem Went.apart {log more : List (PoolEvent Q R)} {i w : Nat}
    {p p' : Prog Q R E β} {pending : List Q} (h : Went log i w p p' pending)
    (hne : ∀ e ∈ more, e.index ≠ i) : Went (log ++ more) i w p p' pending where
  leads := by rw [answersOf, eventsOf_apart hne]; exact h.leads
  questions := by
    rw [questionsOf, answersOf, eventsOf_apart hne]
    exact h.questions
  worker e he hi := by
    rcases List.mem_append.mp he with he | he
    · exact h.worker e he hi
    · exact absurd hi (hne e he)

/-- The questions and answers an event adds. -/
theorem Went.snoc {log : List (PoolEvent Q R)} {i w : Nat}
    {p p' p'' : Prog Q R E β} {pending pending' : List Q}
    (h : Went log i w p p' pending) (did : Did Q R)
    (hl : p.Leads (answersOf i log ++ did.answer?.toList) p'')
    (hq : pending ++ did.question?.toList =
      did.answer?.toList.map Prod.fst ++ pending') :
    Went (log ++ [⟨w, i, did⟩]) i w p p'' pending' where
  leads := by
    rw [answersOf_append]
    cases did <;> simpa [answersOf, eventsOf, Did.answer?] using hl
  questions := by
    rw [answersOf_append, questionsOf_append, h.questions, List.append_assoc]
    have ha : answersOf i [(⟨w, i, did⟩ : PoolEvent Q R)] =
        did.answer?.toList := by cases did <;> simp [answersOf, eventsOf, Did.answer?]
    have hqs : questionsOf i [(⟨w, i, did⟩ : PoolEvent Q R)] =
        did.question?.toList := by
      cases did <;> simp [questionsOf, eventsOf, Did.question?]
    rw [ha, hqs, hq, List.map_append, List.append_assoc]
  worker e he hi := by
    rcases List.mem_append.mp he with he | he
    · exact h.worker e he hi
    · rw [List.mem_singleton.mp he]

/-! ## Every turn keeps it

A turn is one move of one worker, so one item goes on by one event and the
others stay. What is left to see is that the continuation the worker holds is
the one the log of its item leads to. -/

/-- An item that no worker is at, and that is not the moved worker's, is as
it was. -/
theorem Left.apart {s s' : Pool Q R E β} {log more : List (PoolEvent Q R)}
    {i w : Nat} {p : Prog Q R E β} {old x : Worker Q R E β}
    (h : Left s log i p) (hold : s.workers[w]? = some old)
    (hfailed : ∀ e, old ≠ .failed e)
    (hset : s'.workers = s.workers.set w x)
    (hout : s'.output[i]? = s.output[i]?)
    (hmono : s.next ≤ s'.next) (hnext : s.next ≤ i → s'.next ≤ i)
    (hlog : ∀ e ∈ more, e.index ≠ i) : Left s' (log ++ more) i p := by
  cases h with
  | fresh hi ho he =>
      exact .fresh (hnext hi) (hout.trans ho) ((eventsOf_apart hlog).trans he)
  | returned w' b hi ho hwent =>
      exact .returned w' b (by omega) (hout.trans ho) (hwent.apart hlog)
  | threw w' e hi hw hwent =>
      refine .threw w' e (by omega) ?_ (hwent.apart hlog)
      have hne : w ≠ w' := by
        rintro rfl
        exact hfailed e (Option.some.inj (hold.symm.trans hw))
      rw [hset, List.getElem?_set_ne hne]
      exact hw

/-- What a move owes: a worker `w` at `old` goes on as `x`, with its own item
or with one that nobody has taken. -/
structure Goes (items : List ι) (fn : ι → Prog Q R E β) (s : Pool Q R E β)
    (log : List (PoolEvent Q R)) (w : Nat) (old x : Worker Q R E β)
    (s' : Pool Q R E β) (more : List (PoolEvent Q R)) : Prop where
  at_old : s.workers[w]? = some old
  live : ∀ e, old ≠ .failed e
  set : s'.workers = s.workers.set w x
  length : s'.output.length = s.output.length
  next : s.next ≤ s'.next
  /-- what the worker is at now -/
  place : ∀ i p pending, x.place = some (i, p, pending) →
    (old.holds = some i ∨ s.next ≤ i) ∧ i < s'.next ∧
      s'.output[i]? = some none ∧
      ∃ item, items[i]? = some item ∧ Went (log ++ more) i w (fn item) p pending
  past : x = .stopped → items.length ≤ s'.next
  thrown : s'.rejected.isSome ↔ s.rejected.isSome ∨ ∃ e, x = .failed e
  cause : ∀ e, x = .failed e → ∃ item t, item ∈ items ∧ (fn item).Leads t (.throw e)
  /-- everything seen is of one item, the old one or the new one -/
  seen : ∀ e ∈ more, e.index < items.length ∧
    (old.holds = some e.index ∨ s.next ≤ e.index ∧ e.index < s'.next)
  output : ∀ i, old.holds ≠ some i → s'.output[i]? = s.output[i]?
  /-- an item that is let go has come to its end -/
  left : ∀ i item, items[i]? = some item → old.holds = some i →
    x.holds = some i ∨ Left s' (log ++ more) i (fn item)
  /-- an item that is next in line is taken -/
  taken : ∀ i, s.next ≤ i → i < items.length → x.holds = some i ∨ s'.next ≤ i

theorem holds_eq_some {worker : Worker Q R E β} {i : Nat} :
    worker.holds = some i ↔ ∃ p pending, worker.place = some (i, p, pending) := by
  simp [Worker.holds]

theorem Inv.goes {limit : Nat} {s s' : Pool Q R E β}
    {log more : List (PoolEvent Q R)} {w : Nat} {old x : Worker Q R E β}
    (hI : Inv items fn limit s log) (hg : Goes items fn s log w old x s' more) :
    Inv items fn limit s' (log ++ more) := by
  have hlt : w < s.workers.length := (List.getElem?_eq_some_iff.mp hg.at_old).1
  have hnew : s'.workers[w]? = some x := by
    rw [hg.set, List.getElem?_set_self hlt]
  have hsame : ∀ w', w' ≠ w → s'.workers[w']? = s.workers[w']? := by
    intro w' hw
    rw [hg.set, List.getElem?_set_ne fun h => hw h.symm]
  -- nobody else is at the item the worker goes on with
  have hsole : ∀ (w' : Nat) (y : Worker Q R E β) (i : Nat),
      s.workers[w']? = some y → y.holds = some i → x.holds = some i → w' = w := by
    intro w' y i hy hi hxi
    obtain ⟨p, pending, hplace⟩ := holds_eq_some.mp hxi
    obtain ⟨p', pending', hplace'⟩ := holds_eq_some.mp hi
    rcases (hg.place i p pending hplace).1 with h | h
    · exact hI.alone w' w y old i hy hg.at_old hi h
    · have := (hI.held w' y i p' pending' hy hplace').1
      omega
  -- what is seen is not of an item another worker is at
  have hapart : ∀ (w' : Nat) (y : Worker Q R E β) (i : Nat), w' ≠ w →
      s.workers[w']? = some y → y.holds = some i → ∀ e ∈ more, e.index ≠ i := by
    rintro w' y i hw hy hi e he rfl
    rcases (hg.seen e he).2 with h | h
    · exact hw (hI.alone w' w y old _ hy hg.at_old hi h)
    · obtain ⟨p', pending', hplace'⟩ := holds_eq_some.mp hi
      have := (hI.held w' y _ p' pending' hy hplace').1
      omega
  exact {
    workers := by rw [hg.set, List.length_set]; exact hI.workers
    output := hg.length.trans hI.output
    held := by
      intro w' y i p pending hy hplace
      by_cases hw : w' = w
      · subst hw
        obtain rfl := Option.some.inj (hnew.symm.trans hy)
        exact (hg.place i p pending hplace).2
      · rw [hsame w' hw] at hy
        obtain ⟨hi, ho, item, hitem, hwent⟩ := hI.held w' y i p pending hy hplace
        have hholds : y.holds = some i := holds_eq_some.mpr ⟨p, pending, hplace⟩
        have hold : old.holds ≠ some i := fun h =>
          hw (hI.alone w' w y old i hy hg.at_old hholds h)
        have hnext := hg.next
        exact ⟨by omega, (hg.output i hold).trans ho, item, hitem,
          hwent.apart (hapart w' y i hw hy hholds)⟩
    alone := by
      intro w₁ w₂ y₁ y₂ i h₁ h₂ hi₁ hi₂
      by_cases hw₁ : w₁ = w
      · subst hw₁
        obtain rfl := Option.some.inj (hnew.symm.trans h₁)
        by_cases hw₂ : w₂ = w₁
        · exact hw₂.symm
        · rw [hsame w₂ hw₂] at h₂
          exact (hsole w₂ y₂ i h₂ hi₂ hi₁).symm
      · rw [hsame w₁ hw₁] at h₁
        by_cases hw₂ : w₂ = w
        · subst hw₂
          obtain rfl := Option.some.inj (hnew.symm.trans h₂)
          exact hsole w₁ y₁ i h₁ hi₁ hi₂
        · rw [hsame w₂ hw₂] at h₂
          exact hI.alone w₁ w₂ y₁ y₂ i h₁ h₂ hi₁ hi₂
    past := by
      intro hs
      rw [hg.set] at hs
      rcases List.mem_or_eq_of_mem_set hs with h | h
      · exact Nat.le_trans (hI.past h) hg.next
      · exact hg.past h.symm
    thrown := by
      rw [hg.thrown, ← hI.thrown]
      constructor
      · rintro ⟨e, he⟩
        rw [hg.set] at he
        rcases List.mem_or_eq_of_mem_set he with h | h
        · exact .inl ⟨e, h⟩
        · exact .inr ⟨e, h.symm⟩
      · rintro (⟨e, he⟩ | ⟨e, rfl⟩)
        · obtain ⟨w', hw'⟩ := List.mem_iff_getElem?.mp he
          have hne : w' ≠ w := by
            rintro rfl
            exact hg.live e (Option.some.inj (hg.at_old.symm.trans hw'))
          exact ⟨e, List.mem_iff_getElem?.mpr ⟨w', (hsame w' hne).trans hw'⟩⟩
        · exact ⟨e, List.mem_iff_getElem?.mpr ⟨w, hnew⟩⟩
    cause := by
      intro e he
      rw [hg.set] at he
      rcases List.mem_or_eq_of_mem_set he with h | h
      · exact hI.cause e h
      · exact hg.cause e h.symm
    indices := by
      intro e he
      rcases List.mem_append.mp he with he | he
      · exact hI.indices e he
      · exact (hg.seen e he).1
    status := by
      intro i item hitem
      have hi : i < items.length := (List.getElem?_eq_some_iff.mp hitem).1
      by_cases hold : old.holds = some i
      · rcases hg.left i item hitem hold with h | h
        · exact .inl ⟨w, x, hnew, h⟩
        · exact .inr h
      rcases hI.status i item hitem with ⟨w', y, hy, hyi⟩ | hleft
      · have hw : w' ≠ w := by
          rintro rfl
          obtain rfl := Option.some.inj (hg.at_old.symm.trans hy)
          exact hold hyi
        exact .inl ⟨w', y, (hsame w' hw).trans hy, hyi⟩
      · by_cases hxi : x.holds = some i
        · exact .inl ⟨w, x, hnew, hxi⟩
        refine .inr (hleft.apart hg.at_old hg.live hg.set (hg.output i hold)
          hg.next ?_ ?_)
        · intro hn
          exact (hg.taken i hn hi).resolve_left hxi
        · rintro e he rfl
          rcases (hg.seen e he).2 with h | ⟨hn, hlt'⟩
          · exact hold h
          · have := (hg.taken _ hn hi).resolve_left hxi
            omega }

/-- What is known of a worker that runs an item. -/
theorem Inv.at_busy {limit : Nat} {s : Pool Q R E β} {log : List (PoolEvent Q R)}
    {w i : Nat} {p : Prog Q R E β} (hI : Inv items fn limit s log)
    (hw : s.workers[w]? = some (.busy i p)) :
    i < s.next ∧ i < items.length ∧ s.output[i]? = some none ∧
      ∃ item, items[i]? = some item ∧ Went log i w (fn item) p [] := by
  obtain ⟨hi, ho, item, hitem, hwent⟩ := hI.held w _ i p [] hw rfl
  exact ⟨hi, (List.getElem?_eq_some_iff.mp hitem).1, ho, item, hitem, hwent⟩

/-- A worker that goes on with its own item owes no more than what was seen of
it. -/
theorem Inv.goes_on {limit w i : Nat} {s : Pool Q R E β}
    {log : List (PoolEvent Q R)} {old x : Worker Q R E β}
    {p p' : Prog Q R E β} {pending pending' : List Q} {did : Did Q R}
    (hI : Inv items fn limit s log) (hw : s.workers[w]? = some old)
    (hold : old.place = some (i, p, pending))
    (hx : x.place = some (i, p', pending'))
    (hnow : ∀ item, Went log i w (fn item) p pending →
      Went (log ++ [⟨w, i, did⟩]) i w (fn item) p' pending') :
    Goes items fn s log w old x (s.put w x) [⟨w, i, did⟩] := by
  obtain ⟨hi, ho, item, hitem, hwent⟩ := hI.held w old i p pending hw hold
  have hlen := (List.getElem?_eq_some_iff.mp hitem).1
  have hholds : old.holds = some i := holds_eq_some.mpr ⟨p, pending, hold⟩
  exact {
    at_old := hw
    live := by
      rintro e rfl
      cases hold
    set := rfl
    length := rfl
    next := Nat.le_refl _
    place := by
      intro j q rest hj
      obtain ⟨rfl, rfl, rfl⟩ : i = j ∧ p' = q ∧ pending' = rest := by
        simpa using hx.symm.trans hj
      exact ⟨.inl hholds, hi, ho, item, hitem, hnow item hwent⟩
    past := by
      rintro rfl
      cases hx
    thrown := by
      refine ⟨.inl, ?_⟩
      rintro (h | ⟨e, rfl⟩)
      · exact h
      · cases hx
    cause := by
      rintro e rfl
      cases hx
    seen := by
      intro e he
      rw [List.mem_singleton.mp he]
      exact ⟨hlen, .inl hholds⟩
    output := fun _ _ => rfl
    left := by
      intro j _ _ hj
      obtain rfl := Option.some.inj (hholds.symm.trans hj)
      exact .inl (holds_eq_some.mpr ⟨p', pending', hx⟩)
    taken := fun j hj _ => .inr hj }

theorem Moved.goes {limit w : Nat} {r : R} {s s' : Pool Q R E β}
    {log more : List (PoolEvent Q R)} (hI : Inv items fn limit s log)
    (h : Moved items fn w r s s' more) :
    ∃ old x, Goes items fn s log w old x s' more := by
  cases h with
  | stop hw hnone =>
      have hlen : items.length ≤ s.next := List.getElem?_eq_none_iff.mp hnone
      exact ⟨.idle, .stopped, {
        at_old := hw
        live := by simp
        set := rfl
        length := rfl
        next := Nat.le_succ _
        place := by simp [Worker.place]
        past := fun _ => Nat.le_succ_of_le hlen
        thrown := by simp [put]
        cause := by simp
        seen := by simp
        output := fun _ _ => rfl
        left := by simp [Worker.holds, Worker.place]
        taken := fun i hn hi => by omega }⟩
  | take item hw hitem =>
      have hlt : s.next < items.length := (List.getElem?_eq_some_iff.mp hitem).1
      have hnone : s.output[s.next]? = some none ∧ eventsOf s.next log = [] := by
        rcases hI.status s.next item hitem with ⟨w', y, hy, hyi⟩ | hleft
        · obtain ⟨p, pending, hplace⟩ := holds_eq_some.mp hyi
          exact absurd (hI.held w' y _ p pending hy hplace).1 (Nat.lt_irrefl _)
        · cases hleft with
          | fresh _ ho he => exact ⟨ho, he⟩
          | returned _ _ hi => exact absurd hi (Nat.lt_irrefl _)
          | threw _ _ hi => exact absurd hi (Nat.lt_irrefl _)
      have hwent : Went (log ++ [⟨w, s.next, .took⟩]) s.next w (fn item)
          (fn item) [] := by
        refine (Went.mk ?_ ?_ ?_ : Went log s.next w (fn item) (fn item) []).snoc
          .took ?_ rfl
        · simp [answersOf, hnone.2]
        · simp [answersOf, questionsOf, hnone.2]
        · intro e he hi
          have hmem : e ∈ eventsOf s.next log :=
            List.mem_filter.mpr ⟨he, by simpa using hi⟩
          rw [hnone.2] at hmem
          cases hmem
        · simp [answersOf, hnone.2, Did.answer?]
      exact ⟨.idle, .busy s.next (fn item), {
        at_old := hw
        live := by simp
        set := rfl
        length := rfl
        next := Nat.le_succ _
        place := by
          rintro i p pending ⟨⟩
          exact ⟨.inr (Nat.le_refl _), Nat.lt_succ_self _, hnone.1, item, hitem,
            hwent⟩
        past := by simp
        thrown := by simp [put]
        cause := by simp
        seen := by
          intro e he
          rw [List.mem_singleton.mp he]
          exact ⟨hlt, .inr ⟨Nat.le_refl _, Nat.lt_succ_self _⟩⟩
        output := fun _ _ => rfl
        left := by simp [Worker.holds, Worker.place]
        taken := by
          intro i hn hi
          rcases Nat.eq_or_lt_of_le hn with rfl | hlt'
          · exact .inl rfl
          · exact .inr hlt' }⟩
  | returned i b hw =>
      obtain ⟨hi, hlen, ho, item, hitem, hwent⟩ := hI.at_busy hw
      have hend := hwent.snoc .returned
        (by simpa [Did.answer?] using hwent.leads) rfl
      exact ⟨.busy i (.ret b), .idle, {
        at_old := hw
        live := by simp
        set := rfl
        length := by simp
        next := Nat.le_refl _
        place := by simp [Worker.place]
        past := by simp
        thrown := by simp [put]
        cause := by simp
        seen := by
          intro e he
          rw [List.mem_singleton.mp he]
          exact ⟨hlen, .inl rfl⟩
        output := by
          intro j hj
          have hne : i ≠ j := fun h => hj (by rw [← h]; rfl)
          exact List.getElem?_set_ne hne
        left := by
          rintro j item' hitem' ⟨⟩
          obtain rfl := Option.some.inj (hitem.symm.trans hitem')
          refine .inr (.returned w b hi ?_ hend)
          exact List.getElem?_set_self (by rw [hI.output]; exact hlen)
        taken := fun j hj _ => .inr hj }⟩
  | threw i e hw =>
      obtain ⟨hi, hlen, ho, item, hitem, hwent⟩ := hI.at_busy hw
      have hend := hwent.snoc .threw
        (by simpa [Did.answer?] using hwent.leads) rfl
      exact ⟨.busy i (.throw e), .failed e, {
        at_old := hw
        live := by simp
        set := rfl
        length := rfl
        next := Nat.le_refl _
        place := by simp [Worker.place]
        past := by simp
        thrown := by simp
        cause := by
          rintro _ ⟨⟩
          exact ⟨item, _, List.mem_of_getElem? hitem, hwent.leads⟩
        seen := by
          intro e he
          rw [List.mem_singleton.mp he]
          exact ⟨hlen, .inl rfl⟩
        output := fun _ _ => rfl
        left := by
          rintro j item' hitem' ⟨⟩
          obtain rfl := Option.some.inj (hitem.symm.trans hitem')
          refine .inr (.threw w e hi ?_ hend)
          exact List.getElem?_set_self (List.getElem?_eq_some_iff.mp hw).1
        taken := fun j hj _ => .inr hj }⟩
  | asked i q k hw =>
      refine ⟨_, _, hI.goes_on hw rfl rfl fun item hwent => ?_⟩
      exact hwent.snoc (.asked q) (by simpa [Did.answer?] using hwent.leads) rfl
  | answered i q k hw =>
      refine ⟨_, _, hI.goes_on hw rfl rfl fun item hwent => ?_⟩
      exact hwent.snoc (.answered q r) (hwent.leads.snoc r) rfl

theorem Moved.inv {limit w : Nat} {r : R} {s s' : Pool Q R E β}
    {log more : List (PoolEvent Q R)} (hI : Inv items fn limit s log)
    (h : Moved items fn w r s s' more) : Inv items fn limit s' (log ++ more) := by
  obtain ⟨old, x, hg⟩ := h.goes hI
  exact hI.goes hg

/-- The invariant holds where the pool starts, with nothing seen. -/
theorem start_inv (limit : Nat) :
    Inv items fn limit (start items.length limit) [] where
  workers := by simp [start]
  output := by simp [start]
  held w worker i p pending hw hplace := by
    have hidle := List.eq_of_mem_replicate (List.mem_of_getElem? hw)
    rw [hidle] at hplace
    cases hplace
  alone w w' worker worker' i hw _ hi _ := by
    have hidle := List.eq_of_mem_replicate (List.mem_of_getElem? hw)
    rw [hidle] at hi
    cases hi
  past hs := by cases List.eq_of_mem_replicate hs
  thrown := by
    refine ⟨fun ⟨e, he⟩ => ?_, fun h => by cases h⟩
    cases List.eq_of_mem_replicate he
  cause e he := by cases List.eq_of_mem_replicate he
  indices e he := by cases he
  status i item hitem := by
    have hi : i < items.length := (List.getElem?_eq_some_iff.mp hitem).1
    exact .inr (.fresh (Nat.zero_le _) (by simp [start, hi]) rfl)

/-- No more workers are active than were allowed. -/
theorem Inv.active_le {limit : Nat} {s : Pool Q R E β} {log : List (PoolEvent Q R)}
    (hI : Inv items fn limit s log) :
    (s.workers.filter Worker.active).length ≤ limit :=
  calc (s.workers.filter Worker.active).length
      ≤ s.workers.length := List.length_filter_le ..
    _ = min limit items.length := hI.workers
    _ ≤ limit := Nat.min_le_left ..

/-- Every item was run to its end, and returned what is stored for it. -/
structure Settled (items : List ι) (fn : ι → Prog Q R E β) (outs : List β)
    (log : List (PoolEvent Q R)) : Prop where
  length : outs.length = items.length
  indices : ∀ e ∈ log, e.index < items.length
  ran : ∀ i item, items[i]? = some item → ∃ (w : Nat) (b : β),
    outs[i]? = some b ∧ Went log i w (fn item) (.ret b) []

/-- What the pool has stored, when it has everything. -/
def outputs (s : Pool Q R E β) : List β := s.output.filterMap id

theorem eq_map_some {l : List (Option β)} (h : ∀ o ∈ l, o ≠ none) :
    l = (l.filterMap id).map some := by
  induction l with
  | nil => rfl
  | cons o l ih =>
      have hrest := ih fun o ho => h o (List.mem_cons_of_mem _ ho)
      cases o with
      | none => exact absurd rfl (h none List.mem_cons_self)
      | some b => simpa using hrest

theorem Inv.settled {limit : Nat} {s : Pool Q R E β} {log : List (PoolEvent Q R)}
    (hI : Inv items fn limit s log) (hlimit : 0 < limit) (hdone : s.done = true) :
    Settled items fn s.outputs log := by
  have hstopped : ∀ worker ∈ s.workers, worker = .stopped := by
    intro worker hw
    have h := List.all_eq_true.mp hdone worker hw
    cases worker <;> simp_all [Worker.isStopped]
  have hreturned : ∀ i item, items[i]? = some item → ∃ (w : Nat) (b : β),
      s.output[i]? = some (some b) ∧ Went log i w (fn item) (.ret b) [] := by
    intro i item hitem
    have hi : i < items.length := (List.getElem?_eq_some_iff.mp hitem).1
    rcases hI.status i item hitem with ⟨w, worker, hw, hholds⟩ | hleft
    · rw [hstopped worker (List.mem_of_getElem? hw)] at hholds
      cases hholds
    cases hleft with
    | fresh hn =>
        -- some worker has stopped, so the items were used up
        have hpos : 0 < s.workers.length := by rw [hI.workers]; omega
        have hmem := List.getElem_mem hpos
        rw [hstopped _ hmem] at hmem
        have := hI.past hmem
        omega
    | returned w b _ ho hwent => exact ⟨w, b, ho, hwent⟩
    | threw w e _ hw => cases hstopped _ (List.mem_of_getElem? hw)
  have hfull : s.output = s.outputs.map some := by
    refine eq_map_some fun o ho => ?_
    obtain ⟨i, hi, hget⟩ := List.mem_iff_getElem.mp ho
    have hlt : i < items.length := by rw [← hI.output]; exact hi
    obtain ⟨_, b, hout, _⟩ := hreturned i _ (List.getElem?_eq_getElem hlt)
    rw [List.getElem?_eq_getElem hi, hget] at hout
    simp [Option.some.inj hout]
  refine ⟨?_, hI.indices, fun i item hitem => ?_⟩
  · rw [← hI.output, hfull, List.length_map]
  · obtain ⟨w, b, hout, hwent⟩ := hreturned i item hitem
    refine ⟨w, b, ?_, hwent⟩
    rw [hfull, List.getElem?_map] at hout
    simpa using hout

/-- A pool that has rejected nothing has stopped, or has a worker that can
move. -/
theorem Inv.moves {limit : Nat} {s : Pool Q R E β} {log : List (PoolEvent Q R)}
    (hI : Inv items fn limit s log) (hrej : s.rejected = none) :
    s.done = true ∨ ∃ w, ∀ r, (turn items fn w r s).ok = true := by
  by_cases hdone : s.done = true
  · exact .inl hdone
  obtain ⟨worker, hmem, hnot⟩ : ∃ worker ∈ s.workers, worker.isStopped = false := by
    simpa [done] using hdone
  obtain ⟨w, hw⟩ := List.mem_iff_getElem?.mp hmem
  refine .inr ⟨w, fun r => ?_⟩
  unfold turn
  rw [hw]
  cases worker with
  | idle =>
      simp only
      split <;> rfl
  | busy i p => cases p <;> rfl
  | waiting i q k => rfl
  | stopped => cases hnot
  | failed e =>
      have hsome := hI.thrown.mp ⟨e, hmem⟩
      rw [hrej] at hsome
      cases hsome

/-- What is left of a list, item by item, is a sublist of it. -/
theorem filterMap_sublist {α β : Type} {f : β → α} {items : List α}
    {outs : List (Option β)} (hlen : outs.length = items.length)
    (h : ∀ (i : Nat) (x : α) (b : β), items[i]? = some x →
      outs[i]? = some (some b) → f b = x) :
    ((outs.filterMap id).map f).Sublist items := by
  induction items generalizing outs with
  | nil =>
      obtain rfl := List.length_eq_zero_iff.mp hlen
      exact List.Sublist.refl _
  | cons x items ih =>
      cases outs with
      | nil => cases hlen
      | cons o outs =>
          have hrest := ih (Nat.succ.inj hlen) fun i y b hy hb =>
            h (i + 1) y b hy hb
          cases o with
          | none => exact hrest.cons x
          | some b =>
              have hb := h 0 x b rfl rfl
              rw [← hb]
              exact hrest.cons_cons (f b)

/-- The questions and answers of item `i` are a path through its program. -/
structure Path (log : List (PoolEvent Q R)) (i : Nat) (p : Prog Q R E β) :
    Prop where
  leads : ∃ p', p.Leads (answersOf i log) p' ∧
    (questionsOf i log = (answersOf i log).map Prod.fst ∨ ∃ q k, p' = .ask q k ∧
      questionsOf i log = (answersOf i log).map Prod.fst ++ [q])

theorem Went.path {log : List (PoolEvent Q R)} {i w : Nat} {p p' : Prog Q R E β}
    (h : Went log i w p p' []) : Path log i p :=
  ⟨p', h.leads, .inl (by rw [h.questions, List.append_nil])⟩

theorem Inv.path {limit : Nat} {s : Pool Q R E β} {log : List (PoolEvent Q R)}
    (hI : Inv items fn limit s log) {i : Nat} {item : ι}
    (hitem : items[i]? = some item) : Path log i (fn item) := by
  rcases hI.status i item hitem with ⟨w, worker, hw, hholds⟩ | hleft
  · obtain ⟨p, pending, hplace⟩ := holds_eq_some.mp hholds
    obtain ⟨-, -, item', hitem', hwent⟩ := hI.held w worker i p pending hw hplace
    obtain rfl := Option.some.inj (hitem.symm.trans hitem')
    cases worker with
    | busy j p' =>
        cases hplace
        exact hwent.path
    | waiting j q k =>
        cases hplace
        exact ⟨_, hwent.leads, .inr ⟨q, k, rfl, hwent.questions⟩⟩
    | idle => cases hplace
    | stopped => cases hplace
    | failed => cases hplace
  · cases hleft with
    | fresh _ _ he =>
        have ha : answersOf i log = [] := by simp [answersOf, he]
        have hq : questionsOf i log = [] := by simp [questionsOf, he]
        exact ⟨fn item, by rw [ha]; exact Prog.leads_nil.mpr rfl,
          .inl (by rw [ha, hq]; rfl)⟩
    | returned w b _ _ hwent => exact hwent.path
    | threw w e _ _ hwent => exact hwent.path

theorem Settled.path {outs : List β} {log : List (PoolEvent Q R)}
    (h : Settled items fn outs log) {i : Nat} {item : ι}
    (hitem : items[i]? = some item) : Path log i (fn item) := by
  obtain ⟨w, b, -, hwent⟩ := h.ran i item hitem
  exact hwent.path

/-- One question is open at most. -/
theorem Path.open_le {log : List (PoolEvent Q R)} {i : Nat} {p : Prog Q R E β}
    (h : Path log i p) :
    (questionsOf i log).length ≤ (answersOf i log).length + 1 := by
  obtain ⟨p', -, hqs | ⟨q, k, -, hqs⟩⟩ := h.leads <;> simp [hqs]

/-- Every question was asked after the answers before it. -/
theorem Path.asks {log : List (PoolEvent Q R)} {i n : Nat} {p : Prog Q R E β}
    {q : Q} (h : Path log i p) (hq : (questionsOf i log)[n]? = some q) :
    p.Asks ((answersOf i log).take n) q := by
  obtain ⟨p', hl, hqs⟩ := h.leads
  have hanswered : ((answersOf i log).map Prod.fst)[n]? = some q →
      p.Asks ((answersOf i log).take n) q := by
    intro hq
    rw [List.getElem?_map, Option.map_eq_some_iff] at hq
    obtain ⟨⟨q', r⟩, hqr, rfl⟩ := hq
    obtain ⟨hlt, hget⟩ := List.getElem?_eq_some_iff.mp hqr
    have hsplit : answersOf i log = (answersOf i log).take n ++
        (q', r) :: (answersOf i log).drop (n + 1) := by
      rw [← hget, ← List.drop_eq_getElem_cons hlt, List.take_append_drop]
    rw [hsplit] at hl
    exact hl.asked
  rcases hqs with hqs | ⟨q', k, rfl, hqs⟩
  · rw [hqs] at hq
    exact hanswered hq
  · rw [hqs, List.getElem?_append, List.length_map] at hq
    split at hq
    · exact hanswered hq
    · rename_i hn
      have hlast : n - (answersOf i log).length = 0 := by
        have := (List.getElem?_eq_some_iff.mp hq).1
        simpa using this
      have hnlen : (answersOf i log).length ≤ n := Nat.not_lt.mp hn
      rw [hlast] at hq
      obtain rfl : q' = q := by simpa using hq
      rw [List.take_of_length_le hnlen]
      exact ⟨k, hl⟩

/-- A turn shows one thing at most. -/
theorem Moved.single {w : Nat} {r : R} {s s' : Pool Q R E β}
    {more : List (PoolEvent Q R)} (h : Moved items fn w r s s' more) :
    more.length ≤ 1 := by
  cases h <;> simp

/-- A question seen in a turn is one the item's program asks after the answers
it has had, all of them given to this worker. -/
theorem Moved.asks {limit w : Nat} {r : R} {s s' : Pool Q R E β}
    {log more : List (PoolEvent Q R)} (hI : Inv items fn limit s log)
    (h : Moved items fn w r s s' more) {e : PoolEvent Q R} (he : e ∈ more) {q : Q}
    (hq : e.did.question? = some q) : ∃ item, items[e.index]? = some item ∧
      (fn item).Asks (answersOf e.index log) q ∧
      ∀ e' ∈ log, e'.index = e.index → e'.worker = e.worker := by
  cases h with
  | stop => cases he
  | take item hw hitem =>
      rw [List.mem_singleton.mp he] at hq
      cases hq
  | returned i b hw =>
      rw [List.mem_singleton.mp he] at hq
      cases hq
  | threw i err hw =>
      rw [List.mem_singleton.mp he] at hq
      cases hq
  | answered i q' k hw =>
      rw [List.mem_singleton.mp he] at hq
      cases hq
  | asked i q' k hw =>
      obtain rfl := List.mem_singleton.mp he
      obtain rfl : q' = q := by simpa [Did.question?] using hq
      obtain ⟨-, -, -, item, hitem, hwent⟩ := hI.at_busy hw
      exact ⟨item, hitem, ⟨k, hwent.leads⟩, hwent.worker⟩

/-- Where only one item can have asked a question, it was asked as often as
that item asked it. -/
theorem count_questions [DecidableEq Q] {log : List (PoolEvent Q R)} {q : Q}
    {i : Nat} (h : ∀ e ∈ log, e.did.question? = some q → e.index = i) :
    (log.filterMap fun e => e.did.question?).count q = (questionsOf i log).count q := by
  induction log with
  | nil => rfl
  | cons e log ih =>
      have hrest := ih fun e' he' => h e' (List.mem_cons_of_mem _ he')
      have hcons : questionsOf i ([e] ++ log) = questionsOf i [e] ++ questionsOf i log :=
        questionsOf_append
      rw [List.singleton_append] at hcons
      rw [hcons, List.count_append, ← hrest, ← List.singleton_append,
        List.filterMap_append, List.count_append]
      congr 1
      by_cases hq : e.did.question? = some q
      · have hi := h e List.mem_cons_self hq
        simp [questionsOf, eventsOf, hi]
      · have hzero : ∀ l : List (PoolEvent Q R), l ⊆ [e] →
            (l.filterMap fun e => e.did.question?).count q = 0 := by
          intro l hl
          refine List.count_eq_zero.mpr fun hmem => ?_
          obtain ⟨e', he', hq'⟩ := List.mem_filterMap.mp hmem
          rw [List.mem_singleton.mp (hl he')] at hq'
          exact hq hq'
        rw [hzero [e] (List.Subset.refl _)]
        exact (hzero _ (List.filter_subset_self _)).symm

end

end Pool

end AwsKms.Lib
