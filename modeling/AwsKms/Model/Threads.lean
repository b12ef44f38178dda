import AwsKms.Model.Sys

/-!
# Calls that overlap

The provider's calls come from any thread. Two of them touch a counter twice,
`bind_key` and `awskms_sig_dupctx`: a reference is taken first, and given back
or exchanged at the end. Every counter update is one indivisible step, but
between the two another thread may do anything, so such a call can be split
here: `enter` is the call up to its first update, `leave` the rest of it. A
call that is not split is `call`, and a process whose turns are all `call` is
the machine of `Sys.lean`.

What callers owe grows by what libcrypto asks of them anyway. A context is
used by one thread at a time, and the last handle of a key is not freed under
a call that was given the key.
-/

namespace AwsKms.Model

open AwsKms.Lib

/-- The context a call works on. -/
def Call.ctx? : Call → Option CtxRef
  | .sigFreectx c | .sigDupctx c | .sig c _ => some c
  | _ => none

/-- The key a call is given by its caller. -/
def Call.given : Call → Option KeyRef
  | .keymgmtDup r _ => some r
  | .sig _ call => call.provkey
  | _ => none

/-- The key a call gives a handle of back. -/
def Call.drops : Call → Option KeyRef
  | .keymgmtFree r => some r
  | _ => none

section

variable {Alg Key : Type}

/-- A call that has taken its first reference and has not come back. -/
structure Flight (Alg Key : Type) where
  input : Input Alg Key
  ref : KeyRef

structure Threads (Alg Key : Type) where
  sys : Sys Alg Key
  flights : List (Flight Alg Key)

/-- What one thread does before another may go on. -/
inductive Turn (Alg Key : Type) where
  | call (i : Input Alg Key)
  | enter (i : Input Alg Key)
  | leave (k : Nat)

/-- The reference a call takes before anything else. -/
def firstTake (h : Host Alg Key) (env : Env Alg Key) (call : Call)
    (s : Sys Alg Key) : Option KeyRef :=
  match (Sys.step h env call s).trace.head? with
  | some (.keyUpRef r) => some r
  | _ => none

/-- The process as it would be, had a reference not been taken yet. -/
def Sys.untake (s : Sys Alg Key) (r : KeyRef) : Sys Alg Key :=
  { s with
    keys := Function.update s.keys r { s.keys r with
      refcnt := (s.keys r).refcnt - 1 } }

namespace Threads

variable (h : Host Alg Key)

def step : Turn Alg Key → Act (Threads Alg Key) Event
  | .call i => fun t =>
      let out := Sys.step h i.env i.call t.sys
      ⟨out.ok, { t with sys := out.state }, out.trace⟩
  | .enter i => fun t =>
      match firstTake h i.env i.call t.sys with
      | none => ⟨false, t, []⟩
      | some r => ⟨true, ⟨t.sys.moveRefs [.keyUpRef r], t.flights ++ [⟨i, r⟩]⟩,
          [.keyUpRef r]⟩
  | .leave k => fun t =>
      match t.flights[k]? with
      | none => ⟨false, t, []⟩
      | some f =>
          let out := Sys.step h f.input.env f.input.call (t.sys.untake f.ref)
          ⟨out.ok, ⟨out.state, t.flights.eraseIdx k⟩, out.trace.tail⟩

/-- No call in flight is in the way of another call. -/
structure Clear (t : Threads Alg Key) (call : Call) : Prop where
  ctx : ∀ f ∈ t.flights, ∀ c ∈ call.ctx?, f.input.call.ctx? ≠ some c
  handle : ∀ r ∈ call.drops, t.sys.handles r ≠ 1 ∨
    ∀ f ∈ t.flights, f.input.call.given ≠ some r

instance (t : Threads Alg Key) (call : Call) : Decidable (t.Clear call) :=
  decidable_of_iff
    ((∀ f ∈ t.flights, ∀ c ∈ call.ctx?, f.input.call.ctx? ≠ some c) ∧
      ∀ r ∈ call.drops, t.sys.handles r ≠ 1 ∨
        ∀ f ∈ t.flights, f.input.call.given ≠ some r)
    ⟨fun ⟨hctx, hhandle⟩ => ⟨hctx, hhandle⟩,
      fun hclear => ⟨hclear.ctx, hclear.handle⟩⟩

/-- What callers owe when calls overlap. -/
def Allowed (t : Threads Alg Key) : Turn Alg Key → Prop
  | .call i => i.call.Allowed t.sys ∧ t.Clear i.call
  | .enter i => i.call.Allowed t.sys ∧ t.Clear i.call ∧
      i.call.ctx?.isSome ∧ (firstTake h i.env i.call t.sys).isSome
  | .leave k => k < t.flights.length

instance (t : Threads Alg Key) : (turn : Turn Alg Key) →
    Decidable (Allowed h t turn)
  | .call i => inferInstanceAs
      (Decidable (i.call.Allowed t.sys ∧ t.Clear i.call))
  | .enter i => inferInstanceAs
      (Decidable (i.call.Allowed t.sys ∧ t.Clear i.call ∧
        i.call.ctx?.isSome ∧ (firstTake h i.env i.call t.sys).isSome))
  | .leave k => inferInstanceAs (Decidable (k < t.flights.length))

end Threads

/-- The provider under any number of threads. -/
def threads (h : Host Alg Key) :
    Machine (Threads Alg Key) (Turn Alg Key) Event where
  start := ⟨Sys.empty, []⟩
  allowed := Threads.Allowed h
  step := Threads.step h

instance (h : Host Alg Key) (t : Threads Alg Key) (turn : Turn Alg Key) :
    Decidable ((threads h).allowed t turn) :=
  inferInstanceAs (Decidable (Threads.Allowed h t turn))

end

end AwsKms.Model
