import Mathlib.Logic.Function.Basic
import AwsKms.Lib.Run
import AwsKms.Model.Signature
import AwsKms.Model.Store

/-!
# The provider as a machine

All the objects of a process at once: the memory of key objects, the store
contexts, the keydata handles libcrypto owns, the signature contexts. An
input is one dispatch call with the answers it gets from outside, and a run
is any sequence of them, so a statement about runs covers every order of
calls on every number of objects.

A call on an object that does not exist does nothing and returns 0, as the
source does on a NULL context; so does a call its table has no entry for.
What callers owe (`Call.Allowed`) is to name only keys they hold a handle of.
-/

namespace AwsKms.Model

open AwsKms.Lib

abbrev StoreRef := Nat
abbrev CtxRef := Nat

structure Sys (Alg Key : Type) where
  keys : Keys Key
  nextKey : KeyRef
  /-- live keydata handles of each key -/
  handles : KeyRef → Nat
  stores : StoreRef → Option AwskmsStoreCtx
  nextStore : StoreRef
  ctxs : CtxRef → Option (SigTable × AwskmsSigCtx Alg Key)
  nextCtx : CtxRef

/-- One dispatch call. -/
inductive Call where
  | storeOpen (uri : Option Bytes)
  | storeSetCtxParams (s : StoreRef) (params : Option (List OsslParam))
  | storeLoad (s : StoreRef) (cb : ObjectCb)
  | storeEof (s : StoreRef)
  | storeClose (s : StoreRef)
  | keymgmtFree (r : KeyRef)
  | keymgmtDup (r : KeyRef) (selection : Selection)
  | sigNewctx (table : SigTable) (propq : Option Bytes)
  | sigFreectx (c : CtxRef)
  | sigDupctx (c : CtxRef)
  | sig (c : CtxRef) (call : SigCall)
  deriving DecidableEq, Repr

section

variable {Alg Key : Type}

/-- `awskms_key_up_ref` and `awskms_key_free` on the object itself. -/
def applyRef (keys : Keys Key) : Event → Keys Key
  | .keyUpRef r =>
      Function.update keys r { keys r with refcnt := (keys r).refcnt + 1 }
  | .keyFree r =>
      Function.update keys r { keys r with
        refcnt := (keys r).refcnt - 1,
        freed := (keys r).freed || decide ((keys r).refcnt - 1 ≤ 0) }
  | _ => keys

def applyRefs (keys : Keys Key) (trace : List Event) : Keys Key :=
  trace.foldl applyRef keys

namespace Sys

variable (h : Host Alg Key) (env : Env Alg Key)

def empty : Sys Alg Key :=
  ⟨fun _ => awskmsKeyNew, 0, fun _ => 0, fun _ => none, 0, fun _ => none, 0⟩

/-- A new key object, and one more handle of it. -/
def addKey (s : Sys Alg Key) (key : AwskmsKey Key) : Sys Alg Key :=
  { s with
    keys := Function.update s.keys s.nextKey key,
    nextKey := s.nextKey + 1,
    handles := Function.update s.handles s.nextKey 1 }

/-- One more handle of a key. -/
def addHandle (s : Sys Alg Key) (r : KeyRef) : Sys Alg Key :=
  { s with handles := Function.update s.handles r (s.handles r + 1) }

/-- One handle of a key less. -/
def dropHandle (s : Sys Alg Key) (r : KeyRef) : Sys Alg Key :=
  { s with handles := Function.update s.handles r (s.handles r - 1) }

/-- The references a call moved. -/
def moveRefs (s : Sys Alg Key) (trace : List Event) : Sys Alg Key :=
  { s with keys := applyRefs s.keys trace }

def addCtx (s : Sys Alg Key) (table : SigTable)
    (ctx : AwskmsSigCtx Alg Key) : Sys Alg Key :=
  { s with
    ctxs := Function.update s.ctxs s.nextCtx (some (table, ctx)),
    nextCtx := s.nextCtx + 1 }

def setCtx (s : Sys Alg Key) (c : CtxRef) (table : SigTable)
    (ctx : AwskmsSigCtx Alg Key) : Sys Alg Key :=
  { s with ctxs := Function.update s.ctxs c (some (table, ctx)) }

def dropCtx (s : Sys Alg Key) (c : CtxRef) : Sys Alg Key :=
  { s with ctxs := Function.update s.ctxs c none }

/-- A store context and its key, written back. -/
def setStore (s : Sys Alg Key) (st : StoreRef) (state : StoreState Key) :
    Sys Alg Key :=
  { s with
    stores := Function.update s.stores st (some state.ctx),
    keys := Function.update s.keys state.ctx.key state.key }

/-- A store context opened on a new key. -/
def addStore (s : Sys Alg Key) (key : AwskmsKey Key) : Sys Alg Key :=
  { s with
    keys := Function.update s.keys s.nextKey key,
    nextKey := s.nextKey + 1,
    stores := Function.update s.stores s.nextStore
      (some ⟨s.nextKey, false, 0⟩),
    nextStore := s.nextStore + 1 }

def dropStore (s : Sys Alg Key) (st : StoreRef) : Sys Alg Key :=
  { s with stores := Function.update s.stores st none }

/-- A call on a store context that is open. -/
def onStore (s : Sys Alg Key) (st : StoreRef)
    (act : Act (StoreState Key) Event) : Out (Sys Alg Key) Event :=
  match s.stores st with
  | none => ⟨false, s, []⟩
  | some ctx =>
      let out := act ⟨ctx, s.keys ctx.key⟩
      ⟨out.ok, (s.setStore st out.state).moveRefs out.trace, out.trace⟩

/-- The handle a load hands to libcrypto, when its callback took one. -/
def handOut (out : Out (Sys Alg Key) Event) : Out (Sys Alg Key) Event :=
  match out.trace.getLast? with
  | some (.keyUpRef r) => { out with state := out.state.addHandle r }
  | _ => out

def step : Call → Act (Sys Alg Key) Event
  | .storeOpen uri => fun s =>
      let opened := awskmsStoreOpen h env uri
      if opened.1.ok then ⟨true, s.addStore opened.2, opened.1.trace⟩
      else opened.1.keep s
  | .storeSetCtxParams st params => fun s =>
      s.onStore st (awskmsStoreSetCtxParams env params)
  | .storeLoad st cb => fun s =>
      handOut (s.onStore st (awskmsStoreLoad h env cb))
  | .storeEof st => fun s =>
      ⟨(s.stores st).any awskmsStoreEof, s, []⟩
  | .storeClose st => fun s =>
      match s.stores st with
      | none => ⟨true, s, []⟩
      | some ctx => ⟨true, (s.dropStore st).moveRefs [.keyFree ctx.key],
          [.keyFree ctx.key]⟩
  | .keymgmtFree r => fun s =>
      ⟨true, (s.dropHandle r).moveRefs [.keyFree r], [.keyFree r]⟩
  | .keymgmtDup r selection => fun s =>
      match awskmsKeymgmtDup h env (s.keys r) selection with
      | .fail => ⟨false, s, []⟩
      | .share => ⟨true, (s.addHandle r).moveRefs [.keyUpRef r],
          [.keyUpRef r]⟩
      | .fresh key => ⟨true, s.addKey key, []⟩
  | .sigNewctx table propq => fun s =>
      match awskmsSigNewctx env propq with
      | none => ⟨false, s, []⟩
      | some ctx => ⟨true, s.addCtx table ctx, []⟩
  | .sigFreectx c => fun s =>
      match s.ctxs c with
      | none => ⟨true, s, []⟩
      | some (_, ctx) => ⟨true, (s.dropCtx c).moveRefs (awskmsSigFreectx ctx),
          awskmsSigFreectx ctx⟩
  | .sigDupctx c => fun s =>
      match s.ctxs c with
      | none => ⟨false, s, []⟩
      | some (table, ctx) =>
          let dup := awskmsSigDupctx env ctx
          match dup.1 with
          | none => ⟨false, s.moveRefs dup.2, dup.2⟩
          | some copy => ⟨true, (s.addCtx table copy).moveRefs dup.2, dup.2⟩
  | .sig c call => fun s =>
      match s.ctxs c with
      | none => ⟨false, s, []⟩
      | some (table, ctx) =>
          if table.offers call = false then ⟨false, s, []⟩
          else
            let out := sigCall h env s.keys call ctx
            ⟨out.ok, (s.setCtx c table out.state).moveRefs out.trace,
              out.trace⟩

end Sys

/-- A call and the answers it gets. -/
structure Input (Alg Key : Type) where
  call : Call
  env : Env Alg Key

/-- What callers owe: a key they name is one they hold. -/
def Call.Allowed (s : Sys Alg Key) : Call → Prop
  | .keymgmtFree r | .keymgmtDup r _ => s.handles r ≠ 0
  | .sig _ call => ∀ r ∈ call.provkey, s.handles r ≠ 0
  | _ => True

instance (s : Sys Alg Key) : (call : Call) → Decidable (call.Allowed s)
  | .keymgmtFree r | .keymgmtDup r _ =>
      inferInstanceAs (Decidable (s.handles r ≠ 0))
  | .sig _ call =>
      inferInstanceAs (Decidable (∀ r ∈ call.provkey, s.handles r ≠ 0))
  | .storeOpen _ | .storeSetCtxParams .. | .storeLoad .. | .storeEof _
  | .storeClose _ | .sigNewctx .. | .sigFreectx _ | .sigDupctx _ => .isTrue trivial

/-- The provider. -/
def provider (h : Host Alg Key) :
    Machine (Sys Alg Key) (Input Alg Key) Event where
  start := Sys.empty
  allowed s i := i.call.Allowed s
  step i := Sys.step h i.env i.call

instance (h : Host Alg Key) (s : Sys Alg Key) (i : Input Alg Key) :
    Decidable ((provider h).allowed s i) :=
  inferInstanceAs (Decidable (i.call.Allowed s))

end

end AwsKms.Model
