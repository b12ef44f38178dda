import AwsKms.Proofs.Bench

/-!
# A store session

A session is what happens to one store context from its opening to its close.
Two flags carry it: `emitted`, and whether the key it owns has a view, which
the code tells by one field of it. Until the session is over that key belongs
to it alone and its view is empty, so every load that gets as far as asking
starts from nothing, and the load that succeeds is the load that emits.
-/

namespace AwsKms.Model

open AwsKms.Lib

section

variable {Alg Key : Type} {h : Host Alg Key} {env : Env Alg Key}

/-! ## One load

`LoadStep` is what a load can have done: nothing, since the session is over;
an end without an object; a failure that leaves the store as it was; or an
object handed to the callback. -/

def Event.isObjectCb : Event → Bool
  | .objectCb _ _ => true
  | _ => false

/-- The caller asked for an object of another kind. -/
def AwskmsStoreCtx.Elsewhere (ctx : AwskmsStoreCtx) : Prop :=
  ctx.expect ≠ 0 ∧ ctx.expect ≠ ossl_STORE_INFO_PKEY

/-- A key was given its view by parsing, as a whole, one answer of
kms:GetPublicKey about it; `keytype` is what that answer says it is. -/
structure Built (h : Host Alg Key) (env : Env Alg Key) (key : AwskmsKey Key)
    (answer : AwskmsPublicKey) (pub : AwskmsPubkey Key) (keytype : String) :
    Prop where
  answered : env.getPublicKey key.uri key.fipsRequired = .ok answer
  parsed : (awskmsPubkeyFromSpki h env answer.spki answer.keySpec
    key.fipsRequired AwskmsPubkey.zero).ok = true
  view : pub = (awskmsPubkeyFromSpki h env answer.spki answer.keySpec
    key.fipsRequired AwskmsPubkey.zero).state
  type : ∃ spec, awskmsKeyspecByName answer.keySpec = some spec ∧
    keytype = spec.keytype

/-- What a load does on a session whose key has no view before it is over. -/
inductive LoadStep (h : Host Alg Key) (env : Env Alg Key) (cb : ObjectCb)
    (st : StoreState Key) : Out (StoreState Key) Event → Prop where
  | finished : st.ctx.emitted = true → LoadStep h env cb st ⟨false, st, []⟩
  | skipped : st.ctx.emitted = false → st.ctx.Elsewhere →
      LoadStep h env cb st
        ⟨false, { st with ctx := { st.ctx with emitted := true } }, []⟩
  | failed {rest : List Event} : st.ctx.emitted = false →
      ¬st.ctx.Elsewhere → (∀ e ∈ rest, e.isObjectCb = false) →
      LoadStep h env cb st
        ⟨false, st, .kmsGetPublicKey st.key.uri st.key.fipsRequired :: rest⟩
  | emitted {answer : AwskmsPublicKey} {pub : AwskmsPubkey Key}
      {keytype : String} {rest refs : List Event} :
      st.ctx.emitted = false → ¬st.ctx.Elsewhere →
      Built h env st.key answer pub keytype →
      (∀ e ∈ rest, e.isObjectCb = false) →
      (∀ e ∈ refs, e.isObjectCb = false) →
      LoadStep h env cb st ⟨cb.ret,
        ⟨{ st.ctx with emitted := true }, { st.key with pub := pub }⟩,
        .kmsGetPublicKey st.key.uri st.key.fipsRequired ::
          (rest ++ .objectCb keytype st.ctx.key :: refs)⟩

/-- A key that has no view is given a whole one or none. -/
theorem loadKey_blank {st : StoreState Key}
    (hblank : st.key.pub = AwskmsPubkey.zero) :
    ∃ rest, (∀ e ∈ rest, e.isObjectCb = false) ∧
      (awskmsStoreLoadKey h env st).trace =
        .kmsGetPublicKey st.key.uri st.key.fipsRequired :: rest ∧
      ((awskmsStoreLoadKey h env st).ok = false ∧
          (awskmsStoreLoadKey h env st).state = st ∨
        (awskmsStoreLoadKey h env st).ok = true ∧
          ∃ answer pub spec, Built h env st.key answer pub spec.keytype ∧
            pub.spec = some spec ∧ (awskmsStoreLoadKey h env st).state =
              { st with key := { st.key with pub := pub } }) := by
  obtain ⟨ctx, key⟩ := st
  obtain ⟨uri, pub, fips, refcnt, freed⟩ := key
  obtain rfl : pub = AwskmsPubkey.zero := hblank
  simp only [awskmsStoreLoadKey]
  rw [if_neg (by simp [AwskmsPubkey.zero])]
  cases hans : env.getPublicKey uri fips with
  | error e =>
      refine ⟨[.raise e], fun e he => ?_, rfl, .inl ⟨rfl, rfl⟩⟩
      obtain rfl := List.mem_singleton.mp he
      rfl
  | ok answer =>
      refine ⟨_, fun e he => ?_, rfl, ?_⟩
      · have hunder := awskmsPubkeyFromSpki_under he
        cases e with
        | objectCb => exact absurd hunder id
        | _ => rfl
      · cases hok : (awskmsPubkeyFromSpki h env answer.spki answer.keySpec fips
            AwskmsPubkey.zero).ok with
        | false =>
            refine .inl ⟨rfl, ?_⟩
            simp only [awskmsPubkeyFromSpki_failed hok]
        | true =>
            obtain ⟨spec, pk, hspec, hdec⟩ := awskmsPubkeyFromSpki_ok rfl hok
            exact .inr ⟨rfl, answer, _, spec, ⟨hans, hok, rfl, spec, hspec, rfl⟩,
              hdec.specEq, rfl⟩

variable (h env) in
theorem load_step (cb : ObjectCb) {st : StoreState Key}
    (hblank : st.ctx.emitted = false → st.key.pub = AwskmsPubkey.zero) :
    LoadStep h env cb st (awskmsStoreLoad h env cb st) := by
  unfold awskmsStoreLoad
  split
  · next hem => exact .finished hem
  · next hem =>
      have hem : st.ctx.emitted = false := Bool.not_eq_true _ ▸ hem
      split
      · next helse => exact .skipped hem helse
      · next helse =>
          obtain ⟨rest, hrest, htrace, hload⟩ :=
            loadKey_blank (h := h) (hblank hem)
          rcases hload with ⟨hok, hstate⟩ | ⟨hok, answer, pub, spec, hbuilt, hspec, hstate⟩
          · rw [Act.andThen_of_failed hok]
            generalize awskmsStoreLoadKey h env st = out at *
            obtain ⟨_, _, _⟩ := out
            simp only [] at hok hstate htrace
            rw [hok, hstate, htrace]
            exact .failed hem helse hrest
          · rw [Act.andThen_of_ok hok, htrace]
            have htype : (awskmsKeySpec (awskmsStoreLoadKey h env st).state.key).keytype =
                spec.keytype := by
              rw [awskmsKeySpec, hstate, hspec]
              rfl
            simp only [emitObject, htype]
            rw [hstate]
            refine .emitted hem helse hbuilt hrest fun e he => ?_
            split at he
            · obtain rfl := List.mem_singleton.mp he
              rfl
            · cases he

theorem storeLoad_closed {s : Sys Alg Key} {st : StoreRef} {cb : ObjectCb}
    (hst : s.stores st = none) :
    Sys.step h env (.storeLoad st cb) s = ⟨false, s, []⟩ := by
  simp only [Sys.step, Sys.onStore, hst]
  rfl

theorem handOut_out (out : Out (Sys Alg Key) Event) :
    (Sys.handOut out).ok = out.ok ∧ (Sys.handOut out).trace = out.trace ∧
      (Sys.handOut out).state.stores = out.state.stores ∧
      (Sys.handOut out).state.nextStore = out.state.nextStore := by
  unfold Sys.handOut
  split
  · exact ⟨rfl, rfl, rfl, rfl⟩
  · exact ⟨rfl, rfl, rfl, rfl⟩

/-- A load of an open session, in the process that holds it. -/
structure Loaded (s : Sys Alg Key) (st : StoreRef) (key : KeyRef)
    (load : Out (StoreState Key) Event) (out : Out (Sys Alg Key) Event) :
    Prop where
  ok : out.ok = load.ok
  trace : out.trace = load.trace
  ctx : out.state.stores st = some load.state.ctx
  key : SameKey load.state.key (out.state.keys key)

variable (h env) in
theorem storeLoad_open {s : Sys Alg Key} {st : StoreRef} (cb : ObjectCb)
    {ctx : AwskmsStoreCtx} (hst : s.stores st = some ctx) :
    Loaded s st ctx.key (awskmsStoreLoad h env cb ⟨ctx, s.keys ctx.key⟩)
      (Sys.step h env (.storeLoad st cb) s) := by
  have hout : Sys.step h env (.storeLoad st cb) s =
      Sys.handOut (s.onStore st (awskmsStoreLoad h env cb)) := rfl
  obtain ⟨hok, htrace, hstores, _⟩ :=
    handOut_out (s.onStore st (awskmsStoreLoad h env cb))
  have hon : s.onStore st (awskmsStoreLoad h env cb) =
      let load := awskmsStoreLoad h env cb ⟨ctx, s.keys ctx.key⟩
      ⟨load.ok, (s.setStore st load.state).moveRefs load.trace, load.trace⟩ := by
    simp only [Sys.onStore, hst]
  refine ⟨?_, ?_, ?_, ?_⟩
  · rw [hout, hok, hon]
  · rw [hout, htrace, hon]
  · rw [hout, hstores, hon]
    exact Function.update_self ..
  · rw [hout, handOut_keys, hon]
    have hkey : (s.setStore st (awskmsStoreLoad h env cb
        ⟨ctx, s.keys ctx.key⟩).state).keys ctx.key =
        (awskmsStoreLoad h env cb ⟨ctx, s.keys ctx.key⟩).state.key := by
      rw [Sys.setStore_keys, awskmsStoreLoad_key]
      exact Function.update_self ..
    have hsame := applyRefs_same (s.setStore st (awskmsStoreLoad h env cb
      ⟨ctx, s.keys ctx.key⟩).state).keys
      (awskmsStoreLoad h env cb ⟨ctx, s.keys ctx.key⟩).trace ctx.key
    rw [hkey] at hsame
    exact hsame

/-- The store a load is made on. -/
def Call.load? : Call → Option StoreRef
  | .storeLoad st _ => some st
  | _ => none

theorem load?_eq {call : Call} {st : StoreRef} (hcall : call.load? = some st) :
    ∃ cb, call = .storeLoad st cb := by
  cases call with
  | storeLoad st' cb =>
      obtain rfl := Option.some.inj hcall
      exact ⟨cb, rfl⟩
  | _ => cases hcall

/-- What a call leaves in the place of a store context. -/
inductive StoreStep (h : Host Alg Key) (env : Env Alg Key) (s : Sys Alg Key) :
    Call → StoreRef → AwskmsStoreCtx → Prop where
  | kept {call : Call} {st : StoreRef} {ctx : AwskmsStoreCtx} :
      s.stores st = some ctx → call.load? ≠ some st →
      StoreStep h env s call st ctx
  | opened {uri : Option Bytes} :
      (awskmsStoreOpen h env uri : Reply Event × AwskmsKey Key).1.ok = true →
      StoreStep h env s (.storeOpen uri) s.nextStore ⟨s.nextKey, false, 0⟩
  | params {st : StoreRef} {old : AwskmsStoreCtx}
      {params : Option (List OsslParam)} : s.stores st = some old →
      StoreStep h env s (.storeSetCtxParams st params) st
        (awskmsStoreSetCtxParams env params ⟨old, s.keys old.key⟩).state.ctx
  | loaded {st : StoreRef} {old : AwskmsStoreCtx} {cb : ObjectCb} :
      s.stores st = some old → StoreStep h env s (.storeLoad st cb) st
        (awskmsStoreLoad h env cb ⟨old, s.keys old.key⟩).state.ctx

theorem storeCtx_step {s : Sys Alg Key} {call : Call} {st : StoreRef}
    {ctx : AwskmsStoreCtx}
    (hst : (Sys.step h env call s).state.stores st = some ctx) :
    StoreStep h env s call st ctx := by
  have hno : none ≠ some st := (Option.some_ne_none st).symm
  cases call with
  | storeOpen uri =>
      simp only [Sys.step] at hst
      split at hst
      · next hok =>
          rcases update_some hst with ⟨rfl, heq⟩ | ⟨_, heq⟩
          · obtain rfl := Option.some.inj heq
            exact .opened hok
          · exact .kept heq hno
      · exact .kept hst hno
  | storeSetCtxParams st' params =>
      simp only [Sys.step, Sys.onStore] at hst
      split at hst
      · exact .kept hst hno
      · next old hold =>
          rcases update_some hst with ⟨rfl, heq⟩ | ⟨_, heq⟩
          · obtain rfl := Option.some.inj heq
            exact .params hold
          · exact .kept heq hno
  | storeLoad st' cb =>
      cases hold : s.stores st' with
      | none =>
          rw [storeLoad_closed hold] at hst
          refine .kept hst fun hcall => ?_
          rw [← Option.some.inj hcall, hold] at hst
          cases hst
      | some old =>
          by_cases hne : st = st'
          · subst hne
            rw [(storeLoad_open h env cb hold).ctx] at hst
            obtain rfl := Option.some.inj hst
            exact .loaded hold
          · have hout := (handOut_out
              (s.onStore st' (awskmsStoreLoad h env cb))).2.2.1
            rw [Sys.step, hout] at hst
            simp only [Sys.onStore, hold, Sys.moveRefs_stores, Sys.setStore,
              Function.update_of_ne hne] at hst
            exact .kept hst fun hcall => hne (Option.some.inj hcall).symm
  | storeEof st' => exact .kept hst hno
  | storeClose st' =>
      simp only [Sys.step] at hst
      split at hst
      · exact .kept hst hno
      · rcases update_some hst with ⟨_, heq⟩ | ⟨_, heq⟩
        · cases heq
        · exact .kept heq hno
  | keymgmtFree r => exact .kept hst hno
  | keymgmtDup r selection =>
      simp only [Sys.step] at hst
      split at hst
      · exact .kept hst hno
      · exact .kept hst hno
      · exact .kept hst hno
  | sigNewctx table propq =>
      simp only [Sys.step] at hst
      split at hst
      · exact .kept hst hno
      · exact .kept hst hno
  | sigFreectx c =>
      simp only [Sys.step] at hst
      split at hst
      · exact .kept hst hno
      · exact .kept hst hno
  | sigDupctx c =>
      simp only [Sys.step] at hst
      split at hst
      · exact .kept hst hno
      · split at hst
        · exact .kept hst hno
        · exact .kept hst hno
  | sig c sc =>
      simp only [Sys.step] at hst
      split at hst
      · exact .kept hst hno
      · split at hst
        · exact .kept hst hno
        · exact .kept hst hno

variable (h env) in
theorem nextStore_step (s : Sys Alg Key) (call : Call) :
    s.nextStore ≤ (Sys.step h env call s).state.nextStore := by
  have hsame : s.nextStore ≤ s.nextStore := Nat.le_refl s.nextStore
  have hon : ∀ st act, (s.onStore st act).state.nextStore = s.nextStore := by
    intro st act
    unfold Sys.onStore
    split
    · rfl
    · rfl
  cases call with
  | storeOpen uri =>
      simp only [Sys.step]
      split
      · exact Nat.le_succ s.nextStore
      · exact hsame
  | storeSetCtxParams st params =>
      rw [Sys.step, hon]
  | storeLoad st cb =>
      rw [Sys.step, (handOut_out _).2.2.2, hon]
  | storeEof st => exact hsame
  | storeClose st =>
      simp only [Sys.step]
      split
      · exact hsame
      · exact hsame
  | keymgmtFree r => exact hsame
  | keymgmtDup r selection =>
      simp only [Sys.step]
      split
      · exact hsame
      · exact hsame
      · exact hsame
  | sigNewctx table propq =>
      simp only [Sys.step]
      split
      · exact hsame
      · exact hsame
  | sigFreectx c =>
      simp only [Sys.step]
      split
      · exact hsame
      · exact hsame
  | sigDupctx c =>
      simp only [Sys.step]
      split
      · exact hsame
      · split
        · exact hsame
        · exact hsame
  | sig c sc =>
      simp only [Sys.step]
      split
      · exact hsame
      · split
        · exact hsame
        · exact hsame

theorem storeOpen_open {s : Sys Alg Key} {uri : Option Bytes}
    (hok : (awskmsStoreOpen h env uri : Reply Event × AwskmsKey Key).1.ok =
      true) :
    (Sys.step h env (.storeOpen uri) s).state =
      s.addStore (awskmsStoreOpen h env uri).2 := by
  simp only [Sys.step, if_pos hok]

/-- Every open session owns its key alone, and until it is over that key has
no view. -/
structure Sessions (s : Sys Alg Key) : Prop where
  below : ∀ st ctx, s.stores st = some ctx → st < s.nextStore
  own : ∀ st st' ctx ctx', s.stores st = some ctx → s.stores st' = some ctx' →
    ctx.key = ctx'.key → st = st'
  blank : ∀ st ctx, s.stores st = some ctx → ctx.emitted = false →
    (s.keys ctx.key).pub = AwskmsPubkey.zero

theorem sessions_empty : Sessions (Sys.empty : Sys Alg Key) where
  below st ctx hst := by
    simp only [Sys.empty] at hst
    cases hst
  own st st' ctx ctx' hst := by
    simp only [Sys.empty] at hst
    cases hst
  blank st ctx hst := by
    simp only [Sys.empty] at hst
    cases hst

variable (env) in
theorem storeSetCtxParams_emitted (params : Option (List OsslParam))
    (st : StoreState Key) :
    (awskmsStoreSetCtxParams env params st).state.ctx.emitted =
      st.ctx.emitted := by
  cases params with
  | none => rfl
  | some ps =>
      have hexpect : (applyExpect ps st).state.ctx.emitted = st.ctx.emitted := by
        cases hl : locate ps ossl_STORE_PARAM_EXPECT with
        | none => simp [applyExpect, hl]
        | some p =>
            cases hp : paramInt p with
            | none => simp [applyExpect, hl, hp]
            | some n => simp [applyExpect, hl, hp]
      have hout : awskmsStoreSetCtxParams env (some ps) st =
        ((applyExpect ps).andThen
          (awskmsStoreApplyProperties env (some ps))) st := rfl
      rw [hout]
      cases hok : (applyExpect ps st).ok with
      | false =>
          rw [Act.andThen_of_failed hok]
          exact hexpect
      | true =>
          rw [Act.andThen_of_ok hok]
          show (awskmsStoreApplyProperties env (some ps)
            (applyExpect ps st).state).state.ctx.emitted = _
          rw [(awskmsStoreApplyProperties_writes env ps _).1, hexpect]

/-- A load that leaves its session open leaves the key as it was. -/
theorem LoadStep.open {cb : ObjectCb} {st : StoreState Key}
    {out : Out (StoreState Key) Event} (hl : LoadStep h env cb st out)
    (hopen : out.state.ctx.emitted = false) : out.state = st := by
  cases hl with
  | finished => rfl
  | skipped => cases hopen
  | failed => rfl
  | emitted => cases hopen

theorem sessions_step {s : Sys Alg Key} (hs : Sound s) (hx : Sessions s)
    (call : Call) : Sessions (Sys.step h env call s).state where
  below st ctx hst := by
    have hle := nextStore_step h env s call
    cases storeCtx_step hst with
    | kept hold _ => exact Nat.lt_of_lt_of_le (hx.below st ctx hold) hle
    | opened hok =>
        rw [storeOpen_open hok]
        exact Nat.lt_succ_self _
    | params hold => exact Nat.lt_of_lt_of_le (hx.below st _ hold) hle
    | loaded hold => exact Nat.lt_of_lt_of_le (hx.below st _ hold) hle
  own st st' ctx ctx' hst hst' hkey := by
    have hfrom : ∀ st ctx, (Sys.step h env call s).state.stores st = some ctx →
        (∃ old, s.stores st = some old ∧ old.key = ctx.key) ∨
          st = s.nextStore ∧ ctx.key = s.nextKey := by
      intro st ctx hst
      cases storeCtx_step hst with
      | kept hold _ => exact .inl ⟨ctx, hold, rfl⟩
      | opened => exact .inr ⟨rfl, rfl⟩
      | @params _ old params hold =>
          exact .inl ⟨old, hold, (storeSetCtxParams_writes env params
            ⟨old, s.keys old.key⟩).1.symm⟩
      | @loaded _ old cb hold =>
          have hkey : (awskmsStoreLoad h env cb
              ⟨old, s.keys old.key⟩).state.ctx.key = old.key :=
            awskmsStoreLoad_key
          exact .inl ⟨old, hold, hkey.symm⟩
    rcases hfrom st ctx hst with ⟨old, hold, hk⟩ | ⟨hnew, hk⟩
    · rcases hfrom st' ctx' hst' with ⟨old', hold', hk'⟩ | ⟨_, hk'⟩
      · exact hx.own st st' old old' hold hold' (hk.trans (hkey.trans hk'.symm))
      · have hlt := hs.store st old hold
        rw [hk, hkey, hk'] at hlt
        exact absurd hlt (Nat.lt_irrefl _)
    · rcases hfrom st' ctx' hst' with ⟨old', hold', hk'⟩ | ⟨hnew', _⟩
      · have hlt := hs.store st' old' hold'
        rw [hk', ← hkey, hk] at hlt
        exact absurd hlt (Nat.lt_irrefl _)
      · exact hnew.trans hnew'.symm
  blank st ctx hst hopen := by
    have hstep := key_step h env s call ctx.key
    have hkeep : ∀ old : AwskmsStoreCtx, s.stores st = some old →
        old.key = ctx.key → old.emitted = false → call.load? ≠ some st →
        ((Sys.step h env call s).state.keys ctx.key).pub = AwskmsPubkey.zero := by
      intro old hold hkey hopen hload
      have hblank := hkey ▸ hx.blank st old hold hopen
      generalize hr : ctx.key = r at *
      generalize (Sys.step h env call s).state.keys r = k at *
      cases hstep with
      | kept hsk => exact hsk.pub.trans hblank
      | opened _ hsk => exact hsk.pub.trans awskmsStoreOpen_pub
      | copied =>
          have hlt := hs.store st old hold
          rw [hkey] at hlt
          exact absurd hlt (Nat.lt_irrefl _)
      | fipsOn _ _ hsk => exact hsk.pub.trans hblank
      | @viewed st' _ ctx' _ _ hst' =>
          exact absurd (hx.own st' st ctx' old hst' hold hkey.symm ▸ rfl) hload
    cases storeCtx_step hst with
    | kept hold hload => exact hkeep ctx hold rfl hopen hload
    | @opened uri hok =>
        rw [storeOpen_open hok, Sys.addStore_keys, Function.update_self]
        exact awskmsStoreOpen_pub
    | @params _ old params hold =>
        refine hkeep old hold (storeSetCtxParams_writes env params
          ⟨old, s.keys old.key⟩).1.symm ?_ (Option.some_ne_none st).symm
        rw [storeSetCtxParams_emitted] at hopen
        exact hopen
    | @loaded _ old cb hold =>
        have hload : LoadStep h env cb ⟨old, s.keys old.key⟩ _ :=
          load_step h env cb (hx.blank st old hold)
        have hsame := hload.open hopen
        have hkey := (storeLoad_open h env cb hold).key
        rw [awskmsStoreLoad_key, hkey.pub, hsame]
        refine hx.blank st old hold ?_
        rw [hsame] at hopen
        exact hopen

theorem sessions_run {evs : List (Rec (Sys Alg Key) (Input Alg Key) Event)}
    {s : Sys Alg Key} (hr : (provider h).Run evs s) : Sessions s := by
  have hboth : Sound s ∧ Sessions s :=
    Machine.Run.inv (I := fun s => Sound s ∧ Sessions s)
      ⟨sound_empty, sessions_empty⟩
      (fun _ i hs ha => ⟨sound_step hs.1 ha, sessions_step hs.1 hs.2 i.call⟩) hr
  exact hboth.2

/-- A session that has nothing more to give, whether or not it is closed. -/
structure Over (st : StoreRef) (s : Sys Alg Key) : Prop where
  made : st < s.nextStore
  emitted : ∀ ctx, s.stores st = some ctx → ctx.emitted = true

variable (h env) in
theorem over_step {s : Sys Alg Key} {st : StoreRef} (ho : Over st s)
    (call : Call) : Over st (Sys.step h env call s).state where
  made := Nat.lt_of_lt_of_le ho.made (nextStore_step h env s call)
  emitted ctx hst := by
    cases storeCtx_step hst with
    | kept hold _ => exact ho.emitted ctx hold
    | opened => exact absurd ho.made (Nat.lt_irrefl _)
    | @params _ old params hold =>
        rw [storeSetCtxParams_emitted]
        exact ho.emitted old hold
    | @loaded _ old cb hold =>
        have hem := ho.emitted old hold
        have hload : LoadStep h env cb ⟨old, s.keys old.key⟩ _ :=
          load_step h env cb fun hopen => by
            rw [hem] at hopen
            cases hopen
        cases hopen : (awskmsStoreLoad h env cb
            ⟨old, s.keys old.key⟩).state.ctx.emitted with
        | true => rfl
        | false =>
            rw [hload.open hopen] at hopen
            exact hopen.symm.trans hem

variable (h env) in
/-- A load on a session that is over. -/
theorem over_load {s : Sys Alg Key} {st : StoreRef} (ho : Over st s)
    (cb : ObjectCb) : (Sys.step h env (.storeLoad st cb) s).ok = false ∧
      (Sys.step h env (.storeLoad st cb) s).trace = [] := by
  cases hst : s.stores st with
  | none =>
      rw [storeLoad_closed hst]
      exact ⟨rfl, rfl⟩
  | some ctx =>
      have hload := storeLoad_open h env cb hst
      have hdone : awskmsStoreLoad h env cb ⟨ctx, s.keys ctx.key⟩ =
          ⟨false, ⟨ctx, s.keys ctx.key⟩, []⟩ := by
        rw [awskmsStoreLoad, if_pos (ho.emitted ctx hst)]
        rfl
      rw [hload.ok, hload.trace, hdone]
      exact ⟨rfl, rfl⟩

/-! ## The callbacks of a session

The callbacks of one store are read off the trace of the run. A load shows one
or none, no other call shows any, and after the one that took its object the
session is over. -/

/-- The store a store call is made on. -/
def Call.store? : Call → Option StoreRef
  | .storeSetCtxParams st _ | .storeLoad st _ | .storeEof st | .storeClose st =>
      some st
  | _ => none

/-- The callbacks a step invokes on behalf of a session. -/
def callbacksOf (st : StoreRef)
    (e : Rec (Sys Alg Key) (Input Alg Key) Event) : List Event :=
  if e.input.call.store? = some st then e.out.trace.filter Event.isObjectCb
  else []

def callbacks (st : StoreRef)
    (evs : List (Rec (Sys Alg Key) (Input Alg Key) Event)) : List Event :=
  evs.flatMap (callbacksOf st)

theorem filter_callbacks_nil {trace : List Event}
    (ht : ∀ e ∈ trace, e.isObjectCb = false) :
    trace.filter Event.isObjectCb = [] := by
  rw [List.filter_eq_nil_iff]
  intro e he
  rw [ht e he]
  decide

/-- One load invokes the callback once, and then the session is over, or not
at all. -/
theorem LoadStep.callbacks {cb : ObjectCb} {st : StoreState Key}
    {out : Out (StoreState Key) Event} (hl : LoadStep h env cb st out) :
    out.trace.filter Event.isObjectCb = [] ∨
      st.ctx.emitted = false ∧ out.state.ctx.emitted = true ∧
        (out.trace.filter Event.isObjectCb).length = 1 := by
  cases hl with
  | finished => exact .inl rfl
  | skipped => exact .inl rfl
  | failed _ _ hrest =>
      refine .inl (filter_callbacks_nil fun e he => ?_)
      rcases List.mem_cons.mp he with rfl | he
      · rfl
      · exact hrest e he
  | @emitted answer pub keytype rest refs hopen _ _ hrest hrefs =>
      refine .inr ⟨hopen, rfl, ?_⟩
      have hask : (Event.kmsGetPublicKey st.key.uri
          st.key.fipsRequired).isObjectCb = false := rfl
      have hcb : (Event.objectCb keytype st.ctx.key).isObjectCb = true := rfl
      simp only [List.filter_cons, hask, List.filter_append, hcb,
        filter_callbacks_nil hrest, filter_callbacks_nil hrefs]
      rfl

/-- Only a load of an open session can reach the callback. -/
theorem storeCall_silent {s : Sys Alg Key} {st : StoreRef} {call : Call}
    (hcall : call.store? = some st)
    (hno : call.load? = some st → s.stores st = none) :
    ∀ e ∈ (Sys.step h env call s).trace, e.isObjectCb = false := by
  have hsilent : ∀ trace : List Event, trace = [] →
      ∀ e ∈ trace, e.isObjectCb = false := by
    intro trace hnil e he
    rw [hnil] at he
    cases he
  cases call with
  | storeSetCtxParams st' params =>
      refine hsilent _ ?_
      simp only [Sys.step, Sys.onStore]
      split
      · rfl
      · exact (storeSetCtxParams_writes env params _).2.1
  | storeLoad st' cb =>
      obtain rfl := Option.some.inj hcall
      rw [storeLoad_closed (hno rfl)]
      exact hsilent _ rfl
  | storeEof st' => exact hsilent _ rfl
  | storeClose st' =>
      simp only [Sys.step]
      split
      · exact hsilent _ rfl
      · intro e he
        obtain rfl := List.mem_singleton.mp he
        rfl
  | _ => cases hcall

/-- What a step adds to the callbacks of a session. -/
theorem callbacks_step {s : Sys Alg Key} (hx : Sessions s) (st : StoreRef)
    (i : Input Alg Key) :
    callbacksOf st ⟨s, i, (provider h).step i s⟩ = [] ∨
      (callbacksOf st ⟨s, i, (provider h).step i s⟩).length = 1 ∧
        ¬Over st s ∧ Over st ((provider h).step i s).state := by
  obtain ⟨call, env⟩ := i
  by_cases hcall : call.store? = some st
  · rw [callbacksOf, if_pos hcall]
    show (Sys.step h env call s).trace.filter Event.isObjectCb = [] ∨
      ((Sys.step h env call s).trace.filter Event.isObjectCb).length = 1 ∧
        ¬Over st s ∧ Over st (Sys.step h env call s).state
    by_cases hno : call.load? = some st → s.stores st = none
    · exact .inl (filter_callbacks_nil (storeCall_silent hcall hno))
    · rw [Classical.not_imp] at hno
      obtain ⟨cb, rfl⟩ := load?_eq hno.1
      obtain ⟨ctx, hst⟩ := Option.ne_none_iff_exists'.mp hno.2
      have hload := storeLoad_open h env cb hst
      have hstep : LoadStep h env cb ⟨ctx, s.keys ctx.key⟩ _ :=
        load_step h env cb (hx.blank st ctx hst)
      rw [hload.trace]
      refine hstep.callbacks.imp_right fun hcb => ?_
      refine ⟨hcb.2.2, fun ho => ?_, ?_, fun ctx' hctx' => ?_⟩
      · have hopen := hcb.1
        rw [ho.emitted ctx hst] at hopen
        cases hopen
      · exact Nat.lt_of_lt_of_le (hx.below st ctx hst) (nextStore_step h env s _)
      · rw [hload.ctx] at hctx'
        obtain rfl := Option.some.inj hctx'
        exact hcb.2.1
  · rw [callbacksOf, if_neg hcall]
    exact .inl rfl

/-- The callback runs at most once, and ends the session. -/
theorem callbacks_run {evs : List (Rec (Sys Alg Key) (Input Alg Key) Event)}
    {s : Sys Alg Key} (hr : (provider h).Run evs s) (st : StoreRef) :
    callbacks st evs = [] ∨ (callbacks st evs).length = 1 ∧ Over st s := by
  induction hr with
  | nil => exact .inl rfl
  | @snoc evs s i hr ha ih =>
      have hsplit : callbacks st (evs ++ [⟨s, i, (provider h).step i s⟩]) =
          callbacks st evs ++ callbacksOf st ⟨s, i, (provider h).step i s⟩ := by
        rw [callbacks, List.flatMap_append, List.flatMap_singleton]
        rfl
      rw [hsplit]
      rcases callbacks_step (sessions_run hr) st i with hnone | ⟨hone, hopen, hover⟩
      · rw [hnone, List.append_nil]
        exact ih.imp_right fun hone => ⟨hone.1, over_step h i.env hone.2 i.call⟩
      · rcases ih with hnil | ⟨_, hover'⟩
        · rw [hnil, List.nil_append]
          exact .inr ⟨hone, hover⟩
        · exact absurd hover' hopen

/-- A step after which its session has nothing more to give. -/
def Ends (st : StoreRef) (e : Rec (Sys Alg Key) (Input Alg Key) Event) : Prop :=
  e.input.call.load? = some st ∧
    ((∃ keytype r, Event.objectCb keytype r ∈ e.out.trace) ∨
      ∃ ctx, e.pre.stores st = some ctx ∧ ctx.Elsewhere)

theorem load_store? {call : Call} {st : StoreRef}
    (hcall : call.load? = some st) : call.store? = some st := by
  obtain ⟨cb, rfl⟩ := load?_eq hcall
  rfl

theorem mem_callbacks {evs : List (Rec (Sys Alg Key) (Input Alg Key) Event)}
    {st : StoreRef} {e : Rec (Sys Alg Key) (Input Alg Key) Event} (he : e ∈ evs)
    (hcall : e.input.call.store? = some st) {keytype : String} {r : KeyRef}
    (hcb : Event.objectCb keytype r ∈ e.out.trace) : callbacks st evs ≠ [] := by
  have hmem : Event.objectCb keytype r ∈ callbacks st evs := by
    refine List.mem_flatMap.mpr ⟨e, he, ?_⟩
    rw [callbacksOf, if_pos hcall]
    exact List.mem_filter.mpr ⟨hcb, rfl⟩
  exact List.ne_nil_of_mem hmem

/-- What ends a session leaves it over. -/
theorem ends_over {before : List (Rec (Sys Alg Key) (Input Alg Key) Event)}
    {s : Sys Alg Key} {i : Input Alg Key} (hr : (provider h).Run before s)
    (ha : i.call.Allowed s) {st : StoreRef}
    (he : Ends st ⟨s, i, (provider h).step i s⟩) :
    Over st ((provider h).step i s).state := by
  obtain ⟨hcall, hcb | ⟨ctx, hctx, helse⟩⟩ := he
  · obtain ⟨keytype, r, hmem⟩ := hcb
    have hne := mem_callbacks (List.mem_append_right before
      (List.mem_singleton.mpr rfl)) (load_store? hcall) hmem
    exact ((callbacks_run (hr.snoc ha) st).resolve_left hne).2
  · obtain ⟨call, env⟩ := i
    obtain ⟨cb, rfl⟩ : ∃ cb, call = .storeLoad st cb := load?_eq hcall
    have hctx : s.stores st = some ctx := hctx
    have hx := sessions_run hr
    have hload := storeLoad_open h env cb hctx
    refine ⟨Nat.lt_of_lt_of_le (hx.below st ctx hctx)
      (nextStore_step h env s _), fun ctx' hctx' => ?_⟩
    have hstep : LoadStep h env cb ⟨ctx, s.keys ctx.key⟩ _ :=
      load_step h env cb (hx.blank st ctx hctx)
    obtain rfl := Option.some.inj (hload.ctx.symm.trans hctx')
    generalize awskmsStoreLoad h env cb ⟨ctx, s.keys ctx.key⟩ = out at *
    cases hstep with
    | finished hem => exact hem
    | skipped => rfl
    | failed _ hno => exact absurd helse hno
    | emitted => rfl

/-- What a load of an open session does when it gets as far as asking. -/
structure Asked (h : Host Alg Key) (e : Rec (Sys Alg Key) (Input Alg Key) Event)
    (st : StoreRef) (ctx : AwskmsStoreCtx) : Prop where
  empty : (e.pre.keys ctx.key).pub = AwskmsPubkey.zero
  asks : .kmsGetPublicKey (e.pre.keys ctx.key).uri
    (e.pre.keys ctx.key).fipsRequired ∈ e.out.trace
  built : ∀ keytype r, Event.objectCb keytype r ∈ e.out.trace →
    r = ctx.key ∧ ∃ answer, Built h e.input.env (e.pre.keys r) answer
      (e.out.state.keys r).pub keytype
  fails : (∀ keytype r, Event.objectCb keytype r ∉ e.out.trace) →
    e.out.ok = false ∧ e.out.state.stores st = some ctx ∧
      (e.out.state.keys ctx.key).pub = AwskmsPubkey.zero

theorem asked_of_step {s : Sys Alg Key} (hx : Sessions s) {i : Input Alg Key}
    {st : StoreRef} {cb : ObjectCb} (hcall : i.call = .storeLoad st cb)
    {ctx : AwskmsStoreCtx} (hctx : s.stores st = some ctx)
    (hopen : ctx.emitted = false) (helse : ¬ctx.Elsewhere) :
    Asked h ⟨s, i, (provider h).step i s⟩ st ctx := by
  obtain ⟨call, env⟩ := i
  obtain rfl : call = .storeLoad st cb := hcall
  have hblank := hx.blank st ctx hctx hopen
  have hload := storeLoad_open h env cb hctx
  have hstep : LoadStep h env cb ⟨ctx, s.keys ctx.key⟩ _ :=
    load_step h env cb fun _ => hblank
  generalize awskmsStoreLoad h env cb ⟨ctx, s.keys ctx.key⟩ = load at *
  obtain ⟨hok, htrace, hafter, hkey⟩ := hload
  have hout : (provider h).step ⟨.storeLoad st cb, env⟩ s =
    Sys.step h env (.storeLoad st cb) s := rfl
  rw [hout]
  generalize Sys.step h env (.storeLoad st cb) s = out at *
  cases hstep with
  | finished hem => rw [hem] at hopen; cases hopen
  | skipped _ hyes => exact absurd hyes helse
  | @failed rest _ _ hrest =>
      refine ⟨hblank, ?_, fun keytype r hcb => ?_, fun _ => ?_⟩
      · show _ ∈ out.trace
        rw [htrace]
        exact List.mem_cons_self
      · have hcb : Event.objectCb keytype r ∈ out.trace := hcb
        rw [htrace] at hcb
        rcases List.mem_cons.mp hcb with hcb | hcb
        · cases hcb
        · cases hrest _ hcb
      · exact ⟨hok, hafter, hkey.pub.trans hblank⟩
  | @emitted answer pub keytype' rest refs _ _ hbuilt hrest hrefs =>
      refine ⟨hblank, ?_, fun keytype r hcb => ?_, fun hno => ?_⟩
      · show _ ∈ out.trace
        rw [htrace]
        exact List.mem_cons_self
      · have hcb : Event.objectCb keytype r ∈ out.trace := hcb
        rw [htrace] at hcb
        rcases List.mem_cons.mp hcb with hcb | hcb
        · cases hcb
        · rcases List.mem_append.mp hcb with hcb | hcb
          · cases hrest _ hcb
          · rcases List.mem_cons.mp hcb with hcb | hcb
            · injection hcb with htype hr
              subst htype hr
              have hpub : (out.state.keys ctx.key).pub = pub := hkey.pub
              refine ⟨rfl, answer, ?_⟩
              show Built h env (s.keys ctx.key) answer
                (out.state.keys ctx.key).pub keytype
              rw [hpub]
              exact hbuilt
            · cases hrefs _ hcb
      · refine absurd ?_ (hno keytype' ctx.key)
        show _ ∈ out.trace
        rw [htrace]
        exact List.mem_cons_of_mem _
          (List.mem_append_right _ List.mem_cons_self)

/-- A store session, over any calls on it in any order, among any other calls:
its callback runs at most once, on a key whose view is one whole answer of the
service; once it has run, or the session was skipped, the session stays over;
and a load that does not get so far leaves nothing behind. -/
theorem store_session {evs : List (Rec (Sys Alg Key) (Input Alg Key) Event)}
    {s : Sys Alg Key} (hr : (provider h).Run evs s) (st : StoreRef) :
    (callbacks st evs).length ≤ 1 ∧
    (∀ e ∈ evs, e.input.call.store? = some st →
      ∀ keytype r, Event.objectCb keytype r ∈ e.out.trace →
        e.input.call.load? = some st ∧ ∃ ctx, e.pre.stores st = some ctx ∧
          ctx.emitted = false ∧ ¬ctx.Elsewhere) ∧
    (∀ e ∈ evs, e.input.call.load? = some st →
      ∀ ctx, e.pre.stores st = some ctx → ctx.emitted = false →
        ¬ctx.Elsewhere → Asked h e st ctx) ∧
    (∀ before e after, evs = before ++ e :: after → Ends st e →
      (∀ ctx, s.stores st = some ctx → awskmsStoreEof ctx = true) ∧
      ∀ e' ∈ after,
        (e'.input.call.load? = some st →
          e'.out.ok = false ∧ e'.out.trace = []) ∧
        (e'.input.call = .storeEof st → e'.pre.stores st ≠ none →
          e'.out.ok = true)) := by
  refine ⟨?_, fun e he hcall keytype r hcb => ?_, fun e he hcall ctx hctx
    hopen helse => ?_, fun before e after hsplit hends => ?_⟩
  · rcases callbacks_run hr st with hnil | ⟨hone, _⟩
    · rw [hnil]
      exact Nat.zero_le 1
    · exact Nat.le_of_eq hone
  · obtain ⟨before, after, _, hbefore, _, hout⟩ := hr.of_mem e he
    rw [hout] at hcb
    have hload : ¬(e.input.call.load? = some st → e.pre.stores st = none) :=
      fun hno => Bool.noConfusion (storeCall_silent hcall hno _ hcb)
    rw [Classical.not_imp] at hload
    refine ⟨hload.1, ?_⟩
    obtain ⟨cb, hcall⟩ := load?_eq hload.1
    obtain ⟨ctx, hctx⟩ := Option.ne_none_iff_exists'.mp hload.2
    refine ⟨ctx, hctx, ?_⟩
    have hx := sessions_run hbefore
    have hloaded := storeLoad_open h e.input.env cb hctx
    have hstep : LoadStep h e.input.env cb ⟨ctx, e.pre.keys ctx.key⟩ _ :=
      load_step h e.input.env cb (hx.blank st ctx hctx)
    have hcb : Event.objectCb keytype r ∈ (awskmsStoreLoad h e.input.env cb
        ⟨ctx, e.pre.keys ctx.key⟩).trace := by
      rw [← hloaded.trace, ← hcall]
      exact hcb
    generalize awskmsStoreLoad h e.input.env cb ⟨ctx, e.pre.keys ctx.key⟩ =
      load at *
    cases hstep with
    | finished => cases hcb
    | skipped => cases hcb
    | failed hopen helse => exact ⟨hopen, helse⟩
    | emitted hopen helse => exact ⟨hopen, helse⟩
  · obtain ⟨before, after, _, hbefore, _, hout⟩ := hr.of_mem e he
    obtain ⟨cb, hcall⟩ := load?_eq hcall
    have hasked := asked_of_step (h := h) (sessions_run hbefore) hcall hctx
      hopen helse
    obtain ⟨pre, input, out⟩ := e
    obtain rfl : out = (provider h).step input pre := hout
    exact hasked
  · subst hsplit
    obtain ⟨hbefore, ha, hout⟩ := hr.at_split
    obtain ⟨pre, input, out⟩ := e
    obtain rfl : out = (provider h).step input pre := hout
    have hover := ends_over hbefore ha hends
    have hkeep : ∀ mid t, (provider h).Run (before ++
        ⟨pre, input, (provider h).step input pre⟩ :: mid) t → Over st t := by
      intro mid t ht
      rw [List.append_cons] at ht
      exact Machine.Run.invFrom (I := Over st) (C := fun _ => True)
        (fun _ s i _ ho _ _ => over_step h i.env ho i.call)
        (hbefore.snoc ha) ht (fun _ _ => trivial) hover
    refine ⟨fun ctx hctx => (hkeep after s hr).emitted ctx hctx, fun e' he' => ?_⟩
    obtain ⟨mid, rest, rfl⟩ := List.append_of_mem he'
    rw [← List.cons_append, ← List.append_assoc] at hr
    obtain ⟨hmid, _, hout'⟩ := hr.at_split
    have hover' := hkeep mid e'.pre hmid
    rw [hout']
    refine ⟨fun hcall => ?_, fun hcall hopen => ?_⟩
    · obtain ⟨cb, hcall⟩ := load?_eq hcall
      have hdone := over_load h e'.input.env hover' cb
      show (Sys.step h e'.input.env e'.input.call e'.pre).ok = false ∧
        (Sys.step h e'.input.env e'.input.call e'.pre).trace = []
      rw [hcall]
      exact hdone
    · obtain ⟨ctx, hctx⟩ := Option.ne_none_iff_exists'.mp hopen
      show (Sys.step h e'.input.env e'.input.call e'.pre).ok = true
      rw [hcall]
      show (e'.pre.stores st).any awskmsStoreEof = true
      rw [hctx]
      exact hover'.emitted ctx hctx

end

namespace Bench

/-- A service that is away. -/
def away : Env Digest PubKey := { env with
  getPublicKey := fun _ _ => .error notFound }

/-- A load that finds the service away, its retry, and one load more. -/
def denied : List (Input Digest PubKey) := [
  ⟨.storeOpen (some (ascii "aws-kms:key-id=alias/ec")), env⟩,
  ⟨.storeLoad 0 ⟨true, true⟩, away⟩]

def load : Input Digest PubKey := ⟨.storeLoad 0 ⟨true, true⟩, env⟩

def retried : List (Input Digest PubKey) := denied ++ [load, load]

abbrev retry : Rec (Sys Digest PubKey) (Input Digest PubKey) Event :=
  (provider host).recordAfter denied load

theorem retried_split : ∃ last, (provider host).records (provider host).start retried =
    (provider host).records (provider host).start denied ++ retry :: [last] :=
  ⟨_, Machine.records_append⟩

end Bench

/-- The retry asks again, its callback is the one the session has, and the
session is over. -/
theorem store_session_retried :
    Asked Bench.host Bench.retry 0 ⟨0, false, 0⟩ ∧
    callbacks 0 ((provider Bench.host).records (provider Bench.host).start
      Bench.retried) = [.objectCb "EC" 0] ∧
    ∀ ctx, ((provider Bench.host).drive (provider Bench.host).start
      Bench.retried).stores 0 = some ctx → awskmsStoreEof ctx = true := by
  have ha : (provider Bench.host).AllowedAll (provider Bench.host).start
      Bench.retried := by decide +kernel
  obtain ⟨-, -, hasked, hends⟩ := store_session (Machine.run_records ha) 0
  obtain ⟨last, hsplit⟩ := Bench.retried_split
  have hmem : Bench.retry ∈ (provider Bench.host).records (provider Bench.host).start
      Bench.retried := by
    rw [hsplit]
    exact List.mem_append_right _ List.mem_cons_self
  have hcb : Event.objectCb "EC" 0 ∈ Bench.retry.out.trace := by decide +kernel
  exact ⟨hasked _ hmem rfl _ (by decide +kernel) rfl fun helse => helse.1 rfl,
    by decide +kernel, (hends _ _ _ hsplit ⟨rfl, .inl ⟨_, _, hcb⟩⟩).1⟩

end AwsKms.Model
