import AwsKms.Model.Sys
import AwsKms.Proofs.Store

/-!
# What one call does to the objects of a process

A dispatch call touches one object, or makes one, and moves references. The
inversion lemmas here say that once for each kind of object, so that no later
proof opens `Sys.step` again: `ctx_step` for signature contexts, `key_step`
for key objects, `handle_step` for the handles libcrypto owns, `store_step`
for store contexts.

Reference counts are the one thing that moves under everybody's feet.
`SameKey` is what they leave alone, and it is all of a key that any routine
reads.
-/

namespace AwsKms.Model

open AwsKms.Lib

variable {Alg Key : Type} {h : Host Alg Key} {env : Env Alg Key}

/-- The same key, up to its reference count. -/
structure SameKey (k k' : AwskmsKey Key) : Prop where
  uri : k'.uri = k.uri
  pub : k'.pub = k.pub
  fips : k'.fipsRequired = k.fipsRequired

theorem SameKey.refl (k : AwskmsKey Key) : SameKey k k := ⟨rfl, rfl, rfl⟩

theorem SameKey.trans {k k' k'' : AwskmsKey Key} (h1 : SameKey k k')
    (h2 : SameKey k' k'') : SameKey k k'' :=
  ⟨h2.uri.trans h1.uri, h2.pub.trans h1.pub, h2.fips.trans h1.fips⟩

theorem applyRef_same (keys : Keys Key) (e : Event) (r : KeyRef) :
    SameKey (keys r) (applyRef keys e r) := by
  have hupd : ∀ (q : KeyRef) (k : AwskmsKey Key), SameKey (keys q) k →
      SameKey (keys r) (Function.update keys q k r) := by
    intro q k hk
    by_cases hr : r = q
    · subst hr
      rw [Function.update_self]
      exact hk
    · rw [Function.update_of_ne hr]
      exact SameKey.refl _
  cases e with
  | keyUpRef q => exact hupd q _ ⟨rfl, rfl, rfl⟩
  | keyFree q => exact hupd q _ ⟨rfl, rfl, rfl⟩
  | _ => exact SameKey.refl _

theorem applyRefs_same (keys : Keys Key) (trace : List Event) (r : KeyRef) :
    SameKey (keys r) (applyRefs keys trace r) := by
  induction trace generalizing keys with
  | nil => exact SameKey.refl _
  | cons e trace ih => exact (applyRef_same keys e r).trans (ih _)

namespace Sys

@[simp] theorem moveRefs_ctxs (s : Sys Alg Key) (t : List Event) :
    (s.moveRefs t).ctxs = s.ctxs := rfl

@[simp] theorem moveRefs_handles (s : Sys Alg Key) (t : List Event) :
    (s.moveRefs t).handles = s.handles := rfl

@[simp] theorem moveRefs_stores (s : Sys Alg Key) (t : List Event) :
    (s.moveRefs t).stores = s.stores := rfl

@[simp] theorem moveRefs_nextKey (s : Sys Alg Key) (t : List Event) :
    (s.moveRefs t).nextKey = s.nextKey := rfl

@[simp] theorem setStore_keys (s : Sys Alg Key) (st : StoreRef)
    (x : StoreState Key) :
    (s.setStore st x).keys = Function.update s.keys x.ctx.key x.key := rfl

@[simp] theorem addStore_keys (s : Sys Alg Key) (key : AwskmsKey Key) :
    (s.addStore key).keys = Function.update s.keys s.nextKey key := rfl

@[simp] theorem addHandle_handles (s : Sys Alg Key) (r : KeyRef) :
    (s.addHandle r).handles =
      Function.update s.handles r (s.handles r + 1) := rfl

@[simp] theorem addKey_handles (s : Sys Alg Key) (key : AwskmsKey Key) :
    (s.addKey key).handles = Function.update s.handles s.nextKey 1 := rfl

@[simp] theorem addKey_keys (s : Sys Alg Key) (key : AwskmsKey Key) :
    (s.addKey key).keys = Function.update s.keys s.nextKey key := rfl

/-- A list of effects with no reference in it moves none. -/
theorem moveRefs_of_none {s : Sys Alg Key} {t : List Event}
    (ht : ∀ e ∈ t, ∀ r, e ≠ .keyUpRef r ∧ e ≠ .keyFree r) :
    s.moveRefs t = s := by
  have hkeys : applyRefs s.keys t = s.keys := by
    induction t with
    | nil => rfl
    | cons e t ih =>
        have he : applyRef s.keys e = s.keys := by
          cases e with
          | keyUpRef r => exact absurd rfl (ht _ List.mem_cons_self r).1
          | keyFree r => exact absurd rfl (ht _ List.mem_cons_self r).2
          | _ => rfl
        rw [applyRefs, List.foldl_cons, he]
        exact ih fun e he => ht e (List.mem_cons_of_mem _ he)
  rw [moveRefs, hkeys]

end Sys

/-! ## Signature contexts

A context found after a call was there before, is new, is a copy of one that
was, or is what one of its own routines has left. -/

/-- Where a context found after a call comes from. -/
inductive CtxStep (h : Host Alg Key) (env : Env Alg Key) (s : Sys Alg Key) :
    Call → CtxRef → SigTable → AwskmsSigCtx Alg Key → Prop where
  | kept {call : Call} {c : CtxRef} {table : SigTable}
      {ctx : AwskmsSigCtx Alg Key} : s.ctxs c = some (table, ctx) →
      (∀ sc, call = .sig c sc → table.offers sc = false) →
      CtxStep h env s call c table ctx
  | new {table : SigTable} {propq : Option Bytes} :
      CtxStep h env s (.sigNewctx table propq) s.nextCtx table
        (AwskmsSigCtx.new (awskmsFipsRequested env.defaultFips propq))
  | copied {c : CtxRef} {table : SigTable} {ctx : AwskmsSigCtx Alg Key} :
      s.ctxs c = some (table, ctx) →
      CtxStep h env s (.sigDupctx c) s.nextCtx table ctx.copy
  | called {c : CtxRef} {table : SigTable} {ctx : AwskmsSigCtx Alg Key}
      {sc : SigCall} : s.ctxs c = some (table, ctx) →
      table.offers sc = true →
      CtxStep h env s (.sig c sc) c table (sigCall h env s.keys sc ctx).state

theorem update_some {α : Type} {f : CtxRef → Option α} {c c' : CtxRef}
    {x : Option α} {y : α} (hy : Function.update f c x c' = some y) :
    c' = c ∧ x = some y ∨ c' ≠ c ∧ f c' = some y := by
  by_cases hc : c' = c
  · subst hc
    rw [Function.update_self] at hy
    exact .inl ⟨rfl, hy⟩
  · rw [Function.update_of_ne hc] at hy
    exact .inr ⟨hc, hy⟩

theorem onStore_ctxs (s : Sys Alg Key) (st : StoreRef)
    (act : Act (StoreState Key) Event) : (s.onStore st act).state.ctxs = s.ctxs := by
  unfold Sys.onStore
  split
  · rfl
  · rfl

theorem handOut_ctxs (out : Out (Sys Alg Key) Event) :
    (Sys.handOut out).state.ctxs = out.state.ctxs := by
  unfold Sys.handOut
  split
  · rfl
  · rfl

/-- A call leaves a context alone, makes it, copies it, or is made on it. -/
theorem ctx_step {s : Sys Alg Key} {call : Call} {c : CtxRef}
    {table : SigTable} {ctx : AwskmsSigCtx Alg Key}
    (hc : (Sys.step h env call s).state.ctxs c = some (table, ctx)) :
    CtxStep h env s call c table ctx := by
  cases call with
  | storeOpen uri =>
      refine .kept ?_ (fun _ => nofun)
      simp only [Sys.step] at hc
      split at hc
      · exact hc
      · exact hc
  | storeSetCtxParams st params =>
      refine .kept ?_ (fun _ => nofun)
      rwa [Sys.step, onStore_ctxs] at hc
  | storeLoad st cb =>
      refine .kept ?_ (fun _ => nofun)
      rwa [Sys.step, handOut_ctxs, onStore_ctxs] at hc
  | storeEof st => exact .kept hc (fun _ => nofun)
  | storeClose st =>
      refine .kept ?_ (fun _ => nofun)
      simp only [Sys.step] at hc
      split at hc
      · exact hc
      · exact hc
  | keymgmtFree r => exact .kept hc (fun _ => nofun)
  | keymgmtDup r selection =>
      refine .kept ?_ (fun _ => nofun)
      simp only [Sys.step] at hc
      split at hc
      · exact hc
      · exact hc
      · exact hc
  | sigNewctx t propq =>
      simp only [Sys.step] at hc
      split at hc
      · exact .kept hc (fun _ => nofun)
      · next new hnew =>
          rcases update_some hc with ⟨rfl, heq⟩ | ⟨_, heq⟩
          · obtain ⟨rfl, rfl⟩ := Prod.mk.inj (Option.some.inj heq)
            unfold awskmsSigNewctx at hnew
            split at hnew
            · cases hnew
            · obtain rfl := Option.some.inj hnew
              exact .new
          · exact .kept heq (fun _ => nofun)
  | sigFreectx c0 =>
      simp only [Sys.step] at hc
      split at hc
      · exact .kept hc (fun _ => nofun)
      · rcases update_some hc with ⟨_, heq⟩ | ⟨_, heq⟩
        · cases heq
        · exact .kept heq (fun _ => nofun)
  | sigDupctx c0 =>
      simp only [Sys.step] at hc
      split at hc
      · exact .kept hc (fun _ => nofun)
      · next t ctx0 hc0 =>
          split at hc
          · exact .kept hc (fun _ => nofun)
          · next copy hcopy =>
              rcases update_some hc with ⟨rfl, heq⟩ | ⟨_, heq⟩
              · obtain ⟨rfl, rfl⟩ := Prod.mk.inj (Option.some.inj heq)
                have : copy = ctx0.copy := by
                  unfold awskmsSigDupctx at hcopy
                  split at hcopy
                  · cases hcopy
                  · split at hcopy
                    · simp only [] at hcopy
                      split at hcopy
                      · exact (Option.some.inj hcopy).symm
                      · cases hcopy
                    · split at hcopy
                      · cases hcopy
                      · split at hcopy
                        · exact (Option.some.inj hcopy).symm
                        · cases hcopy
                rw [this]
                exact .copied hc0
              · exact .kept heq (fun _ => nofun)
  | sig c0 sc =>
      simp only [Sys.step] at hc
      split at hc
      · next hnone =>
          refine .kept hc ?_
          rintro sc' ⟨⟩
          rw [hnone] at hc
          cases hc
      · next t ctx0 hc0 =>
          split at hc
          · next hoff =>
              refine .kept hc ?_
              rintro sc' ⟨⟩
              rw [hc0] at hc
              obtain ⟨rfl, rfl⟩ := Prod.mk.inj (Option.some.inj hc)
              exact hoff
          · next hoff =>
              rcases update_some hc with ⟨rfl, heq⟩ | ⟨hne, heq⟩
              · obtain ⟨rfl, rfl⟩ := Prod.mk.inj (Option.some.inj heq)
                exact .called hc0 (by simpa using hoff)
              · refine .kept heq ?_
                rintro sc' ⟨⟩
                exact absurd rfl hne

/-- The step of a call on a context that is there, when its table offers it. -/
theorem step_sig {s : Sys Alg Key} {c : CtxRef} {table : SigTable}
    {ctx : AwskmsSigCtx Alg Key} (hctx : s.ctxs c = some (table, ctx)) {sc : SigCall}
    (hoff : table.offers sc = true) :
    Sys.step h env (.sig c sc) s = ⟨(sigCall h env s.keys sc ctx).ok,
      (s.setCtx c table (sigCall h env s.keys sc ctx).state).moveRefs
        (sigCall h env s.keys sc ctx).trace,
      (sigCall h env s.keys sc ctx).trace⟩ := by
  simp only [Sys.step, hctx, hoff, Bool.true_eq_false, if_false]

/-- A call that a context's table does not offer, or that has no context, does
nothing. -/
theorem step_sig_unoffered {s : Sys Alg Key} {c : CtxRef} {sc : SigCall}
    (hno : ∀ table ctx, s.ctxs c = some (table, ctx) → table.offers sc = false) :
    Sys.step h env (.sig c sc) s = ⟨false, s, []⟩ := by
  cases hctx : s.ctxs c with
  | none => simp only [Sys.step, hctx]
  | some entry =>
      have hoff := hno entry.1 entry.2 hctx
      simp only [Sys.step, hctx, hoff, if_true]

/-! ## Key objects

A key is made by a store or by a duplication, and gets its view from a load of
its store and its requirement from a query. Whatever else moves is a count. -/

/-- Where a key found after a call comes from, up to its count. -/
inductive KeyStep (h : Host Alg Key) (env : Env Alg Key) (s : Sys Alg Key) :
    Call → KeyRef → AwskmsKey Key → Prop where
  | kept {call : Call} {r : KeyRef} {k : AwskmsKey Key} :
      SameKey (s.keys r) k → KeyStep h env s call r k
  | opened {uri : Option Bytes} {k : AwskmsKey Key} :
      (awskmsStoreOpen h env uri : Reply Event × AwskmsKey Key).1.ok = true →
      SameKey (awskmsStoreOpen h env uri).2 k →
      KeyStep h env s (.storeOpen uri) s.nextKey k
  | copied {r : KeyRef} {selection : Selection} {key k : AwskmsKey Key} :
      awskmsKeymgmtDup h env (s.keys r) selection = .fresh key →
      SameKey key k → KeyStep h env s (.keymgmtDup r selection) s.nextKey k
  | fipsOn {st : StoreRef} {ps : List OsslParam} {ctx : AwskmsStoreCtx}
      {k : AwskmsKey Key} : s.stores st = some ctx →
      storeRequestsFips env ps = true →
      SameKey { s.keys ctx.key with fipsRequired := true } k →
      KeyStep h env s (.storeSetCtxParams st (some ps)) ctx.key k
  | viewed {st : StoreRef} {cb : ObjectCb} {ctx : AwskmsStoreCtx}
      {answer : AwskmsPublicKey} {k : AwskmsKey Key} :
      s.stores st = some ctx → (s.keys ctx.key).pub.spec = none →
      env.getPublicKey (s.keys ctx.key).uri (s.keys ctx.key).fipsRequired =
        .ok answer →
      SameKey { s.keys ctx.key with
        pub := (awskmsPubkeyFromSpki h env answer.spki answer.keySpec
          (s.keys ctx.key).fipsRequired (s.keys ctx.key).pub).state } k →
      KeyStep h env s (.storeLoad st cb) ctx.key k

theorem handOut_keys (out : Out (Sys Alg Key) Event) :
    (Sys.handOut out).state.keys = out.state.keys := by
  unfold Sys.handOut
  split
  · rfl
  · rfl

theorem update_key (f : Keys Key) (r r' : KeyRef) (k : AwskmsKey Key) :
    r' = r ∧ Function.update f r k r' = k ∨
      r' ≠ r ∧ Function.update f r k r' = f r' := by
  by_cases hr : r' = r
  · subst hr
    exact .inl ⟨rfl, Function.update_self ..⟩
  · exact .inr ⟨hr, Function.update_of_ne hr ..⟩

/-- A call on a store leaves every key alone but the one the store owns. -/
theorem onStore_key (s : Sys Alg Key) (st : StoreRef)
    (act : Act (StoreState Key) Event)
    (hact : ∀ x, (act x).state.ctx.key = x.ctx.key) (r : KeyRef) :
    SameKey (s.keys r) ((s.onStore st act).state.keys r) ∨
      ∃ ctx, s.stores st = some ctx ∧ r = ctx.key ∧
        SameKey (act ⟨ctx, s.keys r⟩).state.key
          ((s.onStore st act).state.keys r) := by
  unfold Sys.onStore
  split
  · exact .inl (SameKey.refl _)
  · next ctx hctx =>
      have hmoved := applyRefs_same (s.setStore st
        (act ⟨ctx, s.keys ctx.key⟩).state).keys
        (act ⟨ctx, s.keys ctx.key⟩).trace r
      rw [Sys.setStore_keys, hact] at hmoved
      rcases update_key s.keys ctx.key r
            ((act ⟨ctx, s.keys ctx.key⟩).state.key) with ⟨rfl, hk⟩ | ⟨_, hk⟩
      · rw [hk] at hmoved
        refine .inr ⟨ctx, hctx, rfl, hmoved.trans ?_⟩
        simp only [Sys.moveRefs, Sys.setStore_keys, hact]
        exact SameKey.refl _
      · rw [hk] at hmoved
        refine .inl (hmoved.trans ?_)
        simp only [Sys.moveRefs, Sys.setStore_keys, hact]
        exact SameKey.refl _

variable (h env) in
theorem key_step (s : Sys Alg Key) (call : Call) (r : KeyRef) :
    KeyStep h env s call r ((Sys.step h env call s).state.keys r) := by
  cases call with
  | storeOpen uri =>
      simp only [Sys.step]
      split
      · next hok =>
          rcases update_key s.keys s.nextKey r
            ((awskmsStoreOpen h env uri).2) with ⟨rfl, hk⟩ | ⟨_, hk⟩
          · simp only [Sys.addStore_keys, hk]
            exact .opened hok (SameKey.refl _)
          · simp only [Sys.addStore_keys, hk]
            exact .kept (SameKey.refl _)
      · exact .kept (SameKey.refl _)
  | storeSetCtxParams st params =>
      rw [Sys.step]
      rcases onStore_key s st (awskmsStoreSetCtxParams env params)
        (fun x => (storeSetCtxParams_writes env params x).1) r with hk | ⟨ctx, hst, rfl, hk⟩
      · exact .kept hk
      · obtain ⟨_, _, hw | ⟨ps, rfl, hf, hw⟩⟩ := storeSetCtxParams_writes
          env params ⟨ctx, s.keys ctx.key⟩
        · rw [hw] at hk
          exact .kept hk
        · rw [hw] at hk
          exact .fipsOn hst hf hk
  | storeLoad st cb =>
      rw [Sys.step, handOut_keys]
      rcases onStore_key s st (awskmsStoreLoad h env cb)
        (fun x => awskmsStoreLoad_key) r with hk | ⟨ctx, hst, rfl, hk⟩
      · exact .kept hk
      · have hkept : ∀ {k : AwskmsKey Key}, SameKey
            (awskmsStoreLoadKey h env ⟨ctx, s.keys ctx.key⟩).state.key k →
            KeyStep h env s (.storeLoad st cb) ctx.key k := by
          intro k hk
          obtain ⟨_, ⟨hw, _⟩ | ⟨hspec, answer, hans, _, hw⟩⟩ :=
            awskmsStoreLoadKey_writes h env ⟨ctx, s.keys ctx.key⟩
          · rw [hw] at hk
            exact .kept hk
          · rw [hw] at hk
            exact .viewed hst hspec hans hk
        rcases awskmsStoreLoad_cases h env cb ⟨ctx, s.keys ctx.key⟩
          with ⟨_, hw, _⟩ | ⟨_, _, hw⟩ | ⟨_, hw, _, _⟩
        · rw [hw] at hk
          exact .kept hk
        · rw [hw] at hk
          exact hkept hk
        · rw [hw] at hk
          exact hkept hk
  | storeEof st => exact .kept (SameKey.refl _)
  | storeClose st =>
      simp only [Sys.step]
      split
      · exact .kept (SameKey.refl _)
      · exact .kept (applyRefs_same _ _ r)
  | keymgmtFree r0 => exact .kept (applyRefs_same _ _ r)
  | keymgmtDup r0 selection =>
      simp only [Sys.step]
      split
      · exact .kept (SameKey.refl _)
      · exact .kept (applyRefs_same _ _ r)
      · next key hdup =>
          rcases update_key s.keys s.nextKey r
            key with ⟨rfl, hk⟩ | ⟨_, hk⟩
          · simp only [Sys.addKey_keys, hk]
            exact .copied hdup (SameKey.refl _)
          · simp only [Sys.addKey_keys, hk]
            exact .kept (SameKey.refl _)
  | sigNewctx table propq =>
      simp only [Sys.step]
      split
      · exact .kept (SameKey.refl _)
      · exact .kept (SameKey.refl _)
  | sigFreectx c =>
      simp only [Sys.step]
      split
      · exact .kept (SameKey.refl _)
      · exact .kept (applyRefs_same _ _ r)
  | sigDupctx c =>
      simp only [Sys.step]
      split
      · exact .kept (SameKey.refl _)
      · split
        · exact .kept (applyRefs_same _ _ r)
        · exact .kept (applyRefs_same _ _ r)
  | sig c sc =>
      simp only [Sys.step]
      split
      · exact .kept (SameKey.refl _)
      · split
        · exact .kept (SameKey.refl _)
        · exact .kept (applyRefs_same _ _ r)

/-- Where a live handle found after a call comes from. -/
inductive HandleStep (h : Host Alg Key) (env : Env Alg Key)
    (s : Sys Alg Key) : Call → KeyRef → Prop where
  | held {call : Call} {r : KeyRef} : s.handles r ≠ 0 →
      HandleStep h env s call r
  | copied {r : KeyRef} {selection : Selection} {key : AwskmsKey Key} :
      awskmsKeymgmtDup h env (s.keys r) selection = .fresh key →
      HandleStep h env s (.keymgmtDup r selection) s.nextKey
  | handed {st : StoreRef} {cb : ObjectCb} {ctx : AwskmsStoreCtx} :
      s.stores st = some ctx →
      (awskmsStoreLoadKey h env ⟨ctx, s.keys ctx.key⟩).ok = true →
      (awskmsStoreLoad h env cb ⟨ctx, s.keys ctx.key⟩).state.key =
        (awskmsStoreLoadKey h env ⟨ctx, s.keys ctx.key⟩).state.key →
      HandleStep h env s (.storeLoad st cb) ctx.key

theorem onStore_handles (s : Sys Alg Key) (st : StoreRef)
    (act : Act (StoreState Key) Event) :
    (s.onStore st act).state.handles = s.handles := by
  unfold Sys.onStore
  split
  · rfl
  · rfl

theorem addHandle_held {s : Sys Alg Key} {r q : KeyRef}
    (hr : (s.addHandle q).handles r ≠ 0) : r = q ∨ s.handles r ≠ 0 := by
  by_cases hq : r = q
  · exact .inl hq
  · rw [Sys.addHandle_handles, Function.update_of_ne hq] at hr
    exact .inr hr

theorem handle_step {s : Sys Alg Key} {call : Call} {r : KeyRef}
    (ha : call.Allowed s)
    (hr : (Sys.step h env call s).state.handles r ≠ 0) :
    HandleStep h env s call r := by
  cases call with
  | storeOpen uri =>
      simp only [Sys.step] at hr
      split at hr
      · exact .held hr
      · exact .held hr
  | storeSetCtxParams st params =>
      rw [Sys.step, onStore_handles] at hr
      exact .held hr
  | storeLoad st cb =>
      simp only [Sys.step] at hr
      unfold Sys.handOut at hr
      split at hr
      · next q hlast =>
          rcases addHandle_held hr with rfl | hr
          · have hmem := List.mem_of_getLast? hlast
            unfold Sys.onStore at hmem
            split at hmem
            · cases hmem
            · next ctx hst =>
                obtain ⟨rfl, hok, hkey⟩ :=
                  awskmsStoreLoad_handsOut hmem (.inr rfl)
                exact .handed hst hok hkey
          · rw [onStore_handles] at hr
            exact .held hr
      · rw [onStore_handles] at hr
        exact .held hr
  | storeEof st => exact .held hr
  | storeClose st =>
      simp only [Sys.step] at hr
      split at hr
      · exact .held hr
      · exact .held hr
  | keymgmtFree q =>
      refine .held fun hz => hr ?_
      simp only [Sys.step, Sys.moveRefs_handles, Sys.dropHandle]
      by_cases hq : r = q
      · subst hq
        rw [Function.update_self, hz]
      · rw [Function.update_of_ne hq, hz]
  | keymgmtDup q selection =>
      simp only [Sys.step] at hr
      split at hr
      · exact .held hr
      · rcases addHandle_held hr with rfl | hr
        · exact .held ha
        · exact .held hr
      · next key hdup =>
          by_cases hq : r = s.nextKey
          · subst hq
            exact .copied hdup
          · simp only [Sys.addKey_handles, Function.update_of_ne hq] at hr
            exact .held hr
  | sigNewctx table propq =>
      simp only [Sys.step] at hr
      split at hr
      · exact .held hr
      · exact .held hr
  | sigFreectx c =>
      simp only [Sys.step] at hr
      split at hr
      · exact .held hr
      · exact .held hr
  | sigDupctx c =>
      simp only [Sys.step] at hr
      split at hr
      · exact .held hr
      · split at hr
        · exact .held hr
        · exact .held hr
  | sig c sc =>
      simp only [Sys.step] at hr
      split at hr
      · exact .held hr
      · split at hr
        · exact .held hr
        · exact .held hr

end AwsKms.Model
