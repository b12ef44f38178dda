import AwsKms.Proofs.Steps
import AwsKms.Proofs.Requests

/-!
# What holds in every reachable state

`Sound` is the invariant under everything else: a key that anybody can name,
through a handle or a bound context, is one that was made, and has a key
spec. From it and the inversion lemmas follows what a holder of a key can
rely on (`live_step`): its URI and its public view never change again.

`KeyKind` says what those views are. A view is the decode of what KMS
answered, a copy of one, or one of the two shells `awskms_keymgmt_dup` makes
for a key type and for EC domain parameters.
-/

namespace AwsKms.Model

open AwsKms.Lib

variable {Alg Key : Type} {h : Host Alg Key} {env : Env Alg Key}

theorem awskmsKeyspecByName_mem {name : String} {spec : AwskmsKeyspec}
    (hs : awskmsKeyspecByName name = some spec) :
    spec ∈ specs ∧ spec.kmsKeySpec = name := by
  refine ⟨List.mem_of_find?_eq_some hs, ?_⟩
  simpa using List.find?_some hs

/-- A view with nothing in it but a spec and perhaps a key. -/
def AwskmsPubkey.shell (spec : Option AwskmsKeyspec)
    (pkey : Option (EvpPkey Key)) : AwskmsPubkey Key :=
  ⟨[], pkey, spec, [], none⟩

/-- A new object out of `awskms_keymgmt_dup`: it has no KMS reference, the
FIPS bit of its source, and as much of the view as the selection asked for. -/
structure FreshDup (key : AwskmsKey Key) (selection : Selection)
    (k : AwskmsKey Key) : Prop where
  uri : k.uri = AwskmsUri.zero
  fips : k.fipsRequired = key.fipsRequired
  viewed : key.pub.spec.isSome
  partly : selection.wantsPrivate = false
  view : k.pub = key.pub ∨
    k.pub = .shell key.pub.spec none ∨
    (awskmsKeySpec key).family = .ec ∧ ∃ domain, k.pub = .shell key.pub.spec
      (some ⟨domain, awskmsDependencyPropq key.fipsRequired⟩)

theorem newSubsetKey_eq {src k : AwskmsKey Key}
    (hk : newSubsetKey env src = some k) :
    k = { (awskmsKeyNew : AwskmsKey Key) with
      pub := .shell src.pub.spec none, fipsRequired := src.fipsRequired } := by
  unfold newSubsetKey at hk
  split at hk
  · cases hk
  · exact (Option.some.inj hk).symm

theorem awskmsPubkeyDup_eq {src p : AwskmsPubkey Key}
    (hp : awskmsPubkeyDup env src = some p) : p = src := by
  unfold awskmsPubkeyDup at hp
  split at hp
  · cases hp
  · split at hp
    · cases hp
    · split at hp
      · cases hp
      · exact (Option.some.inj hp).symm

theorem dupPublicKey_eq {src k : AwskmsKey Key}
    (hk : dupPublicKey env src = some k) :
    k = { (awskmsKeyNew : AwskmsKey Key) with
      pub := src.pub, fipsRequired := src.fipsRequired } := by
  unfold dupPublicKey at hk
  split at hk
  · cases hk
  · split at hk
    · cases hk
    · obtain ⟨p, hp, rfl⟩ := Option.map_eq_some_iff.mp hk
      rw [awskmsPubkeyDup_eq hp]

theorem dupDomainParameters_eq {src k : AwskmsKey Key}
    (hk : dupDomainParameters h env src = some k) :
    ∃ pkey domain, src.pub.pkey = some pkey ∧
      h.pkeyDomain pkey.key = some domain ∧
      k = { (awskmsKeyNew : AwskmsKey Key) with
        pub := .shell src.pub.spec
          (some ⟨domain, awskmsDependencyPropq src.fipsRequired⟩),
        fipsRequired := src.fipsRequired } := by
  unfold dupDomainParameters at hk
  split at hk
  · cases hk
  · split at hk
    · cases hk
    · next domain hdomain =>
        obtain ⟨pkey, hpkey, hdomain⟩ := Option.bind_eq_some_iff.mp hdomain
        obtain ⟨k', hk', rfl⟩ := Option.map_eq_some_iff.mp hk
        obtain rfl := newSubsetKey_eq hk'
        exact ⟨pkey, domain, hpkey, hdomain, rfl⟩

theorem ofOption_fresh {o : Option (AwskmsKey Key)} {k : AwskmsKey Key}
    (ho : KeymgmtDup.ofOption o = .fresh k) : o = some k := by
  cases o with
  | none => cases ho
  | some k' =>
      injection ho with ho
      rw [ho]

theorem awskmsKeymgmtDup_fresh {key k : AwskmsKey Key} {selection : Selection}
    (hk : awskmsKeymgmtDup h env key selection = .fresh k) :
    FreshDup key selection k := by
  unfold awskmsKeymgmtDup at hk
  split at hk
  · cases hk
  · next hhas =>
      have hspec : key.pub.spec.isSome := by
        simp only [Bool.not_eq_false, awskmsKeymgmtHas, Bool.and_eq_true]
          at hhas
        exact hhas.1.1.1
      split at hk
      · split at hk
        · cases hk
        · split at hk <;> cases hk
      · next hpriv =>
          have hpriv' : selection.wantsPrivate = false := by simpa using hpriv
          split at hk
          · rw [dupPublicKey_eq (ofOption_fresh hk)]
            exact ⟨rfl, rfl, hspec, hpriv', .inl rfl⟩
          · split at hk
            · next hdom =>
                obtain ⟨_, domain, _, _, hdk⟩ :=
                  dupDomainParameters_eq (ofOption_fresh hk)
                rw [hdk]
                exact ⟨rfl, rfl, hspec, hpriv', .inr (.inr ⟨hdom.2, domain, rfl⟩)⟩
            · rw [newSubsetKey_eq (ofOption_fresh hk)]
              exact ⟨rfl, rfl, hspec, hpriv', .inr (.inl rfl)⟩

theorem awskmsStoreOpen_pub {uri : Option Bytes} :
    (awskmsStoreOpen h env uri : Reply Event × AwskmsKey Key).2.pub =
      AwskmsPubkey.zero := by
  unfold awskmsStoreOpen
  simp only []
  split
  · rfl
  · rfl

/-! ## The base invariant

It is kept by every call and every answer. A key comes into being blank or as
a duplicate of one that is there, and a handle or a context gets its key from
a store or from another handle. -/

/-- A key that was made and has a spec. -/
structure Live (s : Sys Alg Key) (r : KeyRef) : Prop where
  made : r < s.nextKey
  viewed : (s.keys r).pub.spec.isSome

structure Sound (s : Sys Alg Key) : Prop where
  ctx : ∀ c table ctx, s.ctxs c = some (table, ctx) → c < s.nextCtx
  store : ∀ st ctx, s.stores st = some ctx → ctx.key < s.nextKey
  handle : ∀ r, s.handles r ≠ 0 → Live s r
  bound : ∀ c table ctx r, s.ctxs c = some (table, ctx) →
    ctx.key = some r → Live s r
  blank : ∀ r, (s.keys r).pub.spec = none → (s.keys r).pub = AwskmsPubkey.zero

theorem sound_empty : Sound (Sys.empty : Sys Alg Key) where
  ctx c table ctx hc := by
    simp only [Sys.empty] at hc
    cases hc
  store st ctx hst := by
    simp only [Sys.empty] at hst
    cases hst
  handle r hr := absurd rfl hr
  bound c table ctx r hc := by
    simp only [Sys.empty] at hc
    cases hc
  blank _ _ := rfl

theorem onStore_nextKey (s : Sys Alg Key) (st : StoreRef)
    (act : Act (StoreState Key) Event) :
    (s.onStore st act).state.nextKey = s.nextKey := by
  unfold Sys.onStore
  split
  · rfl
  · rfl

theorem handOut_nextKey (out : Out (Sys Alg Key) Event) :
    (Sys.handOut out).state.nextKey = out.state.nextKey := by
  unfold Sys.handOut
  split
  · rfl
  · rfl

/-- A call that makes a key object opens a store or duplicates a key. -/
inductive Made (h : Host Alg Key) (env : Env Alg Key) (s : Sys Alg Key) :
    Call → AwskmsKey Key → Prop where
  | opened {uri : Option Bytes} :
      (awskmsStoreOpen h env uri : Reply Event × AwskmsKey Key).1.ok = true →
      Made h env s (.storeOpen uri) (awskmsStoreOpen h env uri).2
  | copied {r : KeyRef} {selection : Selection} {key : AwskmsKey Key} :
      awskmsKeymgmtDup h env (s.keys r) selection = .fresh key →
      Made h env s (.keymgmtDup r selection) key

variable (h env) in
/-- A call makes no key object, or one at the next address, and says so. -/
theorem made_step (s : Sys Alg Key) (call : Call) :
    (Sys.step h env call s).state.nextKey = s.nextKey ∨
      (Sys.step h env call s).state.nextKey = s.nextKey + 1 ∧
        (Sys.step h env call s).ok = true ∧
        Made h env s call ((Sys.step h env call s).state.keys s.nextKey) := by
  cases call with
  | storeOpen uri =>
      simp only [Sys.step]
      split
      · next hok =>
          refine .inr ⟨rfl, rfl, ?_⟩
          simp only [Sys.addStore_keys, Function.update_self]
          exact .opened hok
      · exact .inl rfl
  | storeSetCtxParams st params =>
      rw [Sys.step]
      exact .inl (onStore_nextKey _ _ _)
  | storeLoad st cb =>
      rw [Sys.step]
      exact .inl ((handOut_nextKey _).trans (onStore_nextKey _ _ _))
  | storeEof st => exact .inl rfl
  | storeClose st =>
      simp only [Sys.step]
      split
      · exact .inl rfl
      · exact .inl rfl
  | keymgmtFree r => exact .inl rfl
  | keymgmtDup r selection =>
      simp only [Sys.step]
      split
      · exact .inl rfl
      · exact .inl rfl
      · next key hdup =>
          refine .inr ⟨rfl, rfl, ?_⟩
          simp only [Sys.addKey_keys, Function.update_self]
          exact .copied hdup
  | sigNewctx table propq =>
      simp only [Sys.step]
      split
      · exact .inl rfl
      · exact .inl rfl
  | sigFreectx c =>
      simp only [Sys.step]
      split
      · exact .inl rfl
      · exact .inl rfl
  | sigDupctx c =>
      simp only [Sys.step]
      split
      · exact .inl rfl
      · split
        · exact .inl rfl
        · exact .inl rfl
  | sig c sc =>
      simp only [Sys.step]
      split
      · exact .inl rfl
      · split
        · exact .inl rfl
        · exact .inl rfl

variable (h env) in
theorem nextKey_step (s : Sys Alg Key) (call : Call) :
    s.nextKey ≤ (Sys.step h env call s).state.nextKey := by
  rcases made_step h env s call with heq | ⟨heq, _⟩
  · exact Nat.le_of_eq heq.symm
  · rw [heq]
    exact Nat.le_succ _

variable (h env) in
/-- The URI and the view of a live key are final. -/
theorem live_step {s : Sys Alg Key} (call : Call) {r : KeyRef}
    (hr : Live s r) :
    Live (Sys.step h env call s).state r ∧
      ((Sys.step h env call s).state.keys r).uri = (s.keys r).uri ∧
      ((Sys.step h env call s).state.keys r).pub = (s.keys r).pub := by
  have hmade := Nat.lt_of_lt_of_le hr.made (nextKey_step h env s call)
  have hsame : ∀ k : AwskmsKey Key, k.uri = (s.keys r).uri →
      k.pub = (s.keys r).pub →
      (Sys.step h env call s).state.keys r = k →
      Live (Sys.step h env call s).state r ∧
        ((Sys.step h env call s).state.keys r).uri = (s.keys r).uri ∧
        ((Sys.step h env call s).state.keys r).pub = (s.keys r).pub := by
    intro k huri hpub hk
    refine ⟨⟨hmade, ?_⟩, by rw [hk, huri], by rw [hk, hpub]⟩
    rw [hk, hpub]
    exact hr.viewed
  have hstep := key_step h env s call r
  generalize hk : (Sys.step h env call s).state.keys r = k at hstep
  rw [← hk]
  cases hstep with
  | kept hsk => exact hsame _ hsk.uri hsk.pub hk
  | opened _ _ => exact absurd hr.made (Nat.lt_irrefl _)
  | copied _ _ => exact absurd hr.made (Nat.lt_irrefl _)
  | fipsOn _ _ hsk => exact hsame _ hsk.uri hsk.pub hk
  | viewed _ hnone _ _ =>
      have hv := hr.viewed
      rw [hnone] at hv
      cases hv

/-- Where the store contexts found after a call come from. -/
theorem store_step {s : Sys Alg Key} {call : Call} {st : StoreRef}
    {ctx : AwskmsStoreCtx}
    (hst : (Sys.step h env call s).state.stores st = some ctx) :
    (∃ old, s.stores st = some old ∧ old.key = ctx.key) ∨
      ctx.key = s.nextKey ∧
        (Sys.step h env call s).state.nextKey = s.nextKey + 1 := by
  have hon : ∀ st' act, (∀ x, (act x).state.ctx.key = x.ctx.key) →
      (s.onStore st' act).state.stores st = some ctx →
      ∃ old, s.stores st = some old ∧ old.key = ctx.key := by
    intro st' act hact hmem
    unfold Sys.onStore at hmem
    split at hmem
    · exact ⟨ctx, hmem, rfl⟩
    · next old hold =>
        rcases update_some hmem with ⟨rfl, heq⟩ | ⟨_, heq⟩
        · obtain rfl := Option.some.inj heq
          exact ⟨old, hold, (hact ⟨old, s.keys old.key⟩).symm⟩
        · exact ⟨ctx, heq, rfl⟩
  cases call with
  | storeOpen uri =>
      simp only [Sys.step] at hst ⊢
      split at hst
      · next hok =>
          rw [if_pos hok]
          rcases update_some hst with ⟨_, heq⟩ | ⟨_, heq⟩
          · obtain rfl := Option.some.inj heq
            exact .inr ⟨rfl, rfl⟩
          · exact .inl ⟨ctx, heq, rfl⟩
      · exact .inl ⟨ctx, hst, rfl⟩
  | storeSetCtxParams st' params =>
      exact .inl (hon st' _ (fun x => (storeSetCtxParams_writes env params x).1) hst)
  | storeLoad st' cb =>
      simp only [Sys.step] at hst
      have hout : (s.onStore st' (awskmsStoreLoad h env cb)).state.stores st =
          some ctx := by
        unfold Sys.handOut at hst
        split at hst
        · exact hst
        · exact hst
      exact .inl (hon st' _ (fun x => awskmsStoreLoad_key) hout)
  | storeEof st' => exact .inl ⟨ctx, hst, rfl⟩
  | storeClose st' =>
      simp only [Sys.step] at hst
      split at hst
      · exact .inl ⟨ctx, hst, rfl⟩
      · rcases update_some hst with ⟨_, heq⟩ | ⟨_, heq⟩
        · cases heq
        · exact .inl ⟨ctx, heq, rfl⟩
  | keymgmtFree r => exact .inl ⟨ctx, hst, rfl⟩
  | keymgmtDup r selection =>
      simp only [Sys.step] at hst
      split at hst <;> exact .inl ⟨ctx, hst, rfl⟩
  | sigNewctx table propq =>
      simp only [Sys.step] at hst
      split at hst <;> exact .inl ⟨ctx, hst, rfl⟩
  | sigFreectx c =>
      simp only [Sys.step] at hst
      split at hst <;> exact .inl ⟨ctx, hst, rfl⟩
  | sigDupctx c =>
      simp only [Sys.step] at hst
      split at hst
      · exact .inl ⟨ctx, hst, rfl⟩
      · split at hst <;> exact .inl ⟨ctx, hst, rfl⟩
  | sig c sc =>
      simp only [Sys.step] at hst
      split at hst
      · exact .inl ⟨ctx, hst, rfl⟩
      · split at hst <;> exact .inl ⟨ctx, hst, rfl⟩

theorem copy_key (ctx : AwskmsSigCtx Alg Key) : ctx.copy.key = ctx.key := rfl

theorem sound_bound {s : Sys Alg Key} (hs : Sound s) {call : Call}
    (ha : call.Allowed s) {c : CtxRef} {table : SigTable}
    {ctx : AwskmsSigCtx Alg Key} {r : KeyRef}
    (hc : (Sys.step h env call s).state.ctxs c = some (table, ctx))
    (hr : ctx.key = some r) : Live s r := by
  cases ctx_step hc with
  | kept hold _ => exact hs.bound c table ctx r hold hr
  | new => cases hr
  | copied hold => exact hs.bound _ table _ r hold hr
  | @called _ _ old sc hold hoff =>
      rcases sigCall_key h env s.keys sc old with hk | ⟨q, hq, hk⟩
      · exact hs.bound c table old r hold (hk ▸ hr)
      · obtain rfl := Option.some.inj (hk.symm.trans hr)
        exact hs.handle q (ha q hq)

/-- A load that succeeds leaves a key somebody can hold. -/
theorem handed_live {s : Sys Alg Key} (hs : Sound s) {st : StoreRef}
    {cb : ObjectCb} {ctx : AwskmsStoreCtx} (hst : s.stores st = some ctx)
    (hok : (awskmsStoreLoadKey h env ⟨ctx, s.keys ctx.key⟩).ok = true)
    (hkey : (awskmsStoreLoad h env cb ⟨ctx, s.keys ctx.key⟩).state.key =
      (awskmsStoreLoadKey h env ⟨ctx, s.keys ctx.key⟩).state.key) :
    Live (Sys.step h env (.storeLoad st cb) s).state ctx.key := by
  have htr : (s.keys ctx.key).pub.spec = none →
      (s.keys ctx.key).pub.tr = none := fun hn => by
    rw [hs.blank _ hn]
    rfl
  have hviewed : (awskmsStoreLoadKey h env
      ⟨ctx, s.keys ctx.key⟩).state.key.pub.spec.isSome := by
    cases hspec : (s.keys ctx.key).pub.spec with
    | none => exact awskmsStoreLoadKey_loaded (htr hspec) hok
    | some spec =>
        obtain ⟨_, ⟨hw, _⟩ | ⟨hnone, _⟩⟩ :=
          awskmsStoreLoadKey_writes h env ⟨ctx, s.keys ctx.key⟩
        · rw [hw, hspec]
          rfl
        · rw [hnone] at hspec
          cases hspec
  have hmade := Nat.lt_of_lt_of_le (hs.store st ctx hst)
    (nextKey_step h env s (.storeLoad st cb))
  refine ⟨hmade, ?_⟩
  have hout : SameKey (awskmsStoreLoad h env cb
      ⟨ctx, s.keys ctx.key⟩).state.key
      ((Sys.step h env (.storeLoad st cb) s).state.keys ctx.key) := by
    rw [Sys.step, handOut_keys]
    simp only [Sys.onStore, hst, Sys.moveRefs]
    have hmoved := applyRefs_same (s.setStore st (awskmsStoreLoad h env cb
      ⟨ctx, s.keys ctx.key⟩).state).keys (awskmsStoreLoad h env cb
      ⟨ctx, s.keys ctx.key⟩).trace ctx.key
    rw [Sys.setStore_keys, awskmsStoreLoad_key] at hmoved
    rw [Sys.setStore_keys, awskmsStoreLoad_key]
    simpa using hmoved
  rw [hout.pub, hkey]
  exact hviewed

theorem sound_handle {s : Sys Alg Key} (hs : Sound s) {call : Call}
    (ha : call.Allowed s) {r : KeyRef}
    (hr : (Sys.step h env call s).state.handles r ≠ 0) :
    Live (Sys.step h env call s).state r := by
  cases hcase : handle_step ha hr with
  | held hold => exact (live_step h env call (hs.handle r hold)).1
  | @copied q selection key hdup =>
      have hfresh := awskmsKeymgmtDup_fresh hdup
      have hstate : Sys.step h env (.keymgmtDup q selection) s =
          ⟨true, s.addKey key, []⟩ := by
        simp only [Sys.step, hdup]
      rw [hstate]
      refine ⟨Nat.lt_succ_self _, ?_⟩
      simp only [Sys.addKey_keys, Function.update_self]
      rcases hfresh.view with hv | hv | ⟨_, _, hv⟩
      · rw [hv]
        exact hfresh.viewed
      · rw [hv]
        exact hfresh.viewed
      · rw [hv]
        exact hfresh.viewed
  | handed hst hok hkey => exact handed_live hs hst hok hkey

theorem sound_blank {s : Sys Alg Key} (hs : Sound s) (call : Call)
    (r : KeyRef) (hnone : ((Sys.step h env call s).state.keys r).pub.spec = none) :
    ((Sys.step h env call s).state.keys r).pub = AwskmsPubkey.zero := by
  have hstep := key_step h env s call r
  generalize hk : (Sys.step h env call s).state.keys r = k at hstep hnone
  cases hstep with
  | kept hsk =>
      rw [hsk.pub] at hnone ⊢
      exact hs.blank r hnone
  | opened _ hsk => rw [hsk.pub, awskmsStoreOpen_pub]
  | copied hdup hsk =>
      have hfresh := awskmsKeymgmtDup_fresh hdup
      have hv := hfresh.viewed
      rw [hsk.pub] at hnone
      rcases hfresh.view with hp | hp | ⟨_, _, hp⟩ <;>
        (rw [hp] at hnone
         exact absurd hnone (Option.isSome_iff_ne_none.mp hv))
  | fipsOn _ _ hsk =>
      rw [hsk.pub] at hnone ⊢
      exact hs.blank _ hnone
  | @viewed st cb ctx answer _ hst hold _ hsk =>
      rw [hsk.pub] at hnone ⊢
      cases hok : (awskmsPubkeyFromSpki h env answer.spki answer.keySpec
          (s.keys ctx.key).fipsRequired (s.keys ctx.key).pub).ok with
      | false => exact awskmsPubkeyFromSpki_failed hok
      | true =>
          have htr : (s.keys ctx.key).pub.tr = none := by
            rw [hs.blank _ hold]
            rfl
          obtain ⟨spec, key, _, hdec⟩ := awskmsPubkeyFromSpki_ok htr hok
          rw [hdec.specEq] at hnone
          cases hnone

theorem onStore_nextCtx (s : Sys Alg Key) (st : StoreRef)
    (act : Act (StoreState Key) Event) :
    (s.onStore st act).state.nextCtx = s.nextCtx := by
  unfold Sys.onStore
  split
  · rfl
  · rfl

theorem handOut_nextCtx (out : Out (Sys Alg Key) Event) :
    (Sys.handOut out).state.nextCtx = out.state.nextCtx := by
  unfold Sys.handOut
  split
  · rfl
  · rfl

variable (h env) in
theorem nextCtx_step (s : Sys Alg Key) (call : Call) :
    s.nextCtx ≤ (Sys.step h env call s).state.nextCtx := by
  cases call with
  | storeOpen uri =>
      simp only [Sys.step]
      split
      · exact Nat.le_refl s.nextCtx
      · exact Nat.le_refl s.nextCtx
  | storeSetCtxParams st params =>
      have heq := onStore_nextCtx s st (awskmsStoreSetCtxParams env params)
      exact Nat.le_of_eq heq.symm
  | storeLoad st cb =>
      have hout := handOut_nextCtx (s.onStore st (awskmsStoreLoad h env cb))
      have heq := onStore_nextCtx s st (awskmsStoreLoad h env cb)
      exact Nat.le_of_eq (hout.trans heq).symm
  | storeEof st => exact Nat.le_refl s.nextCtx
  | storeClose st =>
      simp only [Sys.step]
      split
      · exact Nat.le_refl s.nextCtx
      · exact Nat.le_refl s.nextCtx
  | keymgmtFree r => exact Nat.le_refl s.nextCtx
  | keymgmtDup r selection =>
      simp only [Sys.step]
      split
      · exact Nat.le_refl s.nextCtx
      · exact Nat.le_refl s.nextCtx
      · exact Nat.le_refl s.nextCtx
  | sigNewctx table propq =>
      simp only [Sys.step]
      split
      · exact Nat.le_refl s.nextCtx
      · exact Nat.le_succ s.nextCtx
  | sigFreectx c =>
      simp only [Sys.step]
      split
      · exact Nat.le_refl s.nextCtx
      · exact Nat.le_refl s.nextCtx
  | sigDupctx c =>
      simp only [Sys.step]
      split
      · exact Nat.le_refl s.nextCtx
      · split
        · exact Nat.le_refl s.nextCtx
        · exact Nat.le_succ s.nextCtx
  | sig c sc =>
      simp only [Sys.step]
      split
      · exact Nat.le_refl s.nextCtx
      · split
        · exact Nat.le_refl s.nextCtx
        · exact Nat.le_refl s.nextCtx

theorem sound_ctx {s : Sys Alg Key} (hs : Sound s) {call : Call} {c : CtxRef}
    {table : SigTable} {ctx : AwskmsSigCtx Alg Key}
    (hc : (Sys.step h env call s).state.ctxs c = some (table, ctx)) :
    c < (Sys.step h env call s).state.nextCtx := by
  have hle := nextCtx_step h env s call
  cases ctx_step hc with
  | kept hold _ => exact Nat.lt_of_lt_of_le (hs.ctx _ _ _ hold) hle
  | new =>
      simp only [Sys.step] at hc ⊢
      split at hc
      · exact absurd (hs.ctx _ _ _ hc) (Nat.lt_irrefl s.nextCtx)
      · exact Nat.lt_succ_self s.nextCtx
  | copied hold =>
      simp only [Sys.step, hold] at hc ⊢
      split at hc
      · exact absurd (hs.ctx _ _ _ hc) (Nat.lt_irrefl s.nextCtx)
      · exact Nat.lt_succ_self s.nextCtx
  | called hold _ => exact Nat.lt_of_lt_of_le (hs.ctx _ _ _ hold) hle

theorem sound_step {s : Sys Alg Key} (hs : Sound s) {call : Call}
    (ha : call.Allowed s) : Sound (Sys.step h env call s).state where
  ctx c table ctx hc := sound_ctx hs hc
  store st ctx hst := by
    rcases store_step hst with ⟨old, hold, hkey⟩ | ⟨hkey, hnext⟩
    · rw [← hkey]
      exact Nat.lt_of_lt_of_le (hs.store st old hold) (nextKey_step h env s call)
    · rw [hkey, hnext]
      exact Nat.lt_succ_self _
  handle r hr := sound_handle hs ha hr
  bound c table ctx r hc hr := (live_step h env call (sound_bound hs ha hc hr)).1
  blank r := sound_blank hs call r

/-- Every reachable state is sound. -/
theorem sound_run {evs : List (Rec (Sys Alg Key) (Input Alg Key) Event)}
    {s : Sys Alg Key} (hr : (provider h).Run evs s) : Sound s :=
  Machine.Run.inv (I := Sound) sound_empty
    (fun _ _ hs ha => sound_step hs ha) hr

/-- A request comes from a signing call on a context of a table that offers
it. -/
theorem step_requests {s : Sys Alg Key} {call : Call} {req : KmsRequest}
    (hreq : req ∈ requests (Sys.step h env call s).trace) :
    ∃ c sc table ctx, call = .sig c sc ∧ s.ctxs c = some (table, ctx) ∧
      table.offers sc = true ∧ SignCall h s.keys sc ctx req ∧
      requests (Sys.step h env call s).trace = [req] := by
  have hstore : ∀ {st : StoreState Key} {cb : ObjectCb},
      Event.kmsSign req ∉ (awskmsStoreLoad h env cb st).trace := by
    intro st cb hmem
    rcases awskmsStoreLoad_trace hmem with hmem | ⟨_, _, ⟨_, hev⟩ | hev⟩
    · rcases awskmsStoreLoadKey_trace hmem with hev | hu
      · cases hev
      · exact hu
    · cases hev
    · cases hev
  have hmem := mem_requests.mp hreq
  cases call with
  | sig c sc =>
      simp only [Sys.step] at hreq ⊢
      split at hreq
      · cases hreq
      · next table ctx hctx =>
          split at hreq
          · cases hreq
          · next hoff =>
              obtain ⟨hcall, hone⟩ := sigCall_requests hreq
              refine ⟨c, sc, table, ctx, rfl, hctx, by simpa using hoff,
                hcall, ?_⟩
              rw [if_neg hoff]
              exact hone
  | storeOpen uri =>
      exfalso
      have hopen : Event.kmsSign req ∉
          (awskmsStoreOpen h env uri : Reply Event × AwskmsKey Key).1.trace := by
        intro hmem
        unfold awskmsStoreOpen at hmem
        simp only [] at hmem
        split at hmem
        · cases hmem
        · simp at hmem
      simp only [Sys.step] at hmem
      split at hmem
      · exact hopen hmem
      · exact hopen hmem
  | storeSetCtxParams st params =>
      simp only [Sys.step, Sys.onStore] at hmem
      split at hmem
      · cases hmem
      · rw [(storeSetCtxParams_writes env params _).2.1] at hmem
        cases hmem
  | storeLoad st cb =>
      have htrace : ∀ out : Out (Sys Alg Key) Event,
          (Sys.handOut out).trace = out.trace := by
        intro out
        unfold Sys.handOut
        split <;> rfl
      rw [Sys.step, htrace] at hmem
      simp only [Sys.onStore] at hmem
      split at hmem
      · cases hmem
      · exact absurd hmem hstore
  | storeEof st => cases hmem
  | storeClose st =>
      simp only [Sys.step] at hmem
      split at hmem <;> simp at hmem
  | keymgmtFree r => simp [Sys.step] at hmem
  | keymgmtDup r selection =>
      simp only [Sys.step] at hmem
      split at hmem <;> simp at hmem
  | sigNewctx table propq =>
      simp only [Sys.step] at hmem
      split at hmem <;> simp at hmem
  | sigFreectx c =>
      simp only [Sys.step] at hmem
      split at hmem
      · simp at hmem
      · unfold awskmsSigFreectx at hmem
        split at hmem <;> simp at hmem
  | sigDupctx c =>
      have hdup : ∀ ctx : AwskmsSigCtx Alg Key,
          Event.kmsSign req ∉ (awskmsSigDupctx env ctx).2 := by
        intro ctx hmem
        unfold awskmsSigDupctx at hmem
        split at hmem
        · cases hmem
        · split at hmem
          · cases hmem
          · split at hmem
            · cases hmem
            · split at hmem <;> simp at hmem
      simp only [Sys.step] at hmem
      split at hmem
      · cases hmem
      · split at hmem
        · exact absurd hmem (hdup _)
        · exact absurd hmem (hdup _)

/-- What a request in a run looks like: its record, its context, its bound
key. -/
theorem run_requests {evs : List (Rec (Sys Alg Key) (Input Alg Key) Event)}
    {s : Sys Alg Key} (hr : (provider h).Run evs s)
    {before after : List (Rec (Sys Alg Key) (Input Alg Key) Event)}
    {e : Rec (Sys Alg Key) (Input Alg Key) Event}
    (hsplit : evs = before ++ e :: after) {req : KmsRequest}
    (hreq : req ∈ requests e.out.trace) :
    (provider h).Run before e.pre ∧ ∃ c sc table ctx r,
      e.input.call = .sig c sc ∧ e.pre.ctxs c = some (table, ctx) ∧
      table.offers sc = true ∧ ctx.key = some r ∧ Live e.pre r ∧
      SignCall h e.pre.keys sc ctx req ∧
      requests e.out.trace = [req] := by
  subst hsplit
  obtain ⟨hpre, _, hout⟩ := hr.at_split
  have hreq' := hreq
  rw [hout] at hreq'
  obtain ⟨c, sc, table, ctx, hcall, hctx, hoff, hsign, hone⟩ :=
    step_requests hreq'
  have hkey : ctx.key.isSome := by
    cases hsign with
    | sign hk _ => exact hk
    | final hk _ _ => exact hk
    | oneshot hone => exact hone.bound
  obtain ⟨r, hr⟩ := Option.isSome_iff_exists.mp hkey
  refine ⟨hpre, c, sc, table, ctx, r, hcall, hctx, hoff, hr,
    (sound_run hpre).bound c table ctx r hctx hr, hsign, ?_⟩
  rw [hout]
  exact hone

end AwsKms.Model
