import AwsKms.Proofs.Reach

/-!
# Where the public views of a run come from

Two places hold a view: a key object, and a context whose own FIPS
requirement made it reparse the bytes of its key. `KeyKind` and `ViewOf`
trace both back to a decode some call of the run was answered with. The
answers themselves are assumed nothing of; `E` is whatever a later result
assumes of the environment of every call, and each view carries it along.
-/

namespace AwsKms.Model

open AwsKms.Lib

variable {Alg Key : Type} {h : Host Alg Key} {env : Env Alg Key}
  {E : Env Alg Key → Prop}

/-- The kinds of key objects a run can hold. -/
inductive KeyKind (h : Host Alg Key) (E : Env Alg Key → Prop)
    (k : AwskmsKey Key) : Prop where
  | blank : k.pub = AwskmsPubkey.zero → KeyKind h E k
  | loaded {env : Env Alg Key} {answer : AwskmsPublicKey}
      {spec : AwskmsKeyspec} {fips : Bool} {pk : Key} : E env →
      env.getPublicKey k.uri fips = .ok answer →
      awskmsKeyspecByName answer.keySpec = some spec →
      Decoded h env answer.spki spec fips pk k.pub → KeyKind h E k
  | publicHalf {env : Env Alg Key} {der : Bytes} {spec : AwskmsKeyspec}
      {fips : Bool} {pk : Key} : k.uri = AwskmsUri.zero → E env →
      spec ∈ specs → Decoded h env der spec fips pk k.pub → KeyKind h E k
  | shell {spec : AwskmsKeyspec} {pkey : Option (EvpPkey Key)} :
      k.uri = AwskmsUri.zero → spec ∈ specs →
      (pkey.isSome → spec.family = .ec) → k.pub = .shell (some spec) pkey →
      KeyKind h E k

theorem KeyKind.of_same {k k' : AwskmsKey Key} (hk : KeyKind h E k)
    (huri : k'.uri = k.uri) (hpub : k'.pub = k.pub) : KeyKind h E k' := by
  cases hk with
  | blank hb => exact .blank (hpub.trans hb)
  | loaded hE hans hspec hdec =>
      exact .loaded hE (huri ▸ hans) hspec (hpub ▸ hdec)
  | publicHalf hu hE hspec hdec =>
      exact .publicHalf (huri.trans hu) hE hspec (hpub ▸ hdec)
  | shell hu hspec hec hp =>
      exact .shell (huri.trans hu) hspec hec (hpub.trans hp)

/-- The spec of a view is a row of the table. -/
theorem KeyKind.spec_mem {k : AwskmsKey Key} (hk : KeyKind h E k)
    {spec : AwskmsKeyspec} (hs : k.pub.spec = some spec) : spec ∈ specs := by
  cases hk with
  | blank hb =>
      rw [hb] at hs
      cases hs
  | loaded _ _ hspec hdec =>
      obtain rfl := Option.some.inj (hdec.specEq.symm.trans hs)
      exact (awskmsKeyspecByName_mem hspec).1
  | publicHalf _ _ hspec hdec =>
      obtain rfl := Option.some.inj (hdec.specEq.symm.trans hs)
      exact hspec
  | shell _ hspec _ hp =>
      rw [hp] at hs
      obtain rfl := Option.some.inj hs
      exact hspec

/-- A view with retained bytes is their decode. -/
theorem KeyKind.decoded {k : AwskmsKey Key} (hk : KeyKind h E k)
    (hne : k.pub.der ≠ [] ∨ k.pub.tr ≠ none) :
    ∃ env spec fips pk, E env ∧ spec ∈ specs ∧
      Decoded h env k.pub.der spec fips pk k.pub := by
  cases hk with
  | blank hb =>
      rw [hb] at hne
      rcases hne with hne | hne <;> exact absurd rfl hne
  | loaded hE _ hspec hdec =>
      exact ⟨_, _, _, _, hE, (awskmsKeyspecByName_mem hspec).1,
        hdec.derEq.symm ▸ hdec⟩
  | publicHalf _ hE hspec hdec =>
      exact ⟨_, _, _, _, hE, hspec, hdec.derEq.symm ▸ hdec⟩
  | shell _ _ _ hp =>
      rw [hp] at hne
      rcases hne with hne | hne <;> exact absurd rfl hne

/-- A duplicate is of a kind because its source is. -/
theorem FreshDup.kind {key k : AwskmsKey Key} {selection : Selection}
    (hd : FreshDup key selection k) (hk : KeyKind h E key) :
    KeyKind h E k := by
  obtain ⟨spec, hspec⟩ := Option.isSome_iff_exists.mp hd.viewed
  have hmem := hk.spec_mem hspec
  rcases hd.view with hv | hv | ⟨hec, domain, hv⟩
  · cases hk with
    | blank hb =>
        rw [hb] at hspec
        cases hspec
    | loaded hE _ hs hdec =>
        exact .publicHalf hd.uri hE (awskmsKeyspecByName_mem hs).1 (hv ▸ hdec)
    | publicHalf _ hE hs hdec => exact .publicHalf hd.uri hE hs (hv ▸ hdec)
    | shell _ hs hec hp => exact .shell hd.uri hs hec (hv.trans hp)
  · refine .shell hd.uri hmem (fun hn => ?_) (hspec ▸ hv)
    cases hn
  · refine .shell hd.uri hmem (fun _ => ?_) (hspec ▸ hv)
    rw [awskmsKeySpec, hspec] at hec
    exact hec

theorem keyKind_step {s : Sys Alg Key} (hs : Sound s)
    (hk : ∀ r, KeyKind h E (s.keys r)) (hE : E env) (call : Call)
    (r : KeyRef) : KeyKind h E ((Sys.step h env call s).state.keys r) := by
  have hstep := key_step h env s call r
  generalize (Sys.step h env call s).state.keys r = k at hstep
  cases hstep with
  | kept hsk => exact (hk r).of_same hsk.uri hsk.pub
  | opened _ hsk => exact .blank (hsk.pub.trans awskmsStoreOpen_pub)
  | copied hdup hsk =>
      exact ((awskmsKeymgmtDup_fresh hdup).kind (hk _)).of_same hsk.uri hsk.pub
  | fipsOn _ _ hsk => exact (hk _).of_same hsk.uri hsk.pub
  | @viewed st cb ctx answer _ hst hnone hans hsk =>
      cases hok : (awskmsPubkeyFromSpki h env answer.spki answer.keySpec
          (s.keys ctx.key).fipsRequired (s.keys ctx.key).pub).ok with
      | false => exact .blank (hsk.pub.trans (awskmsPubkeyFromSpki_failed hok))
      | true =>
          have htr : (s.keys ctx.key).pub.tr = none := by
            rw [hs.blank _ hnone]
            rfl
          obtain ⟨spec, pk, hspec, hdec⟩ := awskmsPubkeyFromSpki_ok htr hok
          have hview : Decoded h env answer.spki spec
              (s.keys ctx.key).fipsRequired pk k.pub := by
            rw [hsk.pub]
            exact hdec
          exact .loaded hE (hsk.uri ▸ hans) hspec hview

/-- The reparsed view of a context, when it has one, is a decode under FIPS of
the bytes its key retains. -/
def ViewOf (h : Host Alg Key) (E : Env Alg Key → Prop) (keys : Keys Key)
    (ctx : AwskmsSigCtx Alg Key) : Prop :=
  ctx.fipsPub = AwskmsPubkey.zero ∨ ∃ r env spec pk, ctx.key = some r ∧
    E env ∧ awskmsKeyspecByName (awskmsKeySpec (keys r)).kmsKeySpec = some spec ∧
    Decoded h env (keys r).pub.der spec true pk ctx.fipsPub

theorem fipsView_ok {key : AwskmsKey Key}
    (hok : (fipsView h env key).ok = true) :
    ∃ spec pk, awskmsKeyspecByName (awskmsKeySpec key).kmsKeySpec = some spec ∧
      Decoded h env key.pub.der spec true pk (fipsView h env key).state := by
  unfold fipsView at hok ⊢
  split at hok
  · cases hok
  · next hne =>
      rw [if_neg hne]
      exact awskmsPubkeyFromSpki_ok rfl hok

theorem viewOf_write {keys : Keys Key} {sc : SigCall} (hE : E env)
    {x y : AwskmsSigCtx Alg Key} (hw : Write h env keys sc x y)
    (hx : ViewOf h E keys x) : ViewOf h E keys y := by
  cases hw with
  | bind => exact .inl rfl
  | bindView _ _ hok =>
      obtain ⟨spec, pk, hspec, hdec⟩ := fipsView_ok hok
      exact .inr ⟨_, env, spec, pk, rfl, hE, hspec, hdec⟩
  | _ => exact hx

theorem ViewOf.of_pub {keys keys' : Keys Key} {ctx : AwskmsSigCtx Alg Key}
    (hpub : ∀ r, ctx.key = some r → (keys' r).pub = (keys r).pub)
    (hv : ViewOf h E keys ctx) : ViewOf h E keys' ctx := by
  rcases hv with hz | ⟨r, env, spec, pk, hr, hE, hspec, hdec⟩
  · exact .inl hz
  · have hp := hpub r hr
    refine .inr ⟨r, env, spec, pk, hr, hE, ?_, hp ▸ hdec⟩
    rw [awskmsKeySpec, hp]
    exact hspec

theorem viewOf_step {s : Sys Alg Key} (hs : Sound s)
    (hv : ∀ c table ctx, s.ctxs c = some (table, ctx) → ViewOf h E s.keys ctx)
    (hE : E env) {call : Call} (ha : call.Allowed s) {c : CtxRef}
    {table : SigTable} {ctx : AwskmsSigCtx Alg Key}
    (hc : (Sys.step h env call s).state.ctxs c = some (table, ctx)) :
    ViewOf h E (Sys.step h env call s).state.keys ctx := by
  have hview : ViewOf h E s.keys ctx := by
    cases ctx_step hc with
    | kept hold _ => exact hv c table ctx hold
    | new => exact .inl rfl
    | @copied _ _ old hold =>
        rcases hv _ _ _ hold with hz | ⟨r, env', spec, pk, hr, hE', hspec, hdec⟩
        · refine .inl ?_
          rw [AwskmsSigCtx.copy, hz]
          rfl
        · refine .inr ⟨r, env', spec, pk, hr, hE', hspec, ?_⟩
          have hcopy : old.copy.fipsPub = old.fipsPub := by
            rw [AwskmsSigCtx.copy]
            simp [hdec.pkey]
          rw [hcopy]
          exact hdec
    | called hold _ =>
        exact sigCall_keeps (fun x y hw hx => viewOf_write hE hw hx)
          (hv _ _ _ hold)
  exact hview.of_pub fun r hr => (live_step h env call (sound_bound hs ha hc hr)).2.2

/-- What a run whose calls are all answered within `E` holds. -/
structure Traced (h : Host Alg Key) (E : Env Alg Key → Prop)
    (s : Sys Alg Key) : Prop where
  sound : Sound s
  kind : ∀ r, KeyKind h E (s.keys r)
  view : ∀ c table ctx, s.ctxs c = some (table, ctx) → ViewOf h E s.keys ctx

theorem traced_run {evs : List (Rec (Sys Alg Key) (Input Alg Key) Event)}
    {s : Sys Alg Key} (hr : (provider h).Run evs s)
    (hE : ∀ e ∈ evs, E e.input.env) : Traced h E s := by
  refine Machine.Run.invWhere (I := Traced h E)
    (C := fun e => E e.input.env) ?_ ?_ hr hE
  · refine ⟨sound_empty, fun _ => .blank rfl, fun c table ctx hc => ?_⟩
    simp only [provider, Sys.empty] at hc
    cases hc
  · intro s i hs ha hi
    exact ⟨sound_step hs.sound ha, fun r => keyKind_step hs.sound hs.kind hi _ r,
      fun c table ctx hc => viewOf_step hs.sound hs.view hi ha hc⟩

/-- The key a context of a run is bound to is one of the table. -/
theorem spec_mem_run {evs : List (Rec (Sys Alg Key) (Input Alg Key) Event)}
    {s : Sys Alg Key} (hr : (provider h).Run evs s) {ctx : AwskmsSigCtx Alg Key}
    {r : KeyRef} (hkey : ctx.key = some r) (hlive : Live s r) :
    ctx.spec s.keys ∈ specs := by
  have htraced : Traced h (fun _ => True) s := traced_run hr fun _ _ => trivial
  obtain ⟨spec, hspec⟩ := Option.isSome_iff_exists.mp hlive.viewed
  have hmem := (htraced.kind r).spec_mem hspec
  rw [AwskmsSigCtx.spec, hkey]
  simp only [awskmsKeySpec, hspec, Option.getD_some]
  exact hmem

/-- The view an operation works on is its key's own, or a decode under FIPS of
the bytes that key retains. -/
theorem Traced.operation_view {s : Sys Alg Key} (hs : Traced h E s) {c : CtxRef}
    {table : SigTable} {ctx : AwskmsSigCtx Alg Key}
    (hc : s.ctxs c = some (table, ctx)) {r : KeyRef} (hr : ctx.key = some r)
    {pub : AwskmsPubkey Key} (hpub : operationPubkey s.keys ctx = some pub) :
    pub = (s.keys r).pub ∨ ∃ env spec pk, E env ∧
      awskmsKeyspecByName (awskmsKeySpec (s.keys r)).kmsKeySpec = some spec ∧
      Decoded h env (s.keys r).pub.der spec true pk pub := by
  unfold operationPubkey at hpub
  rw [hr] at hpub
  simp only [] at hpub
  split at hpub
  · split at hpub
    · next hsome =>
        obtain rfl := Option.some.inj hpub
        rcases hs.view c table ctx hc with hz | ⟨q, env, spec, pk, hq, hE, hspec, hd⟩
        · rw [hz] at hsome
          cases hsome
        · obtain rfl := Option.some.inj (hq.symm.trans hr)
          exact .inr ⟨env, spec, pk, hE, hspec, hd⟩
    · cases hpub
  · exact .inl (Option.some.inj hpub).symm

/-- The `tr` an operation works with is SHAKE256 of the raw public value of a
decode of the bytes its own key retains. -/
theorem Traced.operation_tr {s : Sys Alg Key} (hs : Traced h E s) {c : CtxRef}
    {table : SigTable} {ctx : AwskmsSigCtx Alg Key}
    (hc : s.ctxs c = some (table, ctx)) {r : KeyRef} (hr : ctx.key = some r)
    {pub : AwskmsPubkey Key} (hpub : operationPubkey s.keys ctx = some pub)
    {tr : AwskmsTr} (htr : pub.tr = some tr) :
    ∃ env spec fips pk, E env ∧ spec ∈ specs ∧ spec.family = .mlDsa ∧
      Decoded h env (s.keys r).pub.der spec fips pk pub ∧
      tr.bytes = h.shake256 pub.raw := by
  have hdec : ∃ env spec fips pk, E env ∧ spec ∈ specs ∧
      Decoded h env (s.keys r).pub.der spec fips pk pub := by
    rcases hs.operation_view hc hr hpub with heq | ⟨env, spec, pk, hE, hspec, hd⟩
    · subst heq
      exact (hs.kind r).decoded (.inr (by rw [htr]; nofun))
    · exact ⟨env, spec, true, pk, hE, (awskmsKeyspecByName_mem hspec).1, hd⟩
  obtain ⟨env, spec, fips, pk, hE, hspec, hd⟩ := hdec
  have heq := hd.tr
  rw [htr] at heq
  split at heq
  · next hf =>
      obtain rfl := Option.some.inj heq
      exact ⟨env, spec, fips, pk, hE, hspec, hf, hd, rfl⟩
  · cases heq

end AwsKms.Model
