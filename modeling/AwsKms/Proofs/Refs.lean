import AwsKms.Proofs.Uri

/-!
# Keys without a KMS reference

`awskms_keymgmt_dup` hands out the key itself when the private half is asked
for, and otherwise a new object that has the type and perhaps the public half
of the key but no URI. Nothing on the way from an init to a request asks which
of the two it is holding, so a request is only ever issued for a real key as
long as no init is given one of the others. `partialDups` is the list of those
a run has made.
-/

namespace AwsKms.Model

open AwsKms.Lib

variable {Alg Key : Type} {h : Host Alg Key} {env : Env Alg Key}

/-- One record of a run, and the key it made without the private half. -/
def notePartial (g : List KeyRef)
    (e : Rec (Sys Alg Key) (Input Alg Key) Event) : List KeyRef :=
  match e.input.call with
  | .keymgmtDup _ selection =>
      if e.out.ok && !selection.wantsPrivate then e.pre.nextKey :: g else g
  | _ => g

/-- The keys a run made without the private half. -/
def partialDups (evs : List (Rec (Sys Alg Key) (Input Alg Key) Event)) :
    List KeyRef :=
  evs.foldl notePartial []

/-- The key a call gives an init, if any, is not one of those. -/
def GivesWhole (g : List KeyRef)
    (e : Rec (Sys Alg Key) (Input Alg Key) Event) : Prop :=
  match e.input.call with
  | .sig _ sc => ∀ r ∈ sc.provkey, r ∉ g
  | _ => True

instance (g : List KeyRef) (e : Rec (Sys Alg Key) (Input Alg Key) Event) :
    Decidable (GivesWhole g e) :=
  match hcall : e.input.call with
  | .sig _ sc =>
      decidable_of_iff (∀ r ∈ sc.provkey, r ∉ g) (by rw [GivesWhole, hcall])
  | .storeOpen _ | .storeSetCtxParams .. | .storeLoad .. | .storeEof _ |
    .storeClose _ | .keymgmtFree _ | .keymgmtDup .. | .sigNewctx .. |
    .sigFreectx _ | .sigDupctx _ =>
      .isTrue (by rw [GivesWhole, hcall]; trivial)

/-- No init of a run is given a key made without the private half. -/
def WholeKeys (evs : List (Rec (Sys Alg Key) (Input Alg Key) Event)) : Prop :=
  ∀ before e after, evs = before ++ e :: after →
    GivesWhole (partialDups before) e

/-- Keys and contexts of a run that has made the given partial keys. -/
structure Whole (s : Sys Alg Key) (g : List KeyRef) : Prop where
  sound : Sound s
  referenced : ∀ r, r < s.nextKey → r ∉ g → hasPrivateKey (s.keys r) = true
  bound : ∀ c table ctx r, s.ctxs c = some (table, ctx) →
    ctx.key = some r → r ∉ g

theorem hasPrivateKey_of_uri {k k' : AwskmsKey Key} (huri : k'.uri = k.uri) :
    hasPrivateKey k' = hasPrivateKey k := by
  unfold hasPrivateKey
  rw [huri]

theorem awskmsStoreOpen_hasPrivateKey {uri : Option Bytes}
    (hok : (awskmsStoreOpen h env uri : Reply Event × AwskmsKey Key).1.ok =
      true) :
    hasPrivateKey (awskmsStoreOpen h env uri : Reply Event × AwskmsKey Key).2 =
      true := by
  unfold awskmsStoreOpen at hok ⊢
  simp only [] at hok ⊢
  split at hok
  · cases hok
  · next hmem =>
      rw [if_neg hmem]
      obtain ⟨id, hne, hid⟩ := awskmsUriParse_keyId hok
      simp only [hasPrivateKey, hid]

/-- A new partial key is on record. -/
theorem notePartial_mem {e : Rec (Sys Alg Key) (Input Alg Key) Event}
    {g : List KeyRef} {r : KeyRef} (hr : r ∉ notePartial g e) : r ∉ g := by
  unfold notePartial at hr
  split at hr
  · split at hr
    · exact fun hg => hr (List.mem_cons_of_mem _ hg)
    · exact hr
  · exact hr

theorem notePartial_old {e : Rec (Sys Alg Key) (Input Alg Key) Event}
    {g : List KeyRef} {r : KeyRef} (hr : r ∉ g) (hold : r < e.pre.nextKey) :
    r ∉ notePartial g e := by
  unfold notePartial
  split
  · split
    · intro hmem
      rcases List.mem_cons.mp hmem with rfl | hmem
      · exact absurd hold (Nat.lt_irrefl _)
      · exact hr hmem
    · exact hr
  · exact hr

theorem whole_step {s : Sys Alg Key} {i : Input Alg Key} {g : List KeyRef}
    (hs : Whole s g) (ha : i.call.Allowed s)
    (hgives : GivesWhole g ⟨s, i, (provider h).step i s⟩) :
    Whole ((provider h).step i s).state
      (notePartial g ⟨s, i, (provider h).step i s⟩) := by
  refine ⟨sound_step hs.sound ha, fun r hlt hr => ?_, fun c table ctx r hc hr =>
    notePartial_old ?_ (sound_bound hs.sound ha hc hr).made⟩
  · by_cases hold : r < s.nextKey
    · have hpre := hs.referenced r hold (notePartial_mem hr)
      have hstep := key_step h i.env s i.call r
      generalize hi : i.call = call at hstep
      simp only [provider, hi]
      generalize (Sys.step h i.env call s).state.keys r = k at hstep
      cases hstep with
      | kept hsk => rw [hasPrivateKey_of_uri hsk.uri, hpre]
      | opened _ _ => exact absurd hold (Nat.lt_irrefl _)
      | copied _ _ => exact absurd hold (Nat.lt_irrefl _)
      | fipsOn _ _ hsk => rw [hasPrivateKey_of_uri hsk.uri]; exact hpre
      | viewed _ _ _ hsk => rw [hasPrivateKey_of_uri hsk.uri]; exact hpre
    · rcases made_step h i.env s i.call with
        hsame | ⟨hnext, hok, hmade⟩
      · exact absurd (hsame ▸ hlt) hold
      · have hrnext : r = s.nextKey := by
          have hlt' : r < s.nextKey + 1 := hnext ▸ hlt
          exact Nat.le_antisymm (Nat.le_of_lt_succ hlt') (Nat.not_lt.mp hold)
        subst hrnext
        have hnote : ∀ q selection key, i.call = .keymgmtDup q selection →
            awskmsKeymgmtDup h i.env (s.keys q) selection = .fresh key →
            False := by
          intro q selection key hcall hdup
          have hfresh := awskmsKeymgmtDup_fresh hdup
          apply hr
          simp only [notePartial, hcall, provider, hfresh.partly]
          rw [hcall] at hok
          rw [hok]
          exact List.mem_cons_self
        generalize hi : i.call = call at hmade
        simp only [provider, hi]
        generalize (Sys.step h i.env call s).state.keys s.nextKey = k at hmade
        cases hmade with
        | opened hopen => exact awskmsStoreOpen_hasPrivateKey hopen
        | copied hdup => exact (hnote _ _ _ hi hdup).elim
  · have hcs := ctx_step hc
    generalize hi : i.call = call at hcs
    cases hcs with
    | kept hold _ => exact hs.bound c table ctx r hold hr
    | new => cases hr
    | copied hold => exact hs.bound _ table _ r hold hr
    | @called _ _ old sc hold _ =>
        rcases sigCall_key h i.env s.keys sc old with hk | ⟨q, hq, hk⟩
        · exact hs.bound c table old r hold (hk ▸ hr)
        · obtain rfl := Option.some.inj (hk.symm.trans hr)
          simp only [GivesWhole, hi] at hgives
          exact hgives q hq

theorem whole_run {evs : List (Rec (Sys Alg Key) (Input Alg Key) Event)}
    {s : Sys Alg Key} (hr : (provider h).Run evs s) (hwhole : WholeKeys evs) :
    Whole s (partialDups evs) := by
  refine Machine.Run.invHistWhere (I := Whole) (C := GivesWhole)
    (f := notePartial) ?_ (fun s i g hs ha hg => whole_step hs ha hg) hr
    hwhole
  refine ⟨sound_empty, fun r hlt => absurd hlt (Nat.not_lt_zero r),
    fun c table ctx r hc => ?_⟩
  simp only [provider, Sys.empty] at hc
  cases hc

/-- Every request is issued for a key that reports a private half, and a
signing call on any other key is local and fails. -/
def RequestsReferenced (h : Host Alg Key)
    (evs : List (Rec (Sys Alg Key) (Input Alg Key) Event)) : Prop :=
  ∀ before e after, evs = before ++ e :: after →
    ∀ c sc table ctx, e.input.call = .sig c sc →
      e.pre.ctxs c = some (table, ctx) →
      (∀ req ∈ requests e.out.trace, ∃ r, ctx.key = some r ∧
        req.uri = (e.pre.keys r).uri ∧
        awskmsKeymgmtHas h (e.pre.keys r) selectPrivateKey = true) ∧
      ∀ r buf, ctx.key = some r →
        awskmsKeymgmtHas h (e.pre.keys r) selectPrivateKey = false →
        sc.buf? = some buf →
        requests e.out.trace = [] ∧ (buf.sigNull = false → e.out.ok = false)

theorem has_selectPrivateKey {k : AwskmsKey Key}
    (hspec : k.pub.spec.isSome) :
    awskmsKeymgmtHas h k selectPrivateKey = hasPrivateKey k := by
  have hpublic : Selection.wantsPublic selectPrivateKey = false := by decide
  have hprivate : Selection.wantsPrivate selectPrivateKey = true := by decide
  have hdomain : Selection.wantsDomain selectPrivateKey = false := by decide
  simp only [awskmsKeymgmtHas, hspec, hpublic, hprivate, hdomain, Bool.not_false,
    Bool.true_or, Bool.and_true, Bool.true_and, Bool.not_true, Bool.false_or]

/-- In every run whose inits are given whole keys, a request is only ever issued
for a key with a private half. -/
theorem requests_referenced
    {evs : List (Rec (Sys Alg Key) (Input Alg Key) Event)} {s : Sys Alg Key}
    (hr : (provider h).Run evs s) (hwhole : WholeKeys evs) :
    RequestsReferenced h evs := by
  rintro before e after rfl c sc table ctx hcall hctx
  obtain ⟨hpre, _, _⟩ := hr.at_split
  have hstate := whole_run hpre fun x y z hsplit =>
    hwhole x y (z ++ e :: after) (by simp [hsplit])
  have hbound : ∀ r, ctx.key = some r →
      awskmsKeymgmtHas h (e.pre.keys r) selectPrivateKey = true := by
    intro r hkey
    have hlive := hstate.sound.bound c table ctx r hctx hkey
    rw [has_selectPrivateKey hlive.viewed]
    exact hstate.referenced r hlive.made (hstate.bound c table ctx r hctx hkey)
  refine ⟨fun req hreq => ?_, fun r buf hkey hno => ?_⟩
  · obtain ⟨_, c', sc', table', ctx', r, hcall', hctx', _, hkey, _, hsign, _⟩ :=
      run_requests hr rfl hreq
    obtain ⟨rfl, rfl⟩ := Call.sig.inj (hcall.symm.trans hcall')
    obtain ⟨rfl, rfl⟩ := Prod.mk.inj (Option.some.inj (hctx.symm.trans hctx'))
    refine ⟨r, hkey, ?_, hbound r hkey⟩
    have huri : req.uri = boundUri e.pre.keys ctx := by
      cases hsign with
      | sign _ hd => rw [hd.request]
      | final _ _ hd => rw [hd.request]
      | oneshot ho => exact ho.uri
    rw [huri, boundUri, hkey]
    rfl
  · rw [hbound r hkey] at hno
    cases hno

namespace Bench

/-- A context on a loaded key, told a digest. -/
def signingEc : List Call := opening "alias/ec" .prehash ++ [
  .keymgmtDup 0 selectPublicKey,
  onCtx (.signInit (some 0) (some [strParam "digest" "SHA256"]))]

/-- The same, on the public half of the key. -/
def publicEc : List Call := opening "alias/ec" .prehash ++ [
  .keymgmtDup 0 selectPublicKey,
  onCtx (.signInit (some 1) (some [strParam "digest" "SHA256"]))]

end Bench

theorem requests_referenced_signingEc :
    requests (Bench.recOf Bench.signingEc
      (Bench.onCtx (.sign Bench.buf Bench.sha256Abc))).out.trace ≠ [] ∧
    RequestsReferenced Bench.host (Bench.runOf (Bench.signingEc ++
      [Bench.onCtx (.sign Bench.buf Bench.sha256Abc)])) :=
  ⟨by decide +kernel, requests_referenced (Bench.run_runOf (by decide +kernel))
    (Machine.forall_split (P := fun before e =>
      GivesWhole (partialDups before) e) (by decide +kernel))⟩

/-- A request is issued for a key that reports no private half, and names no
key at all. -/
theorem requests_not_referenced :
    ¬ ∀ evs s, (provider Bench.host).Run evs s →
      RequestsReferenced Bench.host evs := by
  intro hall
  have hrun := hall (Bench.runOf (Bench.publicEc ++
    [Bench.onCtx (.sign Bench.buf Bench.sha256Abc)])) _
    (Bench.run_runOf (by decide +kernel))
  rw [Bench.runOf_snoc] at hrun
  have hbound : ((Bench.recOf Bench.publicEc (Bench.onCtx
      (.sign Bench.buf Bench.sha256Abc))).pre.ctxs 0).map (·.2.key) =
        some (some 1) := by decide +kernel
  obtain ⟨⟨table, ctx⟩, hctx, hone⟩ := Option.map_eq_some_iff.mp hbound
  obtain ⟨r, hkey, _, hhas⟩ := (hrun _ _ [] rfl 0 _ table ctx rfl hctx).1
    ⟨AwskmsUri.zero, false, .ECDSA_SHA_256, .DIGEST, Bench.sha256Abc⟩
    (by decide +kernel)
  obtain rfl := Option.some.inj (hone.symm.trans hkey)
  revert hhas
  decide +kernel

end AwsKms.Model
