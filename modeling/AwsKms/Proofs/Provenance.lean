import AwsKms.Proofs.Bench
import AwsKms.Proofs.Effects
import AwsKms.Proofs.Settle
import AwsKms.Proofs.Views

/-!
# What a FIPS requirement reaches

FIPS is asked for in a query, or by the process, when a store, a key or a
context is made, and what was asked is what the two bits of an operation say
(`told_run`). `UnderFips` is what it ought to reach: the digests a context
holds, the running hash, and the public view of the key.

Two steps break it. A store whose key is already loaded still takes a query,
and the key is shared by then. And an init that brings a key with the
requirement into a context without one builds a view for it where the context
needs one, but keeps the digest and the hash the context had. `KeepsFips` is
that neither happens; in a run of such steps the requirement reaches
everything.
-/

namespace AwsKms.Model

open AwsKms.Lib

variable {Alg Key : Type} {h : Host Alg Key} {env : Env Alg Key}
  {keys : Keys Key}

def EvpMd.Fips (md : EvpMd Alg) : Prop := md.propq = awskms_EXCLUDE_SELF_FIPS

def EvpPkey.Fips (pkey : EvpPkey Key) : Prop :=
  pkey.propq = awskms_EXCLUDE_SELF_FIPS

def AwskmsTr.Fips (tr : AwskmsTr) : Prop := tr.propq = awskms_EXCLUDE_SELF_FIPS

structure AwskmsPubkey.Fips (pub : AwskmsPubkey Key) : Prop where
  pkey : ∀ pkey ∈ pub.pkey, pkey.Fips
  tr : ∀ tr ∈ pub.tr, tr.Fips

instance (md : EvpMd Alg) : Decidable md.Fips :=
  inferInstanceAs (Decidable (md.propq = awskms_EXCLUDE_SELF_FIPS))

/-- The digest a context has selected. -/
def AwskmsSigCtx.MdFips (ctx : AwskmsSigCtx Alg Key) : Prop :=
  ∀ md ∈ ctx.md, md.Fips

/-- The digest of its hash. -/
def AwskmsSigCtx.HashFips (ctx : AwskmsSigCtx Alg Key) : Prop :=
  ∀ md ∈ ctx.mdctx.bind EvpMdCtx.md?, md.Fips

instance (ctx : AwskmsSigCtx Alg Key) : Decidable ctx.MdFips :=
  inferInstanceAs (Decidable (∀ md ∈ ctx.md, md.Fips))

instance (ctx : AwskmsSigCtx Alg Key) : Decidable ctx.HashFips :=
  inferInstanceAs (Decidable (∀ md ∈ ctx.mdctx.bind EvpMdCtx.md?, md.Fips))

/-- Everything an operation works with. -/
structure UnderFips (keys : Keys Key) (ctx : AwskmsSigCtx Alg Key) : Prop where
  md : ctx.MdFips
  hash : ctx.HashFips
  view : ∀ pub, operationPubkey keys ctx = some pub → pub.Fips

/-- An effect that reaches other code, or the service, under FIPS. -/
def Event.Fips : Event → Prop
  | .fetchMd _ q | .decode q | .verifyWith q => q = awskms_EXCLUDE_SELF_FIPS
  | .kmsSign req => req.fipsRequired = true
  | .kmsGetPublicKey _ fipsRequired => fipsRequired = true
  | _ => True

/-- Which keys and contexts FIPS was asked for. -/
structure FipsAsked where
  ofKey : KeyRef → Bool
  ofCtx : CtxRef → Bool

def FipsAsked.nothing : FipsAsked := ⟨fun _ => false, fun _ => false⟩

/-- What one record asks: a query, or the default of the process where there
is none. -/
def noteFips (g : FipsAsked) (e : Rec (Sys Alg Key) (Input Alg Key) Event) :
    FipsAsked :=
  match e.input.call with
  | .storeOpen _ =>
      { g with
        ofKey := Function.update g.ofKey e.pre.nextKey
          (awskmsFipsRequested e.input.env.defaultFips none) }
  | .storeSetCtxParams st (some ps) =>
      match e.pre.stores st with
      | none => g
      | some ctx =>
          if e.out.ok && storeRequestsFips e.input.env ps then
            { g with ofKey := Function.update g.ofKey ctx.key true }
          else g
  | .keymgmtDup r _ =>
      { g with ofKey := Function.update g.ofKey e.pre.nextKey (g.ofKey r) }
  | .sigNewctx _ propq =>
      { g with
        ofCtx := Function.update g.ofCtx e.pre.nextCtx
          (awskmsFipsRequested e.input.env.defaultFips propq) }
  | .sigDupctx c =>
      { g with ofCtx := Function.update g.ofCtx e.pre.nextCtx (g.ofCtx c) }
  | _ => g

def fipsAsked (evs : List (Rec (Sys Alg Key) (Input Alg Key) Event)) :
    FipsAsked := evs.foldl noteFips FipsAsked.nothing

/-- FIPS was asked for an operation: for its context, or for its key. -/
def FipsAsked.Requires (g : FipsAsked) (c : CtxRef)
    (ctx : AwskmsSigCtx Alg Key) : Prop :=
  g.ofCtx c = true ∨ ∃ r, ctx.key = some r ∧ g.ofKey r = true

/-- In every state of a run, what FIPS was asked for has everything from
there, and every call asks for everything there; and a key that was handed out
stays as it was. -/
structure FipsProvenance
    (evs : List (Rec (Sys Alg Key) (Input Alg Key) Event)) : Prop where
  objects : ∀ before e after, evs = before ++ e :: after →
    ∀ c table ctx, e.out.state.ctxs c = some (table, ctx) →
    (fipsAsked (before ++ [e])).Requires c ctx → UnderFips e.out.state.keys ctx
  effects : ∀ before e after, evs = before ++ e :: after →
    ∀ c sc table ctx, e.input.call = .sig c sc →
    e.out.state.ctxs c = some (table, ctx) →
    (fipsAsked (before ++ [e])).Requires c ctx → ∀ ev ∈ e.out.trace, ev.Fips
  loads : ∀ before e after, evs = before ++ e :: after →
    ∀ st cb ctx, e.input.call = .storeLoad st cb →
    e.pre.stores st = some ctx → (fipsAsked before).ofKey ctx.key = true →
    ∀ ev ∈ e.out.trace, ev.Fips
  handedOut : ∀ before e after, evs = before ++ e :: after →
    ∀ st cb keytype r, e.input.call = .storeLoad st cb →
    Event.objectCb keytype r ∈ e.out.trace →
    ∀ later ∈ after, SameKey (e.out.state.keys r) (later.out.state.keys r)

/-! ## The two bits say what was asked

`fipsAsked` is a record of the requests for FIPS, in the order they came. A
key has what its store was asked for and a context what it was made with;
later only a query of the store moves a key's bit, and a copy has the bit of
its source. -/

/-- The bits of every key and every context there is. -/
structure Told (s : Sys Alg Key) (g : FipsAsked) : Prop where
  key : ∀ r, r < s.nextKey → (s.keys r).fipsRequired = g.ofKey r
  ctx : ∀ c table ctx, s.ctxs c = some (table, ctx) →
    ctx.fipsRequired = g.ofCtx c

theorem storeSetCtxParams_fips (ps : List OsslParam) (st : StoreState Key) :
    (awskmsStoreSetCtxParams env (some ps) st).state.key.fipsRequired =
      if (awskmsStoreSetCtxParams env (some ps) st).ok &&
        storeRequestsFips env ps then true else st.key.fipsRequired := by
  have hout : awskmsStoreSetCtxParams env (some ps) st = ((applyExpect ps).andThen
    (awskmsStoreApplyProperties env (some ps))) st := rfl
  obtain ⟨hkey, _, _⟩ := applyExpect_key ps st
  rw [hout]
  cases hok : (applyExpect ps st).ok with
  | false => rw [Act.andThen_of_failed hok, hok, hkey, Bool.false_and]; rfl
  | true =>
      rw [Act.andThen_of_ok hok]
      simp only [awskmsStoreApplyProperties, storeRequestsFips]
      cases hq : storePropq (some ps) with
      | none => simp [hkey]
      | some propq =>
          cases hf : awskmsFipsRequested env.defaultFips propq with
          | false => simp [hf, hkey]
          | true => simp [hf]

/-- The FIPS bits after a call on a store. -/
theorem onStore_fips {s : Sys Alg Key} {st : StoreRef}
    {act : Act (StoreState Key) Event}
    (hact : ∀ x, (act x).state.ctx.key = x.ctx.key) {ctx : AwskmsStoreCtx}
    (hst : s.stores st = some ctx) (r : KeyRef) :
    ((s.onStore st act).state.keys r).fipsRequired =
      if r = ctx.key then (act ⟨ctx, s.keys ctx.key⟩).state.key.fipsRequired
      else (s.keys r).fipsRequired := by
  simp only [Sys.onStore, hst]
  rw [Sys.moveRefs]
  simp only []
  rw [(applyRefs_same _ _ r).fips, Sys.setStore_keys, hact]
  rcases update_key s.keys ctx.key r (act ⟨ctx, s.keys ctx.key⟩).state.key
    with ⟨heq, hk⟩ | ⟨hne, hk⟩
  · rw [hk, if_pos heq]
  · rw [hk, if_neg hne]

variable (h env) in
/-- A query that is taken turns one bit on, if it asks for FIPS. -/
theorem storeSetCtxParams_step {s : Sys Alg Key} {st : StoreRef}
    (ps : List OsslParam) {ctx : AwskmsStoreCtx} (hst : s.stores st = some ctx)
    (r : KeyRef) :
    let out := Sys.step h env (.storeSetCtxParams st (some ps)) s
    (out.state.keys r).fipsRequired =
      if out.ok && storeRequestsFips env ps then
        if r = ctx.key then true else (s.keys r).fipsRequired
      else (s.keys r).fipsRequired := by
  intro out
  have hact : ∀ x : StoreState Key,
      (awskmsStoreSetCtxParams env (some ps) x).state.ctx.key = x.ctx.key :=
    fun x => (storeSetCtxParams_writes env (some ps) x).1
  have hbit := onStore_fips hact hst r
  rw [storeSetCtxParams_fips] at hbit
  have hok : out.ok = (awskmsStoreSetCtxParams env (some ps)
      ⟨ctx, s.keys ctx.key⟩).ok := by
    simp only [out, Sys.step, Sys.onStore, hst]
  rw [hok]
  refine hbit.trans ?_
  by_cases hrk : r = ctx.key
  · subst hrk
    simp only [if_pos]
  · simp only [if_neg hrk, ite_self]

theorem awskmsStoreOpen_fips {uri : Option Bytes} :
    (awskmsStoreOpen h env uri : Reply Event × AwskmsKey Key).2.fipsRequired =
      awskmsFipsRequested env.defaultFips none := by
  unfold awskmsStoreOpen
  simp only []
  split
  · rfl
  · rfl

/-- Of the keys there were, a call turns on the bits it was asked to. -/
theorem told_old {s : Sys Alg Key} {i : Input Alg Key} {g : FipsAsked}
    (ht : Told s g) {r : KeyRef} (hr : r < s.nextKey) :
    (((provider h).step i s).state.keys r).fipsRequired =
      (noteFips g ⟨s, i, (provider h).step i s⟩).ofKey r := by
  obtain ⟨call, env⟩ := i
  have hnew : ∀ b, Function.update g.ofKey s.nextKey b r = g.ofKey r :=
    fun b => Function.update_of_ne (Nat.ne_of_lt hr) ..
  have hkept : ((Sys.step h env call s).state.keys r).fipsRequired =
      (s.keys r).fipsRequired →
      ((Sys.step h env call s).state.keys r).fipsRequired = g.ofKey r :=
    fun hk => hk.trans (ht.key r hr)
  have hstep := key_step h env s call r
  show ((Sys.step h env call s).state.keys r).fipsRequired = _
  unfold noteFips
  cases call with
  | storeSetCtxParams st params =>
      cases params with
      | none =>
          generalize (Sys.step h env (.storeSetCtxParams st none) s).state.keys r = k
            at hstep hkept
          cases hstep with
          | kept hsk => exact hkept hsk.fips
      | some ps =>
          cases hst : s.stores st with
          | none =>
              simp only [Sys.step, Sys.onStore, hst] at hkept ⊢
              exact hkept trivial
          | some ctx =>
              have hbit := storeSetCtxParams_step h env ps hst r
              simp only [hst]
              show ((Sys.step h env (.storeSetCtxParams st (some ps)) s).state.keys
                r).fipsRequired = (if (Sys.step h env
                  (.storeSetCtxParams st (some ps)) s).ok &&
                    storeRequestsFips env ps then _ else g).ofKey r
              rw [hbit, ht.key r hr]
              split
              · by_cases hrk : r = ctx.key
                · subst hrk
                  simp only [Function.update_self, if_pos]
                · simp only [Function.update_of_ne hrk, if_neg hrk]
              · rfl
  | storeOpen uri =>
      simp only [hnew]
      generalize (Sys.step h env (.storeOpen uri) s).state.keys r = k at hstep hkept
      cases hstep with
      | kept hsk => exact hkept hsk.fips
      | opened => exact absurd hr (Nat.lt_irrefl _)
  | keymgmtDup r0 selection =>
      simp only [hnew]
      generalize (Sys.step h env (.keymgmtDup r0 selection) s).state.keys r = k
        at hstep hkept
      cases hstep with
      | kept hsk => exact hkept hsk.fips
      | copied => exact absurd hr (Nat.lt_irrefl _)
  | storeLoad st cb =>
      generalize (Sys.step h env (.storeLoad st cb) s).state.keys r = k at hstep hkept
      cases hstep with
      | kept hsk => exact hkept hsk.fips
      | viewed _ _ _ hsk => exact hkept hsk.fips
  | _ =>
      generalize (Sys.step h env _ s).state.keys r = k at hstep hkept
      cases hstep with
      | kept hsk => exact hkept hsk.fips

theorem told_step {s : Sys Alg Key} {i : Input Alg Key} {g : FipsAsked}
    (hs : Sound s) (ha : i.call.Allowed s) (ht : Told s g) :
    Told ((provider h).step i s).state
      (noteFips g ⟨s, i, (provider h).step i s⟩) where
  key := by
    intro r hr
    rcases made_step h i.env s i.call with hnext | ⟨hnext, _, hmade⟩
    · exact told_old ht (Nat.lt_of_lt_of_eq hr hnext)
    · rcases Nat.lt_succ_iff_lt_or_eq.mp (Nat.lt_of_lt_of_eq hr hnext)
        with hold | rfl
      · exact told_old ht hold
      · -- the key that was made
        obtain ⟨call, env⟩ := i
        show ((Sys.step h env call s).state.keys s.nextKey).fipsRequired = _
        generalize (Sys.step h env call s).state.keys s.nextKey = k at hmade
        unfold noteFips
        cases hmade with
        | opened hok =>
            simp only [Function.update_self]
            exact awskmsStoreOpen_fips
        | copied hdup =>
            simp only [Function.update_self]
            rw [(awskmsKeymgmtDup_fresh hdup).fips]
            exact ht.key _ (hs.handle _ ha).made
  ctx := by
    intro c table ctx hc
    obtain ⟨call, env⟩ := i
    have hother : ∀ b, s.ctxs c = some (table, ctx) →
        Function.update g.ofCtx s.nextCtx b c = g.ofCtx c := fun b hold =>
      Function.update_of_ne (Nat.ne_of_lt (hs.ctx c table ctx hold)) ..
    unfold noteFips
    cases ctx_step hc with
    | kept hold hoff =>
        have hbit := ht.ctx c table ctx hold
        cases call with
        | sigNewctx t propq => simp only [hother _ hold, hbit]
        | sigDupctx c0 => simp only [hother _ hold, hbit]
        | storeSetCtxParams st params =>
            cases params with
            | none => exact hbit
            | some ps =>
                simp only []
                split
                · exact hbit
                · split
                  · exact hbit
                  · exact hbit
        | _ => exact hbit
    | new =>
        simp only [Function.update_self]
        rfl
    | @copied _ _ old hold =>
        simp only [Function.update_self]
        exact ht.ctx _ _ old hold
    | called hold _ =>
        simp only []
        rw [sigCall_fipsRequired]
        exact ht.ctx _ _ _ hold

/-- In every reachable state the bits are what was asked. -/
theorem told_run {evs : List (Rec (Sys Alg Key) (Input Alg Key) Event)}
    {s : Sys Alg Key} (hr : (provider h).Run evs s) :
    Told s (fipsAsked evs) := by
  have hstart : Sound (provider h).start ∧ Told (provider h).start
      FipsAsked.nothing := by
    refine ⟨sound_empty, fun r hr => absurd hr (Nat.not_lt_zero r),
      fun c table ctx hc => ?_⟩
    simp only [provider, Sys.empty] at hc
    cases hc
  exact (Machine.Run.invHist (I := fun s g => Sound s ∧ Told s g) hstart
    (fun s i g hg ha => ⟨sound_step hg.1 ha, told_step hg.1 ha hg.2⟩) hr).2

/-- What was asked for an operation is what its two bits require. -/
theorem Told.requires {s : Sys Alg Key} {g : FipsAsked} (ht : Told s g)
    (hs : Sound s) {c : CtxRef} {table : SigTable} {ctx : AwskmsSigCtx Alg Key}
    (hc : s.ctxs c = some (table, ctx)) :
    g.Requires c ctx ↔ operationRequiresFips s.keys ctx = true := by
  unfold FipsAsked.Requires operationRequiresFips
  rw [← ht.ctx c table ctx hc, Bool.or_eq_true]
  refine or_congr Iff.rfl ?_
  cases hk : ctx.key with
  | none => simp
  | some r =>
      have hbit := ht.key r (hs.bound c table ctx r hc hk).made
      simp [hbit]

/-! ## The steps a requirement survives

A requirement that comes with a key may find a digest selected and a hash
running that were there before it. Whether they are replaced depends on the
kind of init and on what it brings; the conditions here say when. -/

/-- A digest name an operation can select, fetched under its own query. -/
def selects (h : Host Alg Key) (env : Env Alg Key) (keys : Keys Key)
    (x : AwskmsSigCtx Alg Key) (name : Bytes) : Bool :=
  name == [] ||
    (env.mdFetch name (operationPropq keys x)).any fun alg => !h.mdXof alg

/-- An init with the key bound selects a digest of its own: the one among its
parameters, which comes first, or the one it names besides them, once they
are all taken. -/
def renewsDigest (h : Host Alg Key) (env : Env Alg Key) (keys : Keys Key)
    (sc : SigCall) (x : AwskmsSigCtx Alg Key) : Bool :=
  if (sc.param ossl_SIGNATURE_PARAM_DIGEST).isSome then
    sc.digestParam.any (selects h env keys x)
  else sc.mdname.any (selects h env keys x) &&
    (awskmsSigSetCtxParams h env keys sc.params x).ok

/-- An init with the key bound gets as far as a new hash, and has a digest to
hash with. -/
def restartsHash (h : Host Alg Key) (env : Env Alg Key) (keys : Keys Key)
    (sc : SigCall) (x : AwskmsSigCtx Alg Key) : Bool :=
  sc.isDigestInit && (awskmsSigSetCtxParams h env keys sc.params x).ok &&
    sc.mdname.all (selects h env keys x) &&
    (sc.mdname.isSome || sc.digestParam.elim x.md.isSome fun name => name != [])

/-- A key with the requirement, brought into a context without it, finds there
no digest and no hash from elsewhere, or the call puts its own in their
place. -/
def BringsFips (h : Host Alg Key) (env : Env Alg Key) (keys : Keys Key)
    (sc : SigCall) (ctx : AwskmsSigCtx Alg Key) (r : KeyRef) : Prop :=
  let x := { ctx with key := some r, fipsPub := AwskmsPubkey.zero }
  (ctx.MdFips ∨ renewsDigest h env keys sc x = true) ∧
    (ctx.HashFips ∨ restartsHash h env keys sc x = true)

/-- Whether the parameter in front of the query can be read. -/
def expectReadable (ps : List OsslParam) : Bool :=
  (locate ps ossl_STORE_PARAM_EXPECT).all fun p => (paramInt p).isSome

/-- A query for FIPS comes before the key is loaded, or the key has the bit
already. -/
def QueryInTime (env : Env Alg Key) (s : Sys Alg Key) (st : StoreRef)
    (ps : List OsslParam) : Prop :=
  ∀ ctx ∈ s.stores st, expectReadable ps = true →
    storeRequestsFips env ps = true →
    (s.keys ctx.key).pub.spec = none ∨ (s.keys ctx.key).fipsRequired = true

/-- An init brings no key past a digest from elsewhere. -/
def InitBrings (h : Host Alg Key) (env : Env Alg Key) (s : Sys Alg Key)
    (c : CtxRef) (sc : SigCall) : Prop :=
  ∀ entry ∈ s.ctxs c, ∀ r ∈ sc.provkey, entry.1.offers sc = true →
    env.ok .keyUpRef = true → entry.2.fipsRequired = false →
    (s.keys r).fipsRequired = true → BringsFips h env s.keys sc entry.2 r

/-- A call that leaves nothing with less than the requirement it has. -/
def Call.KeepsFips (h : Host Alg Key) (env : Env Alg Key) (s : Sys Alg Key) :
    Call → Prop
  | .storeSetCtxParams st params => ∀ ps ∈ params, QueryInTime env s st ps
  | .sig c sc => InitBrings h env s c sc
  | _ => True

def KeepsFips (h : Host Alg Key)
    (e : Rec (Sys Alg Key) (Input Alg Key) Event) : Prop :=
  e.input.call.KeepsFips h e.input.env e.pre

instance (sc : SigCall) (ctx : AwskmsSigCtx Alg Key) (r : KeyRef) :
    Decidable (BringsFips h env keys sc ctx r) :=
  inferInstanceAs (Decidable ((_ ∨ _) ∧ (_ ∨ _)))

instance (s : Sys Alg Key) (st : StoreRef) (ps : List OsslParam) :
    Decidable (QueryInTime env s st ps) := by
  unfold QueryInTime
  infer_instance

instance (s : Sys Alg Key) (c : CtxRef) (sc : SigCall) :
    Decidable (InitBrings h env s c sc) := by
  unfold InitBrings
  infer_instance

instance (s : Sys Alg Key) : (call : Call) → Decidable (call.KeepsFips h env s)
  | .storeSetCtxParams st params =>
      inferInstanceAs (Decidable (∀ ps ∈ params, QueryInTime env s st ps))
  | .sig c sc => inferInstanceAs (Decidable (InitBrings h env s c sc))
  | .storeOpen _ | .storeLoad .. | .storeEof _ | .storeClose _ | .keymgmtFree _
  | .keymgmtDup .. | .sigNewctx .. | .sigFreectx _ | .sigDupctx _ => .isTrue trivial

instance (e : Rec (Sys Alg Key) (Input Alg Key) Event) :
    Decidable (KeepsFips h e) :=
  inferInstanceAs (Decidable (e.input.call.KeepsFips h e.input.env e.pre))

/-- Nothing but a key makes a context hold a digest from elsewhere. -/
theorem mdFips_write {sc : SigCall} {x y : AwskmsSigCtx Alg Key}
    (hx : operationRequiresFips keys x = true)
    (hw : Write h env keys sc x y) (hmd : x.MdFips) : y.MdFips := by
  cases hw with
  | clearDigest _ =>
      intro md hm
      cases hm
  | selectDigest _ _ _ _ =>
      intro md hm
      obtain rfl := Option.some.inj hm
      show awskmsDependencyPropq _ = _
      rw [hx]
      rfl
  | _ => exact hmd

theorem hashFips_write {sc : SigCall} {x y : AwskmsSigCtx Alg Key}
    (hw : Write h env keys sc x y) (hmd : x.MdFips) (hhash : x.HashFips) :
    y.HashFips := by
  have hsame : ∀ {m m' : EvpMdCtx Alg}, x.mdctx = some m → m'.md? = m.md? →
      ∀ md ∈ (some m').bind EvpMdCtx.md?, md.Fips := by
    intro m m' hm hmm md hmem
    refine hhash md ?_
    rw [hm]
    show md ∈ m.md?
    rw [← hmm]
    exact hmem
  cases hw with
  | loseHash _ hm =>
      rcases hm with rfl | rfl
      · intro md hmem
        cases hmem
      · intro md hmem
        cases hmem
  | startHash _ hx =>
      intro md hmem
      obtain rfl := Option.some.inj hmem
      exact hmd _ hx
  | feed _ hm => exact hsame hm rfl
  | finish _ hm => exact hsame hm rfl
  | _ => exact hhash

/-- The digests of a context are FIPS digests, if the operation requires it. -/
def DigestsFips (keys : Keys Key) (ctx : AwskmsSigCtx Alg Key) : Prop :=
  operationRequiresFips keys ctx = true → ctx.MdFips ∧ ctx.HashFips

theorem digestsFips_write {sc : SigCall} (hsc : sc.provkey = none)
    {x y : AwskmsSigCtx Alg Key} (hw : Write h env keys sc x y)
    (hx : DigestsFips keys x) : DigestsFips keys y := by
  intro hy
  rw [requires_write hsc hw] at hy
  obtain ⟨hmd, hhash⟩ := hx hy
  exact ⟨mdFips_write hy hw hmd, hashFips_write hw hmd hhash⟩

/-! ## Digests an init brings

The digest after an init is the one it was given, or the default of the key,
or the one that was there. The first two are fetched under the requirement of
the new key, and it is for the third that the init has to bring one of the
others. -/

section

variable {x : AwskmsSigCtx Alg Key}

theorem setDigest_requires (name : Bytes) (x : AwskmsSigCtx Alg Key) :
    operationRequiresFips keys (setDigest h env keys name x).state =
      operationRequiresFips keys x := by
  unfold setDigest
  split
  · rfl
  · simp only []
    split
    · rfl
    · split
      · rfl
      · rfl

/-- A name that can be selected is, and one that cannot changes nothing. -/
theorem setDigest_cases (hx : operationRequiresFips keys x = true) (name : Bytes) :
    (selects h env keys x name = true ∧ (setDigest h env keys name x).ok = true ∧
      (setDigest h env keys name x).state.MdFips ∧
      (name ≠ [] → (setDigest h env keys name x).state.md.isSome)) ∨
    (selects h env keys x name = false ∧ (setDigest h env keys name x).ok = false ∧
      (setDigest h env keys name x).state = x) := by
  have hpropq : operationPropq keys x = awskms_EXCLUDE_SELF_FIPS := by
    rw [operationPropq, hx]
    rfl
  by_cases hn : name = []
  · refine .inl ⟨by simp [selects, hn], ?_⟩
    rw [setDigest, if_pos hn]
    refine ⟨rfl, fun md hm => ?_, fun hne => absurd hn hne⟩
    cases hm
  · have hsel : selects h env keys x name =
        (env.mdFetch name (operationPropq keys x)).any fun alg => !h.mdXof alg := by
      simp [selects, hn]
    rw [hsel, setDigest, if_neg hn]
    change _ ∧ _ ∨ _
    simp only [operationPropq]
    cases hf : env.mdFetch name (awskmsDependencyPropq (operationRequiresFips keys x)) with
    | none => exact .inr ⟨rfl, rfl, rfl⟩
    | some alg =>
        cases hxof : h.mdXof alg with
        | true => exact .inr ⟨by simp [hxof], by simp [hxof], by simp [hxof]⟩
        | false =>
            refine .inl ⟨by simp [hxof], by simp [hxof], fun md hm => ?_, fun _ => ?_⟩
            · simp only [hxof, Bool.false_eq_true, if_false] at hm
              obtain rfl := Option.some.inj hm
              exact hpropq
            · simp [hxof]

/-- What an init does with its parameters keeps a FIPS digest, or selects
one. -/
theorem setCtxParams_md {sc : SigCall} (hx : operationRequiresFips keys x = true)
    (hmd : x.MdFips ∨ sc.digestParam.any (selects h env keys x) = true) :
    (awskmsSigSetCtxParams h env keys sc.params x).state.MdFips := by
  have hkeep : ∀ ps, ∀ a ∈ settings h env keys ps, ∀ y,
      operationRequiresFips keys y = true ∧ y.MdFips →
      operationRequiresFips keys (a y).state = true ∧ (a y).state.MdFips := by
    intro ps a ha y hy
    refine (settings_writes
      (rfl : (SigCall.setCtxParams (some ps)).params = some ps) a ha).keeps
      (P := fun y => operationRequiresFips keys y = true ∧ y.MdFips) ?_ hy
    intro y z hw hy
    exact ⟨(requires_write rfl hw).trans hy.1, mdFips_write hy.1 hw hy.2⟩
  cases hps : sc.params with
  | none =>
      rcases hmd with hmd | hmd
      · exact hmd
      · have hnone : sc.digestParam = none := by
          simp [SigCall.digestParam, SigCall.param, hps]
        rw [hnone] at hmd
        cases hmd
  | some ps =>
      rcases hmd with hmd | hmd
      · exact (Act.all_inv (hkeep ps) ⟨hx, hmd⟩).2
      · obtain ⟨name, hname, hsel⟩ := (Option.any_eq_true _ _).mp hmd
        obtain ⟨p, hp, hn⟩ := Option.bind_eq_some_iff.mp hname
        rw [SigCall.param_eq hps] at hp
        have hfirst : onParam ps ossl_SIGNATURE_PARAM_DIGEST
            (applyDigest h env keys) x = setDigest h env keys name x := by
          simp only [onParam, hp, applyDigest, hn]
        obtain ⟨_, hok, hfips, _⟩ := (setDigest_cases hx name).resolve_right
          fun hno => by rw [hsel] at hno; cases hno.1
        have hreq : operationRequiresFips keys (setDigest h env keys name x).state =
            true := (setDigest_requires name x).trans hx
        show (Act.all (onParam ps ossl_SIGNATURE_PARAM_DIGEST
          (applyDigest h env keys) :: (settings h env keys ps).tail) x).state.MdFips
        rw [← hfirst] at hok hfips hreq
        rw [Act.all_cons_state hok]
        exact (Act.all_inv (fun a ha => hkeep ps a (List.mem_of_mem_tail ha))
          ⟨hreq, hfips⟩).2

variable (h env keys) in
theorem setCtxParams_requires (params : Option (List OsslParam))
    (x : AwskmsSigCtx Alg Key) :
    operationRequiresFips keys (awskmsSigSetCtxParams h env keys params x).state =
      operationRequiresFips keys x :=
  setCtxParams_keeps
    (P := fun y => operationRequiresFips keys y = operationRequiresFips keys x)
    (rfl : (SigCall.setCtxParams params).params = params)
    (fun _ _ hw hy => (requires_write rfl hw).trans hy) rfl

variable (h env keys) in
/-- Parameters do not reach the hash. -/
theorem setCtxParams_mdctx (params : Option (List OsslParam))
    (x : AwskmsSigCtx Alg Key) :
    (awskmsSigSetCtxParams h env keys params x).state.mdctx = x.mdctx := by
  refine setCtxParams_keeps (P := fun y => y.mdctx = x.mdctx)
    (rfl : (SigCall.setCtxParams params).params = params) ?_ rfl
  intro y z hw hy
  cases hw with
  | bind hr _ | bindView hr _ _ => cases hr
  | loseHash hinit _ | startHash hinit _ => cases hinit
  | feed hsc _ => rcases hsc with hsc | hsc <;> cases hsc
  | finish hsc _ => rcases hsc with ⟨_, hsc⟩ | ⟨_, hsc⟩ <;> cases hsc
  | _ => exact hy

/-- What the parameters make of the selected digest. -/
theorem setCtxParams_ok_md {sc : SigCall}
    (hok : (awskmsSigSetCtxParams h env keys sc.params x).ok = true) :
    (awskmsSigSetCtxParams h env keys sc.params x).state.md =
      (digestWrite h env keys sc.digestParam x).md := by
  have heq : awskmsSigSetCtxParams h env keys sc.params =
      Act.all ((paramSteps h env keys sc).map (·.1)) := by
    unfold paramSteps
    cases sc.params with
    | none => rfl
    | some ps => rfl
  rw [heq] at hok ⊢
  rcases Act.all_writes _ paramSteps_write x with ⟨_, hst⟩ | ⟨hf, _⟩
  · rw [hst]
    unfold paramSteps
    cases hps : sc.params with
    | none =>
        have hnone : sc.digestParam = none := by
          simp [SigCall.digestParam, SigCall.param, hps]
        rw [hnone]
        rfl
    | some ps =>
        have hctx : ∀ data (y : AwskmsSigCtx Alg Key),
            (contextWrite data y).md = y.md := by
          intro data y
          unfold contextWrite
          split
          · rfl
          · split
            · rfl
            · rfl
        have hinst : ∀ name (y : AwskmsSigCtx Alg Key),
            (instanceWrite name y).md = y.md := by
          intro name y
          unfold instanceWrite
          split
          · rfl
          · rfl
        simp only [Act.writeAll, List.foldl_cons, List.foldl_nil, id_eq, hinst, hctx,
          saltlenWrite, padModeWrite]
  · rw [hf] at hok
    cases hok

theorem afterBind_eq {sc : SigCall} (hsc : sc.isInit = true) :
    Act.all (sc.afterBind h env keys) =
      (awskmsSigSetCtxParams h env keys sc.params).andThen
        (Act.all ((endSteps h env keys sc).map (·.1))) := by
  cases sc with
  | signInit provkey params | verifyInit provkey params
  | digestSignInit mdname provkey params
  | digestVerifyInit mdname provkey params
  | oneshotInit mdname provkey params => rfl
  | _ => cases hsc

variable (h env keys) in
/-- The digest name beside the parameters selects that digest, or there is none
and nothing happens. -/
theorem applyMdname_cases {sc : SigCall} {mdname : Option Bytes}
    (hsc : ∃ provkey params, sc = .digestSignInit mdname provkey params ∨
      sc = .digestVerifyInit mdname provkey params) :
    sc.mdname = none ∧ applyMdname h env keys mdname = Act.done ∨
      ∃ name, name ≠ [] ∧ sc.mdname = some name ∧
        applyMdname h env keys mdname = setDigest h env keys name := by
  obtain ⟨provkey, params, rfl | rfl⟩ := hsc
  all_goals
    cases mdname with
    | none => exact .inl ⟨rfl, rfl⟩
    | some name =>
        cases name with
        | nil => exact .inl ⟨rfl, rfl⟩
        | cons c name => exact .inr ⟨c :: name, List.cons_ne_nil _ _, rfl, rfl⟩

/-- After the parameters, a digest init that is under FIPS keeps a FIPS digest or
takes the one it names, and hashes with what it has then. -/
theorem digestEnd_digests {sc : SigCall} {mdname : Option Bytes}
    (hsc : ∃ provkey params, sc = .digestSignInit mdname provkey params ∨
      sc = .digestVerifyInit mdname provkey params)
    {y : AwskmsSigCtx Alg Key} (hy : operationRequiresFips keys y = true)
    (hmd : y.MdFips ∨ sc.mdname.any (selects h env keys y) = true)
    (hhash : y.HashFips ∨ sc.mdname.all (selects h env keys y) = true ∧
      (sc.mdname.isSome || y.md.isSome) = true) :
    let z := (Act.all [applyMdname h env keys mdname, restartHash env keys] y).state
    z.MdFips ∧ z.HashFips := by
  have hrestart : ∀ z : AwskmsSigCtx Alg Key, z.MdFips →
      z.HashFips ∨ z.md.isSome = true →
      (restartHash env keys z).state.MdFips ∧
        (restartHash env keys z).state.HashFips := by
    intro z hmd hhash
    unfold restartHash
    cases hz : z.md with
    | none =>
        rw [hz] at hhash
        exact ⟨hmd, hhash.resolve_right Bool.false_ne_true⟩
    | some md =>
        have hnone : ∀ md ∈ (none : Option (EvpMdCtx Alg)).bind EvpMdCtx.md?,
            md.Fips := by
          intro md hmem
          cases hmem
        simp only []
        split
        · exact ⟨hz ▸ hmd, hnone⟩
        · split
          · exact ⟨hz ▸ hmd, hnone⟩
          · refine ⟨hz ▸ hmd, fun md' hmem => ?_⟩
            obtain rfl := Option.some.inj hmem
            exact hmd _ hz
  intro z
  have hz : z = (Act.andThen (applyMdname h env keys mdname)
    (restartHash env keys) y).state := by
    simp only [z, Act.all_pair]
  rcases applyMdname_cases h env keys hsc with ⟨hnone, heq⟩ | ⟨name, hne, hsome, heq⟩
  · rw [hnone] at hmd hhash
    have hz' : z = (restartHash env keys y).state := by
      rw [hz, heq, Act.andThen_of_ok rfl, Act.done_apply]
    rw [hz']
    refine hrestart y (hmd.resolve_right Bool.false_ne_true)
      (hhash.imp_right fun hh => ?_)
    simpa using hh.2
  · rw [hsome] at hmd hhash
    rw [heq] at hz
    rcases setDigest_cases hy name with ⟨_, hok, hfips, hmdSome⟩ | ⟨hsel, hok, hst⟩
    · rw [Act.andThen_of_ok hok] at hz
      rw [hz]
      exact hrestart _ hfips (.inr (hmdSome hne))
    · rw [Act.andThen_of_failed hok, hst] at hz
      rw [hz]
      refine ⟨hmd.resolve_right fun hh => ?_, hhash.resolve_right fun hh => ?_⟩
      · rw [Option.any_some, hsel] at hh
        cases hh
      · rw [Option.all_some, hsel] at hh
        cases hh.1

variable (h env) in
theorem selects_congr {y : AwskmsSigCtx Alg Key}
    (hy : operationRequiresFips keys y = operationRequiresFips keys x) :
    selects h env keys y = selects h env keys x := by
  funext name
  simp only [selects, operationPropq, hy]

/-- An init whose parameters were taken has a digest in hand, if it names one
beside them or they leave one. -/
theorem digest_in_hand {sc : SigCall}
    (hok : (awskmsSigSetCtxParams h env keys sc.params x).ok = true)
    (hhand : (sc.mdname.isSome ||
      sc.digestParam.elim x.md.isSome fun name => name != []) = true) :
    (sc.mdname.isSome ||
      (awskmsSigSetCtxParams h env keys sc.params x).state.md.isSome) = true := by
  rw [Bool.or_eq_true] at hhand ⊢
  refine hhand.imp_right fun hhand => ?_
  rw [setCtxParams_ok_md hok]
  cases hp : sc.digestParam with
  | none =>
      rw [hp] at hhand
      exact hhand
  | some name =>
      rw [hp] at hhand
      have hne : name ≠ [] := by simpa using hhand
      obtain ⟨alg, hf, _⟩ := digestParam_fetched (y := x) rfl rfl hok hp hne
      simp only [digestWrite, if_neg hne, hf, Option.isSome_some]

/-- An init that brings a requirement has none but FIPS digests when it is
through, or when it gives up. -/
theorem afterBind_digests {sc : SigCall} (hsc : sc.isInit = true)
    (hx : operationRequiresFips keys x = true)
    (hmd : x.MdFips ∨ renewsDigest h env keys sc x = true)
    (hhash : x.HashFips ∨ restartsHash h env keys sc x = true) :
    let z := (Act.all (sc.afterBind h env keys) x).state
    z.MdFips ∧ z.HashFips := by
  intro z
  have hz : z = ((awskmsSigSetCtxParams h env keys sc.params).andThen
      (Act.all ((endSteps h env keys sc).map (·.1))) x).state := by
    simp only [z, afterBind_eq hsc]
  have hreq := setCtxParams_requires h env keys sc.params x
  have hmdctx := setCtxParams_mdctx h env keys sc.params x
  have hsel := selects_congr h env hreq
  have hmd' : (awskmsSigSetCtxParams h env keys sc.params x).state.MdFips ∨
      (awskmsSigSetCtxParams h env keys sc.params x).ok = true ∧
      sc.mdname.any (selects h env keys x) = true := by
    rcases hmd with hmd | hmd
    · exact .inl (setCtxParams_md hx (.inl hmd))
    · unfold renewsDigest at hmd
      split at hmd
      · exact .inl (setCtxParams_md hx (.inr hmd))
      · exact .inr (Bool.and_eq_true_iff.mp hmd).symm
  have hhash' : (awskmsSigSetCtxParams h env keys sc.params x).state.HashFips ∨
      sc.isDigestInit = true ∧
      (awskmsSigSetCtxParams h env keys sc.params x).ok = true ∧
      sc.mdname.all (selects h env keys x) = true ∧ (sc.mdname.isSome ||
        (awskmsSigSetCtxParams h env keys sc.params x).state.md.isSome) = true := by
    rcases hhash with hhash | hhash
    · refine .inl ?_
      unfold AwskmsSigCtx.HashFips
      rw [hmdctx]
      exact hhash
    · simp only [restartsHash, Bool.and_eq_true] at hhash
      obtain ⟨⟨⟨hinit, hok⟩, hall⟩, hhand⟩ := hhash
      exact .inr ⟨hinit, hok, hall, digest_in_hand hok hhand⟩
  rw [← hsel] at hmd' hhash'
  rw [hx] at hreq
  cases hok : (awskmsSigSetCtxParams h env keys sc.params x).ok with
  | false =>
      rw [hz, Act.andThen_of_failed hok]
      rw [hok] at hmd' hhash'
      exact ⟨hmd'.resolve_right fun hh => Bool.false_ne_true hh.1,
        hhash'.resolve_right fun hh => Bool.false_ne_true hh.2.1⟩
  | true =>
      rw [hz, Act.andThen_of_ok hok]
      generalize (awskmsSigSetCtxParams h env keys sc.params x).state = y
        at hreq hmd' hhash' ⊢
      cases sc with
      | digestSignInit mdname provkey params =>
          exact digestEnd_digests ⟨_, _, .inl rfl⟩ hreq (hmd'.imp_right (·.2))
            (hhash'.imp_right (·.2.2))
      | digestVerifyInit mdname provkey params =>
          exact digestEnd_digests ⟨_, _, .inr rfl⟩ hreq (hmd'.imp_right (·.2))
            (hhash'.imp_right (·.2.2))
      | signInit provkey params | verifyInit provkey params =>
          exact ⟨hmd'.resolve_right fun hh => Bool.false_ne_true hh.2,
            hhash'.resolve_right fun hh => Bool.false_ne_true hh.1⟩
      | oneshotInit mdname provkey params =>
          have hy : y.MdFips ∧ y.HashFips :=
            ⟨hmd'.resolve_right fun hh => Bool.false_ne_true hh.2,
              hhash'.resolve_right fun hh => Bool.false_ne_true hh.1⟩
          refine Act.all_inv (P := fun y : AwskmsSigCtx Alg Key =>
            y.MdFips ∧ y.HashFips) ?_ hy
          intro a ha t ht
          simp only [endSteps, List.map_cons, List.map_nil, List.mem_cons,
            List.not_mem_nil, or_false] at ha
          rcases ha with rfl | rfl
          · unfold refuseMdname
            split
            · exact ht
            · exact ht
            · exact ht
          · exact ht
      | _ => cases hsc

end

theorem afterBind_sameRequirement (sc : SigCall) (x : AwskmsSigCtx Alg Key) :
    operationRequiresFips keys (Act.all (sc.afterBind h env keys) x).state =
      operationRequiresFips keys x :=
  Act.all_inv (P := fun y =>
    operationRequiresFips keys y = operationRequiresFips keys x)
    (fun a ha y hy => afterBind_requires h env keys sc a ha _ y hy) rfl

/-- An init that gives a key to a context without the requirement. -/
theorem init_digests {sc : SigCall} (hinit : sc.isInit = true) {r : KeyRef}
    (hp : sc.provkey = some r) {ctx : AwskmsSigCtx Alg Key}
    (hfips : ctx.fipsRequired = false) (hd : DigestsFips keys ctx)
    (hbrings : env.ok .keyUpRef = true → (keys r).fipsRequired = true →
      BringsFips h env keys sc ctx r) :
    DigestsFips keys (sigCall h env keys sc ctx).state := by
  intro hreq
  rw [sigCall_init hinit, hp] at hreq ⊢
  cases hup : env.ok .keyUpRef with
  | false =>
      have hrefused : bindKey h env keys (some r) ctx = Act.refuse [] ctx := by
        simp only [bindKey, hup, if_true]
      have hok : (bindKey h env keys (some r) ctx).ok = false := by
        rw [hrefused]
        rfl
      rw [Act.andThen_of_failed hok, hrefused] at hreq ⊢
      exact hd hreq
  | true =>
      have hbound : bindKey h env keys (some r) ctx =
          ⟨true, { ctx with key := some r, fipsPub := AwskmsPubkey.zero },
            .keyUpRef r :: awskmsSigFreectx ctx⟩ := by
        simp only [bindKey, hup, hfips, Bool.true_eq_false, Bool.false_and,
          if_false, Bool.false_eq_true]
      have hok : (bindKey h env keys (some r) ctx).ok = true := by
        rw [hbound]
      rw [Act.andThen_of_ok hok, hbound] at hreq ⊢
      generalize hx : ({ ctx with key := some r, fipsPub := AwskmsPubkey.zero } :
        AwskmsSigCtx Alg Key) = x at hreq ⊢
      have hrx : operationRequiresFips keys x = true :=
        (afterBind_sameRequirement sc x).symm.trans hreq
      have hkey : (keys r).fipsRequired = true := by
        have hrx' := hrx
        rw [← hx, operationRequiresFips] at hrx'
        simpa [hfips] using hrx'
      obtain ⟨hmd, hhash⟩ := hbrings hup hkey
      rw [hx] at hmd hhash
      refine afterBind_digests hinit hrx (hmd.imp_left fun hm => ?_)
        (hhash.imp_left fun hm => ?_)
      · rw [← hx]
        exact hm
      · rw [← hx]
        exact hm

/-- The digests of a context after a call, when a key the call brings is one it
can bring. -/
theorem sigCall_digests {sc : SigCall} {ctx : AwskmsSigCtx Alg Key}
    (hd : DigestsFips keys ctx)
    (hbrings : ∀ r, sc.provkey = some r → env.ok .keyUpRef = true →
      ctx.fipsRequired = false → (keys r).fipsRequired = true →
      BringsFips h env keys sc ctx r) :
    DigestsFips keys (sigCall h env keys sc ctx).state := by
  cases hi : sc.isInit with
  | false => exact sigCall_keeps (fun _ _ hw hx =>
      digestsFips_write (provkey_of_not_init hi) hw hx) hd
  | true =>
      cases hp : sc.provkey with
      | none => exact sigCall_keeps (fun _ _ hw hx => digestsFips_write hp hw hx) hd
      | some r =>
          cases hfips : ctx.fipsRequired with
          | false => exact init_digests hi hp hfips hd fun hup hkey =>
              hbrings r hp hup hfips hkey
          | true =>
              -- whatever the key, the context has the requirement itself
              have hkeep : ∀ x y, Write h env keys sc x y →
                  x.fipsRequired = true ∧ x.MdFips ∧ x.HashFips →
                  y.fipsRequired = true ∧ y.MdFips ∧ y.HashFips := by
                rintro x y hw ⟨hx, hmd, hhash⟩
                have hrx : operationRequiresFips keys x = true := by
                  rw [operationRequiresFips, hx, Bool.true_or]
                refine ⟨?_, mdFips_write hrx hw hmd, hashFips_write hw hmd hhash⟩
                cases hw <;> exact hx
              have hctx : operationRequiresFips keys ctx = true := by
                rw [operationRequiresFips, hfips, Bool.true_or]
              exact fun _ => (sigCall_keeps hkeep ⟨hfips, hd hctx⟩).2

theorem fips_zero : (AwskmsPubkey.zero : AwskmsPubkey Key).Fips where
  pkey pkey hpkey := by cases hpkey
  tr tr htr := by cases htr

theorem Decoded.fips {der : Bytes} {spec : AwskmsKeyspec} {pk : Key}
    {pub : AwskmsPubkey Key} (hd : Decoded h env der spec true pk pub) :
    pub.Fips where
  pkey pkey hpkey := by
    rw [hd.pkey] at hpkey
    obtain rfl := Option.some.inj hpkey
    rfl
  tr tr htr := by
    rw [hd.tr] at htr
    split at htr
    · obtain rfl := Option.some.inj htr
      rfl
    · cases htr

theorem fips_parsed {der : Bytes} {name : String} {p : AwskmsPubkey Key}
    (htr : p.tr = none) :
    (awskmsPubkeyFromSpki h env der name true p).state.Fips := by
  cases hok : (awskmsPubkeyFromSpki h env der name true p).ok with
  | false =>
      rw [awskmsPubkeyFromSpki_failed hok]
      exact fips_zero
  | true =>
      obtain ⟨spec, pk, _, hdec⟩ := awskmsPubkeyFromSpki_ok htr hok
      exact hdec.fips

theorem fipsView_write {sc : SigCall} {x y : AwskmsSigCtx Alg Key}
    (hw : Write h env keys sc x y) (hx : x.fipsPub.Fips) : y.fipsPub.Fips := by
  cases hw with
  | bind => exact fips_zero
  | bindView _ _ hok =>
      obtain ⟨spec, pk, _, hdec⟩ := fipsView_ok hok
      exact hdec.fips
  | _ => exact hx

/-! ## One step

The policy is kept for every context and every key at once: a call touches one
context, and the key it binds carries its own requirement. What the other
contexts hold is left alone. -/

/-- What the requirement reaches in every state of such a run. -/
structure UnderPolicy (s : Sys Alg Key) : Prop where
  sound : Sound s
  key : ∀ r, (s.keys r).fipsRequired = true → (s.keys r).pub.Fips
  view : ∀ c table ctx, s.ctxs c = some (table, ctx) → ctx.fipsPub.Fips
  digests : ∀ c table ctx, s.ctxs c = some (table, ctx) →
    DigestsFips s.keys ctx

theorem applyExpect_readable {ps : List OsslParam} {st : StoreState Key}
    (hok : (applyExpect ps st).ok = true) : expectReadable ps = true := by
  unfold expectReadable
  cases hl : locate ps ossl_STORE_PARAM_EXPECT with
  | none => rfl
  | some p =>
      cases hn : paramInt p with
      | none =>
          simp only [applyExpect, hl, hn] at hok
          cases hok
      | some n => simp [hn]

variable (h env) in
/-- A query turns on the bit of a key that has no view, or of one that has the
bit. -/
theorem storeQuery_step {s : Sys Alg Key} {st : StoreRef} {ps : List OsslParam}
    {ctx : AwskmsStoreCtx} (hst : s.stores st = some ctx)
    (hkeep : KeepsFips h ⟨s, ⟨.storeSetCtxParams st (some ps), env⟩,
      (provider h).step ⟨.storeSetCtxParams st (some ps), env⟩ s⟩) :
    ((Sys.step h env (.storeSetCtxParams st (some ps)) s).state.keys
        ctx.key).fipsRequired = (s.keys ctx.key).fipsRequired ∨
      (s.keys ctx.key).pub.spec = none := by
  have hbit := storeSetCtxParams_step h env ps hst ctx.key
  simp only [] at hbit
  cases hok : ((Sys.step h env (.storeSetCtxParams st (some ps)) s).ok &&
      storeRequestsFips env ps) with
  | false =>
      rw [hok] at hbit
      exact .inl hbit
  | true =>
      simp only [hok, if_true] at hbit
      obtain ⟨htaken, hfips⟩ := Bool.and_eq_true_iff.mp hok
      have hexpect : expectReadable ps = true := by
        have hact : (awskmsStoreSetCtxParams env (some ps)
            ⟨ctx, s.keys ctx.key⟩).ok = true := by
          simpa only [Sys.step, Sys.onStore, hst] using htaken
        exact applyExpect_readable (Act.andThen_ok.mp hact).1
      rcases hkeep ps rfl ctx hst hexpect hfips with hnone | hhas
      · exact .inr hnone
      · exact .inl (hbit.trans hhas.symm)

/-- The bit of a live key stays. -/
theorem live_fips {s : Sys Alg Key} {i : Input Alg Key}
    (hkeep : KeepsFips h ⟨s, i, (provider h).step i s⟩) {r : KeyRef}
    (hr : Live s r) :
    (((provider h).step i s).state.keys r).fipsRequired =
      (s.keys r).fipsRequired := by
  obtain ⟨call, env⟩ := i
  show ((Sys.step h env call s).state.keys r).fipsRequired = _
  have hstep := key_step h env s call r
  generalize hk : (Sys.step h env call s).state.keys r = k at hstep
  cases hstep with
  | kept hsk => exact hsk.fips
  | opened | copied => exact absurd hr.made (Nat.lt_irrefl _)
  | fipsOn hst _ _ =>
      rcases storeQuery_step h env hst hkeep with hsame | hnone
      · rw [← hk]
        exact hsame
      · have hv := hr.viewed
        rw [hnone] at hv
        cases hv
  | viewed _ hnone _ _ =>
      have hv := hr.viewed
      rw [hnone] at hv
      cases hv

theorem policy_key {s : Sys Alg Key} {i : Input Alg Key} (hp : UnderPolicy s)
    (hkeep : KeepsFips h ⟨s, i, (provider h).step i s⟩) (r : KeyRef)
    (hfips : (((provider h).step i s).state.keys r).fipsRequired = true) :
    (((provider h).step i s).state.keys r).pub.Fips := by
  obtain ⟨call, env⟩ := i
  change ((Sys.step h env call s).state.keys r).fipsRequired = true at hfips
  show ((Sys.step h env call s).state.keys r).pub.Fips
  have hblank : ∀ r, (s.keys r).pub.spec = none → (s.keys r).pub.Fips := by
    intro r hnone
    rw [hp.sound.blank r hnone]
    exact fips_zero
  have hstep := key_step h env s call r
  generalize hk : (Sys.step h env call s).state.keys r = k at hstep hfips
  cases hstep with
  | kept hsk =>
      rw [hsk.pub]
      exact hp.key r (hsk.fips.symm.trans hfips)
  | opened _ hsk =>
      rw [hsk.pub, awskmsStoreOpen_pub]
      exact fips_zero
  | @copied r0 _ key _ hdup hsk =>
      have hfresh := awskmsKeymgmtDup_fresh hdup
      have hsrc : (s.keys r0).fipsRequired = true :=
        (hsk.fips.trans hfresh.fips).symm.trans hfips
      rw [hsk.pub]
      rcases hfresh.view with hv | hv | ⟨_, domain, hv⟩
      · rw [hv]
        exact hp.key r0 hsrc
      · rw [hv]
        refine ⟨fun _ hm => ?_, fun _ hm => ?_⟩
        · cases hm
        · cases hm
      · rw [hv, hsrc]
        refine ⟨fun pkey hm => ?_, fun _ hm => ?_⟩
        · obtain rfl := Option.some.inj hm
          rfl
        · cases hm
  | fipsOn hst _ hsk =>
      rw [hsk.pub]
      rcases storeQuery_step h env hst hkeep with hsame | hnone
      · rw [hk] at hsame
        exact hp.key _ (hsame.symm.trans hfips)
      · exact hblank _ hnone
  | viewed _ hnone _ hsk =>
      have hbit := hsk.fips.symm.trans hfips
      rw [hsk.pub]
      change (s.keys _).fipsRequired = true at hbit
      rw [hbit]
      refine fips_parsed ?_
      rw [hp.sound.blank _ hnone]
      rfl

/-- The views and the digests of the contexts a step leaves, for the bits it
found. -/
theorem policy_ctx {s : Sys Alg Key} {call : Call} (hp : UnderPolicy s)
    (hkeep : KeepsFips h ⟨s, ⟨call, env⟩, (provider h).step ⟨call, env⟩ s⟩)
    {c : CtxRef} {table : SigTable} {ctx : AwskmsSigCtx Alg Key}
    (hc : (Sys.step h env call s).state.ctxs c = some (table, ctx)) :
    ctx.fipsPub.Fips ∧ DigestsFips s.keys ctx := by
  cases ctx_step hc with
  | kept hold _ => exact ⟨hp.view c table ctx hold, hp.digests c table ctx hold⟩
  | new =>
      refine ⟨fips_zero, fun _ => ⟨fun _ hm => ?_, fun _ hm => ?_⟩⟩
      · cases hm
      · cases hm
  | @copied _ _ old hold =>
      refine ⟨?_, hp.digests _ table old hold⟩
      unfold AwskmsSigCtx.copy
      simp only []
      split
      · exact hp.view _ _ _ hold
      · exact fips_zero
  | called hold hoff =>
      refine ⟨sigCall_keeps (fun _ _ hw hx => fipsView_write hw hx)
        (hp.view _ _ _ hold), sigCall_digests (hp.digests _ _ _ hold) ?_⟩
      intro r hr hup hctx hkey
      exact hkeep _ hold r hr hoff hup hctx hkey

theorem policy_step {s : Sys Alg Key} {i : Input Alg Key} (hp : UnderPolicy s)
    (ha : i.call.Allowed s)
    (hkeep : KeepsFips h ⟨s, i, (provider h).step i s⟩) :
    UnderPolicy ((provider h).step i s).state where
  sound := sound_step hp.sound ha
  key := policy_key hp hkeep
  view c table ctx hc := (policy_ctx hp hkeep hc).1
  digests := by
    intro c table ctx hc hreq
    have hbits : operationRequiresFips ((provider h).step i s).state.keys ctx =
        operationRequiresFips s.keys ctx := by
      unfold operationRequiresFips
      cases hr : ctx.key with
      | none => rfl
      | some r =>
          simp only []
          rw [live_fips hkeep (sound_bound hp.sound ha hc hr)]
    rw [hbits] at hreq
    exact (policy_ctx hp hkeep hc).2 hreq

theorem policy_run {evs : List (Rec (Sys Alg Key) (Input Alg Key) Event)}
    {s : Sys Alg Key} (hr : (provider h).Run evs s)
    (hkeep : ∀ e ∈ evs, KeepsFips h e) : UnderPolicy s := by
  refine Machine.Run.invWhere (I := UnderPolicy) (C := KeepsFips h) ?_
    (fun _ _ hp ha hk => policy_step hp ha hk) hr hkeep
  refine ⟨sound_empty, fun r hfips => fips_zero, fun c table ctx hc => ?_,
    fun c table ctx hc => ?_⟩
  · simp only [provider, Sys.empty] at hc
    cases hc
  · simp only [provider, Sys.empty] at hc
    cases hc

/-- What an operation that requires FIPS works with. -/
theorem UnderPolicy.operation {s : Sys Alg Key} (hp : UnderPolicy s) {c : CtxRef}
    {table : SigTable} {ctx : AwskmsSigCtx Alg Key}
    (hc : s.ctxs c = some (table, ctx))
    (hreq : operationRequiresFips s.keys ctx = true) : UnderFips s.keys ctx where
  md := (hp.digests c table ctx hc hreq).1
  hash := (hp.digests c table ctx hc hreq).2
  view := by
    intro pub hpub
    unfold operationPubkey at hpub
    unfold operationRequiresFips at hreq
    cases hr : ctx.key with
    | none =>
        rw [hr] at hpub
        cases hpub
    | some r =>
        simp only [hr] at hpub hreq
        split at hpub
        · split at hpub
          · obtain rfl := Option.some.inj hpub
            exact hp.view c table ctx hc
          · cases hpub
        · next hno =>
            obtain rfl := Option.some.inj hpub
            refine hp.key r ?_
            cases hk : (s.keys r).fipsRequired with
            | true => rfl
            | false =>
                rw [hk, Bool.or_false] at hreq
                rw [hreq, hk] at hno
                exact absurd rfl hno

theorem OpEffect.fips {e : Event} (he : OpEffect true e) : e.Fips := by
  cases he with
  | fetchMd _ => rfl
  | verifyWith => rfl
  | kmsSign hreq => exact hreq
  | _ => trivial

theorem Event.Under.fips {e : Event} (he : e.Under awskms_EXCLUDE_SELF_FIPS) :
    e.Fips := by
  cases e with
  | fetchMd _ _ | decode _ | verifyWith _ => exact he
  | raise _ => trivial
  | _ => cases he

/-- Binding a key decodes under FIPS or not at all. -/
theorem bindKey_fips {provkey : Option KeyRef} {x : AwskmsSigCtx Alg Key}
    {e : Event} (he : e ∈ (bindKey h env keys provkey x).trace) : e.Fips := by
  have hfree : ∀ e ∈ awskmsSigFreectx x, e.Fips := by
    intro e he
    unfold awskmsSigFreectx at he
    split at he
    · cases he
    · rw [List.mem_singleton.mp he]
      trivial
  have hview : ∀ k : AwskmsKey Key, ∀ e ∈ (fipsView h env k).trace, e.Fips := by
    intro k e he
    unfold fipsView at he
    split at he
    · rw [List.mem_singleton.mp he]
      trivial
    · exact (awskmsPubkeyFromSpki_under he).fips
  cases provkey with
  | none => cases he
  | some r =>
      simp only [bindKey] at he
      split at he
      · cases he
      · split at he
        · split at he
          · rcases List.mem_append.mp he with he | he
            · rcases List.mem_cons.mp he with rfl | he
              · trivial
              · exact hview _ e he
            · exact hfree e he
          · rcases List.mem_append.mp he with he | he
            · rcases List.mem_cons.mp he with rfl | he
              · trivial
              · exact hview _ e he
            · rw [List.mem_singleton.mp he]
              trivial
        · rcases List.mem_cons.mp he with rfl | he
          · trivial
          · exact hfree e he

/-- What a call asks for under the requirement it leaves its operation with. -/
theorem sigCall_fips {sc : SigCall} {ctx : AwskmsSigCtx Alg Key}
    (hreq : operationRequiresFips keys (sigCall h env keys sc ctx).state = true)
    {e : Event} (he : e ∈ (sigCall h env keys sc ctx).trace) : e.Fips := by
  cases hi : sc.isInit with
  | false =>
      have hsame : operationRequiresFips keys (sigCall h env keys sc ctx).state =
          operationRequiresFips keys ctx :=
        sigCall_keeps (P := fun y => operationRequiresFips keys y =
          operationRequiresFips keys ctx)
          (fun _ _ hw hy => (requires_write (provkey_of_not_init hi) hw).trans hy) rfl
      have heff := sigCall_effects h env keys hi ctx e he
      rw [← hsame, hreq] at heff
      exact heff.fips
  | true =>
      rw [sigCall_init hi] at hreq he
      cases hok : (bindKey h env keys sc.provkey ctx).ok with
      | false =>
          rw [Act.andThen_of_failed hok] at he
          exact bindKey_fips he
      | true =>
          rw [Act.andThen_of_ok hok] at hreq he
          rcases List.mem_append.mp he with he | he
          · exact bindKey_fips he
          · have heff := afterBind_effects h env keys sc _ e he
            rw [← afterBind_sameRequirement, hreq] at heff
            exact heff.fips

/-! ## Every run

From the states to what was obtained on the way: every digest, view and
request of a call is traced to the context it was made for, which was under
the policy when the call came. -/

/-- References move no bit. -/
theorem requires_moved (keys : Keys Key) (trace : List Event)
    (ctx : AwskmsSigCtx Alg Key) :
    operationRequiresFips (applyRefs keys trace) ctx =
      operationRequiresFips keys ctx := by
  unfold operationRequiresFips
  cases ctx.key with
  | none => rfl
  | some r => simp only [(applyRefs_same keys trace r).fips]

theorem storeLoad_trace {s : Sys Alg Key} {st : StoreRef} {cb : ObjectCb}
    {ctx : AwskmsStoreCtx} (hst : s.stores st = some ctx) :
    (Sys.step h env (.storeLoad st cb) s).trace =
      (awskmsStoreLoad h env cb ⟨ctx, s.keys ctx.key⟩).trace := by
  simp only [Sys.step, Sys.onStore, hst]
  unfold Sys.handOut
  split
  · rfl
  · rfl

/-- In a run whose steps all keep FIPS, a requirement reaches everything, and a
key stays as it was handed out. -/
theorem fips_provenance
    {evs : List (Rec (Sys Alg Key) (Input Alg Key) Event)} {s : Sys Alg Key}
    (hr : (provider h).Run evs s) (hkeep : ∀ e ∈ evs, KeepsFips h e) :
    FipsProvenance evs where
  objects := by
    intro before e after hsplit c table ctx hc hreq
    subst hsplit
    have hthrough := hr.through
    have hpolicy : UnderPolicy e.out.state := policy_run hthrough fun e' he' =>
      hkeep e' (by
        rcases List.mem_append.mp he' with he' | he'
        · exact List.mem_append_left _ he'
        · rw [List.mem_singleton.mp he']
          simp)
    exact hpolicy.operation hc
      (((told_run hthrough).requires hpolicy.sound hc).mp hreq)
  effects := by
    intro before e after hsplit c sc table ctx hcall hc hreq ev hev
    subst hsplit
    have hthrough := hr.through
    have hreq' := ((told_run hthrough).requires (sound_run hthrough) hc).mp hreq
    obtain ⟨_, _, hout⟩ := hr.at_split
    simp only [provider, hcall] at hout
    by_cases hoff : ∃ t x, e.pre.ctxs c = some (t, x) ∧ t.offers sc = true
    · obtain ⟨t, x, hx, hoff⟩ := hoff
      rw [step_sig hx hoff] at hout
      rw [hout] at hev hc hreq'
      have hpost := hc
      simp only [Sys.moveRefs_ctxs, Sys.setCtx, Function.update_self] at hpost
      obtain ⟨rfl, rfl⟩ := Prod.mk.inj (Option.some.inj hpost)
      exact sigCall_fips ((requires_moved _ _ _).symm.trans hreq') hev
    · rw [step_sig_unoffered fun t x hx => by
        cases ho : t.offers sc with
        | false => rfl
        | true => exact absurd ⟨t, x, hx, ho⟩ hoff] at hout
      rw [hout] at hev
      cases hev
  loads := by
    intro before e after hsplit st cb ctx hcall hst hreq ev hev
    subst hsplit
    obtain ⟨hpre, _, hout⟩ := hr.at_split
    have hbit : (e.pre.keys ctx.key).fipsRequired = true := by
      rw [(told_run hpre).key _ ((sound_run hpre).store st ctx hst)]
      exact hreq
    rw [hout] at hev
    simp only [provider, hcall] at hev
    rw [storeLoad_trace hst] at hev
    have hunder : ∀ ev : Event, ev.Under (awskmsDependencyPropq
        (e.pre.keys ctx.key).fipsRequired) → ev.Fips := by
      intro ev hu
      rw [hbit] at hu
      exact hu.fips
    rcases awskmsStoreLoad_trace hev with hev | ⟨_, _, ⟨_, rfl⟩ | rfl⟩
    · rcases awskmsStoreLoadKey_trace hev with rfl | hu
      · exact hbit
      · exact hunder ev hu
    · trivial
    · trivial
  handedOut := by
    intro before e after hsplit st cb keytype r hcall hcb later hlater
    obtain ⟨mid, rest, rfl⟩ := List.append_of_mem hlater
    subst hsplit
    have hthrough := hr.through
    obtain ⟨hpre, _, hout⟩ := hr.at_split
    simp only [provider, hcall] at hout
    have hlive : Live e.out.state r := by
      cases hst : e.pre.stores st with
      | none =>
          rw [hout] at hcb
          simp only [Sys.step, Sys.onStore, hst] at hcb
          cases hcb
      | some ctx =>
          rw [hout] at hcb ⊢
          rw [storeLoad_trace hst] at hcb
          obtain ⟨rfl, hok, hkey⟩ := awskmsStoreLoad_handsOut hcb (.inl ⟨_, rfl⟩)
          exact handed_live (sound_run hpre) hst hok hkey
    have hlast : (provider h).Run (before ++ [e] ++ (mid ++ [later])) later.out.state := by
      have hr' : (provider h).Run (before ++ e :: mid ++ later :: rest) s := by
        simpa using hr
      simpa using hr'.through
    refine (Machine.Run.invFrom (C := KeepsFips h) (I := fun t => Live t r ∧
      SameKey (e.out.state.keys r) (t.keys r)) ?_ hthrough hlast ?_
      ⟨hlive, SameKey.refl _⟩).2
    · rintro _ t i _ ⟨ht, hsame⟩ _ hk
      obtain ⟨ht', huri, hpub⟩ := live_step h i.env i.call ht
      exact ⟨ht', hsame.trans ⟨huri, hpub, live_fips hk ht⟩⟩
    · intro e' he'
      refine hkeep e' ?_
      rcases List.mem_append.mp he' with he' | he'
      · simp [he']
      · rw [List.mem_singleton.mp he']
        simp

namespace Bench

/-- Opens another store on a key, under FIPS, and loads it. -/
def openingFips (keyId : String) (st : StoreRef) : List Call := [
  .storeOpen (some (ascii ("aws-kms:key-id=" ++ keyId))),
  .storeSetCtxParams st (some [strParam "properties" "fips=yes"]),
  .storeLoad st ⟨true, true⟩]

/-- A context hashes for a key that asks for nothing, and is then given one that
requires FIPS, with a digest of its own. -/
def rebound : List Call := opening "alias/rsa" .prehash ++ [
  onCtx (.digestSignInit (some (ascii "SHA256")) (some 0) none)] ++
  openingFips "alias/ec" 1 ++ [
  onCtx (.digestSignInit (some (ascii "SHA256")) (some 1) none)]

/-- The same without the digest. -/
def staleDigest : List Call := opening "alias/rsa" .prehash ++ [
  onCtx (.signInit (some 0) (some [strParam "digest" "SHA256"]))] ++
  openingFips "alias/ec" 1

def staleInit : Call := onCtx (.signInit (some 1) none)

end Bench

theorem fips_provenance_rebound : FipsProvenance (Bench.runOf Bench.rebound) :=
  fips_provenance (Bench.run_runOf (by decide +kernel))
    (h := Bench.host) (by decide +kernel)

/-- The digest fetched for the first key stays selected under the second. -/
theorem not_fips_provenance :
    ¬ ∀ evs s, (provider Bench.host).Run evs s → FipsProvenance evs := by
  intro hall
  have hrun := hall (Bench.runOf (Bench.staleDigest ++ [Bench.staleInit])) _
    (Bench.run_runOf (by decide +kernel))
  rw [Bench.runOf_snoc] at hrun
  have hpost : ((Bench.recOf Bench.staleDigest Bench.staleInit).out.state.ctxs 0).map
      (fun p => (p.1, p.2.key, p.2.md.map (·.propq))) =
        some (.prehash, some 1, some awskms_EXCLUDE_SELF) := by decide +kernel
  have hasked : (fipsAsked (Bench.runOf Bench.staleDigest ++
      [Bench.recOf Bench.staleDigest Bench.staleInit])).ofKey 1 = true := by
    decide +kernel
  obtain ⟨⟨table, ctx⟩, hctx, hpair⟩ := Option.map_eq_some_iff.mp hpost
  obtain ⟨_, hpair⟩ := Prod.mk.inj hpair
  obtain ⟨hkey, hmd⟩ := Prod.mk.inj hpair
  obtain ⟨md, hmd, hpropq⟩ := Option.map_eq_some_iff.mp hmd
  have hunder := hrun.objects _ _ [] rfl 0 table ctx hctx (.inr ⟨1, hkey, hasked⟩)
  have hfips : md.propq = awskms_EXCLUDE_SELF_FIPS := hunder.md md hmd
  rw [hpropq] at hfips
  revert hfips
  decide

end AwsKms.Model
