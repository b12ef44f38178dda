import AwsKms.Proofs.Demands
import AwsKms.Proofs.Raise
import AwsKms.Proofs.Stream
import AwsKms.Proofs.Verify
import AwsKms.Spec.KmsService

/-!
# What is signed verifies

A signature comes from KMS and is verified here, and the two sides are told of
one choice in two ways: KMS by the name of an algorithm, and for ML-DSA by a
message representative that is computed here; libcrypto by a digest, a padding,
a salt length and a context string. `signed_verifies` is that the two come to
the same. The one who signs and the one who verifies are contexts of two runs,
which may be two processes, or one and the same.

The two contexts need not have been told the same things, only the same of what
matters (`ToldAlike`); a stream may have come in other chunks.
-/

namespace AwsKms.Model

open AwsKms.Lib AwsKms.Spec

variable {Alg Key : Type} {h : Host Alg Key} {env : Env Alg Key}
  {keys : Keys Key} {known : AwskmsUri → Prop} {pair : AwskmsUri → KmsKey Key}

/-- The view of a key that was loaded is the public half of its pair. -/
structure PairView (h : Host Alg Key) (p : KmsKey Key) (spec : AwskmsKeyspec)
    (pub : AwskmsPubkey Key) : Prop where
  named : awskmsKeyspecByName p.keySpec = some spec
  der : pub.der = p.spki
  spec : pub.spec = some spec
  pkey : ∃ propq, pub.pkey = some ⟨p.key, propq⟩
  tr : ∀ tr ∈ pub.tr, ∃ raw, h.pkeyPub p.key = some raw ∧ tr.bytes = h.shake256 raw

theorem Decoded.pairView {p : KmsKey Key} {spec : AwskmsKeyspec} {fips : Bool} {pk : Key}
    {pub : AwskmsPubkey Key} (hd : Decoded h env p.spki spec fips pk pub)
    (hnamed : awskmsKeyspecByName p.keySpec = some spec) (hpk : pk = p.key) :
    PairView h p spec pub := by
  subst hpk
  refine ⟨hnamed, hd.derEq, hd.specEq, ⟨_, hd.pkey⟩, fun tr htr => ?_⟩
  have heq := hd.tr
  rw [Option.mem_def.mp htr] at heq
  split at heq
  · next hfamily =>
      obtain rfl := Option.some.inj heq
      exact ⟨pub.raw, (hd.raw (.inr hfamily)).1, rfl⟩
  · cases heq

/-- What is known of a key that was loaded: the answer that the service gave
for its URI, and the view that was decoded from it. -/
structure LoadedFrom (h : Host Alg Key) (E : Env Alg Key → Prop) (k : AwskmsKey Key)
    (env : Env Alg Key) (answer : AwskmsPublicKey) (spec : AwskmsKeyspec) (fips : Bool)
    (pk : Key) : Prop where
  within : E env
  answered : env.getPublicKey k.uri fips = .ok answer
  named : awskmsKeyspecByName answer.keySpec = some spec
  decoded : Decoded h env answer.spki spec fips pk k.pub

/-- A key with a view and a KMS reference was loaded. -/
theorem KeyKind.loadedFrom {E : Env Alg Key → Prop} {k : AwskmsKey Key}
    (hk : KeyKind h E k) (hpriv : hasPrivateKey k = true) (hviewed : k.pub.spec.isSome) :
    ∃ env answer spec fips pk, LoadedFrom h E k env answer spec fips pk := by
  have huri : k.uri ≠ AwskmsUri.zero := by
    intro hz
    rw [hasPrivateKey, hz] at hpriv
    cases hpriv
  cases hk with
  | blank hb =>
      rw [hb] at hviewed
      cases hviewed
  | loaded hE hans hspec hd => exact ⟨_, _, _, _, _, hE, hans, hspec, hd⟩
  | publicHalf hz => exact absurd hz huri
  | shell hz => exact absurd hz huri

/-- A key with a KMS reference that somebody holds shows the pair behind its
URI. -/
theorem Traced.pairView {s : Sys Alg Key} (hs : Traced h (Honest h known pair) s)
    {r : KeyRef} (hlive : Live s r) (hpriv : hasPrivateKey (s.keys r) = true)
    (hknown : known (s.keys r).uri) :
    ∃ spec, PairView h (pair (s.keys r).uri) spec (s.keys r).pub := by
  obtain ⟨env, answer, spec, fips, pk, hE, hans, hspec, hd⟩ :=
    (hs.kind r).loadedFrom hpriv hlive.viewed
  obtain ⟨hname, hspki⟩ := hE.serves _ _ _ hknown hans
  rw [hname] at hspec
  rw [hspki] at hd
  exact ⟨spec, hd.pairView hspec (hE.decodes _ _ _ _ hknown hd.answer)⟩

/-- Whatever view an operation works on, it is that of the pair. -/
theorem Traced.operation_pairView {s : Sys Alg Key}
    (hs : Traced h (Honest h known pair) s) {c : CtxRef} {table : SigTable}
    {ctx : AwskmsSigCtx Alg Key} (hc : s.ctxs c = some (table, ctx)) {r : KeyRef}
    (hkey : ctx.key = some r) (hpriv : hasPrivateKey (s.keys r) = true)
    (hknown : known (s.keys r).uri) {pub : AwskmsPubkey Key}
    (hpub : operationPubkey s.keys ctx = some pub) :
    ∃ spec, ctx.spec s.keys = spec ∧ PairView h (pair (s.keys r).uri) spec pub := by
  obtain ⟨spec, hview⟩ := hs.pairView (hs.sound.bound c table ctx r hc hkey) hpriv hknown
  have hspec : awskmsKeySpec (s.keys r) = spec := by
    rw [awskmsKeySpec, hview.spec, Option.getD_some]
  refine ⟨spec, ?_, ?_⟩
  · rw [AwskmsSigCtx.spec, hkey]
    exact hspec
  · rcases hs.operation_view hc hkey hpub with rfl | ⟨env, spec', pk, hE, hspec', hd⟩
    · exact hview
    · have hsame : spec' = spec := by
        rw [hspec, (awskmsKeyspecByName_mem hview.named).2, hview.named] at hspec'
        exact (Option.some.inj hspec').symm
      subst hsame
      rw [hview.der] at hd
      exact hd.pairView hview.named (hE.decodes _ _ _ _ hknown hd.answer)

/-! ## The settings on both sides

The algorithm that KMS is asked for and the parameters of the verification are
functions of the same few settings. Where both contexts were told these alike,
one says what the other says. -/

/-- Two contexts have been told the same, as far as a verification goes: a
digest of the same kind, the same padding, the same context string. -/
structure ToldAlike (h : Host Alg Key) (d d' : Demands Alg) : Prop where
  digest : d'.digest.map (awskmsDigestOf h) = d.digest.map (awskmsDigestOf h)
  padding : d'.padding.getD .pkcs1 = d.padding.getD .pkcs1
  context : d'.context.getD [] = d.context.getD []

/-- A request for a digest has the padding of its context, on RSA. -/
theorem DigestRequest.paddingOf {ctx : AwskmsSigCtx Alg Key} {buf : SigBuf} {digest : Bytes}
    {req : KmsRequest} (hreq : DigestRequest h keys ctx buf digest req)
    (hspec : ctx.spec keys ∈ specs) :
    Spec.paddingOf req.signingAlgorithm =
      if (ctx.spec keys).family = .rsa then some ctx.padMode else none := by
  split
  · next hrsa =>
      rw [(awskmsSigningAlgorithm_legal hspec hreq.algorithm).2.2 hrsa, signsWithPss, hrsa]
      cases ctx.padMode <;> rfl
  · next hrsa =>
      have hec := (digest_family hreq.selected hreq.algorithm).resolve_left hrsa
      have halg := hreq.algorithm
      generalize req.signingAlgorithm = algorithm at halg
      simp only [awskmsSigningAlgorithm, hec] at halg
      split at halg
      · cases halg
      · split at halg <;> cases halg <;> rfl

theorem isDigest_of_class {md : Alg} {digest : AwskmsDigest}
    (hclass : awskmsDigestOf h md = digest) (hother : digest ≠ .other) :
    IsDigest h md digest := by
  have hname : ∀ {name : String}, awskmsDigestName digest = some name →
      h.mdIsA md (ascii name) = true := fun heq => mdIsA_of_class (hclass.symm ▸ heq)
  cases digest with
  | sha256 => exact hname rfl
  | sha384 => exact hname rfl
  | sha512 => exact hname rfl
  | other => exact absurd rfl hother
  | none =>
      unfold awskmsDigestOf at hclass
      split at hclass
      · cases hclass
      · split at hclass
        · cases hclass
        · split at hclass <;> cases hclass

/-- The settings of a verification are the primitive of the request, where the
two contexts are alike. -/
theorem DigestRequest.verifyParams {ctx ctx' : AwskmsSigCtx Alg Key} {keys' : Keys Key}
    {buf : SigBuf} {digest : Bytes} {req : KmsRequest} {d d' : Demands Alg}
    (hreq : DigestRequest h keys ctx buf digest req) (hspec : ctx.spec keys ∈ specs)
    (hclass : Classified h ctx) (hd : Mirrors ctx d) (hd' : Mirrors ctx' d')
    (htold : ToldAlike h d d') (hsame : ctx'.spec keys' = ctx.spec keys) :
    ∃ md, IsDigest h md (digestOf req.signingAlgorithm) ∧
      Model.verifyParams keys' ctx' = primitive req.signingAlgorithm md := by
  obtain ⟨md, hmd, hdigest⟩ := hclass.resolve_left hreq.selected
  have hof : digestOf req.signingAlgorithm = ctx.digest :=
    (awskmsSigningAlgorithm_legal hspec hreq.algorithm).2.1
  have hpad : ctx'.padMode = ctx.padMode := by
    rw [hd.padding, hd'.padding, htold.padding]
  have hmds : ctx'.md.map (fun md => awskmsDigestOf h md.alg) = some ctx.digest := by
    have heq := htold.digest
    rw [← hd.digest, ← hd'.digest, hmd] at heq
    simp only [Option.map_map, Option.map_some] at heq
    rw [hdigest]
    exact heq
  obtain ⟨md', hmd', hdigest'⟩ := Option.map_eq_some_iff.mp hmds
  refine ⟨md'.alg, ?_, ?_⟩
  · rw [hof]
    exact isDigest_of_class hdigest' (hof ▸ digestOf_ne_other _)
  · have hpss : (signsWithPss keys' ctx' = true) ↔
        Spec.paddingOf req.signingAlgorithm = some .pss := by
      rw [hreq.paddingOf hspec, signsWithPss, hsame, hpad]
      cases hf : (ctx.spec keys).family <;> cases ctx.padMode <;> decide
    unfold Model.verifyParams primitive effectiveSaltlen
    simp only [hpss, hsame, hpad, hmd', Option.map_some, hreq.paddingOf hspec]

/-- The settings of a verification of a message, where the two contexts are
alike. -/
theorem ToldAlike.oneshotVerifyParams {ctx ctx' : AwskmsSigCtx Alg Key} {d d' : Demands Alg}
    (htold : ToldAlike h d d') (hd : Mirrors ctx d) (hd' : Mirrors ctx' d') :
    Model.oneshotVerifyParams ctx' = messagePrimitive ctx.context.bytes := by
  have hbytes : ctx'.context.bytes = ctx.context.bytes := by
    rw [hd.context, hd'.context, htold.context]
  unfold Model.oneshotVerifyParams messagePrimitive
  rw [hbytes]
  by_cases hnil : ctx.context.bytes = []
  · have hlen : ctx'.context.len = 0 := ContextString.bytes_eq_nil.mp (hbytes.trans hnil)
    rw [if_pos hnil, if_neg fun hne => hne hlen]
  · have hlen : ctx'.context.len ≠ 0 := by
      intro hzero
      exact hnil (hbytes.symm.trans (ContextString.bytes_eq_nil.mpr hzero))
    rw [if_neg hnil, if_pos hlen]

/-- What a call leaves in the output buffer. -/
def written (trace : List Event) : Option Bytes :=
  trace.foldl (fun sig e => match e with
    | .writeSig sig' => some sig'
    | _ => sig) none

/-- A signing call that succeeds leaves what the service answered to its
request. -/
theorem sigCall_signed {sc : SigCall} {buf : SigBuf} (hbuf : sc.buf? = some buf)
    (hnull : buf.sigNull = false) {ctx : AwskmsSigCtx Alg Key}
    (hok : (sigCall h env keys sc ctx).ok = true) :
    ∃ req sig, SignCall h keys sc ctx req ∧ env.sign req = .ok sig ∧
      written (sigCall h env keys sc ctx).trace = some sig := by
  rcases sigCall_sign_cases h env keys hbuf ctx with ⟨req, pre, hcall, -, hsame, htrace⟩ | hloc
  · obtain ⟨sig, hsig, -, hone⟩ := awskmsKmsSign_ok (hsame.symm.trans hok)
    refine ⟨req, sig, hcall, hsig, ?_⟩
    rw [htrace, hone, written, List.foldl_append]
    rfl
  · have hfailed : (sigCall h env keys sc ctx).ok = false := hloc.2 hnull
    rw [hfailed] at hok
    cases hok

/-- A call that signs and one that verifies, on the same input: the same
digest, the same message in any chunks under the same hash, or the same message
at once. -/
inductive SameInput (h : Host Alg Key) (ctx ctx' : AwskmsSigCtx Alg Key)
    (stream stream' : Option Stream) (sig : Bytes) : SigCall → SigCall → Prop where
  | digest {buf : SigBuf} {tbs : Bytes} : buf.sigNull = false →
      SameInput h ctx ctx' stream stream' sig (.sign buf tbs) (.verify sig tbs)
  | stream {buf : SigBuf} {md md' : EvpMd Alg} {data data' : Bytes} :
      buf.sigNull = false → ctx.mdctx = some (.running md data) →
      ctx'.mdctx = some (.running md' data') → h.hash md'.alg = h.hash md.alg →
      stream'.map (·.chunks.flatten) = stream.map (·.chunks.flatten) →
      SameInput h ctx ctx' stream stream' sig (.digestSignFinal buf) (.digestVerifyFinal sig)
  | message {buf : SigBuf} {tbs : Bytes} : buf.sigNull = false →
      SameInput h ctx ctx' stream stream' sig (.oneshotSign buf tbs) (.oneshotVerify sig tbs)

/-- A running hash is over the chunks of its stream. -/
def Hashes (ctx : AwskmsSigCtx Alg Key) (stream : Option Stream) : Prop :=
  ∀ md data, ctx.mdctx = some (.running md data) → stream.map (·.chunks.flatten) = some data

theorem hashes_call {sc : SigCall} {x : AwskmsSigCtx Alg Key} {stream : Option Stream}
    (hx : Hashes x stream) :
    Hashes (sigCall h env keys sc x).state (streamed h env keys sc x stream) := by
  have hstep := hash_step h env keys sc x
  unfold Hashes
  generalize (sigCall h env keys sc x).state.mdctx = m at hstep
  cases hstep with
  | kept heq hinit hupd =>
      intro md data hrun
      rw [streamed_other hinit hupd]
      exact hx md data (heq.trans hrun)
  | lost hno => exact fun md data hrun => absurd hrun (hno md data)
  | @started md0 hi hok hmd hkey =>
      intro md data hrun
      obtain ⟨rfl, rfl⟩ := EvpMdCtx.running.inj (Option.some.inj hrun)
      unfold streamed
      rw [if_neg (by rw [hok]; nofun)]
      cases sc with
      | digestSignInit mdname provkey params => rfl
      | digestVerifyInit mdname provkey params => rfl
      | _ => cases hi
  | @fed md0 data0 chunk hc hrun0 hok =>
      intro md data hrun
      obtain ⟨rfl, rfl⟩ := EvpMdCtx.running.inj (Option.some.inj hrun)
      obtain ⟨st, rfl, hdata⟩ := Option.map_eq_some_iff.mp (hx _ _ hrun0)
      unfold streamed
      rw [if_neg (by rw [hok]; nofun)]
      have hmore : (st.chunks ++ [chunk]).flatten = data0 ++ chunk := by
        rw [List.flatten_append, List.flatten_singleton, hdata]
      rcases hc with rfl | rfl <;> exact congrArg some hmore

/-- In every reachable state a running hash is over what was fed to it since
the init that started it. -/
theorem hashes_run {evs : List (Rec (Sys Alg Key) (Input Alg Key) Event)} {s : Sys Alg Key}
    (hr : (provider h).Run evs s) {c : CtxRef} {table : SigTable}
    {ctx : AwskmsSigCtx Alg Key} (hc : s.ctxs c = some (table, ctx)) :
    Hashes ctx (historyOf (streamed h) none evs c) :=
  history_run (R := fun _ => Hashes) (C := fun _ _ _ _ _ => True)
    (fun _ _ _ _ => nofun) (fun _ _ _ hx => hx)
    (fun _ _ _ _ _ _ _ _ hx => hashes_call hx) hr
    (EachCall.of_forall fun _ _ _ _ _ => trivial) hc

/-! ## From one context to another

The two contexts may be of different runs. What joins them is that their keys
are of one pair, and that the input is one; the record of each run says the
rest. -/

/-- A call of a run on a context that is bound to a loaded key. -/
structure SigUse (h : Host Alg Key) where
  before : List (Rec (Sys Alg Key) (Input Alg Key) Event)
  at_ : Rec (Sys Alg Key) (Input Alg Key) Event
  state : Sys Alg Key
  ref : CtxRef
  call : SigCall
  entry : SigTable × AwskmsSigCtx Alg Key
  key : KeyRef
  run : (provider h).Run (before ++ [at_]) state
  called : at_.input.call = .sig ref call
  found : at_.pre.ctxs ref = some entry
  offered : entry.1.offers call = true
  bound : entry.2.key = some key
  loaded : hasPrivateKey (at_.pre.keys key) = true

namespace SigUse

abbrev ctx (u : SigUse h) : AwskmsSigCtx Alg Key := u.entry.2

/-- Where the key is. -/
def uri (u : SigUse h) : AwskmsUri := (u.at_.pre.keys u.key).uri

/-- What the context has been told before. -/
def told (u : SigUse h) : Demands Alg := historyOf (taken h) Demands.none u.before u.ref

/-- What has been fed to its hash. -/
def stream (u : SigUse h) : Option Stream := historyOf (streamed h) none u.before u.ref

/-- The run has one service to turn to, and its key is there. -/
structure Serviced (known : AwskmsUri → Prop) (pair : AwskmsUri → KmsKey Key)
    (u : SigUse h) : Prop where
  served : known u.uri
  honest : ∀ e ∈ u.before ++ [u.at_], Honest h known pair e.input.env

variable {u : SigUse h}

theorem run_before (u : SigUse h) : (provider h).Run u.before u.at_.pre := u.run.at_split.1

theorem out_eq (u : SigUse h) : u.at_.out.ok =
      (sigCall h u.at_.input.env u.at_.pre.keys u.call u.ctx).ok ∧
    u.at_.out.trace = (sigCall h u.at_.input.env u.at_.pre.keys u.call u.ctx).trace := by
  obtain ⟨-, -, hout⟩ := u.run.at_split
  rw [hout]
  simp only [provider, u.called]
  rw [step_sig u.found u.offered]
  exact ⟨rfl, rfl⟩

theorem mirrors (u : SigUse h) : Mirrors u.ctx u.told := mirrors_run u.run_before u.found

theorem Serviced.traced (hu : u.Serviced known pair) :
    Traced h (Honest h known pair) u.at_.pre :=
  traced_run u.run_before fun e he => hu.honest e (List.mem_append_left _ he)

/-- The view that a call works on is that of the pair behind its URI. -/
theorem Serviced.view (hu : u.Serviced known pair) :
    ∃ pub spec, operationPubkey u.at_.pre.keys u.ctx = some pub ∧
      u.ctx.spec u.at_.pre.keys = spec ∧ PairView h (pair u.uri) spec pub := by
  obtain ⟨pub, hpub, -⟩ := operation_viewed u.run_before u.found u.bound
  obtain ⟨spec, hspec, hview⟩ :=
    hu.traced.operation_pairView u.found u.bound u.loaded hu.served hpub
  exact ⟨pub, spec, hpub, hspec, hview⟩

/-- A digest that is signed under one context is verified under another. -/
theorem digest_verifies {u' : SigUse h} (hu : u.Serviced known pair)
    (hu' : u'.Serviced known pair) (hpair : pair u'.uri = pair u.uri)
    (htold : ToldAlike h u.told u'.told) {buf : SigBuf} {digest sig : Bytes} {req : KmsRequest}
    (hreq : DigestRequest h u.at_.pre.keys u.ctx buf digest req)
    (hsigned : Signs h (pair u.uri).key req sig) :
    AcceptsDigest h u'.at_.pre.keys u'.ctx u'.told rsa_PSS_SALTLEN_DIGEST sig digest := by
  obtain ⟨_, spec, -, hspec, hview⟩ := hu.view
  obtain ⟨pub, spec', hpub, hspec', hview'⟩ := hu'.view
  have hsame : u'.ctx.spec u'.at_.pre.keys = u.ctx.spec u.at_.pre.keys := by
    rw [hspec, hspec']
    have hnamed := hview'.named
    rw [hpair, hview.named] at hnamed
    exact (Option.some.inj hnamed).symm
  have hmem : u.ctx.spec u.at_.pre.keys ∈ specs :=
    hspec ▸ (awskmsKeyspecByName_mem hview.named).1
  obtain ⟨md, hmd, hparams⟩ := hreq.verifyParams hmem (classified_run u.run_before u.found)
    u.mirrors u'.mirrors htold hsame
  have htype : req.messageType = .DIGEST := by rw [hreq.request]
  have hmsg : req.msg = digest := by rw [hreq.request]
  unfold Signs at hsigned
  rw [htype, hmsg] at hsigned
  obtain ⟨propq, hpkey⟩ := hview'.pkey
  refine ⟨⟨(pair u'.uri).key, propq⟩, ?_, ?_⟩
  · rw [verifyKey, hpub]
    exact hpkey
  · rw [← verifyParams_told u'.mirrors, hparams, hpair]
    exact hsigned md hmd

/-- So is a message. -/
theorem message_verifies {u' : SigUse h} (hu : u.Serviced known pair)
    (hu' : u'.Serviced known pair) (hpair : pair u'.uri = pair u.uri)
    (htold : ToldAlike h u.told u'.told) {buf : SigBuf} {tbs sig : Bytes} {req : KmsRequest}
    (hreq : OneshotRequest h u.at_.pre.keys u.ctx buf tbs req)
    (hsigned : Signs h (pair u.uri).key req sig) :
    AcceptsMessage h u'.at_.pre.keys u'.ctx u'.told sig tbs := by
  obtain ⟨pub, spec, hpub, hspec, hview⟩ := hu.view
  obtain ⟨pub', _, hpub', -, hview'⟩ := hu'.view
  have hmem : u.ctx.spec u.at_.pre.keys ∈ specs :=
    hspec ▸ (awskmsKeyspecByName_mem hview.named).1
  have hparams : toldDigestParams u'.told = messagePrimitive u.ctx.context.bytes := by
    rw [← oneshotVerifyParams_told u'.mirrors]
    exact htold.oneshotVerifyParams u.mirrors u'.mirrors
  obtain ⟨propq, hpkey⟩ := hview'.pkey
  refine ⟨⟨(pair u'.uri).key, propq⟩, ?_, ?_⟩
  · rw [verifyKey, hpub']
    exact hpkey
  · rw [hparams, hpair]
    unfold Signs at hsigned
    have hmessage := hreq.message
    generalize req.messageType = type, req.msg = msg at hmessage hsigned
    cases hmessage with
    | raw htype _ _ =>
        have hed := (msgType_family hmem).1.mp htype
        have hnil : u.ctx.context.bytes = [] := by
          rw [ContextString.bytes_eq_nil]
          exact hreq.context.resolve_right fun hml => by rw [hed] at hml; cases hml
        rw [hnil]
        exact hsigned
    | mu htype hview'' htr =>
        obtain rfl := Option.some.inj (hview''.symm.trans hpub)
        obtain ⟨raw, hraw, hbytes⟩ := hview.tr _ htr
        refine hsigned raw u.ctx.context.bytes tbs hraw ?_ ?_
        · rw [ContextString.bytes_length]
          exact u.ctx.context.fits
        · rw [hbytes, shake256_muInput]

/-- What the service answers to one context, a call on the other accepts. -/
theorem accepted (signer verifier : SigUse h) (hs : signer.Serviced known pair)
    (hv : verifier.Serviced known pair) (hpair : pair verifier.uri = pair signer.uri)
    (htold : ToldAlike h signer.told verifier.told) {sig : Bytes}
    (hinput : SameInput h signer.ctx verifier.ctx signer.stream verifier.stream sig
      signer.call verifier.call)
    (hok : signer.at_.out.ok = true) (hsig : written signer.at_.out.trace = some sig)
    (henv : ∀ site, verifier.at_.input.env.ok site = true) :
    (sigCall h verifier.at_.input.env verifier.at_.pre.keys verifier.call
      verifier.ctx).ok = true := by
  obtain ⟨hokEq, htraceEq⟩ := signer.out_eq
  rw [hokEq] at hok
  rw [htraceEq] at hsig
  have huriOf : boundUri signer.at_.pre.keys signer.ctx = signer.uri := by
    rw [boundUri, signer.bound]
    rfl
  obtain ⟨_, spec, -, hspec, hview⟩ := hs.view
  have hnamed : spec ∈ specs ∧ (pair signer.uri).keySpec = spec.kmsKeySpec := by
    obtain ⟨hmem, hname⟩ := awskmsKeyspecByName_mem hview.named
    exact ⟨hmem, hname.symm⟩
  have hsigned : ∀ req digest pss, req.uri = boundUri signer.at_.pre.keys signer.ctx →
      awskmsSigningAlgorithm (signer.ctx.spec signer.at_.pre.keys) digest pss =
        some req.signingAlgorithm →
      signer.at_.input.env.sign req = .ok sig → Signs h (pair signer.uri).key req sig := by
    intro req digest pss hreq halg hsign
    have hlisted : req.signingAlgorithm ∈ signingAlgorithms (pair signer.uri).keySpec := by
      rw [hspec] at halg
      rw [hnamed.2]
      exact (awskmsSigningAlgorithm_legal hnamed.1 halg).1
    have hhonest : Honest h known pair signer.at_.input.env :=
      hs.honest _ (List.mem_append_right _ (List.mem_singleton_self _))
    rw [huriOf] at hreq
    rw [← hreq] at hlisted ⊢
    exact hhonest.signs req sig (hreq ▸ hs.served) hlisted hsign
  have hstream := hashes_run signer.run_before signer.found
  have hstream' := hashes_run verifier.run_before verifier.found
  generalize signer.call = sc, verifier.call = sc' at hinput hok hsig ⊢
  cases hinput with
  | digest hnull =>
      obtain ⟨req, sig', hcall, hsign, hwritten⟩ := sigCall_signed rfl hnull hok
      obtain rfl := Option.some.inj (hwritten.symm.trans hsig)
      cases hcall with
      | sign _ hreq =>
          have haccepts := digest_verifies hs hv hpair htold hreq
            (hsigned req _ _ (by rw [hreq.request]) hreq.algorithm hsign)
          exact (verifies_decides h _ _ verifier.mirrors .digest).complete henv haccepts
  | @stream _ md md' data data' hnull hrunning hrunning' hhash hsame =>
      obtain ⟨req, sig', hcall, hsign, hwritten⟩ := sigCall_signed rfl hnull hok
      obtain rfl := Option.some.inj (hwritten.symm.trans hsig)
      cases hcall with
      | @final _ _ _ _ _ _ hrunning₂ hreq =>
          obtain ⟨rfl, rfl⟩ := EvpMdCtx.running.inj
            (Option.some.inj (hrunning.symm.trans hrunning₂))
          have hdata : data' = data := by
            have heq := (hstream' md' data' hrunning').symm.trans
              (hsame.trans (hstream md data hrunning))
            exact Option.some.inj heq
          have haccepts := digest_verifies hs hv hpair htold hreq
            (hsigned req _ _ (by rw [hreq.request]) hreq.algorithm hsign)
          rw [← hhash, ← hdata] at haccepts
          exact (verifies_decides h _ _ verifier.mirrors (.stream hrunning')).complete henv haccepts
  | message hnull =>
      obtain ⟨req, sig', hcall, hsign, hwritten⟩ := sigCall_signed rfl hnull hok
      obtain rfl := Option.some.inj (hwritten.symm.trans hsig)
      cases hcall with
      | oneshot hreq =>
          have haccepts := message_verifies hs hv hpair htold hreq
            (hsigned req _ _ hreq.uri hreq.algorithm hsign)
          exact (oneshotVerify_decides h _ _ verifier.mirrors _ _).complete henv haccepts

end SigUse

/-- What one context signs, another verifies, if their URIs name one key pair of
an honest service and the two have been told alike. -/
theorem signed_verifies (signer verifier : SigUse h) (hs : signer.Serviced known pair)
    (hv : verifier.Serviced known pair) (hpair : pair verifier.uri = pair signer.uri)
    (htold : ToldAlike h signer.told verifier.told) {sig : Bytes}
    (hinput : SameInput h signer.ctx verifier.ctx signer.stream verifier.stream sig
      signer.call verifier.call)
    (hok : signer.at_.out.ok = true) (hsig : written signer.at_.out.trace = some sig)
    (henv : ∀ site, verifier.at_.input.env.ok site = true) :
    verifier.at_.out.ok = true := by
  rw [verifier.out_eq.1]
  exact SigUse.accepted signer verifier hs hv hpair htold hinput hok hsig henv

namespace Bench

/-- One EC key has an alias, and a name of its own. -/
def ecArn : String := "arn:aws:kms:eu-west-1:111122223333:key/1234abcd"

def ecKnown (uri : AwskmsUri) : Prop :=
  uri.keyId = some (ascii "alias/ec") ∨ uri.keyId = some (ascii ecArn)

instance (uri : AwskmsUri) : Decidable (ecKnown uri) :=
  inferInstanceAs (Decidable (_ ∨ _))

/-- A service that has this key and signs one digest with it. -/
def ecEnv : Env Digest PubKey :=
  { Bench.env with
    getPublicKey := fun uri _ =>
      if ecKnown uri then .ok ⟨"ECC_NIST_P256", ecSpki⟩ else .error notFound
    sign := fun req =>
      if ecKnown req.uri ∧ req.signingAlgorithm = .ECDSA_SHA_256 ∧
          req.messageType = .DIGEST ∧ req.msg = sha256Abc then .ok ecSig
      else .error notFound }

def ecPair : KmsKey PubKey := ⟨"ECC_NIST_P256", ecSpki, .ec⟩

theorem honest_ecEnv : Honest host ecKnown (fun _ => ecPair) ecEnv where
  serves uri fips answer huri hans := by
    simp only [ecEnv, if_pos huri, Except.ok.injEq] at hans
    subst hans
    exact ⟨rfl, rfl⟩
  decodes uri propq key n _ hdec := by
    have hec : ecEnv.d2iPubkey ecSpki "" = some (.ec, ecSpki.length) := by
      decide +kernel
    exact (Prod.mk.inj (Option.some.inj (hec.symm.trans hdec))).1.symm
  signs req sig _ _ hsign := by
    simp only [ecEnv] at hsign
    split at hsign
    · next hreq =>
        obtain ⟨-, halg, htype, hmsg⟩ := hreq
        obtain rfl := Except.ok.inj hsign
        have hverifies : ∀ md, IsDigest host md .sha256 →
            host.verify .ec (primitive .ECDSA_SHA_256 md) ecSig sha256Abc = true := by
          intro md
          cases md <;> unfold IsDigest <;> decide +kernel
        unfold Signs
        rw [htype, halg, hmsg]
        exact hverifies
    · cases hsign

/-- A stream to sign under the alias, and the same bytes to verify under the
other name, the digest told in another way. -/
def ecContexts : List (Input Digest PubKey) :=
  (opening "alias/ec" .prehash ++ [
    Call.storeOpen (some (ascii ("aws-kms:key-id=" ++ ecArn))),
    Call.storeLoad 1 ⟨true, true⟩,
    Call.sigNewctx .prehash none,
    Call.sig 0 (.digestSignInit (some (ascii "SHA256")) (some 0) none),
    Call.sig 0 (.digestSignUpdate (ascii "a")),
    Call.sig 0 (.digestSignUpdate (ascii "bc")),
    Call.sig 1 (.digestVerifyInit none (some 1)
      (some [strParam "digest" "SHA2-256"])),
    Call.sig 1 (.digestVerifyUpdate abc)]).map fun call => ⟨call, ecEnv⟩

def ecState : Sys Digest PubKey := (provider host).drive (provider host).start ecContexts

theorem ecPre (i : Input Digest PubKey) :
    ((provider host).recordAfter ecContexts i).pre = ecState := by
  rw [Machine.recordAfter, ecState]

/-- A call on one of the two. -/
def ecUse (c : CtxRef) (r : KeyRef) (sc : SigCall) (hfound : (ecState.ctxs c).isSome)
    (hoffered : ((ecState.ctxs c).get hfound).1.offers sc = true)
    (hbound : ((ecState.ctxs c).get hfound).2.key = some r)
    (hloaded : hasPrivateKey (ecState.keys r) = true)
    (ha : (provider host).AllowedAll (provider host).start
      (ecContexts ++ [⟨.sig c sc, ecEnv⟩])) : SigUse host where
  before := (provider host).records (provider host).start ecContexts
  at_ := (provider host).recordAfter ecContexts ⟨.sig c sc, ecEnv⟩
  state := _
  ref := c
  call := sc
  entry := (ecState.ctxs c).get hfound
  key := r
  run := Machine.run_recordAfter ha
  called := rfl
  found := by
    rw [ecPre]
    exact (Option.some_get hfound).symm
  offered := hoffered
  bound := hbound
  loaded := by rw [ecPre, hloaded]

def ecSigner : SigUse host :=
  ecUse 0 0 (.digestSignFinal buf) (by decide +kernel) (by decide +kernel)
    (by decide +kernel) (by decide +kernel) (by decide +kernel)

def ecVerifier : SigUse host :=
  ecUse 1 1 (.digestVerifyFinal ecSig) (by decide +kernel) (by decide +kernel)
    (by decide +kernel) (by decide +kernel) (by decide +kernel)

theorem ecSigner_mdctx : ecSigner.ctx.mdctx =
    some (.running ⟨.sha256, awskmsDependencyPropq false⟩ abc) := by decide +kernel

theorem ecVerifier_mdctx : ecVerifier.ctx.mdctx =
    some (.running ⟨.sha256, awskmsDependencyPropq false⟩ abc) := by decide +kernel

theorem serviced_ecUse {u : SigUse host} {i : Input Digest PubKey} (hi : i.env = ecEnv)
    (hbefore : u.before = (provider host).records (provider host).start ecContexts)
    (hat : u.at_ = (provider host).recordAfter ecContexts i) (huri : ecKnown u.uri) :
    u.Serviced ecKnown (fun _ => ecPair) := by
  refine ⟨huri, fun e he => ?_⟩
  have henv : e.input.env = ecEnv := by
    rw [hbefore, hat] at he
    rcases List.mem_append.mp he with he | he
    · obtain ⟨call, -, hcall⟩ := List.mem_map.mp (Machine.records_input he)
      rw [← hcall]
    · rw [List.mem_singleton.mp he]
      exact hi
  exact henv ▸ honest_ecEnv

end Bench

theorem signed_verifies_ec :
    Bench.ecVerifier.uri ≠ Bench.ecSigner.uri ∧ Bench.ecVerifier.at_.out.ok = true :=
  ⟨by decide +kernel, signed_verifies Bench.ecSigner Bench.ecVerifier
    (Bench.serviced_ecUse (i := ⟨.sig 0 (.digestSignFinal Bench.buf), Bench.ecEnv⟩)
      rfl rfl rfl (by decide +kernel))
    (Bench.serviced_ecUse (i := ⟨.sig 1 (.digestVerifyFinal Bench.ecSig), Bench.ecEnv⟩)
      rfl rfl rfl (by decide +kernel))
    rfl
    ⟨by decide +kernel, by decide +kernel, by decide +kernel⟩
    (.stream rfl Bench.ecSigner_mdctx Bench.ecVerifier_mdctx rfl (by decide +kernel))
    (by decide +kernel) (by decide +kernel) (fun _ => rfl)⟩

end AwsKms.Model
