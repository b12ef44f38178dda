import AwsKms.Proofs.Given
import AwsKms.Proofs.Raise

/-!
# What a verification is told

Verification is local, and each of its three entries builds a fresh libcrypto
context out of what the signature context holds. `toldParams` is what there is
to tell, taken from a record of what the caller said: the padding, the digest,
the context string. The salt length is the one thing on record that is not
passed on: KMS signs with a salt as long as the digest, and a verification asks
for that and nothing else.

`VerifiesAsTold` judges a call by that record alone. The key is the one on
record, the input is what was fed to the hash on record, and of the context
itself only the judgement of the signing path is asked for.
-/

namespace AwsKms.Model

open AwsKms.Lib

variable {Alg Key : Type} {h : Host Alg Key} {env : Env Alg Key}
  {keys : Keys Key}

/-- The settings of a verification of a digest, with a salt length. -/
def toldParams (spec : AwskmsKeyspec) (d : Demands Alg) (salt : Int) :
    VerifyParams Alg where
  padding := if spec.family = .rsa then some (d.padding.getD .pkcs1) else none
  saltlen :=
    if spec.family = .rsa ∧ d.padding.getD .pkcs1 = .pss then some salt else none
  md := d.digest

/-- The settings of a verification of a message: the context string, when there
is one. -/
def toldDigestParams (d : Demands Alg) : DigestVerifyParams where
  context := if d.context.getD [] = [] then none else d.context
  instanceName := none

theorem verifyParams_told {ctx : AwskmsSigCtx Alg Key} {d : Demands Alg}
    (hd : Mirrors ctx d) :
    verifyParams keys ctx =
      toldParams (ctx.spec keys) d rsa_PSS_SALTLEN_DIGEST := by
  have hpss : (signsWithPss keys ctx = true) ↔
      (ctx.spec keys).family = .rsa ∧ d.padding.getD .pkcs1 = .pss := by
    rw [signsWithPss, hd.padding]
    simp
  unfold verifyParams toldParams effectiveSaltlen
  rw [hd.digest, hd.padding]
  simp only [hpss]

theorem oneshotVerifyParams_told {ctx : AwskmsSigCtx Alg Key} {d : Demands Alg}
    (hd : Mirrors ctx d) : oneshotVerifyParams ctx = toldDigestParams d := by
  have hlen : ctx.context.len ≠ 0 ↔ d.context.getD [] ≠ [] := by
    rw [← hd.context, Ne, Ne, ContextString.bytes_eq_nil]
  unfold oneshotVerifyParams toldDigestParams
  rw [hd.context]
  by_cases hnil : d.context.getD [] = []
  · rw [if_neg (fun hne => hlen.mp hne hnil), if_pos hnil]
  · rw [if_pos (hlen.mpr hnil), if_neg hnil]
    cases hctx : d.context with
    | none =>
        rw [hctx] at hnil
        exact absurd rfl hnil
    | some data => rfl

/-- The signature and the digest a call verifies: its own, or the hash of the
stream that ends with it. -/
inductive Verifies (h : Host Alg Key) (ctx : AwskmsSigCtx Alg Key) :
    SigCall → Bytes → Bytes → Prop where
  | digest {sig tbs : Bytes} : Verifies h ctx (.verify sig tbs) sig tbs
  | stream {sig data : Bytes} {md : EvpMd Alg} :
      ctx.mdctx = some (.running md data) →
      Verifies h ctx (.digestVerifyFinal sig) sig (h.hash md.alg data)

/-- A call returns 1 for what is accepted and for nothing else, when libcrypto
has what it takes to be asked. -/
structure Decides (env : Env Alg Key) (ok : Bool) (accepted : Prop) : Prop where
  sound : ok = true → accepted
  complete : (∀ site, env.ok site = true) → accepted → ok = true

/-- The key of an operation accepts a signature of a digest under the settings on
record. -/
def AcceptsDigest (h : Host Alg Key) (keys : Keys Key) (ctx : AwskmsSigCtx Alg Key)
    (d : Demands Alg) (salt : Int) (sig tbs : Bytes) : Prop :=
  ∃ pkey, verifyKey keys ctx = some pkey ∧
    h.verify pkey.key (toldParams (ctx.spec keys) d salt) sig tbs = true

/-- The same, of a message. -/
def AcceptsMessage (h : Host Alg Key) (keys : Keys Key) (ctx : AwskmsSigCtx Alg Key)
    (d : Demands Alg) (sig tbs : Bytes) : Prop :=
  ∃ pkey, verifyKey keys ctx = some pkey ∧
    h.digestVerify pkey.key (toldDigestParams d) sig tbs = true

variable (h env keys) in
theorem verify_decides {ctx : AwskmsSigCtx Alg Key} {d : Demands Alg}
    (hd : Mirrors ctx d) (sig tbs : Bytes) :
    Decides env (awskmsSigVerify h env keys ctx sig tbs).ok
      (AcceptsDigest h keys ctx d rsa_PSS_SALTLEN_DIGEST sig tbs) := by
  unfold awskmsSigVerify AcceptsDigest
  rw [verifyParams_told hd]
  cases hkey : verifyKey keys ctx with
  | none =>
      refine ⟨fun hok => absurd hok Bool.false_ne_true, fun _ hacc => ?_⟩
      obtain ⟨_, hsome, _⟩ := hacc
      exact absurd hsome (Option.some_ne_none _).symm
  | some pkey =>
      constructor
      · intro hok
        exact ⟨pkey, rfl, (Bool.and_eq_true_iff.mp hok).2⟩
      · rintro henv ⟨_, hsome, hacc⟩
        obtain rfl := Option.some.inj hsome
        refine Bool.and_eq_true_iff.mpr ⟨?_, hacc⟩
        simp [verifyConfigured, henv]

variable (h env keys) in
theorem oneshotVerify_decides {ctx : AwskmsSigCtx Alg Key} {d : Demands Alg}
    (hd : Mirrors ctx d) (sig tbs : Bytes) :
    Decides env (awskmsSigOneshotVerify h env keys ctx sig tbs).ok
      (AcceptsMessage h keys ctx d sig tbs) := by
  unfold awskmsSigOneshotVerify AcceptsMessage
  rw [oneshotVerifyParams_told hd]
  cases hkey : verifyKey keys ctx with
  | none =>
      refine ⟨fun hok => absurd hok Bool.false_ne_true, fun _ hacc => ?_⟩
      obtain ⟨_, hsome, _⟩ := hacc
      exact absurd hsome (Option.some_ne_none _).symm
  | some pkey =>
      constructor
      · intro hok
        exact ⟨pkey, rfl, (Bool.and_eq_true_iff.mp hok).2⟩
      · rintro henv ⟨_, hsome, hacc⟩
        obtain rfl := Option.some.inj hsome
        refine Bool.and_eq_true_iff.mpr ⟨?_, hacc⟩
        rw [henv, henv, Bool.and_true]

variable (h env keys) in
/-- The end of a stream is a verification of its hash. -/
theorem verifies_decides {ctx : AwskmsSigCtx Alg Key} {d : Demands Alg}
    (hd : Mirrors ctx d) {sc : SigCall} {sig tbs : Bytes}
    (hsc : Verifies h ctx sc sig tbs) :
    Decides env (sigCall h env keys sc ctx).ok
      (AcceptsDigest h keys ctx d rsa_PSS_SALTLEN_DIGEST sig tbs) := by
  cases hsc with
  | digest => exact verify_decides h env keys hd sig tbs
  | @stream _ data md hrunning =>
      have hfinal : sigCall h env keys (.digestVerifyFinal sig) ctx =
          (awskmsSigVerify h env keys { ctx with mdctx := some (.finalised md) } sig
            (h.hash md.alg data)).keep { ctx with mdctx := some (.finalised md) } := by
        show awskmsSigDigestVerifyFinal h env keys sig ctx = _
        unfold awskmsSigDigestVerifyFinal finishHash
        rw [hrunning]
        rfl
      rw [hfinal, Reply.keep_ok]
      exact verify_decides h env keys hd sig (h.hash md.alg data)

/-- A public key of a key object: the one it shows, or a decode of the
SubjectPublicKeyInfo it retains. -/
def PublicKeyOf (E : Env Alg Key → Prop) (k : AwskmsKey Key) (pk : Key) : Prop :=
  (∃ propq, k.pub.pkey = some ⟨pk, propq⟩) ∨
    ∃ env propq n, E env ∧ k.pub.der ≠ [] ∧
      env.d2iPubkey k.pub.der propq = some (pk, n)

theorem verifyKey_unbound {ctx : AwskmsSigCtx Alg Key} (hkey : ctx.key = none) :
    verifyKey keys ctx = none := by
  rw [verifyKey, operationPubkey, hkey]
  rfl

/-- A verification runs against a public key of the bound key. -/
theorem Traced.verifyKey_public {E : Env Alg Key → Prop} {s : Sys Alg Key}
    (hs : Traced h E s) {c : CtxRef} {table : SigTable} {ctx : AwskmsSigCtx Alg Key}
    (hc : s.ctxs c = some (table, ctx)) {r : KeyRef} (hkey : ctx.key = some r)
    {pkey : EvpPkey Key} (hpkey : verifyKey s.keys ctx = some pkey) :
    PublicKeyOf E (s.keys r) pkey.key := by
  obtain ⟨pub, hpub, hsome⟩ := Option.bind_eq_some_iff.mp hpkey
  rcases hs.operation_view hc hkey hpub with rfl | ⟨env, spec, pk, hE, -, hd⟩
  · exact .inl ⟨pkey.propq, hsome⟩
  · obtain rfl := Option.some.inj (hd.pkey.symm.trans hsome)
    exact .inr ⟨env, _, _, hE, hd.nonempty, hd.answer⟩

/-- A key that shows a public key can be verified with. -/
theorem verifyKey_some {evs : List (Rec (Sys Alg Key) (Input Alg Key) Event)}
    {s : Sys Alg Key} (hr : (provider h).Run evs s) {c : CtxRef} {table : SigTable}
    {ctx : AwskmsSigCtx Alg Key} (hc : s.ctxs c = some (table, ctx)) {r : KeyRef}
    (hkey : ctx.key = some r) (hshows : (s.keys r).pub.pkey.isSome) :
    ∃ pkey, verifyKey s.keys ctx = some pkey := by
  obtain ⟨pub, hpub, hview⟩ := operation_viewed hr hc hkey
  have hsome : pub.pkey.isSome := by
    rcases hview with rfl | hview
    · exact hshows
    · exact hview
  rw [verifyKey, hpub]
  exact Option.isSome_iff_exists.mp hsome

/-! ## Every verification of a run

Key, settings and input of a verification are those of the record, and the
context is asked for one thing only: whether KMS could sign with its instance
and its context string, as the signing path asks. -/

/-- The input of a verification by the record: a digest or the hash of the
chunks on record, and whether the context is certain to have it. -/
inductive Submits (h : Host Alg Key) (g : Given Alg) :
    SigCall → Bool → Bytes → Bytes → Prop where
  | digest {sig tbs : Bytes} : Submits h g (.verify sig tbs) true sig tbs
  | stream {sig : Bytes} {st : Heard Alg} : g.heard = some st →
      Submits h g (.digestVerifyFinal sig) st.certain sig (h.hash st.digest st.bytes)

/-- A call returns 1 only for what a public key of the key on record accepts. It
returns 1 for what every one of them accepts, when it has its input for certain,
the key shows one, and libcrypto has what it takes to be asked. -/
structure RuledBy (E : Env Alg Key → Prop) (env : Env Alg Key) (ok certain : Bool)
    (key : Option (AwskmsKey Key)) (accepts : AwskmsKey Key → Key → Prop) : Prop where
  sound : ok = true → ∃ k pk, key = some k ∧ PublicKeyOf E k pk ∧ accepts k pk
  complete : certain = true → (∀ site, env.ok site = true) →
    ∀ k, key = some k → k.pub.pkey.isSome →
    (∀ pk, PublicKeyOf E k pk → accepts k pk) → ok = true

/-- Every verification of a run is decided by what its context was given: the
key, the settings and the input on record, with the salt length `salt` makes of
the one on record (where it says nothing, nothing is said here). -/
structure VerifiesAsTold (h : Host Alg Key) (salt : Option Int → Option Int)
    (evs : List (Rec (Sys Alg Key) (Input Alg Key) Event)) : Prop where
  digests : ∀ before e after, evs = before ++ e :: after →
    ∀ c sc table ctx certain sig tbs n, e.input.call = .sig c sc →
      e.pre.ctxs c = some (table, ctx) → table.offers sc = true →
      (unsupportedParamsRefused e.pre.keys ctx).ok = true →
      Submits h (givenTo h before c) sc certain sig tbs →
      salt (givenTo h before c).demands.saltlen = some n →
      RuledBy (fun env => ∃ e ∈ before, e.input.env = env) e.input.env e.out.ok certain
        ((givenTo h before c).key.map e.pre.keys) fun k pk =>
          h.verify pk (toldParams (awskmsKeySpec k) (givenTo h before c).demands n)
            sig tbs = true
  messages : ∀ before e after, evs = before ++ e :: after →
    ∀ c table ctx sig tbs, e.input.call = .sig c (.oneshotVerify sig tbs) →
      e.pre.ctxs c = some (table, ctx) →
      table.offers (.oneshotVerify sig tbs) = true →
      (unsupportedParamsRefused e.pre.keys ctx).ok = true →
      RuledBy (fun env => ∃ e ∈ before, e.input.env = env) e.input.env e.out.ok true
        ((givenTo h before c).key.map e.pre.keys) fun _ pk =>
          h.digestVerify pk (toldDigestParams (givenTo h before c).demands) sig tbs = true
  unstarted : ∀ before e after, evs = before ++ e :: after →
    ∀ c table ctx sig, e.input.call = .sig c (.digestVerifyFinal sig) →
      e.pre.ctxs c = some (table, ctx) →
      (givenTo h before c).heard = none → e.out.ok = false
  inits : ∀ e ∈ evs, ∀ c mdname provkey params table ctx,
    e.input.call = .sig c (.oneshotInit mdname provkey params) →
    e.pre.ctxs c = some (table, ctx) → e.out.ok = true →
    ∃ ctx', e.out.state.ctxs c = some (table, ctx') ∧
      (unsupportedParamsRefused e.pre.keys ctx').ok = true

/-- What the view of an operation decides, the bound key decides. -/
theorem Decides.ruledBy {before : List (Rec (Sys Alg Key) (Input Alg Key) Event)}
    {s : Sys Alg Key} (hr : (provider h).Run before s) {c : CtxRef} {table : SigTable}
    {ctx : AwskmsSigCtx Alg Key} (hc : s.ctxs c = some (table, ctx))
    (accepts : AwskmsKeyspec → Key → Prop) {ok : Bool} (certain : Bool)
    (hdecides : Decides env ok
      (∃ pkey, verifyKey s.keys ctx = some pkey ∧ accepts (ctx.spec s.keys) pkey.key)) :
    RuledBy (fun env => ∃ e ∈ before, e.input.env = env) env ok certain
      (ctx.key.map s.keys) fun k pk => accepts (awskmsKeySpec k) pk := by
  have htraced := traced_run (E := fun env => ∃ e ∈ before, e.input.env = env) hr
    fun e he => ⟨e, he, rfl⟩
  have hspec : ∀ r, ctx.key = some r → ctx.spec s.keys = awskmsKeySpec (s.keys r) := by
    intro r hkey
    rw [AwskmsSigCtx.spec, hkey]
  constructor
  · intro hok
    obtain ⟨pkey, hpkey, hacc⟩ := hdecides.sound hok
    cases hkey : ctx.key with
    | none =>
        rw [verifyKey_unbound hkey] at hpkey
        cases hpkey
    | some r =>
        exact ⟨s.keys r, pkey.key, rfl, htraced.verifyKey_public hc hkey hpkey,
          hspec r hkey ▸ hacc⟩
  · intro _ henv k hk hshows hall
    obtain ⟨r, hkey, rfl⟩ := Option.map_eq_some_iff.mp hk
    obtain ⟨pkey, hpkey⟩ := verifyKey_some hr hc hkey hshows
    refine hdecides.complete henv ⟨pkey, hpkey, ?_⟩
    rw [hspec r hkey]
    exact hall pkey.key (htraced.verifyKey_public hc hkey hpkey)

variable (h env keys) in
theorem digestVerifyFinal_unstarted {ctx : AwskmsSigCtx Alg Key}
    (hno : ∀ md data, ctx.mdctx ≠ some (.running md data)) (sig : Bytes) :
    (sigCall h env keys (.digestVerifyFinal sig) ctx).ok = false := by
  show (awskmsSigDigestVerifyFinal h env keys sig ctx).ok = false
  unfold awskmsSigDigestVerifyFinal
  cases hf : finishHash h ctx with
  | none => rfl
  | some out =>
      obtain ⟨md, data, hrunning, _⟩ := finishHash_eq hf
      exact absurd hrunning (hno md data)

variable (h env) in
/-- A verification of the input on record is decided by the record. Where the hash
on record is gone, the call fails, and the record was in doubt of it. -/
theorem submits_ruled {before : List (Rec (Sys Alg Key) (Input Alg Key) Event)}
    {s : Sys Alg Key} (hr : (provider h).Run before s) {c : CtxRef} {table : SigTable}
    {ctx : AwskmsSigCtx Alg Key} (hc : s.ctxs c = some (table, ctx)) {sc : SigCall}
    {certain : Bool} {sig tbs : Bytes}
    (hasked : Submits h (givenTo h before c) sc certain sig tbs) :
    RuledBy (fun env => ∃ e ∈ before, e.input.env = env) env
      (sigCall h env s.keys sc ctx).ok certain
      ((givenTo h before c).key.map s.keys) fun k pk => h.verify pk
        (toldParams (awskmsKeySpec k) (givenTo h before c).demands
          rsa_PSS_SALTLEN_DIGEST) sig tbs = true := by
  have hrec := onRecord_run hr hc
  rw [← hrec.key]
  have hdecides : ∀ certain tbs, Verifies h ctx sc sig tbs →
      RuledBy (fun env => ∃ e ∈ before, e.input.env = env) env
        (sigCall h env s.keys sc ctx).ok certain
        (ctx.key.map s.keys) fun k pk => h.verify pk (toldParams (awskmsKeySpec k)
          (givenTo h before c).demands rsa_PSS_SALTLEN_DIGEST) sig tbs = true :=
    fun certain tbs hsc => Decides.ruledBy hr hc (fun spec pk => h.verify pk
      (toldParams spec (givenTo h before c).demands rsa_PSS_SALTLEN_DIGEST) sig tbs =
        true) certain (verifies_decides h env s.keys hrec.mirrors hsc)
  cases hasked with
  | digest => exact hdecides true tbs .digest
  | @stream _ st hst =>
      by_cases hrun : ∃ md data, ctx.mdctx = some (.running md data)
      · obtain ⟨md, data, hrun⟩ := hrun
        obtain ⟨st', hst', hdigest, hbytes⟩ := hrec.hears.running md data hrun
        obtain rfl := Option.some.inj (hst.symm.trans hst')
        rw [hdigest, hbytes]
        exact hdecides _ _ (.stream hrun)
      · have hfails := digestVerifyFinal_unstarted h env s.keys
          (fun md data hm => hrun ⟨md, data, hm⟩) sig
        rw [hfails]
        exact ⟨fun hok => absurd hok Bool.false_ne_true, fun hcertain =>
          absurd (hrec.hears.certain st hst hcertain) hrun⟩

/-- The last thing a one-shot init does is to judge what it leaves. -/
theorem oneshotInit_judged {mdname : Option Bytes} {provkey : Option KeyRef}
    {params : Option (List OsslParam)} {ctx : AwskmsSigCtx Alg Key}
    (hok : (sigCall h env keys (.oneshotInit mdname provkey params) ctx).ok = true) :
    (unsupportedParamsRefused keys
      (sigCall h env keys (.oneshotInit mdname provkey params) ctx).state).ok = true := by
  have hcall : sigCall h env keys (.oneshotInit mdname provkey params) ctx =
      (Act.all [bindKey h env keys provkey, awskmsSigSetCtxParams h env keys params,
        refuseMdname keys mdname]).andThen
          (fun x => (unsupportedParamsRefused keys x).keep x) ctx := by
    have hlast : Act.all [fun x : AwskmsSigCtx Alg Key =>
        (unsupportedParamsRefused keys x).keep x] =
          fun x => (unsupportedParamsRefused keys x).keep x := by
      rw [Act.all_cons, Act.all_nil, Act.andThen_done]
    rw [← hlast]
    change Act.all ([bindKey h env keys provkey,
      awskmsSigSetCtxParams h env keys params, refuseMdname keys mdname] ++
        [fun x => (unsupportedParamsRefused keys x).keep x]) ctx = _
    exact Act.all_append
  rw [hcall] at hok ⊢
  obtain ⟨hfirst, hlast⟩ := Act.andThen_ok.mp hok
  rw [Act.andThen_of_ok hfirst]
  exact hlast

/-- Every verification is decided by what its context was given, but for the
salt length, which is the length of the digest. -/
theorem verifies_as_told {evs : List (Rec (Sys Alg Key) (Input Alg Key) Event)}
    {s : Sys Alg Key} (hr : (provider h).Run evs s) :
    VerifiesAsTold h (fun _ => some rsa_PSS_SALTLEN_DIGEST) evs where
  digests := by
    intro before e after hsplit c sc table ctx certain sig tbs n hcall hctx hoff _ hasked
      hsalt
    subst hsplit
    obtain ⟨hpre, _, hout⟩ := hr.at_split
    obtain rfl := Option.some.inj hsalt
    rw [hout]
    simp only [provider, hcall]
    rw [step_sig hctx hoff]
    exact submits_ruled h e.input.env hpre hctx hasked
  messages := by
    intro before e after hsplit c table ctx sig tbs hcall hctx hoff _
    subst hsplit
    obtain ⟨hpre, _, hout⟩ := hr.at_split
    have hrec := onRecord_run hpre hctx
    rw [hout, ← hrec.key]
    simp only [provider, hcall]
    rw [step_sig hctx hoff]
    exact Decides.ruledBy hpre hctx (fun _ pk => h.digestVerify pk
      (toldDigestParams (givenTo h before c).demands) sig tbs = true) true
        (oneshotVerify_decides h e.input.env e.pre.keys hrec.mirrors sig tbs)
  unstarted := by
    intro before e after hsplit c table ctx sig hcall hctx hnone
    subst hsplit
    obtain ⟨hpre, _, hout⟩ := hr.at_split
    have hno : ∀ md data, ctx.mdctx ≠ some (.running md data) := by
      intro md data hrun
      obtain ⟨st, hst, _⟩ := (onRecord_run hpre hctx).hears.running md data hrun
      rw [hnone] at hst
      cases hst
    rw [hout]
    simp only [provider, hcall]
    cases hoff : table.offers (.digestVerifyFinal sig) with
    | false => simp [Sys.step, hctx, hoff]
    | true =>
        rw [step_sig hctx hoff]
        exact digestVerifyFinal_unstarted h e.input.env e.pre.keys hno sig
  inits := by
    intro e he c mdname provkey params table ctx hcall hctx hok
    obtain ⟨_, _, _, _, _, hout⟩ := hr.of_mem e he
    rw [hout] at hok ⊢
    simp only [provider, hcall] at hok ⊢
    cases hoff : table.offers (.oneshotInit mdname provkey params) with
    | false => simp [Sys.step, hctx, hoff] at hok
    | true =>
        rw [step_sig hctx hoff] at hok ⊢
        exact ⟨_, Function.update_self .., oneshotInit_judged hok⟩

/-- The salt length a caller would think is used: the one asked for. Of "auto"
nothing is said. -/
def askedSalt : Option Int → Option Int
  | none => some rsa_PSS_SALTLEN_DIGEST
  | some n =>
      if n = rsa_PSS_SALTLEN_DIGEST ∨ n = rsa_PSS_SALTLEN_MAX ∨ 0 ≤ n then some n
      else none

namespace Bench

/-- An RSA-PSS verification is set up for a salt of 20 bytes. -/
def salted : List Call := opening "alias/rsa" .prehash ++ [
  onCtx (.verifyInit (some 0) (some [strParam "digest" "SHA256",
    strParam "pad-mode" "pss", strParam "saltlen" "20"]))]

def verifySalted : Call := onCtx (.verify rsaSig sha256Abc)

/-- Beside it, the end of a stream, and a one-shot verification with another
key. -/
def verified : List Call := salted ++ [verifySalted,
  onCtx (.digestVerifyInit (some (ascii "SHA384")) none none),
  onCtx (.digestVerifyUpdate (ascii "a")),
  onCtx (.digestVerifyUpdate (ascii "bc")),
  onCtx (.digestVerifyFinal rsaSig),
  .storeOpen (some (ascii "aws-kms:key-id=alias/ed")),
  .storeLoad 1 ⟨true, true⟩,
  .sigNewctx .oneshot none,
  .sig 1 (.oneshotInit none (some 1) none)]

def verifyEd : Call := .sig 1 (.oneshotVerify edSig [0x72])

/-- The public keys of the RSA key are one. -/
theorem publicKey_salted {pk : PubKey}
    (hpk : PublicKeyOf (fun env => ∃ e ∈ runOf salted, e.input.env = env)
      ((stateOf salted).keys 0) pk) : pk = .rsa := by
  rcases hpk with ⟨propq, hshown⟩ | ⟨env', propq, n, ⟨e, he, rfl⟩, -, hdec⟩
  · have hrsa : ((stateOf salted).keys 0).pub.pkey.map (·.key) = some .rsa := by
      decide +kernel
    rw [hshown] at hrsa
    exact Option.some.inj hrsa
  · have hrsa : (env.d2iPubkey ((stateOf salted).keys 0).pub.der "").map (·.1) =
        some .rsa := by decide +kernel
    rw [runOf_env he] at hdec
    rw [show env.d2iPubkey ((stateOf salted).keys 0).pub.der "" = some (pk, n) from hdec]
      at hrsa
    exact Option.some.inj hrsa

end Bench

theorem verifies_as_told_verified :
    (Bench.recOf Bench.verified Bench.verifyEd).out.ok = true ∧
    givenTo Bench.host (Bench.runOf (Bench.verified.take 8)) 0 =
      ⟨⟨some .sha384, some .pss, some 20, none, none, none⟩, some 0,
        some ⟨.sha384, [ascii "a", ascii "bc"], true⟩⟩ ∧
    VerifiesAsTold Bench.host (fun _ => some rsa_PSS_SALTLEN_DIGEST)
      (Bench.runOf (Bench.verified ++ [Bench.verifyEd])) :=
  ⟨by decide +kernel, by decide +kernel, verifies_as_told (Bench.run_runOf (by decide +kernel))⟩

/-- A signature with a salt of that length is not accepted. -/
theorem not_verified_as_asked :
    ¬ ∀ evs s, (provider Bench.host).Run evs s →
      VerifiesAsTold Bench.host askedSalt evs := by
  intro hall
  have hrun := hall (Bench.runOf (Bench.salted ++ [Bench.verifySalted])) _
    (Bench.run_runOf (by decide +kernel))
  rw [Bench.runOf_snoc] at hrun
  have hpre : ((Bench.recOf Bench.salted Bench.verifySalted).pre.ctxs 0).map (fun p =>
      (p.1, decide ((unsupportedParamsRefused
        (Bench.recOf Bench.salted Bench.verifySalted).pre.keys p.2).ok = true))) =
        some (.prehash, true) := by decide +kernel
  obtain ⟨⟨table, ctx⟩, hctx, hpair⟩ := Option.map_eq_some_iff.mp hpre
  obtain ⟨rfl, hrefused⟩ := Prod.mk.inj hpair
  have hkey : (givenTo Bench.host (Bench.runOf Bench.salted) 0).key = some 0 := by
    decide +kernel
  have hdemands : (givenTo Bench.host (Bench.runOf Bench.salted) 0).demands =
      ⟨some .sha256, some .pss, some 20, none, none, none⟩ := by decide +kernel
  have hdec := hrun.digests _ _ [] rfl 0 _ _ ctx _ _ _ 20 rfl hctx rfl
    (of_decide_eq_true hrefused) Submits.digest (by rw [hdemands]; rfl)
  rw [hkey, hdemands, Bench.recOf_pre] at hdec
  have hshows : ((Bench.stateOf Bench.salted).keys 0).pub.pkey.isSome = true := by
    decide +kernel
  have hfamily : (awskmsKeySpec ((Bench.stateOf Bench.salted).keys 0)).family = .rsa := by
    decide +kernel
  have hfails : (Bench.recOf Bench.salted Bench.verifySalted).out.ok = false := by
    decide +kernel
  have hok := hdec.complete rfl (fun _ => rfl) ((Bench.stateOf Bench.salted).keys 0) rfl
    hshows ?_
  · rw [hfails] at hok
    cases hok
  · intro pk hpk
    obtain rfl := Bench.publicKey_salted hpk
    rw [toldParams, hfamily]
    decide +kernel

end AwsKms.Model
