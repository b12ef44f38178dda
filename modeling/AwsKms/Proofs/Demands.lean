import AwsKms.Proofs.Legal

/-!
# What a request owes its caller

A caller makes six demands, at any time and in any order, and the request that
is finally issued has to meet every one of them, because KMS leaves no trace of
the ones it does not. `Honours` says so from the caller's side and the
service's. Two checks are made when a demand is set and not again when the
signature is made: the MGF1 digest is compared with the digest selected then,
and a digest is refused by a one-shot init and by nothing after it.
`Compatible` is what is left to hope for at that point, and it is exact.
-/

namespace AwsKms.Model

open AwsKms.Lib AwsKms.Spec

section

variable {Alg Key : Type} {h : Host Alg Key} {keys : Keys Key}

/-- A name a digest goes by names every digest that goes by another of its
names: `EVP_MD_is_a` on the aliases of one algorithm. -/
def NamesDigests (h : Host Alg Key) : Prop :=
  ∀ a b n m, h.mdIsA a n = true → h.mdIsA a m = true → h.mdIsA b n = true →
    h.mdIsA b m = true

/-- KMS salts with the digest length, which is also what `auto` takes. -/
def SaltHonoured (digestLen : Nat) (n : Int) : Prop :=
  n = rsa_PSS_SALTLEN_DIGEST ∨ n = rsa_PSS_SALTLEN_AUTO ∨ n = digestLen

/-- A request meets every demand on record. The MGF1 digest of KMS is the
digest of the algorithm. -/
structure Honours (h : Host Alg Key) (keys : Keys Key) (sc : SigCall)
    (ctx : AwskmsSigCtx Alg Key) (d : Demands Alg) (req : KmsRequest) :
    Prop where
  digest : ∀ alg, d.digest = some alg →
    digestOf req.signingAlgorithm = awskmsDigestOf h alg
  context : ∀ data, d.context = some data → data ≠ [] →
    req.messageType = .EXTERNAL_MU ∧ ∃ pub tr,
      operationPubkey keys ctx = some pub ∧ pub.tr = some tr ∧
      req.msg = h.shake256 (muInput tr.bytes data sc.tbs)
  instanceName : ∀ name, d.instanceName = some name → name = [] ∨
    (ctx.spec keys).family = .ed25519 ∧
      awskmsAsciiEqual name (ascii "Ed25519") = true
  padding : (ctx.spec keys).family = .rsa → ∀ mode, d.padding = some mode →
    paddingOf req.signingAlgorithm = some mode
  saltlen : paddingOf req.signingAlgorithm = some .pss →
    ∀ n, d.saltlen = some n →
    SaltHonoured (awskmsDigestLength (digestOf req.signingAlgorithm)) n
  mgf1 : paddingOf req.signingAlgorithm = some .pss →
    ∀ name, d.mgf1 = some name → ∀ digest,
    awskmsDigestName (digestOf req.signingAlgorithm) = some digest →
    ∀ alg, h.mdIsA alg (ascii digest) = true → h.mdIsA alg name = true

/-- A one-shot signature finds no digest on record, and a PSS signature finds
the selected digest to be the MGF1 digest on record. -/
structure Compatible (h : Host Alg Key) (keys : Keys Key) (sc : SigCall)
    (ctx : AwskmsSigCtx Alg Key) (d : Demands Alg) : Prop where
  oneshot : ∀ buf tbs, sc = .oneshotSign buf tbs → d.digest = none
  mgf1 : signsWithPss keys ctx = true → ∀ name, d.mgf1 = some name →
    ∃ md, ctx.md = some md ∧ h.mdIsA md.alg name = true

/-- The instance of an accepted context is the pure one. -/
theorem Accepted.instanceName {ctx : AwskmsSigCtx Alg Key} {buf : SigBuf}
    (ha : Accepted h keys ctx buf) {d : Demands Alg} (hd : Mirrors ctx d)
    {name : Bytes} (hname : d.instanceName = some name) :
    name = [] ∨ (ctx.spec keys).family = .ed25519 ∧
      awskmsAsciiEqual name (ascii "Ed25519") = true := by
  have hhas : ctx.hasInstance = true := by rw [hd.hasInstance, hname]; rfl
  have hin : ctx.instanceName = name := by rw [hd.instanceName, hname]; rfl
  have hpure := ha.pure
  simp only [instanceIsPure, hhas, hin, Bool.not_true, Bool.false_or,
    Bool.or_eq_true, Bool.and_eq_true, beq_iff_eq] at hpure
  exact hpure

/-- A context string on record that is not empty is on an ML-DSA context. -/
theorem Accepted.context_mlDsa {ctx : AwskmsSigCtx Alg Key} {buf : SigBuf}
    (ha : Accepted h keys ctx buf) {d : Demands Alg} (hd : Mirrors ctx d)
    {data : Bytes} (hdata : d.context = some data) (hne : data ≠ []) :
    ctx.context.bytes = data ∧ (ctx.spec keys).family = .mlDsa := by
  have hbytes : ctx.context.bytes = data := by rw [hd.context, hdata]; rfl
  refine ⟨hbytes, ha.context.resolve_left fun hlen => hne ?_⟩
  rw [← hbytes]
  exact ContextString.bytes_eq_nil.mpr hlen

theorem saltHonoured_of_satisfiable {ctx : AwskmsSigCtx Alg Key} {len : Nat}
    (hsat : saltlenIsSatisfiable ctx len = true) :
    SaltHonoured len ctx.pssSaltlen := by
  unfold saltlenIsSatisfiable at hsat
  split at hsat
  · next hn => exact .inl hn
  · split at hsat
    · next hn => exact .inr (.inl hn)
    · split at hsat
      · cases hsat
      · split at hsat
        · cases hsat
        · exact .inr (.inr (beq_iff_eq.mp hsat))

/-- Only a PSS signature names a PSS algorithm. -/
theorem pss_of_paddingOf {spec : AwskmsKeyspec} (hspec : spec ∈ specs)
    {digest : AwskmsDigest} {pss : Bool} {algorithm : SigningAlgorithm}
    (halg : awskmsSigningAlgorithm spec digest pss = some algorithm)
    (hpad : paddingOf algorithm = some .pss) : pss = true := by
  cases pss with
  | true => rfl
  | false =>
      exfalso
      revert hpad
      simp only [specs, List.mem_cons, List.not_mem_nil, or_false] at hspec
      rcases hspec with rfl | rfl | rfl | rfl | rfl | rfl | rfl | rfl | rfl | rfl
      all_goals
        cases digest <;>
          first
            | (obtain rfl := Option.some.inj halg; decide)
            | cases halg

theorem mdIsA_of_class {alg : Alg} {name : String}
    (hname : awskmsDigestName (awskmsDigestOf h alg) = some name) :
    h.mdIsA alg (ascii name) = true := by
  unfold awskmsDigestOf at hname
  split at hname
  · next hm =>
      obtain rfl := Option.some.inj hname
      exact hm
  · split at hname
    · next hm =>
        obtain rfl := Option.some.inj hname
        exact hm
    · split at hname
      · next hm =>
          obtain rfl := Option.some.inj hname
          exact hm
      · cases hname

theorem DigestRequest.honours_iff (hnames : NamesDigests h)
    {ctx : AwskmsSigCtx Alg Key} {buf : SigBuf} {digest : Bytes}
    {req : KmsRequest} (hreq : DigestRequest h keys ctx buf digest req)
    (hspec : ctx.spec keys ∈ specs) {d : Demands Alg} (hd : Mirrors ctx d)
    (hclass : Classified h ctx) {sc : SigCall}
    (hsc : ∀ buf tbs, sc ≠ .oneshotSign buf tbs) :
    Honours h keys sc ctx d req ↔ Compatible h keys sc ctx d := by
  obtain ⟨_, hdig, hpad⟩ := awskmsSigningAlgorithm_legal hspec hreq.algorithm
  obtain ⟨md, hmd, hmdclass⟩ := hclass.resolve_left hreq.selected
  have halg : digestOf req.signingAlgorithm = awskmsDigestOf h md.alg :=
    hdig.trans hmdclass
  have hpss : paddingOf req.signingAlgorithm = some .pss ↔
      signsWithPss keys ctx = true := by
    refine ⟨pss_of_paddingOf hspec hreq.algorithm, fun hp => ?_⟩
    have hrsa : (ctx.spec keys).family = .rsa := by
      simp only [signsWithPss, Bool.and_eq_true, beq_iff_eq] at hp
      exact hp.1
    rw [hpad hrsa, if_pos hp]
  refine ⟨fun hh => ⟨fun buf tbs hone => absurd hone (hsc buf tbs), ?_⟩,
    fun hc => ⟨?_, ?_, ?_, ?_, ?_, ?_⟩⟩
  · intro hp name hname
    obtain ⟨digestName, hdigest⟩ : ∃ n,
        awskmsDigestName (digestOf req.signingAlgorithm) = some n := by
      cases hd' : digestOf req.signingAlgorithm with
      | none => exact absurd (hdig.symm.trans hd') hreq.selected
      | other => cases hs : req.signingAlgorithm <;> rw [hs] at hd' <;> cases hd'
      | sha256 => exact ⟨_, rfl⟩
      | sha384 => exact ⟨_, rfl⟩
      | sha512 => exact ⟨_, rfl⟩
    have hisA : h.mdIsA md.alg (ascii digestName) = true :=
      mdIsA_of_class (halg ▸ hdigest)
    exact ⟨md, hmd, hh.mgf1 (hpss.mpr hp) name hname _ hdigest _ hisA⟩
  · intro alg halg'
    have hsel := hd.digest
    rw [hmd, halg'] at hsel
    rw [halg]
    exact congrArg (awskmsDigestOf h) (Option.some.inj hsel)
  · intro data hdata hne
    obtain ⟨_, hml⟩ := hreq.context_mlDsa hd hdata hne
    rcases digest_family hreq.selected hreq.algorithm with hf | hf <;>
      rw [hf] at hml <;> cases hml
  · exact fun name hname => hreq.instanceName hd hname
  · intro hrsa mode hmode
    have hpadMode := hd.padding
    rw [hmode, Option.getD_some] at hpadMode
    rw [hpad hrsa, signsWithPss, hrsa, hpadMode]
    cases mode <;> rfl
  · intro hp n hn
    have hsalt := hd.saltlen
    rw [hn, Option.getD_some] at hsalt
    rw [hdig, ← hsalt]
    exact saltHonoured_of_satisfiable (hreq.salt (hpss.mp hp))
  · intro hp name hname digestName hdigest alg hisA
    obtain ⟨md', hmd', hname'⟩ := hc.mgf1 (hpss.mp hp) name hname
    obtain rfl := Option.some.inj (hmd.symm.trans hmd')
    exact hnames _ _ _ _ (mdIsA_of_class (halg ▸ hdigest)) hname' hisA

theorem OneshotRequest.honours_iff {ctx : AwskmsSigCtx Alg Key}
    {buf : SigBuf} {tbs : Bytes} {req : KmsRequest}
    (hreq : OneshotRequest h keys ctx buf tbs req)
    (hspec : ctx.spec keys ∈ specs) {d : Demands Alg} (hd : Mirrors ctx d) :
    Honours h keys (.oneshotSign buf tbs) ctx d req ↔
      Compatible h keys (.oneshotSign buf tbs) ctx d := by
  obtain ⟨_, hdig, _⟩ := awskmsSigningAlgorithm_legal hspec hreq.algorithm
  have hnrsa : (ctx.spec keys).family ≠ .rsa := by
    intro hrsa
    have hnone := hreq.algorithm
    simp only [awskmsSigningAlgorithm, hrsa] at hnone
    cases hnone
  have hnpss : paddingOf req.signingAlgorithm ≠ some .pss := by
    intro hp
    have hfalse := pss_of_paddingOf hspec hreq.algorithm hp
    cases hfalse
  refine ⟨fun hh => ⟨fun _ _ _ => ?_, fun hp => ?_⟩,
    fun hc => ⟨?_, ?_, ?_, ?_, ?_, ?_⟩⟩
  · cases hdd : d.digest with
    | none => rfl
    | some alg =>
        have hno := hh.digest alg hdd
        rw [hdig] at hno
        unfold awskmsDigestOf at hno
        split at hno
        · cases hno
        · split at hno
          · cases hno
          · split at hno <;> cases hno
  · simp only [signsWithPss, Bool.and_eq_true, beq_iff_eq] at hp
    exact absurd hp.1 hnrsa
  · intro alg halg
    rw [hc.oneshot _ _ rfl] at halg
    cases halg
  · intro data hdata hne
    obtain ⟨hbytes, hml⟩ := hreq.context_mlDsa hd hdata hne
    have hmessage := hreq.message
    revert hmessage
    generalize req.messageType = messageType
    generalize req.msg = msg
    intro hmessage
    cases hmessage with
    | raw htype _ _ =>
        have hed := (msgType_family hspec).1.mp htype
        rw [hml] at hed
        cases hed
    | mu _ hpub htr => exact ⟨rfl, _, _, hpub, htr, by rw [hbytes]; rfl⟩
  · exact fun name hname => hreq.instanceName hd hname
  · exact fun hrsa => absurd hrsa hnrsa
  · exact fun hp => absurd hp hnpss
  · exact fun hp => absurd hp hnpss

/-- A parameter or init call that fails leaves the demands on record as they
were. -/
def FailsClean (h : Host Alg Key) (env : Env Alg Key) (keys : Keys Key)
    (sc : SigCall) (ctx : AwskmsSigCtx Alg Key) (d : Demands Alg) : Prop :=
  (sigCall h env keys sc ctx).ok = false → taken h env keys sc ctx d = d

instance [DecidableEq Alg] (env : Env Alg Key) (keys : Keys Key) (sc : SigCall)
    (ctx : AwskmsSigCtx Alg Key) (d : Demands Alg) :
    Decidable (FailsClean h env keys sc ctx d) :=
  inferInstanceAs (Decidable (_ → _))

/-- The request of a signing call, under a condition on it. -/
def EachRequest (h : Host Alg Key)
    (P : Keys Key → SigCall → AwskmsSigCtx Alg Key → Demands Alg →
      KmsRequest → Prop)
    (evs : List (Rec (Sys Alg Key) (Input Alg Key) Event)) : Prop :=
  ∀ before e after, evs = before ++ e :: after →
    ∀ c sc table ctx req, e.input.call = .sig c sc →
      e.pre.ctxs c = some (table, ctx) → req ∈ requests e.out.trace →
      P e.pre.keys sc ctx (historyOf (accepted h) Demands.none before c) req

/-- In every run whose failing calls took nothing, a request honours every
demand last accepted exactly when the demands are compatible. -/
theorem requests_honour_iff (hnames : NamesDigests h)
    {evs : List (Rec (Sys Alg Key) (Input Alg Key) Event)} {s : Sys Alg Key}
    (hr : (provider h).Run evs s)
    (hclean : EachCall (taken h) Demands.none (FailsClean h) evs) :
    EachRequest h (fun keys sc ctx d req =>
      Honours h keys sc ctx d req ↔ Compatible h keys sc ctx d) evs := by
  rintro before e after hsplit c sc table ctx req hcall hctx hreq
  obtain ⟨hpre, c', sc', table', ctx', r, hcall', hctx', _, hkey, hlive, hsign,
    _⟩ := run_requests hr hsplit hreq
  obtain ⟨rfl, rfl⟩ := Call.sig.inj (hcall.symm.trans hcall')
  obtain ⟨rfl, rfl⟩ := Prod.mk.inj (Option.some.inj (hctx.symm.trans hctx'))
  have hsame : historyOf (accepted h) Demands.none before =
      historyOf (taken h) Demands.none before := by
    subst hsplit
    refine historyOf_congr fun pre e' post hs => ?_
    have hat := hclean.before pre e' post hs
    unfold CallAt at hat ⊢
    split
    · next c0 sc0 hc0 =>
        simp only [hc0] at hat
        split
        · trivial
        · next t0 ctx0 hctx0 =>
            simp only [hctx0] at hat
            intro hoff
            unfold accepted
            split
            · rfl
            · next hok =>
                exact (hat hoff (by simpa using hok)).symm
    · trivial
  have hmirror := mirrors_run hpre hctx
  rw [← hsame] at hmirror
  have hspec : ctx.spec e.pre.keys ∈ specs := spec_mem_run hpre hkey hlive
  have hclass := classified_run hpre hctx
  cases hsign with
  | sign _ hd =>
      exact hd.honours_iff hnames hspec hmirror hclass fun _ _ heq => by cases heq
  | final _ _ hd =>
      exact hd.honours_iff hnames hspec hmirror hclass fun _ _ heq => by cases heq
  | oneshot ho => exact ho.honours_iff hspec hmirror

end

namespace Bench

theorem isA_inj {a b : Digest} {n : Bytes} (ha : a.isA n = true)
    (hb : b.isA n = true) : a = b := by
  obtain ⟨x, hx, hnx⟩ := List.any_eq_true.mp ha
  obtain ⟨y, hy, hny⟩ := List.any_eq_true.mp hb
  have hxy : (ascii x).map asciiLower = (ascii y).map asciiLower :=
    (beq_iff_eq.mp hnx).symm.trans (beq_iff_eq.mp hny)
  have hfinite : ∀ x ∈ a.names, ∀ y ∈ b.names,
      (ascii x).map asciiLower = (ascii y).map asciiLower → a = b := by
    cases a <;> cases b <;> decide
  exact hfinite x hx y hy hxy

theorem namesDigests : NamesDigests host := by
  intro a b n m ha hm hb
  obtain rfl := isA_inj ha hb
  exact hm

/-- PSS with SHA-256 throughout. -/
def pssSha256 : List Call := opening "alias/rsa" .prehash ++ [
  onCtx (.signInit (some 0) (some [strParam "digest" "SHA256",
    strParam "pad-mode" "pss", strParam "saltlen" "digest",
    strParam "mgf1-digest" "SHA256"]))]

/-- The same, with the digest changed afterwards. -/
def pssMixed : List Call := pssSha256 ++ [
  onCtx (.setCtxParams (some [strParam "digest" "SHA384"]))]

end Bench

theorem requests_honour_iff_pssSha256 :
    requests (Bench.recOf Bench.pssSha256
      (Bench.onCtx (.sign Bench.buf Bench.sha256Abc))).out.trace ≠ [] ∧
    EachRequest Bench.host (fun keys sc ctx d req =>
      Honours Bench.host keys sc ctx d req ↔ Compatible Bench.host keys sc ctx d)
      (Bench.runOf (Bench.pssSha256 ++
        [Bench.onCtx (.sign Bench.buf Bench.sha256Abc)])) :=
  ⟨by decide +kernel, requests_honour_iff Bench.namesDigests
    (Bench.run_runOf (by decide +kernel)) (by decide +kernel)⟩

/-- MGF1 with SHA-256 was accepted, and KMS is asked for SHA-384. -/
theorem requests_not_honour :
    ¬ ∀ evs s, (provider Bench.host).Run evs s →
      EachRequest Bench.host (Honours Bench.host) evs := by
  intro hall
  have hrun := hall (Bench.runOf (Bench.pssMixed ++
    [Bench.onCtx (.sign Bench.buf Bench.sha384Abc)])) _
    (Bench.run_runOf (by decide +kernel))
  rw [Bench.runOf_snoc] at hrun
  have hpre : ((Bench.recOf Bench.pssMixed
      (Bench.onCtx (.sign Bench.buf Bench.sha384Abc))).pre.ctxs 0).isSome := by
    decide +kernel
  obtain ⟨⟨table, ctx⟩, hctx⟩ := Option.isSome_iff_exists.mp hpre
  have hhonours := hrun _ _ [] rfl 0 (.sign Bench.buf Bench.sha384Abc) table ctx
    ⟨⟨some (ascii "alias/rsa"), none, none, none⟩, false,
      .RSASSA_PSS_SHA_384, .DIGEST, Bench.sha384Abc⟩ rfl hctx
    (by decide +kernel)
  have hmgf1 : (historyOf (accepted Bench.host) Demands.none
      (Bench.runOf Bench.pssMixed) 0).mgf1 = some (ascii "SHA256") := by
    decide +kernel
  have hno := hhonours.mgf1 rfl _ hmgf1 _ rfl Bench.Digest.sha384 (by decide)
  revert hno
  decide

end AwsKms.Model
