import AwsKms.Proofs.Context

/-!
# Where a request to KMS comes from

Every check a signature goes through stands in front of one of the two places
that call `awskms_kms_sign`. `DigestRequest` and `OneshotRequest` collect what
must have been true for a request to get past them, so that a property of all
requests is read off a structure and not off the code again. `SignCall` says
which dispatch calls can get there; no other call can.
-/

namespace AwsKms.Model

open AwsKms.Lib

variable {Alg Key : Type} {h : Host Alg Key} {env : Env Alg Key}
  {keys : Keys Key}

theorem awskmsKmsSign_requests {req : KmsRequest} {n : Nat} :
    requests (awskmsKmsSign env req n).trace = [req] := by
  unfold awskmsKmsSign
  split
  · rfl
  · split
    · rfl
    · rfl

/-- A call that succeeds wrote the signature KMS sent, and it fits. -/
theorem awskmsKmsSign_ok {req : KmsRequest} {n : Nat}
    (hok : (awskmsKmsSign env req n).ok = true) :
    ∃ blob, env.sign req = .ok blob ∧ blob.length ≤ n ∧
      (awskmsKmsSign env req n).trace =
        [.kmsSign req, .writeSig blob, .setSiglen blob.length] := by
  unfold awskmsKmsSign at hok ⊢
  cases hs : env.sign req with
  | error e =>
      simp only [hs] at hok
      cases hok
  | ok blob =>
      simp only [hs] at hok ⊢
      split at hok
      · cases hok
      · next hfit =>
          rw [if_neg hfit]
          exact ⟨blob, rfl, by omega, rfl⟩

/-- The bound key's URI. -/
def boundUri (keys : Keys Key) (ctx : AwskmsSigCtx Alg Key) : AwskmsUri :=
  (ctx.key.map fun r => (keys r).uri).getD AwskmsUri.zero

/-- The checks both signing paths make before they look at their input. -/
structure Accepted (h : Host Alg Key) (keys : Keys Key)
    (ctx : AwskmsSigCtx Alg Key) (buf : SigBuf) : Prop where
  sig : buf.sigNull = false
  siglen : buf.siglenNull = false
  sized : requiredSigSize h keys ctx ≠ 0
  fits : requiredSigSize h keys ctx ≤ buf.sigsize
  pure : instanceIsPure (ctx.spec keys) ctx = true
  context : ctx.context.len = 0 ∨ (ctx.spec keys).family = .mlDsa

theorem outputBufferFits_ok {buf : SigBuf} {ctx : AwskmsSigCtx Alg Key} :
    (outputBufferFits h keys buf ctx).ok = true ↔
      buf.siglenNull = false ∧ requiredSigSize h keys ctx ≠ 0 ∧
        requiredSigSize h keys ctx ≤ buf.sigsize := by
  unfold outputBufferFits
  simp only []
  split
  · next hbad =>
      refine ⟨nofun, fun ⟨hl, hz, _⟩ => ?_⟩
      rcases hbad with hb | hb
      · rw [hb] at hl
        cases hl
      · exact absurd hb hz
  · next hgood =>
      rw [not_or] at hgood
      split
      · next hfit => exact ⟨fun _ => ⟨by simpa using hgood.1, hgood.2, hfit⟩, fun _ => rfl⟩
      · next hfit => exact ⟨nofun, fun ⟨_, _, hf⟩ => absurd hf hfit⟩

theorem unsupportedParamsRefused_ok {ctx : AwskmsSigCtx Alg Key} :
    (unsupportedParamsRefused keys ctx).ok = true ↔
      instanceIsPure (ctx.spec keys) ctx = true ∧
        (ctx.context.len = 0 ∨ (ctx.spec keys).family = .mlDsa) := by
  unfold unsupportedParamsRefused
  simp only []
  split
  · next hp => exact ⟨nofun, fun ⟨hq, _⟩ => absurd hq (by simp [hp])⟩
  · next hp =>
      have hpure : instanceIsPure (ctx.spec keys) ctx = true := by simpa using hp
      split
      · next hl => exact ⟨fun _ => ⟨hpure, .inl hl⟩, fun _ => rfl⟩
      · next hl =>
          split
          · next hf => exact ⟨fun _ => ⟨hpure, .inr hf⟩, fun _ => rfl⟩
          · next hf =>
              refine ⟨nofun, fun ⟨_, hc⟩ => ?_⟩
              rcases hc with hc | hc
              · exact absurd hc hl
              · exact absurd hc hf

/-! ## Checks ask for nothing

A check that passes is silent, and one that fails raises at most an error and
reports a size. -/

/-- A reply with no request in it, and nothing at all in it when it passes. -/
structure Check (r : Reply Event) : Prop where
  requests : requests r.trace = []
  silent : r.ok = true → r.trace = []

theorem check_outputBufferFits {buf : SigBuf} {ctx : AwskmsSigCtx Alg Key} :
    Check (outputBufferFits h keys buf ctx) := by
  unfold outputBufferFits
  simp only []
  split
  · exact ⟨rfl, fun _ => rfl⟩
  · split
    · exact ⟨rfl, fun _ => rfl⟩
    · exact ⟨rfl, nofun⟩

theorem check_unsupportedParamsRefused {ctx : AwskmsSigCtx Alg Key} :
    Check (unsupportedParamsRefused keys ctx) := by
  unfold unsupportedParamsRefused
  simp only []
  split
  · exact ⟨rfl, nofun⟩
  · split
    · exact ⟨rfl, fun _ => rfl⟩
    · split
      · exact ⟨rfl, fun _ => rfl⟩
      · exact ⟨rfl, nofun⟩

theorem check_requireDigest {ctx : AwskmsSigCtx Alg Key} :
    Check (requireDigest keys ctx) := by
  unfold requireDigest
  split
  · exact ⟨rfl, nofun⟩
  · exact ⟨rfl, fun _ => rfl⟩

theorem requireDigest_ok {ctx : AwskmsSigCtx Alg Key} :
    (requireDigest keys ctx).ok = true ↔ ctx.digest ≠ .none := by
  unfold requireDigest
  split
  · next hd => exact ⟨nofun, fun hne => absurd hd hne⟩
  · next hd => exact ⟨fun _ => hd, fun _ => rfl⟩

theorem sizeProbe_requests {buf : SigBuf} {ctx : AwskmsSigCtx Alg Key} :
    requests (sizeProbe h keys buf ctx).trace = [] := by
  unfold sizeProbe
  split
  · rfl
  · rfl

/-- A reply that issued no request, and failed unless it was a size probe. -/
def Local (buf : SigBuf) (r : Reply Event) : Prop :=
  requests r.trace = [] ∧ (buf.sigNull = false → r.ok = false)

/-- Past a check, a reply is its own; a check that fails keeps it local. -/
theorem Check.andThen {r k : Reply Event} {buf : SigBuf} (hr : Check r) :
    r.ok = true ∧ r.andThen k = k ∨ r.ok = false ∧ Local buf (r.andThen k) := by
  cases hok : r.ok with
  | true => exact .inl ⟨rfl, Reply.andThen_of_silent hok (hr.silent hok)⟩
  | false =>
      rw [Reply.andThen_of_failed hok]
      exact .inr ⟨rfl, hr.requests, fun _ => hok⟩

/-- What has to hold for `sign_digest` to issue a request. -/
structure DigestRequest (h : Host Alg Key) (keys : Keys Key)
    (ctx : AwskmsSigCtx Alg Key) (buf : SigBuf) (digest : Bytes)
    (req : KmsRequest) : Prop extends Accepted h keys ctx buf where
  selected : ctx.digest ≠ .none
  algorithm : awskmsSigningAlgorithm (ctx.spec keys) ctx.digest
    (signsWithPss keys ctx) = some req.signingAlgorithm
  length : digest.length = awskmsDigestLength ctx.digest
  salt : signsWithPss keys ctx = true →
    saltlenIsSatisfiable ctx (awskmsDigestLength ctx.digest) = true
  request : req = ⟨boundUri keys ctx, operationRequiresFips keys ctx,
    req.signingAlgorithm, .DIGEST, digest⟩

variable (h env keys) in
/-- `sign_digest` is its one request with every check behind it, or it is
local. -/
theorem signDigest_cases (ctx : AwskmsSigCtx Alg Key) (buf : SigBuf)
    (digest : Bytes) :
    (∃ req, DigestRequest h keys ctx buf digest req ∧
      signDigest h env keys ctx buf digest =
        awskmsKmsSign env req buf.sigsize) ∨
    Local buf (signDigest h env keys ctx buf digest) := by
  unfold signDigest
  split
  · next hnull => exact .inr ⟨sizeProbe_requests, fun hf => by simp [hnull] at hf⟩
  · next hnull =>
      rcases check_outputBufferFits.andThen with ⟨hfit, heq⟩ | ⟨_, hloc⟩
      rotate_left
      · exact .inr hloc
      rw [heq]
      rcases check_requireDigest.andThen with ⟨hsel, heq⟩ | ⟨_, hloc⟩
      rotate_left
      · exact .inr hloc
      rw [heq]
      rcases check_unsupportedParamsRefused.andThen with ⟨hpar, heq⟩ | ⟨_, hloc⟩
      rotate_left
      · exact .inr hloc
      rw [heq]
      obtain ⟨hsl, hsized, hfits⟩ := outputBufferFits_ok.mp hfit
      obtain ⟨hpure, hctx⟩ := unsupportedParamsRefused_ok.mp hpar
      cases halg : awskmsSigningAlgorithm (ctx.spec keys) ctx.digest
          (signsWithPss keys ctx) with
      | none =>
          simp only [signChecked, halg]
          exact .inr ⟨rfl, fun _ => rfl⟩
      | some algorithm =>
          simp only [signChecked, halg, signWith]
          split
          · exact .inr ⟨rfl, fun _ => rfl⟩
          · next hlen =>
              split
              · exact .inr ⟨rfl, fun _ => rfl⟩
              · next hsalt =>
                  refine .inl ⟨_, ⟨⟨by simpa using hnull, hsl, hsized, hfits,
                    hpure, hctx⟩, requireDigest_ok.mp hsel, halg,
                    Decidable.not_not.mp hlen, ?_, rfl⟩, rfl⟩
                  intro hpss
                  simpa [hpss] using hsalt

/-! ## The one-shot path

Here the message is signed as it is, or by its mu, and there is no digest on
the way. What stands in front of the request is the judgement of the settings
that KMS has no place for, and the limit on what it takes raw. -/

/-- What the one-shot path puts into the message of its request. -/
inductive OneshotMessage (h : Host Alg Key) (keys : Keys Key)
    (ctx : AwskmsSigCtx Alg Key) (tbs : Bytes) :
    MessageType → Bytes → Prop where
  | raw : (ctx.spec keys).msgType = .raw → tbs.length ≠ 0 →
      tbs.length ≤ 4096 → OneshotMessage h keys ctx tbs .RAW tbs
  | mu {pub : AwskmsPubkey Key} {tr : AwskmsTr} :
      (ctx.spec keys).msgType = .externalMu →
      operationPubkey keys ctx = some pub → pub.tr = some tr →
      OneshotMessage h keys ctx tbs .EXTERNAL_MU
        (h.shake256 (muInput tr.bytes ctx.context.bytes tbs))

/-- What has to hold for a one-shot signature to issue a request. -/
structure OneshotRequest (h : Host Alg Key) (keys : Keys Key)
    (ctx : AwskmsSigCtx Alg Key) (buf : SigBuf) (tbs : Bytes)
    (req : KmsRequest) : Prop extends Accepted h keys ctx buf where
  bound : ctx.key.isSome
  algorithm : awskmsSigningAlgorithm (ctx.spec keys) .none false =
    some req.signingAlgorithm
  message : OneshotMessage h keys ctx tbs req.messageType req.msg
  uri : req.uri = boundUri keys ctx
  fips : req.fipsRequired = operationRequiresFips keys ctx

theorem shakeOver_requests {fips : Bool} {input : Bytes}
    {failed : ProviderError} :
    requests (shakeOver h env fips input failed).1.trace = [] := by
  unfold shakeOver
  simp only []
  split
  · rfl
  · split
    · rfl
    · split
      · rfl
      · rfl

theorem computeMu_requests {ctx : AwskmsSigCtx Alg Key} {msg : Bytes} :
    requests (computeMu h env keys ctx msg).1.trace = [] := by
  unfold computeMu
  split
  · rfl
  · unfold awskmsMu
    split
    · rfl
    · exact shakeOver_requests

theorem computeMu_ok {ctx : AwskmsSigCtx Alg Key} {msg : Bytes}
    (hok : (computeMu h env keys ctx msg).1.ok = true) :
    ∃ pub tr, operationPubkey keys ctx = some pub ∧ pub.tr = some tr ∧
      (computeMu h env keys ctx msg).2 =
        h.shake256 (muInput tr.bytes ctx.context.bytes msg) := by
  cases hp : (operationPubkey keys ctx).bind fun pub => pub.tr with
  | none =>
      simp only [computeMu, hp] at hok
      cases hok
  | some tr =>
      obtain ⟨pub, hpub, htr⟩ := Option.bind_eq_some_iff.mp hp
      simp only [computeMu, hp, awskmsMu] at hok ⊢
      split at hok
      · cases hok
      · next hlen =>
          rw [if_neg hlen]
          exact ⟨pub, tr, hpub, htr, shakeOver_ok hok⟩

/-- The last step of the one-shot path: a request behind the checks of its
message type, after the silent or traced computation of mu. -/
theorem oneshotBody_cases {ctx : AwskmsSigCtx Alg Key}
    {algorithm : SigningAlgorithm} {buf : SigBuf} {tbs : Bytes} :
    (∃ req pre, OneshotMessage h keys ctx tbs req.messageType req.msg ∧
      req = oneshotRequest keys ctx algorithm req.messageType req.msg ∧
      requests pre = [] ∧ oneshotBody h env keys ctx algorithm buf tbs =
        ⟨(awskmsKmsSign env req buf.sigsize).ok,
          pre ++ (awskmsKmsSign env req buf.sigsize).trace⟩) ∨
    Local buf (oneshotBody h env keys ctx algorithm buf tbs) := by
  unfold oneshotBody
  simp only []
  split
  · next hraw =>
      split
      · exact .inr ⟨rfl, fun _ => rfl⟩
      · next hzero =>
          split
          · exact .inr ⟨rfl, fun _ => rfl⟩
          · next hlarge =>
              exact .inl ⟨oneshotRequest keys ctx algorithm .RAW tbs, [],
                .raw hraw hzero (by omega), rfl, rfl, rfl⟩
  · next hmu =>
      cases hok : (computeMu h env keys ctx tbs).1.ok with
      | false =>
          rw [Reply.andThen_of_failed hok]
          exact .inr ⟨computeMu_requests, fun _ => hok⟩
      | true =>
          obtain ⟨pub, tr, hpub, htr, heq⟩ := computeMu_ok hok
          refine .inl ⟨oneshotRequest keys ctx algorithm .EXTERNAL_MU
            (computeMu h env keys ctx tbs).2,
            (computeMu h env keys ctx tbs).1.trace, ?_, rfl,
            computeMu_requests, ?_⟩
          · simp only [oneshotRequest, heq]
            exact .mu hmu hpub htr
          · rw [Reply.andThen, if_pos hok]
  · exact .inr ⟨rfl, fun _ => rfl⟩

theorem awskmsSigOneshotSign_cases {ctx : AwskmsSigCtx Alg Key}
    {buf : SigBuf} {tbs : Bytes} :
    (∃ req pre, OneshotRequest h keys ctx buf tbs req ∧ requests pre = [] ∧
      awskmsSigOneshotSign h env keys ctx buf tbs =
        ⟨(awskmsKmsSign env req buf.sigsize).ok,
          pre ++ (awskmsKmsSign env req buf.sigsize).trace⟩) ∨
    Local buf (awskmsSigOneshotSign h env keys ctx buf tbs) := by
  unfold awskmsSigOneshotSign
  cases hkey : ctx.key with
  | none => exact .inr ⟨rfl, fun _ => rfl⟩
  | some r =>
      simp only []
      split
      · next hnull =>
          exact .inr ⟨sizeProbe_requests, fun hf => by simp [hnull] at hf⟩
      · next hnull =>
          rcases check_outputBufferFits.andThen with ⟨hfit, heq⟩ | ⟨_, hloc⟩
          rotate_left
          · exact .inr hloc
          rw [heq]
          rcases check_unsupportedParamsRefused.andThen with
            ⟨hpar, heq⟩ | ⟨_, hloc⟩
          rotate_left
          · exact .inr hloc
          rw [heq]
          obtain ⟨hsl, hsized, hfits⟩ := outputBufferFits_ok.mp hfit
          obtain ⟨hpure, hctx⟩ := unsupportedParamsRefused_ok.mp hpar
          split
          · exact .inr ⟨rfl, fun _ => rfl⟩
          · next algorithm halg =>
              rcases oneshotBody_cases with
                ⟨req, pre, hmsg, hreq, hpre, hbody⟩ | hloc
              · refine .inl ⟨req, pre, ⟨⟨by simpa using hnull, hsl, hsized,
                  hfits, hpure, hctx⟩, by simp [hkey], ?_, hmsg, ?_, ?_⟩,
                  hpre, hbody⟩
                · rw [halg, hreq]
                  rfl
                · rw [hreq]
                  rfl
                · rw [hreq]
                  rfl
              · exact .inr hloc

/-- The output arguments of a signing call. -/
def SigCall.buf? : SigCall → Option SigBuf
  | .sign buf _ | .digestSignFinal buf | .oneshotSign buf _ => some buf
  | _ => none

/-- A call that got as far as its request, on the context it found. -/
inductive SignCall (h : Host Alg Key) (keys : Keys Key) :
    SigCall → AwskmsSigCtx Alg Key → KmsRequest → Prop where
  | sign {ctx : AwskmsSigCtx Alg Key} {buf : SigBuf} {tbs : Bytes}
      {req : KmsRequest} : ctx.key.isSome →
      DigestRequest h keys ctx buf tbs req →
      SignCall h keys (.sign buf tbs) ctx req
  | final {ctx : AwskmsSigCtx Alg Key} {buf : SigBuf} {md : EvpMd Alg}
      {data : Bytes} {req : KmsRequest} : ctx.key.isSome →
      ctx.mdctx = some (.running md data) →
      DigestRequest h keys ctx buf (h.hash md.alg data) req →
      SignCall h keys (.digestSignFinal buf) ctx req
  | oneshot {ctx : AwskmsSigCtx Alg Key} {buf : SigBuf} {tbs : Bytes}
      {req : KmsRequest} : OneshotRequest h keys ctx buf tbs req →
      SignCall h keys (.oneshotSign buf tbs) ctx req

/-- The state of the hash is not among the things a request depends on. -/
theorem DigestRequest.of_mdctx {ctx : AwskmsSigCtx Alg Key}
    {m : Option (EvpMdCtx Alg)} {buf : SigBuf} {digest : Bytes}
    {req : KmsRequest}
    (hreq : DigestRequest h keys { ctx with mdctx := m } buf digest req) :
    DigestRequest h keys ctx buf digest req :=
  ⟨⟨hreq.sig, hreq.siglen, hreq.sized, hreq.fits, hreq.pure, hreq.context⟩,
    hreq.selected, hreq.algorithm, hreq.length, hreq.salt, hreq.request⟩

variable (h env keys) in
/-- A signing call is its one request, behind a trace without any, or it is
local. -/
theorem sigCall_sign_cases {sc : SigCall} {buf : SigBuf}
    (hbuf : sc.buf? = some buf) (ctx : AwskmsSigCtx Alg Key) :
    let out := sigCall h env keys sc ctx
    (∃ req pre, SignCall h keys sc ctx req ∧ requests pre = [] ∧
      out.ok = (awskmsKmsSign env req buf.sigsize).ok ∧
      out.trace = pre ++ (awskmsKmsSign env req buf.sigsize).trace) ∨
    Local buf ⟨out.ok, out.trace⟩ := by
  intro out
  cases hsc : sc with
  | sign buf' tbs =>
      subst hsc
      obtain rfl := Option.some.inj hbuf
      have hout : out = (awskmsSigSign h env keys ctx buf' tbs).keep ctx := rfl
      rw [hout]
      unfold awskmsSigSign
      split
      · exact .inr ⟨rfl, fun _ => rfl⟩
      · next r hkey =>
          rcases signDigest_cases h env keys ctx buf' tbs with ⟨req, hreq, heq⟩ | hloc
          · refine .inl ⟨req, [], .sign (by simp [hkey]) hreq, rfl, ?_, ?_⟩
            · rw [heq]
              rfl
            · rw [heq]
              rfl
          · exact .inr hloc
  | digestSignFinal buf' =>
      subst hsc
      obtain rfl := Option.some.inj hbuf
      have hout : out = awskmsSigDigestSignFinal h env keys buf' ctx := rfl
      rw [hout]
      unfold awskmsSigDigestSignFinal
      split
      · exact .inr ⟨rfl, fun _ => rfl⟩
      · next hready =>
          split
          · next hnull =>
              exact .inr ⟨sizeProbe_requests, fun hf => by simp [hnull] at hf⟩
          · split
            · next hfit =>
                exact .inr ⟨check_outputBufferFits.requests, fun _ => hfit⟩
            · split
              · exact .inr ⟨rfl, fun _ => rfl⟩
              · next ctx' digest hfin =>
                  obtain ⟨md, data, hm, rfl, rfl⟩ := finishHash_eq hfin
                  rcases signDigest_cases h env keys
                    { ctx with mdctx := some (.finalised md) } buf'
                    (h.hash md.alg data) with ⟨req, hreq, heq⟩ | hloc
                  · refine .inl ⟨req, [], .final ?_ hm hreq.of_mdctx, rfl, ?_, ?_⟩
                    · rw [not_or] at hready
                      simpa [Option.isSome_iff_ne_none] using hready.2
                    · rw [heq]
                      rfl
                    · rw [heq]
                      rfl
                  · exact .inr hloc
  | oneshotSign buf' tbs =>
      subst hsc
      obtain rfl := Option.some.inj hbuf
      have hout : out = (awskmsSigOneshotSign h env keys ctx buf' tbs).keep ctx :=
        rfl
      rw [hout]
      rcases awskmsSigOneshotSign_cases with ⟨req, pre, hreq, hpre, heq⟩ | hloc
      · refine .inl ⟨req, pre, .oneshot hreq, hpre, ?_, ?_⟩
        · rw [heq]
          rfl
        · rw [heq]
          rfl
      · exact .inr hloc
  | _ =>
      subst hsc
      cases hbuf

/-! ## The calls that do not

All other calls set up or verify. What they put on the trace is of few kinds,
and no request is among them. -/

/-- A list of effects with no request in it. -/
def NoRequest (t : List Event) : Prop := ∀ req, Event.kmsSign req ∉ t

theorem requests_eq_nil {t : List Event} : requests t = [] ↔ NoRequest t := by
  rw [List.eq_nil_iff_forall_not_mem]
  exact forall_congr' fun req => not_congr mem_requests

theorem bindKey_noRequest {provkey : Option KeyRef}
    {ctx : AwskmsSigCtx Alg Key} :
    NoRequest (bindKey h env keys provkey ctx).trace := by
  have hfree : ∀ req, Event.kmsSign req ∉ awskmsSigFreectx ctx := by
    intro req hmem
    unfold awskmsSigFreectx at hmem
    split at hmem <;> simp at hmem
  have hview : ∀ (k : AwskmsKey Key) req,
      Event.kmsSign req ∉ (fipsView h env k).trace := by
    intro k req hmem
    unfold fipsView at hmem
    split at hmem
    · simp [raise] at hmem
    · exact awskmsPubkeyFromSpki_under hmem
  intro req hmem
  unfold bindKey at hmem
  split at hmem
  · cases hmem
  · split at hmem
    · cases hmem
    · split at hmem
      · simp only [] at hmem
        split at hmem
        · simp [hview, hfree] at hmem
        · simp [hview] at hmem
      · simp [hfree] at hmem

/-- What a routine that only sets a context up does on the way: fetch a
digest, raise an error. -/
inductive Event.Setup : Event → Prop where
  | raise (e : ProviderError) : Event.Setup (.raise e)
  | fetchMd (name : Bytes) (propq : String) : Event.Setup (.fetchMd name propq)

/-- Nothing but set-up. -/
def SetupOnly (t : List Event) : Prop := ∀ e ∈ t, e.Setup

theorem SetupOnly.noRequest {t : List Event} (ht : SetupOnly t) :
    NoRequest t := by
  intro req hmem
  cases ht _ hmem

theorem setupOnly_nil : SetupOnly [] := by
  intro e he
  cases he

theorem setupOnly_raise {reason : Reason} {fmt : String}
    {args : List FmtArg} : SetupOnly [raise reason fmt args] := by
  intro e he
  rw [List.mem_singleton.mp he]
  exact .raise _

theorem setDigest_setup {name : Bytes} {ctx : AwskmsSigCtx Alg Key} :
    SetupOnly (setDigest h env keys name ctx).trace := by
  have hrefused : ∀ {propq : String} {reason : Reason} {fmt : String}
      {args : List FmtArg},
      SetupOnly [.fetchMd name propq, AwsKms.Model.raise reason fmt args] := by
    intro propq reason fmt args e he
    rcases List.mem_cons.mp he with rfl | he
    · exact .fetchMd _ _
    · exact setupOnly_raise e he
  unfold setDigest
  split
  · exact setupOnly_nil
  · simp only []
    split
    · exact hrefused
    · split
      · exact hrefused
      · intro e he
        rw [List.mem_singleton.mp he]
        exact .fetchMd _ _

/-- What holds of every effect of a routine, on the context it ran on. -/
def Says (Q : AwskmsSigCtx Alg Key → Event → Prop)
    (a : Act (AwskmsSigCtx Alg Key) Event) : Prop :=
  ∀ x, ∀ e ∈ (a x).trace, Q x e

section

variable {Q : AwskmsSigCtx Alg Key → Event → Prop}

theorem says_silent {a : Act (AwskmsSigCtx Alg Key) Event}
    (ha : ∀ x, (a x).trace = []) : Says Q a := by
  intro x e he
  rw [ha x] at he
  cases he

theorem says_raise (hraise : ∀ x err, Q x (.raise err)) {reason : Reason}
    {fmt : String} {args : List FmtArg} :
    Says Q (Act.refuse [raise reason fmt args]) := by
  intro x e he
  rw [List.mem_singleton.mp he]
  exact hraise x _

theorem onParam_says {ps : List OsslParam} {key : String}
    {block : OsslParam → Act (AwskmsSigCtx Alg Key) Event}
    (hblock : ∀ p, Says Q (block p)) : Says Q (onParam ps key block) := by
  unfold onParam
  split
  · exact says_silent fun _ => rfl
  · exact hblock _

/-- What can be said of every error and of the fetch of a digest can be said of
every effect of the parameter blocks. -/
theorem settings_says (hraise : ∀ x err, Q x (.raise err))
    (hfetch : ∀ name, Says Q (setDigest h env keys name))
    {ps : List OsslParam} : ∀ a ∈ settings h env keys ps, Says Q a := by
  have hnil : Says Q (Act.refuse []) := says_silent fun _ => rfl
  intro a ha
  simp only [settings, List.mem_cons, List.not_mem_nil, or_false] at ha
  rcases ha with rfl | rfl | rfl | rfl | rfl | rfl
  · refine onParam_says fun p => ?_
    unfold applyDigest
    split
    · exact hnil
    · exact hfetch _
  · refine onParam_says fun p => ?_
    unfold applyPadMode
    split
    · exact hnil
    · split
      · exact says_raise hraise
      · exact says_silent fun _ => rfl
  · refine onParam_says fun p => ?_
    unfold applyPssSaltlen
    split
    · exact hnil
    · exact says_silent fun _ => rfl
  · refine onParam_says fun p => ?_
    unfold applyContextString
    split
    · exact hnil
    · intro x
      simp only []
      split
      · exact hnil x
      · exact says_raise hraise x
  · refine onParam_says fun p => ?_
    unfold applyInstance
    split
    · exact says_raise hraise
    · exact says_silent fun _ => rfl
  · refine onParam_says fun p => ?_
    unfold checkMgf1Digest
    split
    · exact hnil
    · intro x
      simp only []
      split
      · exact says_raise hraise x
      · exact hnil x

end

/-- A routine that does nothing but set-up on any context. -/
def SetsUp (a : Act (AwskmsSigCtx Alg Key) Event) : Prop :=
  ∀ ctx, SetupOnly (a ctx).trace

theorem settings_setUp {ps : List OsslParam} :
    ∀ a ∈ settings h env keys ps, SetsUp a :=
  settings_says (Q := fun _ e => e.Setup) (fun _ e => .raise e)
    fun _ _ => setDigest_setup

theorem all_setsUp {as : List (Act (AwskmsSigCtx Alg Key) Event)}
    (has : ∀ a ∈ as, SetsUp a) : SetsUp (Act.all as) := by
  intro ctx e he
  obtain ⟨a, ha, t, _, hmem⟩ := Act.mem_trace_all (P := fun _ => True)
    (fun _ _ _ _ => trivial) trivial he
  exact has a ha t e hmem

theorem setCtxParams_setsUp {params : Option (List OsslParam)} :
    SetsUp (awskmsSigSetCtxParams h env keys params) := by
  cases params with
  | none => exact fun _ => setupOnly_nil
  | some ps => exact all_setsUp settings_setUp

theorem applyMdname_setsUp {mdname : Option Bytes} :
    SetsUp (applyMdname h env keys mdname) := by
  intro ctx
  unfold applyMdname
  split
  · exact setupOnly_nil
  · exact setupOnly_nil
  · exact setDigest_setup

theorem restartHash_setsUp :
    SetsUp (restartHash env keys : Act (AwskmsSigCtx Alg Key) Event) := by
  intro ctx
  unfold restartHash
  split
  · exact setupOnly_raise
  · split
    · exact setupOnly_nil
    · split
      · exact setupOnly_nil
      · exact setupOnly_nil

theorem refuseMdname_setsUp {mdname : Option Bytes} :
    SetsUp (refuseMdname keys mdname : Act (AwskmsSigCtx Alg Key) Event) := by
  intro ctx
  unfold refuseMdname
  split
  · exact setupOnly_nil
  · exact setupOnly_nil
  · exact setupOnly_raise

theorem unsupportedParamsRefused_setup {ctx : AwskmsSigCtx Alg Key} :
    SetupOnly (unsupportedParamsRefused keys ctx).trace := by
  unfold unsupportedParamsRefused
  simp only []
  split
  · exact setupOnly_raise
  · split
    · exact setupOnly_nil
    · split
      · exact setupOnly_nil
      · exact setupOnly_raise

/-! ### The inits

Each binds the key and then does nothing but set-up. -/

/-- What an init does once the key is bound. -/
def SigCall.afterBind (h : Host Alg Key) (env : Env Alg Key)
    (keys : Keys Key) : SigCall → List (Act (AwskmsSigCtx Alg Key) Event)
  | .signInit _ params | .verifyInit _ params =>
      [awskmsSigSetCtxParams h env keys params]
  | .digestSignInit mdname _ params | .digestVerifyInit mdname _ params =>
      [awskmsSigSetCtxParams h env keys params, applyMdname h env keys mdname,
        restartHash env keys]
  | .oneshotInit mdname _ params =>
      [awskmsSigSetCtxParams h env keys params, refuseMdname keys mdname,
        fun ctx => (unsupportedParamsRefused keys ctx).keep ctx]
  | _ => []

/-- Whether a call is an init. -/
def SigCall.isInit : SigCall → Bool
  | .signInit .. | .verifyInit .. | .digestSignInit .. | .digestVerifyInit ..
  | .oneshotInit .. => true
  | _ => false

theorem provkey_of_not_init {sc : SigCall} (hsc : sc.isInit = false) :
    sc.provkey = none := by
  cases sc with
  | signInit provkey params => cases hsc
  | verifyInit provkey params => cases hsc
  | digestSignInit mdname provkey params => cases hsc
  | digestVerifyInit mdname provkey params => cases hsc
  | oneshotInit mdname provkey params => cases hsc
  | _ => rfl

theorem sigCall_init {sc : SigCall} (hsc : sc.isInit = true) :
    sigCall h env keys sc = (bindKey h env keys sc.provkey).andThen
      (Act.all (sc.afterBind h env keys)) := by
  cases sc with
  | signInit provkey params =>
      show _ = (bindKey h env keys provkey).andThen (Act.all [_])
      rw [Act.all_cons, Act.all_nil, Act.andThen_done]
      rfl
  | verifyInit provkey params =>
      show _ = (bindKey h env keys provkey).andThen (Act.all [_])
      rw [Act.all_cons, Act.all_nil, Act.andThen_done]
      rfl
  | digestSignInit mdname provkey params => rfl
  | digestVerifyInit mdname provkey params => rfl
  | oneshotInit mdname provkey params => rfl
  | _ => cases hsc

/-- What every write keeps that is not the binding of a key, every routine
after the binding keeps. -/
theorem afterBind_keeps {P : AwskmsSigCtx Alg Key → Prop}
    (hP : ∀ sc : SigCall, sc.provkey = none → ∀ x y,
      Write h env keys sc x y → P x → P y) (sc : SigCall) :
    ∀ a ∈ sc.afterBind h env keys, ∀ x, P x → P (a x).state := by
  have hkeep : ∀ {sc : SigCall}, sc.provkey = none →
      ∀ {a : Act (AwskmsSigCtx Alg Key) Event}, Writes h env keys sc a →
      ∀ x, P x → P (a x).state :=
    fun hsc _ ha _ hx => ha.keeps (hP _ hsc) hx
  have hset : ∀ params x, P x →
      P (awskmsSigSetCtxParams h env keys params x).state := fun params x hx =>
    setCtxParams_keeps (rfl : (SigCall.setCtxParams params).params = params)
      (hP _ rfl) hx
  have hmdname : ∀ mdname, Writes h env keys (.digestSignInit mdname none none)
      (applyMdname h env keys mdname) := by
    intro mdname
    have hmd : applyMdname h env keys mdname = applyMdname h env keys
        (SigCall.digestSignInit mdname none none).mdname := by
      apply applyMdname_eq
      cases mdname <;> rfl
    rw [hmd]
    exact applyMdname_writes
  have hhash : Writes h env keys (.digestSignInit none none none)
      (restartHash env keys) := restartHash_writes rfl
  intro a ha
  cases sc with
  | signInit provkey params | verifyInit provkey params =>
      rw [List.mem_singleton.mp ha]
      exact hset params
  | digestSignInit mdname provkey params
  | digestVerifyInit mdname provkey params =>
      simp only [SigCall.afterBind, List.mem_cons, List.not_mem_nil,
        or_false] at ha
      rcases ha with rfl | rfl | rfl
      · exact hset params
      · exact hkeep rfl (hmdname mdname)
      · exact hkeep rfl hhash
  | oneshotInit mdname provkey params =>
      simp only [SigCall.afterBind, List.mem_cons, List.not_mem_nil,
        or_false] at ha
      have hrefuse : Writes h env keys (.oneshotInit mdname none params)
          (refuseMdname keys mdname) := refuseMdname_writes ⟨_, _, _, rfl⟩
      rcases ha with rfl | rfl | rfl
      · exact hset params
      · exact hkeep rfl hrefuse
      · exact fun x hx => hx
  | _ => cases ha

variable (h env keys) in
theorem afterBind_setsUp (sc : SigCall) :
    SetsUp (Act.all (sc.afterBind h env keys)) := by
  refine all_setsUp fun a ha => ?_
  cases sc with
  | signInit provkey params =>
      rw [List.mem_singleton.mp ha]
      exact setCtxParams_setsUp
  | verifyInit provkey params =>
      rw [List.mem_singleton.mp ha]
      exact setCtxParams_setsUp
  | digestSignInit mdname provkey params =>
      simp only [SigCall.afterBind, List.mem_cons, List.not_mem_nil,
        or_false] at ha
      rcases ha with rfl | rfl | rfl
      · exact setCtxParams_setsUp
      · exact applyMdname_setsUp
      · exact restartHash_setsUp
  | digestVerifyInit mdname provkey params =>
      simp only [SigCall.afterBind, List.mem_cons, List.not_mem_nil,
        or_false] at ha
      rcases ha with rfl | rfl | rfl
      · exact setCtxParams_setsUp
      · exact applyMdname_setsUp
      · exact restartHash_setsUp
  | oneshotInit mdname provkey params =>
      simp only [SigCall.afterBind, List.mem_cons, List.not_mem_nil,
        or_false] at ha
      rcases ha with rfl | rfl | rfl
      · exact setCtxParams_setsUp
      · exact refuseMdname_setsUp
      · exact fun _ => unsupportedParamsRefused_setup
  | _ => cases ha

theorem init_noRequest {sc : SigCall} (hsc : sc.isInit = true)
    {ctx : AwskmsSigCtx Alg Key} :
    NoRequest (sigCall h env keys sc ctx).trace := by
  intro req hmem
  rw [sigCall_init hsc] at hmem
  rcases Act.mem_trace_andThen.mp hmem with hmem | ⟨_, hmem⟩
  · exact bindKey_noRequest req hmem
  · exact (afterBind_setsUp h env keys sc _).noRequest req hmem

theorem verifyTrace_noRequest {ctx : AwskmsSigCtx Alg Key} :
    NoRequest (verifyTrace keys ctx) := by
  intro req hmem
  unfold verifyTrace at hmem
  split at hmem <;> simp at hmem

theorem verify_noRequest {ctx : AwskmsSigCtx Alg Key} {sig tbs : Bytes} :
    NoRequest (awskmsSigVerify h env keys ctx sig tbs).trace := by
  unfold awskmsSigVerify
  split
  · exact verifyTrace_noRequest
  · exact verifyTrace_noRequest

/-- Only a signing call can issue a request. -/
theorem sigCall_noRequest {sc : SigCall} (hsc : sc.buf? = none)
    {ctx : AwskmsSigCtx Alg Key} :
    NoRequest (sigCall h env keys sc ctx).trace := by
  intro req hmem
  cases sc with
  | setCtxParams params => exact (setCtxParams_setsUp ctx).noRequest req hmem
  | getCtxParams wanted =>
      simp only [sigCall, awskmsSigGetCtxParams, Reply.keep_trace,
        List.mem_append] at hmem
      rcases hmem with (hmem | hmem) | hmem <;> split at hmem <;> simp at hmem
  | signInit provkey params => exact init_noRequest rfl req hmem
  | sign buf tbs => cases hsc
  | verifyInit provkey params => exact init_noRequest rfl req hmem
  | verify sig tbs => exact verify_noRequest req hmem
  | digestSignInit mdname provkey params => exact init_noRequest rfl req hmem
  | digestSignUpdate data =>
      simp only [sigCall, awskmsSigDigestSignUpdate] at hmem
      split at hmem <;> cases hmem
  | digestSignFinal buf => cases hsc
  | digestVerifyInit mdname provkey params => exact init_noRequest rfl req hmem
  | digestVerifyUpdate data =>
      simp only [sigCall, awskmsSigDigestVerifyUpdate,
        awskmsSigDigestSignUpdate] at hmem
      split at hmem <;> cases hmem
  | digestVerifyFinal sig =>
      simp only [sigCall, awskmsSigDigestVerifyFinal] at hmem
      split at hmem
      · cases hmem
      · exact verify_noRequest req hmem
  | oneshotInit mdname provkey params => exact init_noRequest rfl req hmem
  | oneshotSign buf tbs => cases hsc
  | oneshotVerify sig tbs =>
      simp only [sigCall, awskmsSigOneshotVerify, Reply.keep_trace] at hmem
      split at hmem
      · exact verifyTrace_noRequest req hmem
      · exact verifyTrace_noRequest req hmem

/-- Every request of a call on a context is the one request of a signing
call. -/
theorem sigCall_requests {sc : SigCall} {ctx : AwskmsSigCtx Alg Key}
    {req : KmsRequest}
    (hreq : req ∈ requests (sigCall h env keys sc ctx).trace) :
    SignCall h keys sc ctx req ∧
      requests (sigCall h env keys sc ctx).trace = [req] := by
  cases hbuf : sc.buf? with
  | none => exact absurd (mem_requests.mp hreq) (sigCall_noRequest hbuf req)
  | some buf =>
      rcases sigCall_sign_cases h env keys hbuf ctx with ⟨req', pre, hcall, hpre, _, htrace⟩ | hloc
      · have hone : requests (sigCall h env keys sc ctx).trace = [req'] := by
          rw [htrace, requests_append, hpre, awskmsKmsSign_requests]
          rfl
        rw [hone, List.mem_singleton] at hreq
        subst hreq
        exact ⟨hcall, hone⟩
      · have hnil : requests (sigCall h env keys sc ctx).trace = [] := hloc.1
        rw [hnil] at hreq
        cases hreq

end AwsKms.Model
