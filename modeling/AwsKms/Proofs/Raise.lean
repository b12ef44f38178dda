import AwsKms.Lib.Report
import AwsKms.Proofs.Settle
import AwsKms.Proofs.Views

/-!
# One error per refusal

Node shows the oldest error of the queue on one path and the newest on
another, so a refusal should leave exactly one. Nearly all of them do. The
ones that do not are in `awskms_sig_set_ctx_params`: a parameter of the wrong
type, or one that does not fit, is not refused but given up on in silence,
where the instance block beside it raises.

The model's `Reading` of each parameter says which of the two happens, from
the parameter alone; the readings of a call's parameters in order say whether
the call comes to one it cannot read.
-/

namespace AwsKms.Model

open AwsKms.Lib

def Event.isRaise : Event → Bool
  | .raise _ => true
  | _ => false

/-- Nothing inside libcrypto or the allocator fails. -/
def Env.Steady {Alg Key : Type} (env : Env Alg Key) : Prop :=
  ∀ site, env.ok site = true

section

variable {Alg Key : Type}

section

variable (h : Host Alg Key) (env : Env Alg Key)

/-- A digest name: none at all, or one to be fetched. -/
def mdnameReading (propq : String) (name : Bytes) : Reading :=
  if name = [] then .taken
  else
    match env.mdFetch name propq with
    | none => .refused
    | some alg => if h.mdXof alg then .refused else .taken

def digestReading (propq : String) (p : OsslParam) : Reading :=
  match getUtf8Param p 64 with
  | none => .unread
  | some name => mdnameReading h env propq name

def padModeReading (p : OsslParam) : Reading :=
  match readPadMode p with
  | none => .unread
  | some pad =>
      match RsaPadding.ofInt pad with
      | none => .refused
      | some _ => .taken

def pssSaltlenReading (p : OsslParam) : Reading :=
  match readPssSaltlen h p with
  | none => .unread
  | some _ => .taken

def contextStringReading (p : OsslParam) : Reading :=
  match getOctetStringPtr p with
  | none => .unread
  | some data => if data.length ≤ 255 then .taken else .refused

/-- The one block that raises over a parameter it cannot read. -/
def instanceReading (p : OsslParam) : Reading :=
  match getUtf8Param p 32 with
  | none => .refused
  | some _ => .taken

/-- Whether the name is the selected digest is another matter; it is raised
over when it is not. -/
def mgf1DigestReading (p : OsslParam) : Reading :=
  match getUtf8Param p 64 with
  | none => .unread
  | some _ => .taken

/-- A parameter that is not there is nothing to read. -/
def onReading (ps : List OsslParam) (key : String)
    (reading : OsslParam → Reading) : Reading :=
  match locate ps key with
  | none => .taken
  | some p => reading p

/-- The readings of the settings, in the order they are looked for. -/
def settingReadings (propq : String) (ps : List OsslParam) : List Reading := [
  onReading ps ossl_SIGNATURE_PARAM_DIGEST (digestReading h env propq),
  onReading ps ossl_SIGNATURE_PARAM_PAD_MODE padModeReading,
  onReading ps ossl_SIGNATURE_PARAM_PSS_SALTLEN (pssSaltlenReading h),
  onReading ps ossl_SIGNATURE_PARAM_CONTEXT_STRING contextStringReading,
  onReading ps ossl_SIGNATURE_PARAM_INSTANCE instanceReading]

/-- The reading of a parameter list, whose last block is the MGF1 check. -/
def paramsReading (propq : String) : Option (List OsslParam) → Reading
  | none => .taken
  | some ps => (Reading.all (settingReadings h env propq ps)).andThen
      (onReading ps ossl_SIGNATURE_PARAM_MGF1_DIGEST mgf1DigestReading)

/-- Whether the key a call is given can be bound: when the operation needs a
FIPS view of it, its retained bytes parse again under FIPS. -/
def reparses (keys : Keys Key) (provkey : Option KeyRef)
    (ctx : AwskmsSigCtx Alg Key) : Bool :=
  match provkey with
  | none => true
  | some r => !(ctx.fipsRequired && !(keys r).fipsRequired) ||
      (fipsView h env (keys r)).ok

/-- The property query the operation fetches under once its key is bound. -/
def propqAfter (keys : Keys Key) (provkey : Option KeyRef)
    (ctx : AwskmsSigCtx Alg Key) : String :=
  operationPropq keys { ctx with key := keyAfter provkey ctx }

/-- Whether a call comes to a parameter it cannot read: its key can be bound,
and every parameter looked for before that one is taken. -/
def SigCall.unread (keys : Keys Key) (sc : SigCall)
    (ctx : AwskmsSigCtx Alg Key) : Bool :=
  reparses h env keys sc.provkey ctx &&
    paramsReading h env (propqAfter keys sc.provkey ctx) sc.params = .unread

end

/-! ## Single blocks

A block that refuses raises one error, or none where the reading of its
parameter says so. What libcrypto puts on the queue for failures of its own is
not counted here. -/

variable {h : Host Alg Key} {env : Env Alg Key} {keys : Keys Key}

theorem taken_read : Reading.taken ≠ .unread := by decide

theorem raise_reported (reason : Reason) (fmt : String) (args : List FmtArg) :
    Reported Event.isRaise false [raise reason fmt args] := rfl

/-- The reading of a routine where it ran. -/
def ReadsAs (r : Reading) (a : Act (AwskmsSigCtx Alg Key) Event)
    (x : AwskmsSigCtx Alg Key) : Prop :=
  r.Of Event.isRaise (a x).ok (a x).trace

/-- The routine reports where it ran. -/
def Reports (a : Act (AwskmsSigCtx Alg Key) Event)
    (x : AwskmsSigCtx Alg Key) : Prop :=
  Reported Event.isRaise (a x).ok (a x).trace

theorem setDigest_reads {name : Bytes} {x : AwskmsSigCtx Alg Key} :
    ReadsAs (mdnameReading h env (operationPropq keys x) name)
      (setDigest h env keys name) x := by
  unfold ReadsAs setDigest mdnameReading
  split
  · exact ⟨rfl, rfl⟩
  · simp only [operationPropq]
    cases env.mdFetch name
        (awskmsDependencyPropq (operationRequiresFips keys x)) with
    | none => exact ⟨rfl, rfl⟩
    | some alg =>
        simp only []
        split
        · exact ⟨rfl, rfl⟩
        · exact ⟨rfl, rfl⟩

theorem mdnameReading_read {propq : String} {name : Bytes} :
    mdnameReading h env propq name ≠ .unread := by
  unfold mdnameReading
  split
  · decide
  · split
    · decide
    · split
      · decide
      · decide

theorem setDigest_reports {name : Bytes} {x : AwskmsSigCtx Alg Key} :
    Reports (setDigest h env keys name) x :=
  setDigest_reads.reported_iff.mpr mdnameReading_read

theorem applyDigest_reads {p : OsslParam} {x : AwskmsSigCtx Alg Key} :
    ReadsAs (digestReading h env (operationPropq keys x) p)
      (applyDigest h env keys p) x := by
  unfold digestReading applyDigest
  cases getUtf8Param p 64 with
  | none => exact ⟨rfl, rfl⟩
  | some name => exact setDigest_reads

theorem applyPadMode_reads {p : OsslParam} {x : AwskmsSigCtx Alg Key} :
    ReadsAs (padModeReading p) (applyPadMode p) x := by
  unfold padModeReading applyPadMode
  cases readPadMode p with
  | none => exact ⟨rfl, rfl⟩
  | some pad =>
      simp only []
      cases RsaPadding.ofInt pad with
      | none => exact ⟨rfl, rfl⟩
      | some mode => exact ⟨rfl, rfl⟩

theorem applyPssSaltlen_reads {p : OsslParam} {x : AwskmsSigCtx Alg Key} :
    ReadsAs (pssSaltlenReading h p) (applyPssSaltlen h p) x := by
  unfold pssSaltlenReading applyPssSaltlen
  cases readPssSaltlen h p with
  | none => exact ⟨rfl, rfl⟩
  | some n => exact ⟨rfl, rfl⟩

theorem applyContextString_reads {p : OsslParam} {x : AwskmsSigCtx Alg Key} :
    ReadsAs (contextStringReading p) (applyContextString p) x := by
  unfold contextStringReading applyContextString
  cases getOctetStringPtr p with
  | none => exact ⟨rfl, rfl⟩
  | some data =>
      simp only []
      unfold ReadsAs
      by_cases hfit : data.length ≤ 255
      · simp only [if_pos hfit, dif_pos hfit]
        exact ⟨rfl, rfl⟩
      · simp only [if_neg hfit, dif_neg hfit]
        exact ⟨rfl, rfl⟩

theorem applyInstance_reads {p : OsslParam} {x : AwskmsSigCtx Alg Key} :
    ReadsAs (instanceReading p) (applyInstance p) x := by
  unfold instanceReading applyInstance
  cases getUtf8Param p 32 with
  | none => exact ⟨rfl, rfl⟩
  | some name => exact ⟨rfl, rfl⟩

theorem onParam_reads {ps : List OsslParam} {key : String}
    {block : OsslParam → Act (AwskmsSigCtx Alg Key) Event}
    {reading : OsslParam → Reading} {x : AwskmsSigCtx Alg Key}
    (hblock : ∀ p, ReadsAs (reading p) (block p) x) :
    ReadsAs (onReading ps key reading) (onParam ps key block) x := by
  unfold onReading onParam
  cases locate ps key with
  | none => exact ⟨rfl, rfl⟩
  | some p => exact hblock p

/-- The MGF1 check reports unless it cannot read the name. -/
theorem checkMgf1Digest_reports_iff {p : OsslParam}
    {x : AwskmsSigCtx Alg Key} :
    Reports (checkMgf1Digest h p) x ↔ mgf1DigestReading p ≠ .unread := by
  unfold mgf1DigestReading checkMgf1Digest
  cases getUtf8Param p 64 with
  | none => exact iff_of_false Nat.zero_ne_one fun hread => hread rfl
  | some name =>
      refine iff_of_true ?_ taken_read
      unfold Reports
      simp only []
      split
      · exact raise_reported ..
      · rfl

theorem onMgf1_reports_iff {ps : List OsslParam} {x : AwskmsSigCtx Alg Key} :
    Reports (onParam ps ossl_SIGNATURE_PARAM_MGF1_DIGEST (checkMgf1Digest h)) x ↔
      onReading ps ossl_SIGNATURE_PARAM_MGF1_DIGEST mgf1DigestReading ≠
        .unread := by
  unfold onReading onParam
  cases locate ps ossl_SIGNATURE_PARAM_MGF1_DIGEST with
  | none => exact iff_of_true rfl taken_read
  | some p => exact checkMgf1Digest_reports_iff

/-- The binding of an operation is not a parameter's to change. -/
theorem settings_propq {ps : List OsslParam} {propq : String} :
    ∀ a ∈ settings h env keys ps, ∀ x, operationPropq keys x = propq →
      operationPropq keys (a x).state = propq := by
  intro a ha x hx
  have hwrites : Writes h env keys (.setCtxParams (some ps)) a :=
    settings_writes rfl a ha
  refine hwrites.keeps (P := fun y => operationPropq keys y = propq) ?_ hx
  intro y z hw hy
  cases hw with
  | bind hr _ => cases hr
  | bindView hr _ _ => cases hr
  | _ => exact hy

theorem setCtxParams_reports_iff {params : Option (List OsslParam)}
    {x : AwskmsSigCtx Alg Key} :
    Reports (awskmsSigSetCtxParams h env keys params) x ↔
      paramsReading h env (operationPropq keys x) params ≠ .unread := by
  cases params with
  | none => exact iff_of_true rfl taken_read
  | some ps =>
      generalize hpropq : operationPropq keys x = propq
      have hkeep : ∀ a ∈ settings h env keys ps, ∀ y,
          operationPropq keys y = propq →
          operationPropq keys (a y).state = propq := settings_propq
      simp only [settings, List.forall_mem_cons] at hkeep
      obtain ⟨hdigest, hpad, hsalt, hcontext, hinstance, _⟩ := hkeep
      let before : List (Act (AwskmsSigCtx Alg Key) Event) := [
        onParam ps ossl_SIGNATURE_PARAM_DIGEST (applyDigest h env keys),
        onParam ps ossl_SIGNATURE_PARAM_PAD_MODE applyPadMode,
        onParam ps ossl_SIGNATURE_PARAM_PSS_SALTLEN (applyPssSaltlen h),
        onParam ps ossl_SIGNATURE_PARAM_CONTEXT_STRING applyContextString,
        onParam ps ossl_SIGNATURE_PARAM_INSTANCE applyInstance]
      have hsplit : settings h env keys ps = before ++
          [onParam ps ossl_SIGNATURE_PARAM_MGF1_DIGEST (checkMgf1Digest h)] := rfl
      have hbefore : operationPropq keys (Act.all before x).state = propq ∧
          ReadsAs (.all (settingReadings h env propq ps)) (Act.all before) x :=
        Act.all_reading (P := fun y => operationPropq keys y = propq)
        (.cons (fun y hy => ⟨hdigest y hy,
            onParam_reads fun p => hy ▸ applyDigest_reads⟩)
          (.cons (fun y hy => ⟨hpad y hy,
              onParam_reads fun p => applyPadMode_reads⟩)
            (.cons (fun y hy => ⟨hsalt y hy,
                onParam_reads fun p => applyPssSaltlen_reads⟩)
              (.cons (fun y hy => ⟨hcontext y hy,
                  onParam_reads fun p => applyContextString_reads⟩)
                (.cons (fun y hy => ⟨hinstance y hy,
                    onParam_reads fun p => applyInstance_reads⟩) .nil)))))
        hpropq
      have hlast : ∀ a : Act (AwskmsSigCtx Alg Key) Event, Act.all [a] = a := by
        intro a
        rw [Act.all_cons, Act.all_nil, Act.andThen_done]
      unfold Reports
      rw [awskmsSigSetCtxParams, hsplit, Act.all_append, hlast]
      exact Act.reading_andThen_iff hbefore.2 onMgf1_reports_iff

/-- A parameter call that succeeds raises nothing. -/
theorem setCtxParams_quiet {params : Option (List OsslParam)}
    {x : AwskmsSigCtx Alg Key}
    (hok : (awskmsSigSetCtxParams h env keys params x).ok = true) :
    (awskmsSigSetCtxParams h env keys params x).trace.countP Event.isRaise =
      0 := by
  cases params with
  | none => rfl
  | some ps =>
      refine Act.all_quiet (fun a ha y hy => ?_) hok
      simp only [settings, List.mem_cons, List.not_mem_nil, or_false] at ha
      rcases ha with rfl | rfl | rfl | rfl | rfl | rfl
      · exact (onParam_reads fun p => applyDigest_reads).quiet hy
      · exact (onParam_reads fun p => applyPadMode_reads).quiet hy
      · exact (onParam_reads fun p => applyPssSaltlen_reads).quiet hy
      · exact (onParam_reads fun p => applyContextString_reads).quiet hy
      · exact (onParam_reads fun p => applyInstance_reads).quiet hy
      · refine Reported.quiet (onMgf1_reports_iff.mpr fun hread => ?_) hy
        unfold onReading at hread
        unfold onParam at hy
        cases hl : locate ps ossl_SIGNATURE_PARAM_MGF1_DIGEST with
        | none =>
            rw [hl] at hread
            cases hread
        | some p =>
            simp only [hl] at hread hy
            unfold mgf1DigestReading at hread
            unfold checkMgf1Digest at hy
            cases hn : getUtf8Param p 64 with
            | none =>
                rw [hn] at hy
                cases hy
            | some name =>
                rw [hn] at hread
                cases hread

/-! ## Views

The view of a key under FIPS is decoded again when the key is bound, so that
an init can fail in the decoder. There too every refusal is one error, down to
the checks of each family. -/

section

variable (hs : env.Steady)

include hs

theorem Steady.not {site : Site} : ¬env.ok site = false := by
  rw [hs site]
  decide

theorem shakeOver_reported {fips : Bool} {input : Bytes}
    {failed : ProviderError} :
    Reported Event.isRaise (shakeOver h env fips input failed).1.ok
      (shakeOver h env fips input failed).1.trace := by
  unfold shakeOver
  simp only []
  cases env.mdFetch (ascii "SHAKE256") (awskmsDependencyPropq fips) with
  | none => rfl
  | some alg =>
      simp only [if_neg (Steady.not hs)]
      rfl

theorem computeTr_reported {fips : Bool} {p : AwskmsPubkey Key} :
    Reported Event.isRaise (computeTr h env fips p).ok
      (computeTr h env fips p).trace := by
  unfold computeTr
  simp only []
  generalize hfailed : (⟨.internalError, "SHAKE256 of the public key failed",
    []⟩ : ProviderError) = failed
  have hshake : Reported Event.isRaise
      (shakeOver h env fips p.raw failed).1.ok
      (shakeOver h env fips p.raw failed).1.trace := shakeOver_reported hs
  split
  · next hok =>
      rw [hok] at hshake
      exact hshake
  · exact hshake

theorem loadRawPublic_reported {spec : AwskmsKeyspec} {key : Key}
    {p : AwskmsPubkey Key} :
    Reported Event.isRaise (loadRawPublic h env spec key p).ok
      (loadRawPublic h env spec key p).trace := by
  unfold loadRawPublic
  simp only [if_neg (Steady.not hs)]
  split
  · rfl
  · rfl
  · split
    · rfl
    · rfl

theorem familyChecks_reported {fips : Bool} {spec : AwskmsKeyspec} {key : Key}
    {p : AwskmsPubkey Key} :
    Reported Event.isRaise (familyChecks h env fips spec key p).ok
      (familyChecks h env fips spec key p).trace := by
  unfold familyChecks
  cases spec.family with
  | ec =>
      simp only [checkGroup]
      cases h.pkeyGroup key with
      | none => rfl
      | some group =>
          simp only []
          split
          · rfl
          · rfl
  | ed25519 => exact loadRawPublic_reported hs
  | mlDsa =>
      exact Act.andThen_reported (loadRawPublic_reported hs) fun _ =>
        computeTr_reported hs
  | rsa =>
      simp only [checkBits]
      split
      · rfl
      · rfl

theorem decodePubkey_reported {fips : Bool} {spec : AwskmsKeyspec}
    {p : AwskmsPubkey Key} :
    Reported Event.isRaise (decodePubkey h env fips spec p).ok
      (decodePubkey h env fips spec p).trace := by
  unfold decodePubkey
  simp only []
  cases env.d2iPubkey p.der (awskmsDependencyPropq fips) with
  | none => rfl
  | some decoded =>
      refine Act.andThen_reported rfl fun _ => ?_
      unfold acceptKey
      split
      · rfl
      · split
        · rfl
        · exact familyChecks_reported hs

theorem awskmsPubkeyFromSpki_reported {der : Bytes} {kmsKeySpec : String}
    {fips : Bool} {p : AwskmsPubkey Key} :
    Reported Event.isRaise
      (awskmsPubkeyFromSpki h env der kmsKeySpec fips p).ok
      (awskmsPubkeyFromSpki h env der kmsKeySpec fips p).trace := by
  unfold awskmsPubkeyFromSpki
  rw [Act.onFail_ok, Act.onFail_trace]
  cases awskmsKeyspecByName kmsKeySpec with
  | none => rfl
  | some spec =>
      simp only [if_neg (Steady.not hs)]
      split
      · rfl
      · split
        · rfl
        · exact decodePubkey_reported hs

theorem fipsView_reported {key : AwskmsKey Key} :
    Reported Event.isRaise (fipsView h env key).ok (fipsView h env key).trace := by
  unfold fipsView
  split
  · rfl
  · exact awskmsPubkeyFromSpki_reported hs

omit hs in
theorem awskmsSigFreectx_quiet {x : AwskmsSigCtx Alg Key} :
    (awskmsSigFreectx x).countP Event.isRaise = 0 := by
  unfold awskmsSigFreectx
  split
  · rfl
  · rfl

theorem bindKey_ok_iff {provkey : Option KeyRef} {x : AwskmsSigCtx Alg Key}
    (hkey : (keyAfter provkey x).isSome) :
    (bindKey h env keys provkey x).ok = reparses h env keys provkey x := by
  cases provkey with
  | none => exact hkey
  | some r =>
      simp only [bindKey, reparses, if_neg (Steady.not hs)]
      cases x.fipsRequired && !(keys r).fipsRequired with
      | false => rfl
      | true =>
          cases hview : (fipsView h env (keys r)).ok with
          | false => rfl
          | true => rfl

theorem bindKey_reports {provkey : Option KeyRef} {x : AwskmsSigCtx Alg Key}
    (hkey : (keyAfter provkey x).isSome) :
    Reports (bindKey h env keys provkey) x := by
  unfold Reports
  cases provkey with
  | none =>
      have hkey : x.key.isSome := hkey
      simp only [bindKey, hkey]
      rfl
  | some r =>
      have hview : Reported Event.isRaise (fipsView h env (keys r)).ok
          (fipsView h env (keys r)).trace := fipsView_reported hs
      have hfree := awskmsSigFreectx_quiet (x := x)
      simp only [bindKey, if_neg (Steady.not hs)]
      unfold Reported at hview ⊢
      split
      · split
        · next hok =>
            rw [if_pos hok] at hview
            simp [Event.isRaise, hview, hfree]
        · next hok =>
            rw [if_neg hok] at hview
            simp [Event.isRaise, hview]
      · simp [Event.isRaise, hfree]

omit hs in
theorem applyMdname_reports {mdname : Option Bytes}
    {x : AwskmsSigCtx Alg Key} :
    Reports (applyMdname h env keys mdname) x := by
  unfold applyMdname
  split
  · rfl
  · rfl
  · exact setDigest_reports

theorem restartHash_reports {x : AwskmsSigCtx Alg Key} :
    Reports (restartHash env keys) x := by
  unfold Reports restartHash
  cases x.md with
  | none => rfl
  | some md =>
      simp only [if_neg (Steady.not hs)]
      rfl

omit hs in
theorem refuseMdname_reports {mdname : Option Bytes}
    {x : AwskmsSigCtx Alg Key} :
    Reports (refuseMdname keys mdname) x := by
  unfold Reports refuseMdname
  split
  · rfl
  · rfl
  · rfl

omit hs in
theorem unsupportedParamsRefused_reported {x : AwskmsSigCtx Alg Key} :
    Reported Event.isRaise (unsupportedParamsRefused keys x).ok
      (unsupportedParamsRefused keys x).trace := by
  unfold unsupportedParamsRefused
  simp only []
  split
  · rfl
  · split
    · rfl
    · split
      · rfl
      · rfl

/-! ## Signing

Nothing of this part is silent. A request is refused once, by the service, by
a check in front of it or by the check of the buffer, and the trace up to
there holds nothing else that was raised. -/

section

variable {buf : SigBuf} (hbuf : buf.siglenNull = false)
  {x : AwskmsSigCtx Alg Key} (hsize : requiredSigSize h keys x ≠ 0)

omit hs

theorem awskmsKmsSign_reported {req : KmsRequest} {sigSize : Nat} :
    Reported Event.isRaise (awskmsKmsSign env req sigSize).ok
      (awskmsKmsSign env req sigSize).trace := by
  unfold awskmsKmsSign
  split
  · rfl
  · split
    · rfl
    · rfl

theorem requireDigest_reported :
    Reported Event.isRaise (requireDigest keys x).ok
      (requireDigest keys x).trace := by
  unfold requireDigest
  split
  · rfl
  · rfl

theorem signWith_reported {algorithm : SigningAlgorithm} {digest : Bytes} :
    Reported Event.isRaise (signWith env keys x algorithm buf digest).ok
      (signWith env keys x algorithm buf digest).trace := by
  unfold signWith
  simp only []
  split
  · rfl
  · split
    · rfl
    · exact awskmsKmsSign_reported

theorem signChecked_reported {digest : Bytes} :
    Reported Event.isRaise (signChecked h env keys x buf digest).ok
      (signChecked h env keys x buf digest).trace := by
  unfold signChecked
  simp only []
  split
  · rfl
  · exact signWith_reported

include hbuf hsize

theorem sizeProbe_reported :
    Reported Event.isRaise (sizeProbe h keys buf x).ok
      (sizeProbe h keys buf x).trace := by
  unfold sizeProbe
  rw [hbuf]
  show Reported Event.isRaise (decide (requiredSigSize h keys x ≠ 0))
    [.setSiglen (requiredSigSize h keys x)]
  rw [decide_eq_true hsize]
  rfl

theorem outputBufferFits_reported :
    Reported Event.isRaise (outputBufferFits h keys buf x).ok
      (outputBufferFits h keys buf x).trace := by
  unfold outputBufferFits
  simp only [hbuf, hsize]
  split
  · next hno => simp at hno
  · split
    · rfl
    · rfl

theorem signDigest_reported {digest : Bytes} :
    Reported Event.isRaise (signDigest h env keys x buf digest).ok
      (signDigest h env keys x buf digest).trace := by
  unfold signDigest
  split
  · exact sizeProbe_reported hbuf hsize
  · refine Reply.andThen_reported (outputBufferFits_reported hbuf hsize) ?_
    refine Reply.andThen_reported requireDigest_reported ?_
    exact Reply.andThen_reported unsupportedParamsRefused_reported
      signChecked_reported

theorem digestSignFinal_reports {md : EvpMd Alg} {data : Bytes}
    (hrun : x.mdctx = some (.running md data)) (hkey : x.key.isSome) :
    Reports (awskmsSigDigestSignFinal h env keys buf) x := by
  unfold Reports awskmsSigDigestSignFinal
  have hready : ¬(x.mdctx.isNone = true ∨ x.key.isNone = true) := by
    rw [hrun]
    rintro (hno | hno)
    · cases hno
    · rw [Option.isNone_iff_eq_none] at hno
      rw [hno] at hkey
      cases hkey
  rw [if_neg hready]
  split
  · exact sizeProbe_reported hbuf hsize
  · split
    · exact outputBufferFits_reported hbuf hsize
    · have hfinish : finishHash h x = some
          ({ x with mdctx := some (.finalised md) }, h.hash md.alg data) := by
        rw [finishHash, hrun]
        rfl
      rw [hfinish]
      exact signDigest_reported hbuf (x := { x with mdctx := _ }) hsize

end

theorem computeMu_reported {x : AwskmsSigCtx Alg Key} {msg : Bytes} :
    Reported Event.isRaise (computeMu h env keys x msg).1.ok
      (computeMu h env keys x msg).1.trace := by
  unfold computeMu
  split
  · rfl
  · unfold awskmsMu
    split
    · rfl
    · exact shakeOver_reported hs

theorem oneshotBody_reported {x : AwskmsSigCtx Alg Key}
    {algorithm : SigningAlgorithm} {buf : SigBuf} {tbs : Bytes} :
    Reported Event.isRaise (oneshotBody h env keys x algorithm buf tbs).ok
      (oneshotBody h env keys x algorithm buf tbs).trace := by
  unfold oneshotBody
  simp only []
  split
  · split
    · rfl
    · split
      · rfl
      · exact awskmsKmsSign_reported
  · exact Reply.andThen_reported (computeMu_reported hs) awskmsKmsSign_reported
  · rfl

theorem oneshotSign_reported {x : AwskmsSigCtx Alg Key} {buf : SigBuf}
    (hbuf : buf.siglenNull = false) (hsize : requiredSigSize h keys x ≠ 0)
    (hkey : x.key.isSome) {tbs : Bytes} :
    Reported Event.isRaise (awskmsSigOneshotSign h env keys x buf tbs).ok
      (awskmsSigOneshotSign h env keys x buf tbs).trace := by
  obtain ⟨r, hr⟩ := Option.isSome_iff_exists.mp hkey
  unfold awskmsSigOneshotSign
  rw [hr]
  simp only []
  split
  · exact sizeProbe_reported hbuf hsize
  · refine Reply.andThen_reported (outputBufferFits_reported hbuf hsize) ?_
    refine Reply.andThen_reported unsupportedParamsRefused_reported ?_
    split
    · rfl
    · exact oneshotBody_reported hs

end

theorem bindWrite_propq {provkey : Option KeyRef} {x : AwskmsSigCtx Alg Key} :
    operationPropq keys (bindWrite h env keys provkey x) =
      propqAfter keys provkey x := by
  cases provkey with
  | none => rfl
  | some r => rfl

/-- An init whose tail reports, reports unless it comes to a parameter it
cannot read. -/
theorem init_reports_iff (hs : env.Steady) {provkey : Option KeyRef}
    {params : Option (List OsslParam)}
    {tail : Act (AwskmsSigCtx Alg Key) Event} (htail : ∀ y, Reports tail y)
    {x : AwskmsSigCtx Alg Key} (hkey : (keyAfter provkey x).isSome) :
    Reports ((bindKey h env keys provkey).andThen
        ((awskmsSigSetCtxParams h env keys params).andThen tail)) x ↔
      ¬(reparses h env keys provkey x = true ∧
        paramsReading h env (propqAfter keys provkey x) params = .unread) := by
  have hbind : Reports (bindKey h env keys provkey) x := bindKey_reports hs hkey
  have hok : (bindKey h env keys provkey x).ok = reparses h env keys provkey x :=
    bindKey_ok_iff hs hkey
  unfold Reports at hbind ⊢
  cases hview : reparses h env keys provkey x with
  | false =>
      rw [hview] at hok
      rw [Act.andThen_of_failed hok]
      exact iff_of_true hbind (by rintro ⟨hno, _⟩; cases hno)
  | true =>
      rw [hview] at hok
      have hset : Reports (awskmsSigSetCtxParams h env keys params)
          (bindKey h env keys provkey x).state ↔
          paramsReading h env (propqAfter keys provkey x) params ≠ .unread := by
        rw [setCtxParams_reports_iff, bindKey_ok_state hok, bindWrite_propq]
      have hrest : Reported Event.isRaise
          ((bindKey h env keys provkey).andThen
            ((awskmsSigSetCtxParams h env keys params).andThen tail) x).ok
          ((bindKey h env keys provkey).andThen
            ((awskmsSigSetCtxParams h env keys params).andThen tail) x).trace ↔
          Reports (awskmsSigSetCtxParams h env keys params)
            (bindKey h env keys provkey x).state := by
        rw [Act.andThen_of_ok hok]
        unfold Reports Reported
        rw [List.countP_append, hbind.quiet hok, Nat.zero_add]
        exact Act.andThen_reported_iff setCtxParams_quiet fun _ => htail _
      rw [hrest, hset]
      exact ⟨fun hread hno => hread hno.2, fun hno hread => hno ⟨rfl, hread⟩⟩

/-- A parameter or init call reports unless it comes to a parameter it cannot
read. -/
theorem setup_reports_iff (hs : env.Steady) {sc : SigCall}
    (hsc : sc.isSetup = true) {x : AwskmsSigCtx Alg Key}
    (hkey : (keyAfter sc.provkey x).isSome) :
    Reports (sigCall h env keys sc) x ↔ sc.unread h env keys x = false := by
  have hunread : sc.unread h env keys x = false ↔
      ¬(reparses h env keys sc.provkey x = true ∧
        paramsReading h env (propqAfter keys sc.provkey x) sc.params =
          .unread) := by
    rw [SigCall.unread, ← Bool.not_eq_true, Bool.and_eq_true, decide_eq_true_iff]
  rw [hunread]
  have hdone : ∀ y, Reports (Act.done : Act (AwskmsSigCtx Alg Key) Event) y :=
    fun _ => rfl
  have hpair : ∀ a b : Act (AwskmsSigCtx Alg Key) Event, (∀ y, Reports a y) →
      (∀ y, Reports b y) → ∀ y, Reports (Act.all [a, b]) y := by
    intro a b ha hb y
    rw [Act.all_pair]
    exact Act.andThen_reported (ha y) fun _ => hb _
  cases sc with
  | setCtxParams params =>
      refine Iff.trans setCtxParams_reports_iff ?_
      exact ⟨fun hread hno => hread hno.2, fun hno hread => hno ⟨rfl, hread⟩⟩
  | signInit provkey params =>
      have hinit : Reports ((bindKey h env keys provkey).andThen
          ((awskmsSigSetCtxParams h env keys params).andThen Act.done)) x ↔ _ :=
        init_reports_iff hs hdone hkey
      rw [Act.andThen_done] at hinit
      exact hinit
  | verifyInit provkey params =>
      have hinit : Reports ((bindKey h env keys provkey).andThen
          ((awskmsSigSetCtxParams h env keys params).andThen Act.done)) x ↔ _ :=
        init_reports_iff hs hdone hkey
      rw [Act.andThen_done] at hinit
      exact hinit
  | digestSignInit mdname provkey params =>
      exact init_reports_iff hs (hpair _ _ (fun _ => applyMdname_reports)
        fun _ => restartHash_reports hs) hkey
  | digestVerifyInit mdname provkey params =>
      exact init_reports_iff hs (hpair _ _ (fun _ => applyMdname_reports)
        fun _ => restartHash_reports hs) hkey
  | oneshotInit mdname provkey params =>
      exact init_reports_iff hs (hpair (refuseMdname keys mdname)
        (fun y => (unsupportedParamsRefused keys y).keep y)
        (fun _ => refuseMdname_reports)
        fun _ => unsupportedParamsRefused_reported) hkey
  | _ => cases hsc

/-- Decoded keys have a signature size. -/
def DecodesSized (h : Host Alg Key) (env : Env Alg Key) : Prop :=
  ∀ der propq k n, env.d2iPubkey der propq = some (k, n) → 0 < h.pkeySize k

/-- An operation whose own requirement its key does not meet has a FIPS view
of it. -/
def FipsViewed (keys : Keys Key) (ctx : AwskmsSigCtx Alg Key) : Prop :=
  ∀ r, ctx.key = some r →
    (ctx.fipsRequired && !(keys r).fipsRequired) = true →
    ctx.fipsPub.pkey.isSome

variable (h env) in
/-- A key's FIPS bit is never taken back. -/
theorem key_fips_kept {s : Sys Alg Key} {r : KeyRef} (hlive : Live s r)
    (call : Call) (hf : (s.keys r).fipsRequired = true) :
    ((Sys.step h env call s).state.keys r).fipsRequired = true := by
  have hstep := key_step h env s call r
  generalize (Sys.step h env call s).state.keys r = k at hstep
  cases hstep with
  | kept hsk => exact hsk.fips.trans hf
  | opened => exact absurd hlive.made (Nat.lt_irrefl _)
  | copied => exact absurd hlive.made (Nat.lt_irrefl _)
  | fipsOn _ _ hsk => exact hsk.fips
  | viewed _ _ _ hsk => exact hsk.fips.trans hf

theorem fipsViewed_call {sc : SigCall} {x : AwskmsSigCtx Alg Key}
    (hx : FipsViewed keys x) :
    FipsViewed keys (sigCall h env keys sc x).state := by
  refine sigCall_keeps (P := FipsViewed keys) (fun y z hw hy => ?_) hx
  cases hw with
  | bind hr hno =>
      intro q hq hneed
      obtain rfl := Option.some.inj hq
      rw [hno] at hneed
      cases hneed
  | bindView hr _ hok =>
      intro q _ _
      obtain ⟨spec, pk, _, hdec⟩ := fipsView_ok hok
      exact Option.isSome_iff_exists.mpr ⟨_, hdec.pkey⟩
  | _ => exact hy

theorem fipsViewed_step {s : Sys Alg Key} (hs : Sound s)
    (hv : ∀ c table ctx, s.ctxs c = some (table, ctx) → FipsViewed s.keys ctx)
    {call : Call} (ha : call.Allowed s) {c : CtxRef} {table : SigTable}
    {ctx : AwskmsSigCtx Alg Key}
    (hc : (Sys.step h env call s).state.ctxs c = some (table, ctx)) :
    FipsViewed (Sys.step h env call s).state.keys ctx := by
  have hnow : FipsViewed s.keys ctx := by
    cases ctx_step hc with
    | kept hold _ => exact hv c table ctx hold
    | new =>
        intro r hr
        cases hr
    | @copied _ _ old hold =>
        intro r hr hneed
        have hsome := hv _ _ _ hold r hr hneed
        rw [AwskmsSigCtx.copy, if_pos hsome]
        exact hsome
    | called hold _ => exact fipsViewed_call (hv _ _ _ hold)
  intro r hr hneed
  refine hnow r hr ?_
  cases hf : (s.keys r).fipsRequired with
  | true =>
      rw [key_fips_kept h env (sound_bound hs ha hc hr) call hf] at hneed
      exact hneed
  | false =>
      rw [Bool.and_eq_true] at hneed ⊢
      exact ⟨hneed.1, rfl⟩

theorem fipsViewed_run
    {evs : List (Rec (Sys Alg Key) (Input Alg Key) Event)} {s : Sys Alg Key}
    (hr : (provider h).Run evs s) {c : CtxRef} {table : SigTable}
    {ctx : AwskmsSigCtx Alg Key} (hc : s.ctxs c = some (table, ctx)) :
    FipsViewed s.keys ctx := by
  have hboth := Machine.Run.inv (I := fun s : Sys Alg Key => Sound s ∧
    ∀ c table ctx, s.ctxs c = some (table, ctx) → FipsViewed s.keys ctx) ?_ ?_ hr
  · exact hboth.2 c table ctx hc
  · refine ⟨sound_empty, fun c table ctx hc => ?_⟩
    simp only [provider, Sys.empty] at hc
    cases hc
  · intro s i hs ha
    exact ⟨sound_step hs.1 ha, fun c table ctx hc =>
      fipsViewed_step hs.1 hs.2 ha hc⟩

/-- An operation on a bound key has a view to work on. -/
theorem operation_viewed {evs : List (Rec (Sys Alg Key) (Input Alg Key) Event)}
    {s : Sys Alg Key} (hr : (provider h).Run evs s) {c : CtxRef} {table : SigTable}
    {ctx : AwskmsSigCtx Alg Key} (hc : s.ctxs c = some (table, ctx)) {r : KeyRef}
    (hkey : ctx.key = some r) :
    ∃ pub, operationPubkey s.keys ctx = some pub ∧
      (pub = (s.keys r).pub ∨ pub.pkey.isSome) := by
  simp only [operationPubkey, hkey]
  cases hneed : ctx.fipsRequired && !(s.keys r).fipsRequired with
  | false => exact ⟨(s.keys r).pub, rfl, .inl rfl⟩
  | true =>
      have hview := fipsViewed_run hr hc r hkey hneed
      exact ⟨ctx.fipsPub, if_pos hview, .inr hview⟩

/-- The signature size of an operation on a loaded key is known. -/
theorem requiredSigSize_pos
    {evs : List (Rec (Sys Alg Key) (Input Alg Key) Event)} {s : Sys Alg Key}
    (hr : (provider h).Run evs s)
    (hE : ∀ e ∈ evs, DecodesSized h e.input.env) {c : CtxRef}
    {table : SigTable} {ctx : AwskmsSigCtx Alg Key}
    (hc : s.ctxs c = some (table, ctx)) {r : KeyRef} (hkey : ctx.key = some r)
    (hpriv : hasPrivateKey (s.keys r) = true) :
    requiredSigSize h s.keys ctx ≠ 0 := by
  have hs : Traced h (DecodesSized h) s := traced_run hr hE
  obtain ⟨pub, hpub, -⟩ := operation_viewed hr hc hkey
  have hdec : ∃ env der spec fips pk, DecodesSized h env ∧
      Decoded h env der spec fips pk pub := by
    rcases hs.operation_view hc hkey hpub with heq | ⟨env, spec, pk, hE, _, hd⟩
    · subst heq
      have huri : (s.keys r).uri ≠ AwskmsUri.zero := by
        intro hz
        rw [hasPrivateKey, hz] at hpriv
        cases hpriv
      cases hs.kind r with
      | blank hb =>
          have hlive := (hs.sound.bound c table ctx r hc hkey).viewed
          rw [hb] at hlive
          cases hlive
      | loaded hE _ _ hd => exact ⟨_, _, _, _, _, hE, hd⟩
      | publicHalf hz => exact absurd hz huri
      | shell hz => exact absurd hz huri
    · exact ⟨env, _, spec, true, pk, hE, hd⟩
  obtain ⟨env, der, spec, fips, pk, hsized, hd⟩ := hdec
  have hpos := hsized _ _ _ _ hd.answer
  unfold requiredSigSize
  split
  · next hne => exact hne
  · unfold maxSigSize
    rw [hpub]
    simp only [hd.pkey]
    omega

/-! ## Over a run

A call is judged when it is one that libcrypto makes: the key is one that was
loaded, outputs are where they should be, and a final finds its hash running.
Whether the call raises is then read from its parameters and the key. -/

/-- The calls that report, with their outputs where they should be; a final
call finds its hash running. -/
def SigCall.Proper (ctx : AwskmsSigCtx Alg Key) : SigCall → Prop
  | .setCtxParams _ | .signInit .. | .verifyInit .. | .digestSignInit ..
  | .digestVerifyInit .. | .oneshotInit .. => True
  | .sign buf _ | .oneshotSign buf _ => buf.siglenNull = false
  | .digestSignFinal buf => buf.siglenNull = false ∧
      ∃ md data, ctx.mdctx = some (.running md data)
  | _ => False

/-- A proper call on a context with a loaded key, while nothing inside fails. -/
structure Judged (env : Env Alg Key) (s : Sys Alg Key) (c : CtxRef)
    (table : SigTable) (ctx : AwskmsSigCtx Alg Key) (sc : SigCall) : Prop where
  found : s.ctxs c = some (table, ctx)
  offered : table.offers sc = true
  allowed : (Call.sig c sc).Allowed s
  loaded : ∃ r, keyAfter sc.provkey ctx = some r ∧
    hasPrivateKey (s.keys r) = true
  proper : sc.Proper ctx
  steady : env.Steady

/-- A call reports its refusal exactly when it does not come to a parameter it
cannot read. -/
theorem refusals_raise_once_iff
    {evs : List (Rec (Sys Alg Key) (Input Alg Key) Event)} {s : Sys Alg Key}
    (hr : (provider h).Run evs s)
    (hE : ∀ e ∈ evs, DecodesSized h e.input.env) {c : CtxRef}
    {table : SigTable} {ctx : AwskmsSigCtx Alg Key} {sc : SigCall}
    (hj : Judged env s c table ctx sc) :
    Reported Event.isRaise (Sys.step h env (.sig c sc) s).ok
        (Sys.step h env (.sig c sc) s).trace ↔
      sc.unread h env s.keys ctx = false := by
  obtain ⟨r, hkey, hpriv⟩ := hj.loaded
  have hsome : (keyAfter sc.provkey ctx).isSome := by
    rw [hkey]
    rfl
  have hstep : Reported Event.isRaise (Sys.step h env (.sig c sc) s).ok
      (Sys.step h env (.sig c sc) s).trace ↔
      Reports (sigCall h env s.keys sc) ctx := by
    simp only [Sys.step, hj.found, hj.offered]
    exact Iff.rfl
  rw [hstep]
  have hsize : ctx.key = some r → requiredSigSize h s.keys ctx ≠ 0 :=
    fun hk => requiredSigSize_pos hr hE hj.found hk hpriv
  have hread : sc.provkey = none → sc.params = none →
      sc.unread h env s.keys ctx = false := by
    intro hk hp
    rw [SigCall.unread, hp]
    exact Bool.and_false _
  have hproper := hj.proper
  cases sc with
  | sign buf tbs =>
      have hkey : ctx.key = some r := hkey
      refine iff_of_true ?_ (hread rfl rfl)
      show Reported Event.isRaise (awskmsSigSign h env s.keys ctx buf tbs).ok
        (awskmsSigSign h env s.keys ctx buf tbs).trace
      rw [awskmsSigSign, hkey]
      exact signDigest_reported hproper (hsize hkey)
  | digestSignFinal buf =>
      have hkey : ctx.key = some r := hkey
      obtain ⟨hbuf, md, data, hrun⟩ := hproper
      refine iff_of_true ?_ (hread rfl rfl)
      exact digestSignFinal_reports hbuf (hsize hkey) hrun
        (by rw [hkey]; rfl)
  | oneshotSign buf tbs =>
      have hkey : ctx.key = some r := hkey
      refine iff_of_true ?_ (hread rfl rfl)
      exact oneshotSign_reported hj.steady hproper (hsize hkey)
        (by rw [hkey]; rfl)
  | getCtxParams => exact absurd hproper id
  | verify => exact absurd hproper id
  | digestSignUpdate => exact absurd hproper id
  | digestVerifyUpdate => exact absurd hproper id
  | digestVerifyFinal => exact absurd hproper id
  | oneshotVerify => exact absurd hproper id
  | _ => exact setup_reports_iff hj.steady rfl hsome

end

namespace Bench

theorem decodesSized : DecodesSized host env := by
  intro der propq k n _
  cases k <;> decide

theorem steady : env.Steady := fun _ => rfl

/-- An RSA key loaded and a context signing with it. -/
def signing : List Call := opening "alias/rsa" .prehash ++ [
  onCtx (.signInit (some 0) none)]

/-- A padding mode that KMS does not sign with. -/
def oaep : SigCall := .setCtxParams (some [strParam "pad-mode" "oaep"])

/-- A digest that is not a string. -/
def digestNumber : SigCall := .setCtxParams (some [⟨"digest", .integer 256⟩])

theorem signing_sized {e : Rec (Sys Digest PubKey) (Input Digest PubKey) Event}
    (he : e ∈ runOf signing) : DecodesSized host e.input.env := by
  rw [runOf_env he]
  exact decodesSized

theorem signing_judged {params : Option (List OsslParam)} :
    ∃ ctx, Judged env (stateOf signing) 0 .prehash ctx (.setCtxParams params) := by
  have hpre : ((stateOf signing).ctxs 0).map (fun p => (p.1, p.2.key)) =
      some (.prehash, some 0) := by decide +kernel
  obtain ⟨⟨table, ctx⟩, hctx, hpair⟩ := Option.map_eq_some_iff.mp hpre
  obtain ⟨rfl, hkey⟩ := Prod.mk.inj hpair
  refine ⟨ctx, hctx, rfl, ?_, ⟨0, hkey, by decide +kernel⟩, trivial, steady⟩
  intro r hr
  cases hr

end Bench

theorem refusals_raise_once_iff_oaep :
    Reported Event.isRaise
      (Sys.step Bench.host Bench.env (.sig 0 Bench.oaep)
        (Bench.stateOf Bench.signing)).ok
      (Sys.step Bench.host Bench.env (.sig 0 Bench.oaep)
        (Bench.stateOf Bench.signing)).trace := by
  obtain ⟨ctx, hj⟩ := Bench.signing_judged
  refine (refusals_raise_once_iff (Bench.run_runOf (by decide +kernel))
    (fun e he => Bench.signing_sized he) hj).mpr ?_
  rfl

/-- The digest parameter is an integer, and nothing is raised. -/
theorem refusals_not_raised :
    ¬ ∀ evs s, (provider Bench.host).Run evs s →
      (∀ e ∈ evs, DecodesSized Bench.host e.input.env) →
      ∀ env c table ctx sc, Judged env s c table ctx sc →
        Reported Event.isRaise (Sys.step Bench.host env (.sig c sc) s).ok
          (Sys.step Bench.host env (.sig c sc) s).trace := by
  intro hall
  obtain ⟨ctx, hj⟩ := Bench.signing_judged
  have hraised := hall _ _ (Bench.run_runOf (by decide +kernel))
    (fun e he => Bench.signing_sized he) Bench.env 0 .prehash ctx
    Bench.digestNumber hj
  revert hraised
  decide +kernel

end AwsKms.Model
