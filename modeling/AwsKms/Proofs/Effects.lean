import AwsKms.Proofs.Requests

/-!
# What an operation asks of other code

Apart from the binding of a key, a call on a context reaches outside in three
ways: it fetches a digest, sets up a verification, or asks KMS for a
signature. All three carry the requirement of the operation as it stands when
the call makes them, and `sigCall_effects` says so for every call at once.
What else is in a trace is an answer to the caller.
-/

namespace AwsKms.Model

open AwsKms.Lib

variable {Alg Key : Type} {h : Host Alg Key} {env : Env Alg Key}
  {keys : Keys Key}

/-- The effects of a call of an operation, under a FIPS requirement or none. -/
inductive OpEffect (fips : Bool) : Event → Prop where
  | raise (e : ProviderError) : OpEffect fips (.raise e)
  | setSiglen (n : Nat) : OpEffect fips (.setSiglen n)
  | writeSig (sig : Bytes) : OpEffect fips (.writeSig sig)
  | outParam (key : String) (data : OsslParamData) :
      OpEffect fips (.outParam key data)
  | fetchMd (name : Bytes) :
      OpEffect fips (.fetchMd name (awskmsDependencyPropq fips))
  | verifyWith : OpEffect fips (.verifyWith (awskmsDependencyPropq fips))
  | kmsSign {req : KmsRequest} : req.fipsRequired = fips →
      OpEffect fips (.kmsSign req)

/-- A trace of such effects. -/
def OpEffects (fips : Bool) (t : List Event) : Prop := ∀ e ∈ t, OpEffect fips e

variable {fips : Bool}

theorem opEffects_nil : OpEffects fips [] := by
  intro e he
  cases he

theorem opEffects_cons {e : Event} {t : List Event} (he : OpEffect fips e)
    (ht : OpEffects fips t) : OpEffects fips (e :: t) := by
  intro e' he'
  rcases List.mem_cons.mp he' with rfl | he'
  · exact he
  · exact ht e' he'

theorem opEffects_singleton {e : Event} (he : OpEffect fips e) :
    OpEffects fips [e] := opEffects_cons he opEffects_nil

theorem opEffects_append {s t : List Event} (hs : OpEffects fips s)
    (ht : OpEffects fips t) : OpEffects fips (s ++ t) := by
  intro e he
  rcases List.mem_append.mp he with he | he
  · exact hs e he
  · exact ht e he

theorem opEffects_andThen {r k : Reply Event} (hr : OpEffects fips r.trace)
    (hk : OpEffects fips k.trace) : OpEffects fips (r.andThen k).trace := by
  intro e he
  rcases Reply.mem_andThen.mp he with he | ⟨_, he⟩
  · exact hr e he
  · exact hk e he

/-- A check that raises, in a branch that is not taken on success. -/
theorem opEffects_raise {reason : Reason} {fmt : String} {args : List FmtArg} :
    OpEffects fips [raise reason fmt args] := opEffects_singleton (.raise _)

theorem setDigest_effects (name : Bytes) (x : AwskmsSigCtx Alg Key) :
    OpEffects (operationRequiresFips keys x)
      (setDigest h env keys name x).trace := by
  unfold setDigest
  split
  · exact opEffects_nil
  · simp only []
    split
    · exact opEffects_cons (.fetchMd _) opEffects_raise
    · split
      · exact opEffects_cons (.fetchMd _) opEffects_raise
      · exact opEffects_singleton (.fetchMd _)

/-- A write that binds no key leaves the requirement of the operation. -/
theorem requires_write {sc : SigCall} (hsc : sc.provkey = none)
    {x y : AwskmsSigCtx Alg Key} (hw : Write h env keys sc x y) :
    operationRequiresFips keys y = operationRequiresFips keys x := by
  cases hw with
  | bind hr _ | bindView hr _ _ =>
      rw [hsc] at hr
      cases hr
  | _ => rfl

/-- A sequence that keeps the requirement of an operation is under it when each
of its members is. -/
theorem all_effects {as : List (Act (AwskmsSigCtx Alg Key) Event)}
    (hkeep : ∀ a ∈ as, ∀ b, ∀ x, operationRequiresFips keys x = b →
      operationRequiresFips keys (a x).state = b)
    (has : ∀ a ∈ as, Says (fun x e => OpEffect (operationRequiresFips keys x) e) a)
    (x : AwskmsSigCtx Alg Key) :
    OpEffects (operationRequiresFips keys x) (Act.all as x).trace := by
  intro e he
  obtain ⟨a, ha, y, hy, hmem⟩ := Act.mem_trace_all
    (P := fun y => operationRequiresFips keys y = operationRequiresFips keys x)
    (fun a ha y hy => hkeep a ha _ y hy) rfl he
  rw [← hy]
  exact has a ha y e hmem

theorem setCtxParams_effects (params : Option (List OsslParam))
    (x : AwskmsSigCtx Alg Key) :
    OpEffects (operationRequiresFips keys x)
      (awskmsSigSetCtxParams h env keys params x).trace := by
  cases params with
  | none => exact opEffects_nil
  | some ps =>
      refine all_effects (fun a ha b x hx => ?_) ?_ x
      · exact (settings_writes
          (rfl : (SigCall.setCtxParams (some ps)).params = some ps) a ha).keeps
          (P := fun y => operationRequiresFips keys y = b)
          (fun _ _ hw hy => (requires_write rfl hw).trans hy) hx
      · exact settings_says (fun _ e => .raise e) setDigest_effects

theorem unsupportedParamsRefused_effects {x : AwskmsSigCtx Alg Key} :
    OpEffects fips (unsupportedParamsRefused keys x).trace := by
  unfold unsupportedParamsRefused
  simp only []
  split
  · exact opEffects_raise
  · split
    · exact opEffects_nil
    · split
      · exact opEffects_nil
      · exact opEffects_raise

theorem restartHash_effects {x : AwskmsSigCtx Alg Key} :
    OpEffects fips (restartHash env keys x).trace := by
  unfold restartHash
  split
  · exact opEffects_raise
  · split
    · exact opEffects_nil
    · split
      · exact opEffects_nil
      · exact opEffects_nil

theorem applyMdname_effects (mdname : Option Bytes)
    (x : AwskmsSigCtx Alg Key) :
    OpEffects (operationRequiresFips keys x)
      (applyMdname h env keys mdname x).trace := by
  unfold applyMdname
  split
  · exact opEffects_nil
  · exact opEffects_nil
  · exact setDigest_effects _ x

theorem refuseMdname_effects {mdname : Option Bytes}
    {x : AwskmsSigCtx Alg Key} :
    OpEffects fips (refuseMdname keys mdname x).trace := by
  unfold refuseMdname
  split
  · exact opEffects_nil
  · exact opEffects_nil
  · exact opEffects_raise

variable (h env keys) in
theorem afterBind_requires (sc : SigCall) :
    ∀ a ∈ sc.afterBind h env keys, ∀ b, ∀ x, operationRequiresFips keys x = b →
      operationRequiresFips keys (a x).state = b :=
  fun a ha b => afterBind_keeps (P := fun y => operationRequiresFips keys y = b)
    (fun _ hsc _ _ hw hy => (requires_write hsc hw).trans hy) sc a ha

variable (h env keys) in
/-- What an init does once its key is bound is under the requirement that came
with the key. -/
theorem afterBind_effects (sc : SigCall) (x : AwskmsSigCtx Alg Key) :
    OpEffects (operationRequiresFips keys x)
      (Act.all (sc.afterBind h env keys) x).trace := by
  refine all_effects (afterBind_requires h env keys sc) (fun a ha => ?_) x
  cases sc with
  | signInit provkey params | verifyInit provkey params =>
      rw [List.mem_singleton.mp ha]
      exact setCtxParams_effects params
  | digestSignInit mdname provkey params
  | digestVerifyInit mdname provkey params =>
      simp only [SigCall.afterBind, List.mem_cons, List.not_mem_nil,
        or_false] at ha
      rcases ha with rfl | rfl | rfl
      · exact setCtxParams_effects params
      · exact applyMdname_effects mdname
      · exact fun _ => restartHash_effects
  | oneshotInit mdname provkey params =>
      simp only [SigCall.afterBind, List.mem_cons, List.not_mem_nil,
        or_false] at ha
      rcases ha with rfl | rfl | rfl
      · exact setCtxParams_effects params
      · exact fun _ => refuseMdname_effects
      · exact fun _ => unsupportedParamsRefused_effects
  | _ => cases ha

theorem sizeProbe_effects {buf : SigBuf} {x : AwskmsSigCtx Alg Key} :
    OpEffects fips (sizeProbe h keys buf x).trace := by
  unfold sizeProbe
  split
  · exact opEffects_nil
  · exact opEffects_singleton (.setSiglen _)

theorem outputBufferFits_effects {buf : SigBuf} {x : AwskmsSigCtx Alg Key} :
    OpEffects fips (outputBufferFits h keys buf x).trace := by
  unfold outputBufferFits
  simp only []
  split
  · exact opEffects_nil
  · split
    · exact opEffects_nil
    · exact opEffects_cons (.setSiglen _) opEffects_raise

theorem awskmsKmsSign_effects {req : KmsRequest} {n : Nat} :
    OpEffects req.fipsRequired (awskmsKmsSign env req n).trace := by
  unfold awskmsKmsSign
  split
  · exact opEffects_cons (.kmsSign rfl) (opEffects_singleton (.raise _))
  · split
    · exact opEffects_cons (.kmsSign rfl) opEffects_raise
    · exact opEffects_cons (.kmsSign rfl)
        (opEffects_cons (.writeSig _) (opEffects_singleton (.setSiglen _)))

theorem signDigest_effects {x : AwskmsSigCtx Alg Key} {buf : SigBuf}
    {digest : Bytes} :
    OpEffects (operationRequiresFips keys x)
      (signDigest h env keys x buf digest).trace := by
  unfold signDigest
  split
  · exact sizeProbe_effects
  · refine opEffects_andThen outputBufferFits_effects (opEffects_andThen ?_
      (opEffects_andThen unsupportedParamsRefused_effects ?_))
    · unfold requireDigest
      split
      · exact opEffects_raise
      · exact opEffects_nil
    · unfold signChecked
      simp only []
      split
      · exact opEffects_raise
      · unfold signWith
        simp only []
        split
        · exact opEffects_raise
        · split
          · exact opEffects_raise
          · exact awskmsKmsSign_effects

theorem shakeOver_effects {input : Bytes} {failed : ProviderError} :
    OpEffects fips (shakeOver h env fips input failed).1.trace := by
  unfold shakeOver
  simp only []
  split
  · exact opEffects_cons (.fetchMd _) opEffects_raise
  · split
    · exact opEffects_singleton (.fetchMd _)
    · split
      · exact opEffects_cons (.fetchMd _) (opEffects_singleton (.raise _))
      · exact opEffects_singleton (.fetchMd _)

theorem computeMu_effects {x : AwskmsSigCtx Alg Key} {msg : Bytes} :
    OpEffects (operationRequiresFips keys x)
      (computeMu h env keys x msg).1.trace := by
  unfold computeMu
  split
  · exact opEffects_raise
  · unfold awskmsMu
    split
    · exact opEffects_raise
    · exact shakeOver_effects

theorem oneshotSign_effects {x : AwskmsSigCtx Alg Key} {buf : SigBuf}
    {tbs : Bytes} :
    OpEffects (operationRequiresFips keys x)
      (awskmsSigOneshotSign h env keys x buf tbs).trace := by
  unfold awskmsSigOneshotSign
  split
  · exact opEffects_nil
  · split
    · exact sizeProbe_effects
    · refine opEffects_andThen outputBufferFits_effects
        (opEffects_andThen unsupportedParamsRefused_effects ?_)
      split
      · exact opEffects_raise
      · unfold oneshotBody
        simp only []
        split
        · split
          · exact opEffects_raise
          · split
            · exact opEffects_raise
            · exact awskmsKmsSign_effects
        · exact opEffects_andThen computeMu_effects awskmsKmsSign_effects
        · exact opEffects_raise

theorem verifyTrace_effects {x : AwskmsSigCtx Alg Key} :
    OpEffects (operationRequiresFips keys x) (verifyTrace keys x) := by
  unfold verifyTrace
  split
  · exact opEffects_nil
  · exact opEffects_singleton .verifyWith

theorem verify_effects {x : AwskmsSigCtx Alg Key} {sig tbs : Bytes} :
    OpEffects (operationRequiresFips keys x)
      (awskmsSigVerify h env keys x sig tbs).trace := by
  unfold awskmsSigVerify
  split
  · exact verifyTrace_effects
  · exact verifyTrace_effects

theorem getCtxParams_effects {wanted : List String}
    {x : AwskmsSigCtx Alg Key} :
    OpEffects fips (awskmsSigGetCtxParams h wanted x).trace := by
  have hone : ∀ (key : String) (data : OsslParamData),
      OpEffects fips (if key ∈ wanted then [Event.outParam key data] else []) := by
    intro key data
    split
    · exact opEffects_singleton (.outParam _ _)
    · exact opEffects_nil
  exact opEffects_append (opEffects_append (hone _ _) (hone _ _)) (hone _ _)

theorem update_effects {chunk : Bytes} {x : AwskmsSigCtx Alg Key} :
    OpEffects fips (awskmsSigDigestSignUpdate chunk x).trace := by
  unfold awskmsSigDigestSignUpdate
  split
  · exact opEffects_nil
  · exact opEffects_nil

variable (h env keys) in
theorem sigCall_effects {sc : SigCall} (hsc : sc.isInit = false)
    (x : AwskmsSigCtx Alg Key) :
    OpEffects (operationRequiresFips keys x) (sigCall h env keys sc x).trace := by
  cases sc with
  | setCtxParams params => exact setCtxParams_effects params x
  | getCtxParams wanted => exact getCtxParams_effects
  | sign buf tbs =>
      show OpEffects _ (awskmsSigSign h env keys x buf tbs).trace
      unfold awskmsSigSign
      split
      · exact opEffects_nil
      · exact signDigest_effects
  | verify sig tbs => exact verify_effects
  | digestSignUpdate chunk | digestVerifyUpdate chunk => exact update_effects
  | digestSignFinal buf =>
      show OpEffects _ (awskmsSigDigestSignFinal h env keys buf x).trace
      unfold awskmsSigDigestSignFinal
      split
      · exact opEffects_nil
      · split
        · exact sizeProbe_effects
        · split
          · exact outputBufferFits_effects
          · split
            · exact opEffects_nil
            · next y digest hf =>
                obtain ⟨md, data, _, rfl, _⟩ := finishHash_eq hf
                exact signDigest_effects (x := { x with
                  mdctx := some (.finalised md) })
  | digestVerifyFinal sig =>
      show OpEffects _ (awskmsSigDigestVerifyFinal h env keys sig x).trace
      unfold awskmsSigDigestVerifyFinal
      split
      · exact opEffects_nil
      · next y digest hf =>
          obtain ⟨md, data, _, rfl, _⟩ := finishHash_eq hf
          exact verify_effects (x := { x with mdctx := some (.finalised md) })
  | oneshotSign buf tbs => exact oneshotSign_effects
  | oneshotVerify sig tbs =>
      show OpEffects _ (awskmsSigOneshotVerify h env keys x sig tbs).trace
      unfold awskmsSigOneshotVerify
      split
      · exact verifyTrace_effects
      · exact verifyTrace_effects
  | _ => cases hsc

end AwsKms.Model
