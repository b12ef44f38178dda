import AwsKms.Proofs.Bench
import AwsKms.Proofs.Blocks

/-!
# Where a failing call stops

A parameter or init call applies its settings one after the other and returns
at the first it has to refuse, and nothing takes back what it applied before.
`callSteps` pairs each step of a call with the write it makes when it
succeeds, so that a call is known by its list: all of the writes when it
returns 1, and the writes before the refused step when it returns 0.

One step is not all-or-nothing. The restart of the running hash frees the old
hash before it makes the new one, and a failure in between leaves none.
-/

namespace AwsKms.Model

open AwsKms.Lib

variable {Alg Key : Type}

def SigCall.padMode (sc : SigCall) : Option RsaPadding :=
  (sc.param ossl_SIGNATURE_PARAM_PAD_MODE).bind fun p =>
    (readPadMode p).bind RsaPadding.ofInt

def SigCall.saltlen (h : Host Alg Key) (sc : SigCall) : Option Int :=
  (sc.param ossl_SIGNATURE_PARAM_PSS_SALTLEN).bind (readPssSaltlen h)

/-- The context string, when it is one a context has room for. -/
def SigCall.contextString (sc : SigCall) : Option Bytes :=
  (sc.param ossl_SIGNATURE_PARAM_CONTEXT_STRING).bind fun p =>
    (getOctetStringPtr p).bind fun data => if data.length ≤ 255 then some data else none

def SigCall.instanceName (sc : SigCall) : Option Bytes :=
  (sc.param ossl_SIGNATURE_PARAM_INSTANCE).bind fun p => getUtf8Param p 32

def SigCall.mgf1Digest (sc : SigCall) : Option Bytes :=
  (sc.param ossl_SIGNATURE_PARAM_MGF1_DIGEST).bind fun p => getUtf8Param p 64

/-- Every parameter the call carries is one that can be read. -/
structure SigCall.Readable (h : Host Alg Key) (sc : SigCall) : Prop where
  digest : (sc.param ossl_SIGNATURE_PARAM_DIGEST).isSome →
    sc.digestParam.isSome
  padMode : (sc.param ossl_SIGNATURE_PARAM_PAD_MODE).isSome →
    sc.padMode.isSome
  saltlen : (sc.param ossl_SIGNATURE_PARAM_PSS_SALTLEN).isSome →
    (sc.saltlen h).isSome
  context : (sc.param ossl_SIGNATURE_PARAM_CONTEXT_STRING).isSome →
    sc.contextString.isSome
  instanceName : (sc.param ossl_SIGNATURE_PARAM_INSTANCE).isSome →
    sc.instanceName.isSome
  mgf1 : (sc.param ossl_SIGNATURE_PARAM_MGF1_DIGEST).isSome →
    sc.mgf1Digest.isSome

/-! ## Steps and their writes

A step is a block with the write it makes. The write is a function of its own,
so that the list of a call's writes is there before any of its steps has been
run. -/

/-- A step of a call, and what it writes when it succeeds. -/
abbrev Step (Alg Key : Type) :=
  Act (AwskmsSigCtx Alg Key) Event ×
    (AwskmsSigCtx Alg Key → AwskmsSigCtx Alg Key)

section

variable (h : Host Alg Key) (env : Env Alg Key) (keys : Keys Key)

/-- The key argument: the key, and the FIPS view of it when the context needs
one. -/
def bindWrite (provkey : Option KeyRef) (ctx : AwskmsSigCtx Alg Key) :
    AwskmsSigCtx Alg Key :=
  match provkey with
  | none => ctx
  | some r => { ctx with
      key := some r,
      fipsPub := if ctx.fipsRequired && !(keys r).fipsRequired then
        (fipsView h env (keys r)).state else AwskmsPubkey.zero }

/-- A digest name: the digest fetched under it and its class, and none of
either for the empty name. -/
def digestWrite (name : Option Bytes) (ctx : AwskmsSigCtx Alg Key) :
    AwskmsSigCtx Alg Key :=
  match name with
  | none => ctx
  | some name =>
      if name = [] then { ctx with md := none, digest := .none }
      else
        match env.mdFetch name (operationPropq keys ctx) with
        | none => ctx
        | some alg => { ctx with
            md := some ⟨alg, operationPropq keys ctx⟩,
            digest := awskmsDigestOf h alg }

def padModeWrite (mode : Option RsaPadding) (ctx : AwskmsSigCtx Alg Key) :
    AwskmsSigCtx Alg Key :=
  { ctx with padMode := mode.getD ctx.padMode }

def saltlenWrite (n : Option Int) (ctx : AwskmsSigCtx Alg Key) :
    AwskmsSigCtx Alg Key :=
  { ctx with pssSaltlen := n.getD ctx.pssSaltlen }

def contextWrite (data : Option Bytes) (ctx : AwskmsSigCtx Alg Key) :
    AwskmsSigCtx Alg Key :=
  match data with
  | none => ctx
  | some data =>
      if hfit : data.length ≤ 255 then
        { ctx with context := ctx.context.store data hfit, hasContext := true }
      else ctx

def instanceWrite (name : Option Bytes) (ctx : AwskmsSigCtx Alg Key) :
    AwskmsSigCtx Alg Key :=
  match name with
  | none => ctx
  | some name => { ctx with instanceName := name, hasInstance := true }

/-- A fresh hash of the selected digest. -/
def hashWrite (ctx : AwskmsSigCtx Alg Key) : AwskmsSigCtx Alg Key :=
  { ctx with mdctx := ctx.md.map fun md => .running md [] }

def bindSteps (provkey : Option KeyRef) : List (Step Alg Key) :=
  [(bindKey h env keys provkey, bindWrite h env keys provkey)]

/-- The steps of the parameters, in the order they are looked for. -/
def paramSteps (sc : SigCall) : List (Step Alg Key) :=
  match sc.params with
  | none => []
  | some ps => [
      (onParam ps ossl_SIGNATURE_PARAM_DIGEST (applyDigest h env keys),
        digestWrite h env keys sc.digestParam),
      (onParam ps ossl_SIGNATURE_PARAM_PAD_MODE applyPadMode,
        padModeWrite sc.padMode),
      (onParam ps ossl_SIGNATURE_PARAM_PSS_SALTLEN (applyPssSaltlen h),
        saltlenWrite (sc.saltlen h)),
      (onParam ps ossl_SIGNATURE_PARAM_CONTEXT_STRING applyContextString,
        contextWrite sc.contextString),
      (onParam ps ossl_SIGNATURE_PARAM_INSTANCE applyInstance,
        instanceWrite sc.instanceName),
      (onParam ps ossl_SIGNATURE_PARAM_MGF1_DIGEST (checkMgf1Digest h), id)]

/-- What an init does after its parameters. -/
def endSteps (sc : SigCall) : List (Step Alg Key) :=
  match sc with
  | .digestSignInit mdname _ _ | .digestVerifyInit mdname _ _ => [
      (applyMdname h env keys mdname, digestWrite h env keys sc.mdname),
      (restartHash env keys, hashWrite)]
  | .oneshotInit mdname _ _ => [
      (refuseMdname keys mdname, fun ctx => { ctx with digest := .none }),
      (fun ctx => (unsupportedParamsRefused keys ctx).keep ctx, id)]
  | _ => []

/-- The steps of a parameter or init call. -/
def callSteps (sc : SigCall) : List (Step Alg Key) :=
  match sc with
  | .setCtxParams _ => paramSteps h env keys sc
  | _ => bindSteps h env keys sc.provkey ++ paramSteps h env keys sc ++
      endSteps h env keys sc

end

section

variable {h : Host Alg Key} {env : Env Alg Key} {keys : Keys Key}

theorem paramSteps_fst {sc : SigCall} :
    (paramSteps h env keys sc).map (·.1) =
      (paramBlocks h env keys sc.params).map (·.1) := by
  unfold paramSteps
  cases sc.params with
  | none => rfl
  | some ps => rfl

theorem callSteps_fst {sc : SigCall} (hsc : sc.isSetup = true) :
    (callSteps h env keys sc).map (·.1) =
      (callBlocks h env keys sc).map (·.1) := by
  cases sc with
  | setCtxParams params => exact paramSteps_fst
  | signInit provkey params | verifyInit provkey params =>
      simp only [callSteps, callBlocks, endSteps, List.append_nil,
        List.map_append, List.map_cons, paramSteps_fst]
      rfl
  | digestSignInit mdname provkey params
  | digestVerifyInit mdname provkey params
  | oneshotInit mdname provkey params =>
      simp only [callSteps, callBlocks, endSteps, List.map_append,
        List.map_cons, paramSteps_fst]
      rfl
  | _ => cases hsc

/-- A parameter or init call is its steps, run in order. -/
theorem sigCall_eq_steps {sc : SigCall} (hsc : sc.isSetup = true)
    (ctx : AwskmsSigCtx Alg Key) :
    sigCall h env keys sc ctx =
      Act.all ((callSteps h env keys sc).map (·.1)) ctx := by
  rw [callSteps_fst hsc]
  exact sigCall_eq_blocks hsc ctx

/-- What every step of a call has, by the part of the call it belongs to. -/
theorem forall_callSteps {sc : SigCall} {P : Step Alg Key → Prop}
    (hbind : P (bindKey h env keys sc.provkey, bindWrite h env keys sc.provkey))
    (hparam : ∀ a ∈ paramSteps h env keys sc, P a)
    (hend : ∀ a ∈ endSteps h env keys sc, P a) :
    ∀ a ∈ callSteps h env keys sc, P a := by
  have hall : ∀ a ∈ bindSteps h env keys sc.provkey ++
      paramSteps h env keys sc ++ endSteps h env keys sc, P a := by
    intro a ha
    rcases List.mem_append.mp ha with ha | ha
    · rcases List.mem_append.mp ha with ha | ha
      · obtain rfl := List.mem_singleton.mp ha
        exact hbind
      · exact hparam a ha
    · exact hend a ha
  cases sc with
  | setCtxParams params => exact hparam
  | _ => exact hall

theorem bindKey_ok_state {provkey : Option KeyRef} {x : AwskmsSigCtx Alg Key}
    (hok : (bindKey h env keys provkey x).ok = true) :
    (bindKey h env keys provkey x).state = bindWrite h env keys provkey x := by
  cases provkey with
  | none => rfl
  | some r =>
      simp only [bindKey] at hok ⊢
      split at hok
      · cases hok
      · next hup =>
          rw [if_neg hup]
          split at hok
          · next hneed =>
              split at hok
              · next hview =>
                  rw [if_pos hneed, if_pos hview]
                  simp only [bindWrite, if_pos hneed]
              · cases hok
          · next hneed =>
              rw [if_neg hneed]
              simp only [bindWrite, if_neg hneed]

theorem setDigest_ok_state {name : Bytes} {x : AwskmsSigCtx Alg Key}
    (hok : (setDigest h env keys name x).ok = true) :
    (setDigest h env keys name x).state =
      digestWrite h env keys (some name) x := by
  rcases setDigest_ok hok with ⟨hn, hst⟩ | ⟨alg, hn, hf, hst⟩
  · rw [hst]
    simp only [digestWrite, if_pos hn]
  · rw [hst]
    simp only [digestWrite, if_neg hn, hf]

theorem applyMdname_ok_state {mdname : Option Bytes} {sc : SigCall}
    {provkey : Option KeyRef} {params : Option (List OsslParam)}
    (hsc : sc = .digestSignInit mdname provkey params ∨
      sc = .digestVerifyInit mdname provkey params) {x : AwskmsSigCtx Alg Key}
    (hok : (applyMdname h env keys mdname x).ok = true) :
    (applyMdname h env keys mdname x).state =
      digestWrite h env keys sc.mdname x := by
  cases mdname with
  | none => rcases hsc with rfl | rfl <;> rfl
  | some name =>
      cases name with
      | nil => rcases hsc with rfl | rfl <;> rfl
      | cons c name =>
          have hname : sc.mdname = some (c :: name) := by
            rcases hsc with rfl | rfl <;> rfl
          rw [hname]
          exact setDigest_ok_state hok

theorem restartHash_ok_state {x : AwskmsSigCtx Alg Key}
    (hok : (restartHash env keys x).ok = true) :
    (restartHash env keys x).state = hashWrite x := by
  unfold restartHash at hok ⊢
  cases hmd : x.md with
  | none =>
      simp only [hmd, Act.refuse_apply] at hok
      cases hok
  | some md =>
      simp only [hmd] at hok ⊢
      split at hok
      · cases hok
      · next hnew =>
          split at hok
          · cases hok
          · next hinit =>
              rw [if_neg hnew, if_neg hinit, hashWrite, hmd]
              rfl

theorem refuseMdname_ok_state {mdname : Option Bytes}
    {x : AwskmsSigCtx Alg Key}
    (hok : (refuseMdname keys mdname x : Out _ Event).ok = true) :
    (refuseMdname keys mdname x : Out _ Event).state =
      { x with digest := .none } := by
  unfold refuseMdname at hok ⊢
  split at hok
  · rfl
  · rfl
  · cases hok

/-- What one parameter writes: nothing when it is not there, and otherwise what
its block writes on a value that can be read. -/
theorem onParam_ok_state {ps : List OsslParam} {key : String}
    {block : OsslParam → Act (AwskmsSigCtx Alg Key) Event}
    {write : AwskmsSigCtx Alg Key → AwskmsSigCtx Alg Key}
    (hnone : locate ps key = none → ∀ x, write x = x)
    (hsome : ∀ p, locate ps key = some p → ∀ x, (block p x).ok = true →
      (block p x).state = write x) {x : AwskmsSigCtx Alg Key}
    (hok : (onParam ps key block x).ok = true) :
    (onParam ps key block x).state = write x := by
  unfold onParam at hok ⊢
  cases hl : locate ps key with
  | none => exact (hnone hl x).symm
  | some p =>
      simp only [hl] at hok
      exact hsome p hl x hok

theorem SigCall.param_eq {sc : SigCall} {ps : List OsslParam}
    (hps : sc.params = some ps) (key : String) :
    sc.param key = locate ps key := by
  rw [SigCall.param, hps, Option.bind_some]

theorem paramSteps_write {sc : SigCall} :
    ∀ a ∈ paramSteps h env keys sc, ∀ x, (a.1 x).ok = true →
      (a.1 x).state = a.2 x := by
  intro a ha x hok
  unfold paramSteps at ha
  cases hps : sc.params with
  | none =>
      simp only [hps] at ha
      cases ha
  | some ps =>
      have hparam := SigCall.param_eq hps
      simp only [hps, List.mem_cons, List.not_mem_nil, or_false] at ha
      rcases ha with rfl | rfl | rfl | rfl | rfl | rfl
      · refine onParam_ok_state (fun hl x => ?_) (fun p hl x hok => ?_) hok
        · simp only [SigCall.digestParam, hparam, hl, Option.bind_none,
            digestWrite]
        · simp only [SigCall.digestParam, hparam, hl, Option.bind_some]
          cases hn : getUtf8Param p 64 with
          | none =>
              simp only [applyDigest, hn] at hok
              cases hok
          | some name =>
              simp only [applyDigest, hn] at hok ⊢
              exact setDigest_ok_state hok
      · refine onParam_ok_state (fun hl x => ?_) (fun p hl x hok => ?_) hok
        · simp only [SigCall.padMode, hparam, hl, Option.bind_none,
            padModeWrite, Option.getD_none]
        · simp only [SigCall.padMode, hparam, hl, Option.bind_some]
          cases hn : readPadMode p with
          | none =>
              simp only [applyPadMode, hn] at hok
              cases hok
          | some n =>
              cases hm : RsaPadding.ofInt n with
              | none =>
                  simp only [applyPadMode, hn, hm] at hok
                  cases hok
              | some mode =>
                  simp only [applyPadMode, hn, hm, padModeWrite,
                    Option.bind_some, Option.getD_some]
      · refine onParam_ok_state (fun hl x => ?_) (fun p hl x hok => ?_) hok
        · simp only [SigCall.saltlen, hparam, hl, Option.bind_none,
            saltlenWrite, Option.getD_none]
        · simp only [SigCall.saltlen, hparam, hl, Option.bind_some]
          cases hn : readPssSaltlen h p with
          | none =>
              simp only [applyPssSaltlen, hn] at hok
              cases hok
          | some n => simp only [applyPssSaltlen, hn, saltlenWrite,
              Option.getD_some]
      · refine onParam_ok_state (fun hl x => ?_) (fun p hl x hok => ?_) hok
        · simp only [SigCall.contextString, hparam, hl, Option.bind_none,
            contextWrite]
        · simp only [SigCall.contextString, hparam, hl, Option.bind_some]
          cases hd : getOctetStringPtr p with
          | none =>
              simp only [applyContextString, hd] at hok
              cases hok
          | some data =>
              by_cases hfit : data.length ≤ 255
              · simp only [applyContextString, hd, dif_pos hfit, Option.bind_some, if_pos hfit,
                  contextWrite]
              · simp only [applyContextString, hd, dif_neg hfit] at hok
                cases hok
      · refine onParam_ok_state (fun hl x => ?_) (fun p hl x hok => ?_) hok
        · simp only [SigCall.instanceName, hparam, hl, Option.bind_none,
            instanceWrite]
        · simp only [SigCall.instanceName, hparam, hl, Option.bind_some]
          cases hn : getUtf8Param p 32 with
          | none =>
              simp only [applyInstance, hn] at hok
              cases hok
          | some name => simp only [applyInstance, hn, instanceWrite]
      · refine onParam_ok_state (fun _ _ => ?_) (fun p _ x _ => ?_) hok
        · rfl
        · exact checkMgf1Digest_state

theorem endSteps_write {sc : SigCall} :
    ∀ a ∈ endSteps h env keys sc, ∀ x, (a.1 x).ok = true →
      (a.1 x).state = a.2 x := by
  intro a ha x hok
  cases sc with
  | digestSignInit mdname provkey params =>
      simp only [endSteps, List.mem_cons, List.not_mem_nil, or_false] at ha
      rcases ha with rfl | rfl
      · exact applyMdname_ok_state (.inl rfl) hok
      · exact restartHash_ok_state hok
  | digestVerifyInit mdname provkey params =>
      simp only [endSteps, List.mem_cons, List.not_mem_nil, or_false] at ha
      rcases ha with rfl | rfl
      · exact applyMdname_ok_state (.inr rfl) hok
      · exact restartHash_ok_state hok
  | oneshotInit mdname provkey params =>
      simp only [endSteps, List.mem_cons, List.not_mem_nil, or_false] at ha
      rcases ha with rfl | rfl
      · exact refuseMdname_ok_state hok
      · rfl
  | _ => cases ha

theorem callSteps_write {sc : SigCall} :
    ∀ a ∈ callSteps h env keys sc, ∀ x, (a.1 x).ok = true →
      (a.1 x).state = a.2 x :=
  forall_callSteps (fun _ hok => bindKey_ok_state hok) paramSteps_write
    endSteps_write

/-- What a refused restart leaves: the context as it was, or the same without
its hash. -/
def LosesHash (x y : AwskmsSigCtx Alg Key) : Prop :=
  x.md.isSome ∧ ∃ m, (m = none ∨ m = some .fresh) ∧ y = { x with mdctx := m }

theorem restartHash_refused {x : AwskmsSigCtx Alg Key}
    (hf : (restartHash env keys x).ok = false) :
    (restartHash env keys x).state = x ∨
      LosesHash x (restartHash env keys x).state := by
  unfold restartHash at hf ⊢
  cases hmd : x.md with
  | none => exact .inl rfl
  | some md =>
      have hsome : x.md.isSome := by rw [hmd]; rfl
      simp only [hmd] at hf ⊢
      split
      · exact .inr ⟨hsome, none, .inl rfl, by rw [hmd]⟩
      · next hnew =>
          split
          · exact .inr ⟨hsome, some .fresh, .inr rfl, by rw [hmd]⟩
          · next hinit =>
              rw [if_neg hnew, if_neg hinit] at hf
              cases hf

/-- Every step but the restart of a hash is all-or-nothing. -/
theorem callSteps_refused {sc : SigCall} :
    ∀ a ∈ callSteps h env keys sc, ∀ x, (a.1 x).ok = false →
      (a.1 x).state = x ∨ a.1 = restartHash env keys ∧
        sc.isDigestInit = true ∧ LosesHash x (a.1 x).state := by
  refine forall_callSteps (fun x hf => .inl (bindKey_atomic x hf))
    (fun a ha x hf => .inl ?_) fun a ha x hf => ?_
  · have hmem := List.mem_map_of_mem (f := (·.1)) ha
    rw [paramSteps_fst] at hmem
    obtain ⟨b, hb, hab⟩ := List.mem_map.mp hmem
    have hat := paramBlocks_atomic b hb
    rw [hab] at hat
    exact hat x hf
  · cases sc with
    | digestSignInit mdname provkey params
    | digestVerifyInit mdname provkey params =>
        simp only [endSteps, List.mem_cons, List.not_mem_nil, or_false] at ha
        rcases ha with rfl | rfl
        · exact .inl (applyMdname_atomic x hf)
        · exact (restartHash_refused hf).imp_right fun hl => ⟨rfl, rfl, hl⟩
    | oneshotInit mdname provkey params =>
        simp only [endSteps, List.mem_cons, List.not_mem_nil, or_false] at ha
        rcases ha with rfl | rfl
        · exact .inl (refuseMdname_atomic x hf)
        · exact .inl rfl
    | _ => cases ha

/-- The three parts of a call that succeeds: a key bound, the parameters set,
the end of the init. -/
theorem sigCall_ok_parts {sc : SigCall} (hsc : sc.isSetup = true)
    {x : AwskmsSigCtx Alg Key} (hok : (sigCall h env keys sc x).ok = true) :
    ∃ y, y.key = keyAfter sc.provkey x ∧ y.fipsRequired = x.fipsRequired ∧
      (awskmsSigSetCtxParams h env keys sc.params y).ok = true ∧
      let z := (awskmsSigSetCtxParams h env keys sc.params y).state
      (Act.all ((endSteps h env keys sc).map (·.1)) z).ok = true ∧
      (sigCall h env keys sc x).state =
        (Act.all ((endSteps h env keys sc).map (·.1)) z).state := by
  have hparts : sigCall h env keys sc x =
      Act.all [bindKey h env keys sc.provkey,
        (awskmsSigSetCtxParams h env keys sc.params).andThen
          (Act.all ((endSteps h env keys sc).map (·.1)))] x →
      ∃ y, y.key = keyAfter sc.provkey x ∧ y.fipsRequired = x.fipsRequired ∧
      (awskmsSigSetCtxParams h env keys sc.params y).ok = true ∧
      let z := (awskmsSigSetCtxParams h env keys sc.params y).state
      (Act.all ((endSteps h env keys sc).map (·.1)) z).ok = true ∧
      (sigCall h env keys sc x).state =
        (Act.all ((endSteps h env keys sc).map (·.1)) z).state := by
    intro heq
    rw [heq, Act.all_pair] at hok ⊢
    obtain ⟨hbind, hrest⟩ := Act.andThen_ok.mp hok
    obtain ⟨hset, hend⟩ := Act.andThen_ok.mp hrest
    refine ⟨_, bindKey_ok_key hbind, ?_, hset, hend, ?_⟩
    · rw [bindKey_ok_state hbind]
      cases sc.provkey <;> rfl
    · rw [Act.andThen_of_ok hbind, Act.andThen_of_ok hset]
  cases sc with
  | setCtxParams params => exact ⟨x, rfl, rfl, hok, rfl, rfl⟩
  | signInit provkey params | verifyInit provkey params =>
      refine hparts ?_
      have hset : (awskmsSigSetCtxParams h env keys params).andThen Act.done =
          awskmsSigSetCtxParams h env keys params := Act.andThen_done
      rw [Act.all_pair]
      exact (congrArg (fun k => (bindKey h env keys provkey).andThen k x)
        hset).symm
  | digestSignInit mdname provkey params
  | digestVerifyInit mdname provkey params
  | oneshotInit mdname provkey params =>
      refine hparts ?_
      rw [Act.all_pair]
      rfl
  | _ => cases hsc

/-- The block of a parameter that is there succeeded somewhere in the call. -/
theorem setCtxParams_ok_block {ps : List OsslParam} {key : String}
    (block : OsslParam → Act (AwskmsSigCtx Alg Key) Event)
    (hmem : onParam ps key block ∈ settings h env keys ps) {p : OsslParam}
    (hp : locate ps key = some p) {x : AwskmsSigCtx Alg Key}
    (hok : (awskmsSigSetCtxParams h env keys (some ps) x).ok = true) :
    ∃ y, y.key = x.key ∧ y.fipsRequired = x.fipsRequired ∧
      (block p y).ok = true := by
  have hkeep : ∀ a ∈ settings h env keys ps, ∀ y,
      y.key = x.key ∧ y.fipsRequired = x.fipsRequired →
      (a y).state.key = x.key ∧ (a y).state.fipsRequired = x.fipsRequired := by
    intro a ha y hy
    refine (settings_writes
      (rfl : (SigCall.setCtxParams (some ps)).params = some ps) a ha).keeps
      (P := fun y => y.key = x.key ∧ y.fipsRequired = x.fipsRequired) ?_ hy
    intro y z hw hy
    cases hw with
    | bind hr _ => cases hr
    | bindView hr _ _ => cases hr
    | _ => exact hy
  obtain ⟨y, hy, hrun⟩ := Act.all_ok_mem
    (P := fun y => y.key = x.key ∧ y.fipsRequired = x.fipsRequired)
    hkeep ⟨rfl, rfl⟩ hok hmem
  simp only [onParam, hp] at hrun
  exact ⟨y, hy.1, hy.2, hrun⟩

theorem setCtxParams_readable {sc : SigCall} {x : AwskmsSigCtx Alg Key}
    (hok : (awskmsSigSetCtxParams h env keys sc.params x).ok = true) :
    sc.Readable h := by
  cases hps : sc.params with
  | none =>
      have hnone : ∀ key, sc.param key = none := fun key => by
        rw [SigCall.param, hps, Option.bind_none]
      constructor <;> intro hp <;> rw [hnone] at hp <;> cases hp
  | some ps =>
      rw [hps] at hok
      have hparam := SigCall.param_eq hps
      have hat : ∀ {key : String}, (sc.param key).isSome →
          ∃ p, locate ps key = some p ∧ sc.param key = some p := by
        intro key hp
        obtain ⟨p, hp⟩ := Option.isSome_iff_exists.mp hp
        exact ⟨p, (hparam key) ▸ hp, hp⟩
      constructor <;> intro hp <;> obtain ⟨p, hl, hp⟩ := hat hp
      case digest =>
        obtain ⟨y, _, _, hy⟩ := setCtxParams_ok_block
          (applyDigest h env keys) (by simp [settings]) hl hok
        rw [SigCall.digestParam, hp, Option.bind_some]
        cases hn : getUtf8Param p 64 with
        | none =>
            simp only [applyDigest, hn] at hy
            cases hy
        | some name => rfl
      case padMode =>
        obtain ⟨y, _, _, hy⟩ := setCtxParams_ok_block
          applyPadMode (by simp [settings]) hl hok
        rw [SigCall.padMode, hp, Option.bind_some]
        cases hn : readPadMode p with
        | none =>
            simp only [applyPadMode, hn] at hy
            cases hy
        | some n =>
            cases hm : RsaPadding.ofInt n with
            | none =>
                simp only [applyPadMode, hn, hm] at hy
                cases hy
            | some mode => rw [Option.bind_some, hm]; rfl
      case saltlen =>
        obtain ⟨y, _, _, hy⟩ := setCtxParams_ok_block
          (applyPssSaltlen h) (by simp [settings]) hl hok
        rw [SigCall.saltlen, hp, Option.bind_some]
        cases hn : readPssSaltlen h p with
        | none =>
            simp only [applyPssSaltlen, hn] at hy
            cases hy
        | some n => rfl
      case context =>
        obtain ⟨y, _, _, hy⟩ := setCtxParams_ok_block
          applyContextString (by simp [settings]) hl hok
        rw [SigCall.contextString, hp, Option.bind_some]
        cases hd : getOctetStringPtr p with
        | none =>
            simp only [applyContextString, hd] at hy
            cases hy
        | some data =>
            by_cases hfit : data.length ≤ 255
            · simp only [Option.bind_some, if_pos hfit]
              rfl
            · simp only [applyContextString, hd, dif_neg hfit] at hy
              cases hy
      case instanceName =>
        obtain ⟨y, _, _, hy⟩ := setCtxParams_ok_block
          applyInstance (by simp [settings]) hl hok
        rw [SigCall.instanceName, hp, Option.bind_some]
        cases hn : getUtf8Param p 32 with
        | none =>
            simp only [applyInstance, hn] at hy
            cases hy
        | some name => rfl
      case mgf1 =>
        obtain ⟨y, _, _, hy⟩ := setCtxParams_ok_block
          (checkMgf1Digest h) (by simp [settings]) hl hok
        rw [SigCall.mgf1Digest, hp, Option.bind_some]
        cases hn : getUtf8Param p 64 with
        | none =>
            simp only [checkMgf1Digest, hn] at hy
            cases hy
        | some name => rfl

/-- A digest a call names is one it fetched under the query of the operation
it leaves. -/
def Fetched (h : Host Alg Key) (env : Env Alg Key) (keys : Keys Key)
    (y : AwskmsSigCtx Alg Key) (name : Bytes) : Prop :=
  name ≠ [] → ∃ alg, env.mdFetch name (operationPropq keys y) = some alg ∧
    h.mdXof alg = false

theorem setDigest_ok_fetched {name : Bytes} {x y : AwskmsSigCtx Alg Key}
    (hkey : y.key = x.key) (hfips : y.fipsRequired = x.fipsRequired)
    (hok : (setDigest h env keys name x).ok = true) :
    Fetched h env keys y name := by
  intro hne
  have hpropq : operationPropq keys y = operationPropq keys x := by
    simp only [operationPropq, operationRequiresFips, hkey, hfips]
  rw [setDigest, if_neg hne] at hok
  cases hf : env.mdFetch name (operationPropq keys x) with
  | none =>
      rw [operationPropq] at hf
      simp only [hf] at hok
      cases hok
  | some alg =>
      refine ⟨alg, by rw [hpropq, hf], ?_⟩
      rw [operationPropq] at hf
      simp only [hf] at hok
      cases hxof : h.mdXof alg with
      | false => rfl
      | true =>
          rw [if_pos hxof] at hok
          cases hok

@[simp] theorem digestWrite_key {name : Option Bytes}
    {x : AwskmsSigCtx Alg Key} :
    (digestWrite h env keys name x).key = x.key := by
  unfold digestWrite
  split
  · rfl
  · split
    · rfl
    · split
      · rfl
      · rfl

@[simp] theorem digestWrite_fipsRequired {name : Option Bytes}
    {x : AwskmsSigCtx Alg Key} :
    (digestWrite h env keys name x).fipsRequired = x.fipsRequired := by
  unfold digestWrite
  split
  · rfl
  · split
    · rfl
    · split
      · rfl
      · rfl

variable (h env keys) in
/-- The end of an init keeps what a digest is fetched under. -/
theorem endSteps_keep (sc : SigCall) (x : AwskmsSigCtx Alg Key) :
    (Act.writeAll (endSteps h env keys sc) x).key = x.key ∧
      (Act.writeAll (endSteps h env keys sc) x).fipsRequired = x.fipsRequired ∧
      (sc.mdname = none →
        (Act.writeAll (endSteps h env keys sc) x).md = x.md) := by
  cases sc with
  | digestSignInit mdname provkey params
  | digestVerifyInit mdname provkey params =>
      refine ⟨digestWrite_key, digestWrite_fipsRequired, fun hm => ?_⟩
      simp only [endSteps, Act.writeAll, List.foldl_cons, List.foldl_nil, hm,
        digestWrite, hashWrite]
  | _ => exact ⟨rfl, rfl, fun _ => rfl⟩

/-- The MGF1 digest a parameter names is the digest the parameters leave
selected. -/
theorem setCtxParams_mgf1 {sc : SigCall} {x : AwskmsSigCtx Alg Key}
    (hok : (awskmsSigSetCtxParams h env keys sc.params x).ok = true)
    (name : Bytes) (hname : sc.mgf1Digest = some name) :
    ∃ md, (awskmsSigSetCtxParams h env keys sc.params x).state.md = some md ∧
      h.mdIsA md.alg name = true := by
  obtain ⟨p, hp, hn⟩ := Option.bind_eq_some_iff.mp hname
  obtain ⟨ps, hps, hl⟩ := Option.bind_eq_some_iff.mp hp
  rw [hps] at hok ⊢
  have hsplit : settings h env keys ps = (settings h env keys ps).take 5 ++
      [onParam ps ossl_SIGNATURE_PARAM_MGF1_DIGEST (checkMgf1Digest h)] := rfl
  simp only [awskmsSigSetCtxParams] at hok ⊢
  rw [hsplit, Act.all_append] at hok ⊢
  obtain ⟨hfirst, hlast⟩ := Act.andThen_ok.mp hok
  rw [Act.andThen_of_ok hfirst]
  simp only [Act.all_cons, Act.all_nil, Act.andThen_done, onParam, hl] at hlast ⊢
  rw [checkMgf1Digest_state]
  simp only [checkMgf1Digest, hn] at hlast
  generalize (Act.all ((settings h env keys ps).take 5) x).state = y at hlast ⊢
  split at hlast
  · cases hlast
  · next hany =>
      rw [Bool.not_eq_false] at hany
      obtain ⟨md, hmd, hisA⟩ := (Option.any_eq_true _ _).mp hany
      exact ⟨md, hmd, hisA⟩

/-! ## Settling a call

A call that succeeds has made all its writes; a call that fails has made those
before the step that refused, which wrote nothing. What others can see of the
context is the outcome of these writes and nothing else. -/

/-- What a caller can tell of a context is the same. -/
structure SameObservable (x y : AwskmsSigCtx Alg Key) : Prop
    extends SameSettings x y where
  key : y.key = x.key
  fipsPub : y.fipsPub = x.fipsPub
  digest : y.digest = x.digest
  mdctx : y.mdctx = x.mdctx

/-- Everything a call supplied is in force: it could be read, the digests were
fetched, an MGF1 digest that stands beside no `mdname` is the selected one,
and the context is what the writes of the call make of it. -/
structure Applied (h : Host Alg Key) (env : Env Alg Key) (keys : Keys Key)
    (sc : SigCall) (x y : AwskmsSigCtx Alg Key) : Prop where
  written : y = Act.writeAll (callSteps h env keys sc) x
  key : y.key = keyAfter sc.provkey x
  readable : sc.Readable h
  fetched : ∀ name ∈ sc.names, Fetched h env keys y name
  mgf1 : sc.mdname = none → ∀ name, sc.mgf1Digest = some name →
    ∃ md, y.md = some md ∧ h.mdIsA md.alg name = true

/-- How a parameter or init call leaves its context. -/
inductive Settles (h : Host Alg Key) (env : Env Alg Key) (keys : Keys Key)
    (sc : SigCall) (x : AwskmsSigCtx Alg Key) :
    Bool → AwskmsSigCtx Alg Key → Prop where
  | applied {y : AwskmsSigCtx Alg Key} : Applied h env keys sc x y →
      Settles h env keys sc x true y
  | stopped {before after : List (Step Alg Key)} {a : Step Alg Key} :
      callSteps h env keys sc = before ++ a :: after →
      (a.1 (Act.writeAll before x)).ok = false →
      Settles h env keys sc x false (Act.writeAll before x)
  | hashLost {before after : List (Step Alg Key)} {a : Step Alg Key}
      {y : AwskmsSigCtx Alg Key} :
      callSteps h env keys sc = before ++ a :: after →
      sc.isDigestInit = true → a.1 = restartHash env keys →
      (a.1 (Act.writeAll before x)).ok = false →
      LosesHash (Act.writeAll before x) y →
      Settles h env keys sc x false y

theorem digestParam_fetched {sc : SigCall} {x y : AwskmsSigCtx Alg Key}
    (hkey : y.key = x.key) (hfips : y.fipsRequired = x.fipsRequired)
    (hok : (awskmsSigSetCtxParams h env keys sc.params x).ok = true)
    {name : Bytes} (hname : sc.digestParam = some name) :
    Fetched h env keys y name := by
  obtain ⟨p, hp, hn⟩ := Option.bind_eq_some_iff.mp hname
  obtain ⟨ps, hps, hl⟩ := Option.bind_eq_some_iff.mp hp
  rw [hps] at hok
  obtain ⟨t, htk, htf, ht⟩ := setCtxParams_ok_block
          (applyDigest h env keys) (by simp [settings]) hl hok
  simp only [applyDigest, hn] at ht
  exact setDigest_ok_fetched (hkey.trans htk.symm) (hfips.trans htf.symm) ht

theorem mdname_fetched {sc : SigCall} {x y : AwskmsSigCtx Alg Key}
    (hkey : y.key = x.key) (hfips : y.fipsRequired = x.fipsRequired)
    (hok : (Act.all ((endSteps h env keys sc).map (·.1)) x).ok = true)
    {name : Bytes} (hname : sc.mdname = some name) :
    Fetched h env keys y name := by
  cases sc with
  | digestSignInit mdname provkey params
  | digestVerifyInit mdname provkey params =>
      cases mdname with
      | none => cases hname
      | some given =>
          cases given with
          | nil => cases hname
          | cons c given =>
              obtain rfl := Option.some.inj hname
              exact setDigest_ok_fetched hkey hfips (Act.all_cons_ok.mp hok).1
  | _ => cases hname

theorem applied_of_ok {sc : SigCall} (hsc : sc.isSetup = true)
    {x : AwskmsSigCtx Alg Key} (hok : (sigCall h env keys sc x).ok = true)
    (hall : (sigCall h env keys sc x).state =
      Act.writeAll (callSteps h env keys sc) x) :
    Applied h env keys sc x (sigCall h env keys sc x).state := by
  obtain ⟨y, hkey, hfips, hset, hend, hst⟩ := sigCall_ok_parts hsc hok
  have hz : (awskmsSigSetCtxParams h env keys sc.params y).state.key = y.key :=
    setCtxParams_key
  have hzf : (sigCall h env keys (.setCtxParams sc.params) y).state.fipsRequired =
      y.fipsRequired := sigCall_fipsRequired
  have hmgf1 := setCtxParams_mgf1 hset
  change (awskmsSigSetCtxParams h env keys sc.params y).state.fipsRequired =
    y.fipsRequired at hzf
  generalize (awskmsSigSetCtxParams h env keys sc.params y).state = z
    at hend hst hz hzf hmgf1
  have hwrite : (Act.all ((endSteps h env keys sc).map (·.1)) z).state =
      Act.writeAll (endSteps h env keys sc) z := by
    rcases Act.all_writes _ endSteps_write z with ⟨_, hw⟩ | ⟨hf, _⟩
    · exact hw
    · rw [hf] at hend
      cases hend
  obtain ⟨hk, hf, hm⟩ := endSteps_keep h env keys sc z
  rw [← hwrite, ← hst] at hk hf hm
  refine ⟨hall, (hk.trans hz).trans hkey, setCtxParams_readable hset,
    fun name hname => ?_, fun hno name hname => ?_⟩
  · rcases SigCall.mem_names.mp hname with hname | hname
    · exact digestParam_fetched (hk.trans hz) (hf.trans hzf) hset hname
    · exact mdname_fetched hk hf hend hname
  · obtain ⟨md, hmd, hisA⟩ := hmgf1 name hname
    exact ⟨md, (hm hno).trans hmd, hisA⟩

/-- Every parameter and init call settles. -/
theorem sigCall_settles {sc : SigCall} (hsc : sc.isSetup = true)
    (x : AwskmsSigCtx Alg Key) :
    Settles h env keys sc x (sigCall h env keys sc x).ok
      (sigCall h env keys sc x).state := by
  have hall := Act.all_writes (callSteps h env keys sc) callSteps_write x
  rw [← sigCall_eq_steps hsc x] at hall
  rcases hall with ⟨hok, hst⟩ | ⟨hf, before, a, after, hsplit, ha, hst⟩
  · rw [hok]
    exact .applied (applied_of_ok hsc hok hst)
  · have hmem : a ∈ callSteps h env keys sc := by
      rw [hsplit]
      exact List.mem_append_right _ List.mem_cons_self
    rw [hf, hst]
    rcases callSteps_refused a hmem _ ha with heq | ⟨hres, hinit, hlost⟩
    · rw [heq]
      exact .stopped hsplit ha
    · exact .hashLost hsplit hinit hres ha hlost

/-- Every parameter and init call of a run settles its own context, and leaves
the others alone. -/
def CallsSettle (h : Host Alg Key)
    (evs : List (Rec (Sys Alg Key) (Input Alg Key) Event)) : Prop :=
  ∀ e ∈ evs, ∀ c sc table ctx, e.input.call = .sig c sc →
    sc.isSetup = true → e.pre.ctxs c = some (table, ctx) →
    table.offers sc = true →
    (∃ ctx', e.out.state.ctxs c = some (table, ctx') ∧
      Settles h e.input.env e.pre.keys sc ctx e.out.ok ctx') ∧
    ∀ c', c' ≠ c → e.out.state.ctxs c' = e.pre.ctxs c'

/-- A call either succeeds with everything it supplied in force, or fails and
leaves the context as it was. -/
def AllOrNothing (h : Host Alg Key)
    (evs : List (Rec (Sys Alg Key) (Input Alg Key) Event)) : Prop :=
  ∀ e ∈ evs, ∀ c sc table ctx, e.input.call = .sig c sc →
    sc.isSetup = true → e.pre.ctxs c = some (table, ctx) →
    table.offers sc = true →
    ∃ ctx', e.out.state.ctxs c = some (table, ctx') ∧
      (e.out.ok = true ∧ Applied h e.input.env e.pre.keys sc ctx ctx' ∨
        e.out.ok = false ∧ SameObservable ctx ctx')

theorem calls_settle
    {evs : List (Rec (Sys Alg Key) (Input Alg Key) Event)} {s : Sys Alg Key}
    (hr : (provider h).Run evs s) : CallsSettle h evs := by
  intro e he c sc table ctx hcall hsc hctx hoff
  obtain ⟨_, _, _, _, _, hout⟩ := hr.of_mem e he
  have hstep : e.out = ⟨(sigCall h e.input.env e.pre.keys sc ctx).ok,
      (e.pre.setCtx c table (sigCall h e.input.env e.pre.keys sc ctx).state).moveRefs
        (sigCall h e.input.env e.pre.keys sc ctx).trace,
      (sigCall h e.input.env e.pre.keys sc ctx).trace⟩ := by
    rw [hout]
    simp only [provider, hcall]
    exact step_sig hctx hoff
  rw [hstep]
  refine ⟨⟨_, Function.update_self .., sigCall_settles hsc ctx⟩, fun c' hne => ?_⟩
  exact Function.update_of_ne hne ..

end

namespace Bench

/-- Asks for PSS with a salt length that cannot be read. -/
def pssJunk : SigCall :=
  .setCtxParams (some [strParam "pad-mode" "pss", strParam "saltlen" "junk"])

def rsaSigning : List Call := opening "alias/rsa" .prehash ++ [
  onCtx (.signInit (some 0) none)]

end Bench

theorem calls_settle_pssJunk :
    (Bench.recOf Bench.rsaSigning (Bench.onCtx Bench.pssJunk)).out.ok = false ∧
    CallsSettle Bench.host
      (Bench.runOf (Bench.rsaSigning ++ [Bench.onCtx Bench.pssJunk])) :=
  ⟨by decide +kernel, calls_settle (Bench.run_runOf (by decide +kernel))⟩

/-- The call fails, and the next signature is a PSS signature. -/
theorem calls_not_all_or_nothing :
    ¬ ∀ evs s, (provider Bench.host).Run evs s →
      AllOrNothing Bench.host evs := by
  intro hall
  have hrun := hall (Bench.runOf (Bench.rsaSigning ++
    [Bench.onCtx Bench.pssJunk])) _ (Bench.run_runOf (by decide +kernel))
  rw [Bench.runOf_snoc] at hrun
  have hpre : ((Bench.recOf Bench.rsaSigning (Bench.onCtx Bench.pssJunk)).pre.ctxs
      0).map (fun p => (p.1, p.2.padMode)) = some (.prehash, .pkcs1) := by
    decide +kernel
  have hpost : ((Bench.recOf Bench.rsaSigning
      (Bench.onCtx Bench.pssJunk)).out.state.ctxs 0).map (fun p => p.2.padMode) =
      some .pss := by decide +kernel
  obtain ⟨⟨table, ctx⟩, hctx, hpair⟩ := Option.map_eq_some_iff.mp hpre
  obtain ⟨rfl, hpkcs1⟩ := Prod.mk.inj hpair
  obtain ⟨ctx', hctx', ⟨hok, _⟩ | ⟨_, hsame⟩⟩ := hrun _
    (List.mem_append_right _ (List.mem_singleton_self _)) 0 Bench.pssJunk
    .prehash ctx rfl rfl hctx rfl
  · revert hok
    decide +kernel
  · rw [hctx'] at hpost
    have hpss : ctx'.padMode = .pss := Option.some.inj hpost
    rw [hsame.padMode, hpkcs1] at hpss
    cases hpss

end AwsKms.Model
