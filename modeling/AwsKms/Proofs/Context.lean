import AwsKms.Model.Signature
import AwsKms.Proofs.Spki

/-!
# What a call writes on its context

Every dispatch call on a signature context, whole or cut short by a refusal,
is a sequence of the few single writes listed in `Write`. An invariant of a
context is therefore proved once against that list: `sigCall_keeps` is the
rule. The same list read backwards says what a call could not have done, such
as bind a key it was not given or start a hash outside a digest init.
-/

namespace AwsKms.Model

open AwsKms.Lib

variable {Alg Key : Type}

/-- The parameters of a call. -/
def SigCall.params : SigCall → Option (List OsslParam)
  | .setCtxParams params | .signInit _ params | .verifyInit _ params
  | .digestSignInit _ _ params | .digestVerifyInit _ _ params
  | .oneshotInit _ _ params => params
  | _ => none

/-- The parameter of that name a call carries. -/
def SigCall.param (sc : SigCall) (key : String) : Option OsslParam :=
  sc.params.bind fun ps => locate ps key

/-- Whether a call starts a hash when it succeeds. -/
def SigCall.isDigestInit : SigCall → Bool
  | .digestSignInit .. | .digestVerifyInit .. => true
  | _ => false

/-- The digest name a digest init carries besides its parameters. -/
def SigCall.mdname : SigCall → Option Bytes
  | .digestSignInit (some name) _ _ | .digestVerifyInit (some name) _ _ =>
      if name = [] then none else some name
  | _ => none

/-- The digest name among the parameters, when it can be read. -/
def SigCall.digestParam (sc : SigCall) : Option Bytes :=
  (sc.param ossl_SIGNATURE_PARAM_DIGEST).bind fun p => getUtf8Param p 64

/-- The digest names a call supplies. -/
def SigCall.names (sc : SigCall) : List Bytes :=
  sc.digestParam.toList ++ sc.mdname.toList

theorem SigCall.mem_names {sc : SigCall} {name : Bytes} :
    name ∈ sc.names ↔ sc.digestParam = some name ∨ sc.mdname = some name := by
  simp [SigCall.names]

/-! ## Single writes

`Write` lists what a call can do to a context in one go: bind a key, select a
digest, start, feed or finish the hash, store one setting. A routine is a
sequence of these, cut short where it refuses. -/

/-- The property query an operation fetches its digests under. -/
def operationPropq (keys : Keys Key) (ctx : AwskmsSigCtx Alg Key) : String :=
  awskmsDependencyPropq (operationRequiresFips keys ctx)

/-- One write of a call on its context. -/
inductive Write (h : Host Alg Key) (env : Env Alg Key) (keys : Keys Key)
    (sc : SigCall) : AwskmsSigCtx Alg Key → AwskmsSigCtx Alg Key → Prop where
  | bind {x : AwskmsSigCtx Alg Key} {r : KeyRef} : sc.provkey = some r →
      (x.fipsRequired && !(keys r).fipsRequired) = false →
      Write h env keys sc x
        { x with key := some r, fipsPub := AwskmsPubkey.zero }
  | bindView {x : AwskmsSigCtx Alg Key} {r : KeyRef} : sc.provkey = some r →
      (x.fipsRequired && !(keys r).fipsRequired) = true →
      (fipsView h env (keys r)).ok = true →
      Write h env keys sc x
        { x with key := some r, fipsPub := (fipsView h env (keys r)).state }
  | clearDigest {x : AwskmsSigCtx Alg Key} : sc.digestParam = some [] →
      Write h env keys sc x { x with md := none, digest := .none }
  | selectDigest {x : AwskmsSigCtx Alg Key} {name : Bytes} {alg : Alg} :
      name ∈ sc.names → name ≠ [] →
      env.mdFetch name (operationPropq keys x) = some alg →
      h.mdXof alg = false →
      Write h env keys sc x { x with
        md := some ⟨alg, operationPropq keys x⟩,
        digest := awskmsDigestOf h alg }
  | padMode {x : AwskmsSigCtx Alg Key} {p : OsslParam} {n : Int}
      {mode : RsaPadding} :
      sc.param ossl_SIGNATURE_PARAM_PAD_MODE = some p →
      readPadMode p = some n → RsaPadding.ofInt n = some mode →
      Write h env keys sc x { x with padMode := mode }
  | saltlen {x : AwskmsSigCtx Alg Key} {p : OsslParam} {n : Int} :
      sc.param ossl_SIGNATURE_PARAM_PSS_SALTLEN = some p →
      readPssSaltlen h p = some n →
      Write h env keys sc x { x with pssSaltlen := n }
  | context {x : AwskmsSigCtx Alg Key} {p : OsslParam} {data : Bytes}
      (hfit : data.length ≤ 255) :
      sc.param ossl_SIGNATURE_PARAM_CONTEXT_STRING = some p →
      getOctetStringPtr p = some data →
      Write h env keys sc x { x with
        context := x.context.store data hfit, hasContext := true }
  | instanceName {x : AwskmsSigCtx Alg Key} {p : OsslParam} {name : Bytes} :
      sc.param ossl_SIGNATURE_PARAM_INSTANCE = some p →
      getUtf8Param p 32 = some name →
      Write h env keys sc x { x with instanceName := name, hasInstance := true }
  | loseHash {x : AwskmsSigCtx Alg Key} {m : Option (EvpMdCtx Alg)} :
      sc.isDigestInit = true → m = none ∨ m = some .fresh →
      Write h env keys sc x { x with mdctx := m }
  | startHash {x : AwskmsSigCtx Alg Key} {md : EvpMd Alg} :
      sc.isDigestInit = true → x.md = some md →
      Write h env keys sc x { x with mdctx := some (.running md []) }
  | feed {x : AwskmsSigCtx Alg Key} {md : EvpMd Alg} {data chunk : Bytes} :
      sc = .digestSignUpdate chunk ∨ sc = .digestVerifyUpdate chunk →
      x.mdctx = some (.running md data) →
      Write h env keys sc x
        { x with mdctx := some (.running md (data ++ chunk)) }
  | finish {x : AwskmsSigCtx Alg Key} {md : EvpMd Alg} {data : Bytes} :
      (∃ buf, sc = .digestSignFinal buf) ∨ (∃ sig, sc = .digestVerifyFinal sig) →
      x.mdctx = some (.running md data) →
      Write h env keys sc x { x with mdctx := some (.finalised md) }
  | dropDigest {x : AwskmsSigCtx Alg Key} :
      (∃ mdname provkey params, sc = .oneshotInit mdname provkey params) →
      Write h env keys sc x { x with digest := .none }

/-- What one routine may do to a context inside a call. -/
def Writes (h : Host Alg Key) (env : Env Alg Key) (keys : Keys Key)
    (sc : SigCall) (a : Act (AwskmsSigCtx Alg Key) Event) : Prop :=
  ∀ x, (a x).state = x ∨ Write h env keys sc x (a x).state

section

variable {h : Host Alg Key} {env : Env Alg Key} {keys : Keys Key}
  {sc : SigCall}

theorem writes_refuse {es : List Event} :
    Writes h env keys sc (Act.refuse es) := fun _ => .inl rfl

theorem writes_done : Writes h env keys sc Act.done := fun _ => .inl rfl

theorem bindKey_writes :
    Writes h env keys sc (bindKey h env keys sc.provkey) := by
  intro x
  cases hr : sc.provkey with
  | none => exact .inl rfl
  | some r =>
      simp only [bindKey]
      split
      · exact .inl rfl
      · split
        · next hneed =>
            split
            · next hview => exact .inr (.bindView hr hneed hview)
            · exact .inl rfl
        · next hneed => exact .inr (.bind hr (by simpa using hneed))

theorem setDigest_writes {name : Bytes} (hname : name ∈ sc.names)
    (hempty : name = [] → sc.digestParam = some []) :
    Writes h env keys sc (setDigest h env keys name) := by
  intro x
  by_cases hne : name = []
  · rw [setDigest, if_pos hne]
    exact .inr (.clearDigest (hempty hne))
  · rw [setDigest, if_neg hne]
    cases hf : env.mdFetch name (operationPropq keys x) with
    | none =>
        simp only [operationPropq] at hf
        simp only [hf]
        exact .inl rfl
    | some alg =>
        have hf' := hf
        simp only [operationPropq] at hf'
        simp only [hf']
        split
        · exact .inl rfl
        · next hx =>
            exact .inr (.selectDigest hname hne hf (by simpa using hx))

theorem applyMdname_writes :
    Writes h env keys sc (applyMdname h env keys sc.mdname) := by
  cases hm : sc.mdname with
  | none => exact writes_done
  | some name =>
      have hne : name ≠ [] := by
        intro hnil
        subst hnil
        unfold SigCall.mdname at hm
        split at hm <;> simp at hm
      cases name with
      | nil => exact absurd rfl hne
      | cons c name =>
          exact setDigest_writes (SigCall.mem_names.mpr (.inr hm))
            fun hnil => absurd hnil hne

theorem onParam_writes {ps : List OsslParam} {key : String}
    {block : OsslParam → Act (AwskmsSigCtx Alg Key) Event}
    (hps : sc.params = some ps)
    (hblock : ∀ p, sc.param key = some p → Writes h env keys sc (block p)) :
    Writes h env keys sc (onParam ps key block) := by
  unfold onParam
  split
  · exact writes_done
  · next p hp =>
      exact hblock p (by rw [SigCall.param, hps, Option.bind_some, hp])

theorem applyDigest_writes {p : OsslParam}
    (hp : sc.param ossl_SIGNATURE_PARAM_DIGEST = some p) :
    Writes h env keys sc (applyDigest h env keys p) := by
  cases hn : getUtf8Param p 64 with
  | none =>
      simp only [applyDigest, hn]
      exact writes_refuse
  | some name =>
      have hparam : sc.digestParam = some name := by
        rw [SigCall.digestParam, hp, Option.bind_some, hn]
      simp only [applyDigest, hn]
      exact setDigest_writes (SigCall.mem_names.mpr (.inl hparam))
        fun hnil => hnil ▸ hparam

theorem applyPadMode_writes {p : OsslParam}
    (hp : sc.param ossl_SIGNATURE_PARAM_PAD_MODE = some p) :
    Writes h env keys sc (applyPadMode p) := by
  cases hn : readPadMode p with
  | none =>
      simp only [applyPadMode, hn]
      exact writes_refuse
  | some n =>
      cases hm : RsaPadding.ofInt n with
      | none =>
          simp only [applyPadMode, hn, hm]
          exact writes_refuse
      | some mode =>
          simp only [applyPadMode, hn, hm]
          exact fun x => .inr (.padMode hp hn hm)

theorem applyPssSaltlen_writes {p : OsslParam}
    (hp : sc.param ossl_SIGNATURE_PARAM_PSS_SALTLEN = some p) :
    Writes h env keys sc (applyPssSaltlen h p) := by
  cases hn : readPssSaltlen h p with
  | none =>
      simp only [applyPssSaltlen, hn]
      exact writes_refuse
  | some n =>
      simp only [applyPssSaltlen, hn]
      exact fun x => .inr (.saltlen hp hn)

theorem applyContextString_writes {p : OsslParam}
    (hp : sc.param ossl_SIGNATURE_PARAM_CONTEXT_STRING = some p) :
    Writes h env keys sc (applyContextString p) := by
  cases hd : getOctetStringPtr p with
  | none =>
      simp only [applyContextString, hd]
      exact writes_refuse
  | some data =>
      simp only [applyContextString, hd]
      intro x
      by_cases hfit : data.length ≤ 255
      · simp only [dif_pos hfit]
        exact .inr (.context hfit hp hd)
      · simp only [dif_neg hfit]
        exact .inl rfl

theorem applyInstance_writes {p : OsslParam}
    (hp : sc.param ossl_SIGNATURE_PARAM_INSTANCE = some p) :
    Writes h env keys sc (applyInstance p) := by
  cases hn : getUtf8Param p 32 with
  | none =>
      simp only [applyInstance, hn]
      exact writes_refuse
  | some name =>
      simp only [applyInstance, hn]
      exact fun x => .inr (.instanceName hp hn)

theorem checkMgf1Digest_state {p : OsslParam} {x : AwskmsSigCtx Alg Key} :
    (checkMgf1Digest h p x).state = x := by
  cases hn : getUtf8Param p 64 with
  | none => simp only [checkMgf1Digest, hn]; rfl
  | some name =>
      simp only [checkMgf1Digest, hn]
      split
      · rfl
      · rfl

theorem settings_writes {ps : List OsslParam} (hps : sc.params = some ps) :
    ∀ a ∈ settings h env keys ps, Writes h env keys sc a := by
  intro a ha
  simp only [settings, List.mem_cons, List.not_mem_nil, or_false] at ha
  rcases ha with rfl | rfl | rfl | rfl | rfl | rfl
  · exact onParam_writes hps fun p hp => applyDigest_writes hp
  · exact onParam_writes hps fun p hp => applyPadMode_writes hp
  · exact onParam_writes hps fun p hp => applyPssSaltlen_writes hp
  · exact onParam_writes hps fun p hp => applyContextString_writes hp
  · exact onParam_writes hps fun p hp => applyInstance_writes hp
  · exact onParam_writes hps fun p _ x => .inl checkMgf1Digest_state

/-! ## Whole calls

`sigCall_keeps` is the rule that comes of it: what every single write keeps,
every call keeps. The lemmas after it are its first uses, on the key and on
the FIPS bit. -/

variable {P : AwskmsSigCtx Alg Key → Prop}

theorem Writes.keeps {a : Act (AwskmsSigCtx Alg Key) Event}
    (ha : Writes h env keys sc a)
    (hP : ∀ x y, Write h env keys sc x y → P x → P y)
    {x : AwskmsSigCtx Alg Key} (hx : P x) : P (a x).state := by
  rcases ha x with heq | hw
  · rw [heq]
    exact hx
  · exact hP _ _ hw hx

theorem restartHash_writes (hsc : sc.isDigestInit = true) :
    Writes h env keys sc (restartHash env keys) := by
  intro x
  unfold restartHash
  split
  · exact .inl rfl
  · next md hm =>
      split
      · exact .inr (.loseHash hsc (.inl rfl))
      · split
        · exact .inr (.loseHash hsc (.inr rfl))
        · exact .inr (.startHash hsc hm)

theorem awskmsSigDigestSignUpdate_writes {chunk : Bytes}
    (hsc : sc = .digestSignUpdate chunk ∨ sc = .digestVerifyUpdate chunk) :
    Writes h env keys sc (awskmsSigDigestSignUpdate chunk) := by
  intro x
  unfold awskmsSigDigestSignUpdate
  split
  · exact .inl rfl
  · next m hm =>
      obtain ⟨m0, hm0, hupd⟩ := Option.bind_eq_some_iff.mp hm
      cases m0 with
      | fresh => cases hupd
      | running md data =>
          obtain rfl := Option.some.inj hupd
          exact .inr (.feed hsc hm0)
      | finalised md => cases hupd

theorem finishHash_eq {x y : AwskmsSigCtx Alg Key} {digest : Bytes}
    (hf : finishHash h x = some (y, digest)) :
    ∃ md data, x.mdctx = some (.running md data) ∧
      y = { x with mdctx := some (.finalised md) } ∧
      digest = h.hash md.alg data := by
  unfold finishHash at hf
  obtain ⟨out, hout, heq⟩ := Option.map_eq_some_iff.mp hf
  obtain ⟨m, hm, hfin⟩ := Option.bind_eq_some_iff.mp hout
  obtain ⟨rfl, rfl⟩ := Prod.mk.inj heq
  cases m with
  | fresh => cases hfin
  | running md data =>
      obtain rfl := Option.some.inj hfin
      exact ⟨md, data, hm, rfl, rfl⟩
  | finalised md => cases hfin

theorem awskmsSigDigestSignFinal_writes {buf : SigBuf}
    (hsc : sc = .digestSignFinal buf) :
    Writes h env keys sc (awskmsSigDigestSignFinal h env keys buf) := by
  intro x
  unfold awskmsSigDigestSignFinal
  split
  · exact .inl rfl
  · split
    · exact .inl rfl
    · split
      · exact .inl rfl
      · split
        · exact .inl rfl
        · next y digest hf =>
            obtain ⟨md, data, hm, rfl, _⟩ := finishHash_eq hf
            exact .inr (.finish (.inl ⟨buf, hsc⟩) hm)

theorem awskmsSigDigestVerifyFinal_writes {sig : Bytes}
    (hsc : sc = .digestVerifyFinal sig) :
    Writes h env keys sc (awskmsSigDigestVerifyFinal h env keys sig) := by
  intro x
  unfold awskmsSigDigestVerifyFinal
  split
  · exact .inl rfl
  · next y digest hf =>
      obtain ⟨md, data, hm, rfl, _⟩ := finishHash_eq hf
      exact .inr (.finish (.inr ⟨sig, hsc⟩) hm)

theorem refuseMdname_writes {mdname : Option Bytes}
    (hsc : ∃ mdname provkey params, sc = .oneshotInit mdname provkey params) :
    Writes h env keys sc (refuseMdname keys mdname) := by
  intro x
  unfold refuseMdname
  split
  · exact .inr (.dropDigest hsc)
  · exact .inr (.dropDigest hsc)
  · exact .inl rfl

theorem setCtxParams_keeps {params : Option (List OsslParam)}
    (hps : sc.params = params)
    (hP : ∀ x y, Write h env keys sc x y → P x → P y)
    {x : AwskmsSigCtx Alg Key} (hx : P x) :
    P (awskmsSigSetCtxParams h env keys params x).state := by
  cases params with
  | none => exact hx
  | some ps =>
      exact Act.all_inv
        (fun a ha x hx => (settings_writes hps a ha).keeps hP hx) hx

theorem signInit_keeps {provkey : Option KeyRef}
    {params : Option (List OsslParam)} (hkey : sc.provkey = provkey)
    (hps : sc.params = params)
    (hP : ∀ x y, Write h env keys sc x y → P x → P y)
    {x : AwskmsSigCtx Alg Key} (hx : P x) :
    P (awskmsSigSignInit h env keys provkey params x).state :=
  Act.andThen_inv (hkey ▸ bindKey_writes.keeps hP hx)
    fun _ ht => setCtxParams_keeps hps hP ht

/-- `mdname`, with the empty name and the missing one told together. -/
theorem applyMdname_eq {mdname mdname' : Option Bytes}
    (hm : mdname' = match mdname with
      | some name => if name = [] then none else some name
      | none => none) :
    applyMdname h env keys mdname = applyMdname h env keys mdname' := by
  subst hm
  cases mdname with
  | none => rfl
  | some name =>
      cases name with
      | nil => rfl
      | cons c name => rfl

theorem digestInit_keeps {mdname : Option Bytes} {provkey : Option KeyRef}
    {params : Option (List OsslParam)}
    (hsc : sc = .digestSignInit mdname provkey params ∨
      sc = .digestVerifyInit mdname provkey params)
    (hP : ∀ x y, Write h env keys sc x y → P x → P y)
    {x : AwskmsSigCtx Alg Key} (hx : P x) :
    P (awskmsSigDigestSignInit h env keys mdname provkey params x).state := by
  have hkey : sc.provkey = provkey := by rcases hsc with rfl | rfl <;> rfl
  have hps : sc.params = params := by rcases hsc with rfl | rfl <;> rfl
  have hinit : sc.isDigestInit = true := by rcases hsc with rfl | rfl <;> rfl
  have hmd : applyMdname h env keys mdname =
      applyMdname h env keys sc.mdname := by
    apply applyMdname_eq
    rcases hsc with rfl | rfl
    · cases mdname <;> rfl
    · cases mdname <;> rfl
  refine Act.all_inv (fun a ha x hx => ?_) hx
  simp only [List.mem_cons, List.not_mem_nil, or_false] at ha
  rcases ha with rfl | rfl | rfl | rfl
  · exact hkey ▸ bindKey_writes.keeps hP hx
  · exact setCtxParams_keeps hps hP hx
  · exact hmd ▸ applyMdname_writes.keeps hP hx
  · exact (restartHash_writes hinit).keeps hP hx

/-- What every single write keeps, every call keeps, however far it gets. -/
theorem sigCall_keeps (hP : ∀ x y, Write h env keys sc x y → P x → P y)
    {x : AwskmsSigCtx Alg Key} (hx : P x) :
    P (sigCall h env keys sc x).state := by
  cases hsc : sc with
  | setCtxParams params => exact setCtxParams_keeps (by rw [hsc]; rfl) hP hx
  | getCtxParams wanted => exact hx
  | signInit provkey params =>
      exact signInit_keeps (by rw [hsc]; rfl) (by rw [hsc]; rfl) hP hx
  | sign buf tbs => exact hx
  | verifyInit provkey params =>
      exact signInit_keeps (by rw [hsc]; rfl) (by rw [hsc]; rfl) hP hx
  | verify sig tbs => exact hx
  | digestSignInit mdname provkey params =>
      exact digestInit_keeps (.inl hsc) hP hx
  | digestSignUpdate data =>
      exact (awskmsSigDigestSignUpdate_writes (.inl hsc)).keeps hP hx
  | digestSignFinal buf =>
      exact (awskmsSigDigestSignFinal_writes hsc).keeps hP hx
  | digestVerifyInit mdname provkey params =>
      exact digestInit_keeps (.inr hsc) hP hx
  | digestVerifyUpdate data =>
      exact (awskmsSigDigestSignUpdate_writes (.inr hsc)).keeps hP hx
  | digestVerifyFinal sig =>
      exact (awskmsSigDigestVerifyFinal_writes hsc).keeps hP hx
  | oneshotInit mdname provkey params =>
      have hone : ∃ mdname provkey params,
          sc = .oneshotInit mdname provkey params := ⟨_, _, _, hsc⟩
      refine Act.all_inv (fun a ha x hx => ?_) hx
      simp only [List.mem_cons, List.not_mem_nil, or_false] at ha
      rcases ha with rfl | rfl | rfl | rfl
      · exact (show sc.provkey = provkey by rw [hsc]; rfl) ▸
          bindKey_writes.keeps hP hx
      · exact setCtxParams_keeps (by rw [hsc]; rfl) hP hx
      · exact (refuseMdname_writes hone).keeps hP hx
      · exact hx
  | oneshotSign buf tbs => exact hx
  | oneshotVerify sig tbs => exact hx

variable (h env keys sc) in
/-- A context's key changes only to the one a call supplies. -/
theorem sigCall_key (x : AwskmsSigCtx Alg Key) :
    (sigCall h env keys sc x).state.key = x.key ∨
      ∃ r, sc.provkey = some r ∧
        (sigCall h env keys sc x).state.key = some r := by
  refine sigCall_keeps (P := fun y => y.key = x.key ∨
    ∃ r, sc.provkey = some r ∧ y.key = some r) ?_ (.inl rfl)
  intro y z hw hy
  cases hw with
  | bind hr _ => exact .inr ⟨_, hr, rfl⟩
  | bindView hr _ _ => exact .inr ⟨_, hr, rfl⟩
  | _ => exact hy

/-- The requirement a context was created with is never taken back. -/
theorem sigCall_fipsRequired {x : AwskmsSigCtx Alg Key} :
    (sigCall h env keys sc x).state.fipsRequired = x.fipsRequired := by
  refine sigCall_keeps (P := fun y => y.fipsRequired = x.fipsRequired) ?_ rfl
  intro y z hw hy
  cases hw <;> exact hy

/-- The key an init leaves bound when it succeeds. -/
def keyAfter (provkey : Option KeyRef) (ctx : AwskmsSigCtx Alg Key) :
    Option KeyRef :=
  provkey <|> ctx.key

theorem bindKey_ok_key {provkey : Option KeyRef} {x : AwskmsSigCtx Alg Key}
    (hok : (bindKey h env keys provkey x).ok = true) :
    (bindKey h env keys provkey x).state.key = keyAfter provkey x := by
  cases provkey with
  | none => rfl
  | some r =>
      simp only [bindKey] at hok ⊢
      split at hok
      · cases hok
      · next hup =>
          rw [if_neg hup]
          split at hok
          · next hneed =>
              rw [if_pos hneed]
              split at hok
              · next hview => rw [if_pos hview]; rfl
              · cases hok
          · next hneed => rw [if_neg hneed]; rfl

theorem setCtxParams_key {params : Option (List OsslParam)}
    {x : AwskmsSigCtx Alg Key} :
    (awskmsSigSetCtxParams h env keys params x).state.key = x.key := by
  refine setCtxParams_keeps (P := fun y => y.key = x.key)
    (rfl : (SigCall.setCtxParams params).params = params) ?_ rfl
  intro y z hw hy
  cases hw with
  | bind hr _ => cases hr
  | bindView hr _ _ => cases hr
  | _ => exact hy

end

end AwsKms.Model
