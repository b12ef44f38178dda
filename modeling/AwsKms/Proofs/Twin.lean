import Mathlib.Data.List.Forall2
import AwsKms.Model.Signature

/-!
# A context and its copy

`awskms_sig_dupctx` copies field by field, and two of the fields only in part:
of the context buffer the bytes in force, of the reparsed view nothing when
there is none. So a copy is not the context it was made from. But nothing else
in a context is ever read, and a copy of a copy is that copy. Two contexts are
twins when their copies are the same; every call finds twins alike and leaves
twins.
-/

namespace AwsKms.Model

open AwsKms.Lib

variable {Alg Key : Type} {h : Host Alg Key} {env : Env Alg Key}
  {keys : Keys Key}

theorem ContextString.ext {c c' : ContextString} (hbuf : c.buf = c'.buf)
    (hlen : c.len = c'.len) : c = c' := by
  obtain ⟨buf, len, size, fits⟩ := c
  obtain ⟨buf', len', size', fits'⟩ := c'
  obtain rfl : buf = buf' := hbuf
  obtain rfl : len = len' := hlen
  rfl

/-- The copy is made of the bytes in force. -/
theorem ContextString.copy_congr {c c' : ContextString} (hb : c.bytes = c'.bytes) :
    c.copy = c'.copy := by
  have hlen : c.len = c'.len := by
    rw [← c.bytes_length, ← c'.bytes_length, hb]
  refine ContextString.ext ?_ hlen
  have hbuf : c.bytes ++ List.replicate (255 - c.len) 0 =
      c'.bytes ++ List.replicate (255 - c'.len) 0 := by
    rw [hb, hlen]
  exact hbuf

theorem copy_copy (x : AwskmsSigCtx Alg Key) : x.copy.copy = x.copy := by
  have hview : (if x.copy.fipsPub.pkey.isSome then x.copy.fipsPub
      else AwskmsPubkey.zero) = x.copy.fipsPub := by
    unfold AwskmsSigCtx.copy
    dsimp only
    cases hp : x.fipsPub.pkey.isSome with
    | true =>
        rw [if_pos rfl, hp]
        rfl
    | false => rfl
  have hcontext : x.copy.context.copy = x.copy.context :=
    ContextString.copy_congr x.context.copy_bytes
  rw [AwskmsSigCtx.copy, hview, hcontext]

/-- Contexts that differ in nothing a copy keeps. -/
structure Twin (x y : AwskmsSigCtx Alg Key) : Prop where
  copy : x.copy = y.copy

/-- The reparsed view, if there is one. -/
def ownView (x : AwskmsSigCtx Alg Key) : Option (AwskmsPubkey Key) :=
  if x.fipsPub.pkey.isSome then some x.fipsPub else none

theorem ownView_copy (x : AwskmsSigCtx Alg Key) : ownView x.copy = ownView x := by
  unfold ownView AwskmsSigCtx.copy
  dsimp only
  cases hp : x.fipsPub.pkey.isSome with
  | true => rw [if_pos rfl, hp]
  | false => rfl

namespace Twin

variable {x y : AwskmsSigCtx Alg Key}

theorem refl (x : AwskmsSigCtx Alg Key) : Twin x x := ⟨rfl⟩

theorem key (ht : Twin x y) : x.key = y.key := congrArg (·.key) ht.copy

theorem fipsRequired (ht : Twin x y) : x.fipsRequired = y.fipsRequired :=
  congrArg (·.fipsRequired) ht.copy

theorem view (ht : Twin x y) : ownView x = ownView y := by
  rw [← ownView_copy x, ht.copy, ownView_copy]

theorem digest (ht : Twin x y) : x.digest = y.digest := congrArg (·.digest) ht.copy

theorem md (ht : Twin x y) : x.md = y.md := congrArg (·.md) ht.copy

theorem mdctx (ht : Twin x y) : x.mdctx = y.mdctx := congrArg (·.mdctx) ht.copy

theorem padMode (ht : Twin x y) : x.padMode = y.padMode := congrArg (·.padMode) ht.copy

theorem pssSaltlen (ht : Twin x y) : x.pssSaltlen = y.pssSaltlen :=
  congrArg (·.pssSaltlen) ht.copy

theorem context (ht : Twin x y) : x.context.bytes = y.context.bytes := by
  have hbytes : x.copy.context.bytes = y.copy.context.bytes := by rw [ht.copy]
  rw [← x.context.copy_bytes, ← y.context.copy_bytes]
  exact hbytes

theorem contextLen (ht : Twin x y) : x.context.len = y.context.len :=
  congrArg (·.context.len) ht.copy

theorem instanceName (ht : Twin x y) : x.instanceName = y.instanceName :=
  congrArg (·.instanceName) ht.copy

theorem hasInstance (ht : Twin x y) : x.hasInstance = y.hasInstance :=
  congrArg (·.hasInstance) ht.copy

theorem freectx (ht : Twin x y) : awskmsSigFreectx x = awskmsSigFreectx y := by
  unfold awskmsSigFreectx
  rw [ht.key]

theorem requiresFips (ht : Twin x y) :
    operationRequiresFips keys x = operationRequiresFips keys y := by
  unfold operationRequiresFips
  rw [ht.fipsRequired, ht.key]

theorem pubkey (ht : Twin x y) : operationPubkey keys x = operationPubkey keys y := by
  have hview : (if x.fipsPub.pkey.isSome then some x.fipsPub else none) =
      if y.fipsPub.pkey.isSome then some y.fipsPub else none := ht.view
  unfold operationPubkey
  rw [ht.key, ht.fipsRequired, hview]

theorem spec (ht : Twin x y) : x.spec keys = y.spec keys := by
  unfold AwskmsSigCtx.spec
  rw [ht.key]

theorem uri (ht : Twin x y) :
    x.key.map (fun r => (keys r).uri) = y.key.map fun r => (keys r).uri := by
  rw [ht.key]

theorem sigSize (ht : Twin x y) :
    requiredSigSize h keys x = requiredSigSize h keys y := by
  unfold requiredSigSize maxSigSize
  rw [ht.spec, ht.pubkey]

theorem pss (ht : Twin x y) : signsWithPss keys x = signsWithPss keys y := by
  unfold signsWithPss
  rw [ht.spec, ht.padMode]

theorem probe (ht : Twin x y) (buf : SigBuf) :
    sizeProbe h keys buf x = sizeProbe h keys buf y := by
  unfold sizeProbe
  rw [ht.sigSize]

theorem fits (ht : Twin x y) (buf : SigBuf) :
    outputBufferFits h keys buf x = outputBufferFits h keys buf y := by
  unfold outputBufferFits
  rw [ht.sigSize]

theorem unsupported (ht : Twin x y) :
    unsupportedParamsRefused keys x = unsupportedParamsRefused keys y := by
  unfold unsupportedParamsRefused instanceIsPure
  rw [ht.spec, ht.hasInstance, ht.instanceName, ht.contextLen]

theorem saltlen (ht : Twin x y) : saltlenIsSatisfiable x = saltlenIsSatisfiable y := by
  funext n
  unfold saltlenIsSatisfiable
  rw [ht.pssSaltlen]

theorem signDigest (ht : Twin x y) (buf : SigBuf) (digest : Bytes) :
    signDigest h env keys x buf digest = signDigest h env keys y buf digest := by
  unfold Model.signDigest requireDigest signChecked signWith
  rw [ht.probe, ht.fits, ht.unsupported, ht.spec, ht.pss, ht.requiresFips, ht.uri,
    ht.digest, ht.md, ht.saltlen]

theorem sign (ht : Twin x y) (buf : SigBuf) (tbs : Bytes) :
    awskmsSigSign h env keys x buf tbs = awskmsSigSign h env keys y buf tbs := by
  unfold awskmsSigSign
  rw [ht.key, ht.signDigest]

theorem oneshotSign (ht : Twin x y) (buf : SigBuf) (tbs : Bytes) :
    awskmsSigOneshotSign h env keys x buf tbs =
      awskmsSigOneshotSign h env keys y buf tbs := by
  unfold awskmsSigOneshotSign oneshotBody computeMu oneshotRequest
  rw [ht.probe, ht.fits, ht.unsupported, ht.spec, ht.pubkey, ht.requiresFips, ht.uri,
    ht.key, ht.context]

theorem verify (ht : Twin x y) (sig tbs : Bytes) :
    awskmsSigVerify h env keys x sig tbs = awskmsSigVerify h env keys y sig tbs := by
  unfold awskmsSigVerify verifyKey verifyTrace verifyConfigured verifyParams
    effectiveSaltlen
  rw [ht.pubkey, ht.requiresFips, ht.spec, ht.pss, ht.padMode, ht.md]

theorem oneshotVerify (ht : Twin x y) (sig tbs : Bytes) :
    awskmsSigOneshotVerify h env keys x sig tbs =
      awskmsSigOneshotVerify h env keys y sig tbs := by
  unfold awskmsSigOneshotVerify verifyKey verifyTrace oneshotVerifyParams
  rw [ht.pubkey, ht.requiresFips, ht.contextLen, ht.context]

theorem getCtxParams (ht : Twin x y) (wanted : List String) :
    awskmsSigGetCtxParams h wanted x = awskmsSigGetCtxParams h wanted y := by
  unfold awskmsSigGetCtxParams
  rw [ht.md, ht.padMode, ht.pssSaltlen]

end Twin

/-! ## Routines that write

A routine is blind when from twins it makes twins and gives the same reply.
Single writes are, and what is put together of blind routines is blind. -/

/-- A routine finds twins alike and leaves twins. -/
def Blind (a : Act (AwskmsSigCtx Alg Key) Event) : Prop := a.Lockstep Twin a

theorem blind_keep {r : AwskmsSigCtx Alg Key → Reply Event}
    (hr : ∀ x y, Twin x y → r x = r y) : Blind fun ctx => (r ctx).keep ctx := by
  intro x y ht
  have heq := hr x y ht
  exact ⟨congrArg (·.ok) heq, congrArg (·.trace) heq, ht⟩

theorem blind_write {f : AwskmsSigCtx Alg Key → AwskmsSigCtx Alg Key}
    (hf : ∀ x y, Twin x y → Twin (f x) (f y)) : Blind fun ctx => ⟨true, f ctx, []⟩ :=
  fun x y ht => ⟨rfl, rfl, hf x y ht⟩

theorem bindKey_blind (provkey : Option KeyRef) : Blind (bindKey h env keys provkey) := by
  intro x y ht
  unfold bindKey
  cases provkey with
  | none => exact ⟨congrArg Option.isSome ht.key, rfl, ht⟩
  | some r =>
      have hbound : ∀ p : AwskmsPubkey Key,
          Twin { x with key := some r, fipsPub := p } { y with key := some r, fipsPub := p } :=
        fun p => ⟨congrArg (fun z : AwskmsSigCtx Alg Key => { z with
          key := some r, fipsPub := if p.pkey.isSome then p else AwskmsPubkey.zero }) ht.copy⟩
      dsimp only
      rw [ht.fipsRequired, ht.freectx]
      simp only [ht.fipsRequired] at hbound
      split
      · exact Act.lockstep_refuse _ x y ht
      · split
        · split
          · exact ⟨rfl, rfl, hbound _⟩
          · exact Act.lockstep_refuse _ x y ht
        · exact ⟨rfl, rfl, hbound _⟩

theorem setDigest_blind (name : Bytes) : Blind (setDigest h env keys name) := by
  intro x y ht
  have hset : ∀ (md : Option (EvpMd Alg)) (digest : AwskmsDigest),
      Twin { x with md := md, digest := digest } { y with md := md, digest := digest } :=
    fun md digest => ⟨congrArg (fun z : AwskmsSigCtx Alg Key => { z with
      md := md, digest := digest }) ht.copy⟩
  unfold setDigest
  dsimp only
  rw [ht.requiresFips]
  split
  · exact ⟨rfl, rfl, hset none .none⟩
  · split
    · exact Act.lockstep_refuse _ x y ht
    · split
      · exact Act.lockstep_refuse _ x y ht
      · exact ⟨rfl, rfl, hset _ _⟩

theorem applyMdname_blind (mdname : Option Bytes) :
    Blind (applyMdname h env keys mdname) := by
  unfold applyMdname
  split
  · exact Act.lockstep_done
  · exact Act.lockstep_done
  · exact setDigest_blind _

theorem applyDigest_blind (p : OsslParam) : Blind (applyDigest h env keys p) := by
  unfold applyDigest
  split
  · exact Act.lockstep_refuse _
  · exact setDigest_blind _

theorem applyPadMode_blind (p : OsslParam) :
    Blind (applyPadMode p : Act (AwskmsSigCtx Alg Key) Event) := by
  unfold applyPadMode
  split
  · exact Act.lockstep_refuse _
  · split
    · exact Act.lockstep_refuse _
    · next mode _ =>
        exact blind_write fun x y ht => ⟨congrArg (fun z : AwskmsSigCtx Alg Key =>
          { z with padMode := mode }) ht.copy⟩

theorem applyPssSaltlen_blind (p : OsslParam) :
    Blind (applyPssSaltlen h p : Act (AwskmsSigCtx Alg Key) Event) := by
  unfold applyPssSaltlen
  split
  · exact Act.lockstep_refuse _
  · next n _ =>
      exact blind_write fun x y ht => ⟨congrArg (fun z : AwskmsSigCtx Alg Key =>
        { z with pssSaltlen := n }) ht.copy⟩

/-- What the buffer held before is not what a copy takes. -/
theorem applyContextString_blind (p : OsslParam) :
    Blind (applyContextString p : Act (AwskmsSigCtx Alg Key) Event) := by
  unfold applyContextString
  split
  · exact Act.lockstep_refuse _
  · next data _ =>
      intro x y ht
      dsimp only
      split
      · next hfit =>
          have hstore : (x.context.store data hfit).copy = (y.context.store data hfit).copy :=
            ContextString.copy_congr (by rw [ContextString.store_bytes,
              ContextString.store_bytes])
          refine ⟨rfl, rfl, ⟨?_⟩⟩
          have hcopy := congrArg (fun z : AwskmsSigCtx Alg Key => { z with
            context := (x.context.store data hfit).copy, hasContext := true }) ht.copy
          refine Eq.trans hcopy ?_
          rw [hstore]
          rfl
      · exact Act.lockstep_refuse _ x y ht

theorem applyInstance_blind (p : OsslParam) :
    Blind (applyInstance p : Act (AwskmsSigCtx Alg Key) Event) := by
  unfold applyInstance
  split
  · exact Act.lockstep_refuse _
  · next name _ =>
      exact blind_write fun x y ht => ⟨congrArg (fun z : AwskmsSigCtx Alg Key =>
        { z with instanceName := name, hasInstance := true }) ht.copy⟩

theorem checkMgf1Digest_blind (p : OsslParam) :
    Blind (checkMgf1Digest h p : Act (AwskmsSigCtx Alg Key) Event) := by
  unfold checkMgf1Digest
  split
  · exact Act.lockstep_refuse _
  · intro x y ht
    dsimp only
    rw [ht.md]
    split
    · exact Act.lockstep_refuse _ x y ht
    · exact ⟨rfl, rfl, ht⟩

theorem onParam_blind {ps : List OsslParam} {key : String}
    {block : OsslParam → Act (AwskmsSigCtx Alg Key) Event}
    (hblock : ∀ p, Blind (block p)) : Blind (onParam ps key block) := by
  unfold onParam
  split
  · exact Act.lockstep_done
  · exact hblock _

theorem setCtxParams_blind (params : Option (List OsslParam)) :
    Blind (awskmsSigSetCtxParams h env keys params) := by
  unfold awskmsSigSetCtxParams
  split
  · exact Act.lockstep_done
  · next ps =>
      refine Act.lockstep_all (List.forall₂_same.mpr fun a ha => ?_)
      simp only [settings, List.mem_cons, List.not_mem_nil, or_false] at ha
      rcases ha with rfl | rfl | rfl | rfl | rfl | rfl
      · exact onParam_blind applyDigest_blind
      · exact onParam_blind applyPadMode_blind
      · exact onParam_blind applyPssSaltlen_blind
      · exact onParam_blind applyContextString_blind
      · exact onParam_blind applyInstance_blind
      · exact onParam_blind checkMgf1Digest_blind

theorem Twin.setMdctx {x y : AwskmsSigCtx Alg Key} (ht : Twin x y)
    (m : Option (EvpMdCtx Alg)) : Twin { x with mdctx := m } { y with mdctx := m } :=
  ⟨congrArg (fun z : AwskmsSigCtx Alg Key => { z with mdctx := m }) ht.copy⟩

theorem restartHash_blind :
    Blind (restartHash env keys : Act (AwskmsSigCtx Alg Key) Event) := by
  intro x y ht
  have hset := ht.setMdctx
  unfold restartHash
  rw [ht.md, ht.spec]
  simp only [ht.md] at hset
  split
  · exact Act.lockstep_refuse _ x y ht
  · split
    · exact ⟨rfl, rfl, hset _⟩
    · split
      · exact ⟨rfl, rfl, hset _⟩
      · exact ⟨rfl, rfl, hset _⟩

theorem refuseMdname_blind (mdname : Option Bytes) :
    Blind (refuseMdname keys mdname : Act (AwskmsSigCtx Alg Key) Event) := by
  intro x y ht
  unfold refuseMdname
  rw [ht.spec]
  split
  · exact ⟨rfl, rfl, ⟨congrArg (fun z : AwskmsSigCtx Alg Key =>
      { z with digest := .none }) ht.copy⟩⟩
  · exact ⟨rfl, rfl, ⟨congrArg (fun z : AwskmsSigCtx Alg Key =>
      { z with digest := .none }) ht.copy⟩⟩
  · exact Act.lockstep_refuse _ x y ht

theorem digestUpdate_blind (data : Bytes) :
    Blind (awskmsSigDigestSignUpdate data : Act (AwskmsSigCtx Alg Key) Event) := by
  intro x y ht
  unfold awskmsSigDigestSignUpdate
  rw [ht.mdctx]
  split
  · exact Act.lockstep_refuse _ x y ht
  · exact ⟨rfl, rfl, ht.setMdctx _⟩

/-- Twins finish with the same digest, or neither does. -/
theorem finishHash_twin {x y : AwskmsSigCtx Alg Key} (ht : Twin x y) :
    (finishHash h x = none ∧ finishHash h y = none) ∨
      ∃ x' y' digest, finishHash h x = some (x', digest) ∧
        finishHash h y = some (y', digest) ∧ Twin x' y' := by
  unfold finishHash
  rw [ht.mdctx]
  cases y.mdctx.bind fun m => m.final h with
  | none => exact .inl ⟨rfl, rfl⟩
  | some out => exact .inr ⟨_, _, out.2, rfl, rfl, ht.setMdctx _⟩

theorem digestSignFinal_blind (buf : SigBuf) :
    Blind (awskmsSigDigestSignFinal h env keys buf) := by
  intro x y ht
  unfold awskmsSigDigestSignFinal
  rw [ht.mdctx, ht.key, ht.probe, ht.fits]
  split
  · exact Act.lockstep_refuse _ x y ht
  · split
    · exact ⟨rfl, rfl, ht⟩
    · split
      · exact ⟨rfl, rfl, ht⟩
      · rcases finishHash_twin (h := h) ht with
          ⟨hx, hy⟩ | ⟨x', y', digest, hx, hy, ht'⟩
        · rw [hx, hy]
          exact Act.lockstep_refuse _ x y ht
        · rw [hx, hy]
          dsimp only
          rw [ht'.signDigest]
          exact ⟨rfl, rfl, ht'⟩

theorem digestVerifyFinal_blind (sig : Bytes) :
    Blind (awskmsSigDigestVerifyFinal h env keys sig) := by
  intro x y ht
  unfold awskmsSigDigestVerifyFinal
  rcases finishHash_twin (h := h) ht with ⟨hx, hy⟩ | ⟨x', y', digest, hx, hy, ht'⟩
  · rw [hx, hy]
    exact Act.lockstep_refuse _ x y ht
  · rw [hx, hy]
    dsimp only
    rw [ht'.verify]
    exact ⟨rfl, rfl, ht'⟩

variable (h env keys) in
/-- Every call finds twins alike, and leaves twins. -/
theorem sigCall_blind (sc : SigCall) : Blind (sigCall h env keys sc) := by
  have hinit : ∀ provkey params, Blind (awskmsSigSignInit h env keys provkey params) :=
    fun provkey params => (bindKey_blind provkey).andThen (setCtxParams_blind params)
  have hdigest : ∀ mdname provkey params,
      Blind (awskmsSigDigestSignInit h env keys mdname provkey params) :=
    fun mdname provkey params => Act.lockstep_all (.cons (bindKey_blind provkey)
      (.cons (setCtxParams_blind params) (.cons (applyMdname_blind mdname)
        (.cons restartHash_blind .nil))))
  cases sc with
  | setCtxParams params => exact setCtxParams_blind params
  | getCtxParams wanted => exact blind_keep fun x y ht => ht.getCtxParams wanted
  | signInit provkey params => exact hinit provkey params
  | sign buf tbs => exact blind_keep fun x y ht => ht.sign buf tbs
  | verifyInit provkey params => exact hinit provkey params
  | verify sig tbs => exact blind_keep fun x y ht => ht.verify sig tbs
  | digestSignInit mdname provkey params => exact hdigest mdname provkey params
  | digestSignUpdate data => exact digestUpdate_blind data
  | digestSignFinal buf => exact digestSignFinal_blind buf
  | digestVerifyInit mdname provkey params => exact hdigest mdname provkey params
  | digestVerifyUpdate data => exact digestUpdate_blind data
  | digestVerifyFinal sig => exact digestVerifyFinal_blind sig
  | oneshotInit mdname provkey params =>
      exact Act.lockstep_all (.cons (bindKey_blind provkey)
        (.cons (setCtxParams_blind params) (.cons (refuseMdname_blind mdname)
          (.cons (blind_keep fun x y ht => ht.unsupported) .nil))))
  | oneshotSign buf tbs => exact blind_keep fun x y ht => ht.oneshotSign buf tbs
  | oneshotVerify sig tbs => exact blind_keep fun x y ht => ht.oneshotVerify sig tbs

variable (env) in
/-- Copies of twins are made alike. -/
theorem dupctx_twin {x y : AwskmsSigCtx Alg Key} (ht : Twin x y) :
    awskmsSigDupctx env x = awskmsSigDupctx env y := by
  have hcopies : dupctxCopies env x = dupctxCopies env y := by
    have hview : ∀ z : AwskmsSigCtx Alg Key,
        (z.fipsPub.pkey.isNone || (awskmsPubkeyDup env z.fipsPub).isSome) =
          (ownView z).elim true fun p => (awskmsPubkeyDup env p).isSome := by
      intro z
      unfold ownView
      cases hp : z.fipsPub.pkey with
      | none => rfl
      | some p => rfl
    unfold dupctxCopies
    rw [hview, hview, ht.view, ht.md, ht.mdctx]
  unfold awskmsSigDupctx
  rw [hcopies, ht.key, ht.copy]

end AwsKms.Model
