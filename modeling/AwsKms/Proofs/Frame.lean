import Mathlib.Data.List.Forall2
import AwsKms.Proofs.Refcount

/-!
# What a call reads

A call dereferences one key at most: the key its store owns, the one it is
given, or the one its context is bound to. `Call.reads` names it, and
`step_frame` is what makes the name honest: change any other key in memory,
and the call does exactly what it did. An init that replaces the key of a
context never looks at the old one, only at its counter.
-/

namespace AwsKms.Model

open AwsKms.Lib

variable {Alg Key : Type} {h : Host Alg Key} {env : Env Alg Key}
  {keys keys' : Keys Key} {k : Option KeyRef}

/-- Two memories that agree at a reference, if it is one. -/
def AgreeAt (keys keys' : Keys Key) (k : Option KeyRef) : Prop :=
  ∀ r, k = some r → keys' r = keys r

theorem operationRequiresFips_frame {x : AwskmsSigCtx Alg Key}
    (hx : AgreeAt keys keys' x.key) :
    operationRequiresFips keys' x = operationRequiresFips keys x := by
  unfold operationRequiresFips
  cases hk : x.key with
  | none => rfl
  | some r =>
      show (_ || (keys' r).fipsRequired) = (_ || (keys r).fipsRequired)
      rw [hx r hk]

theorem operationPubkey_frame {x : AwskmsSigCtx Alg Key}
    (hx : AgreeAt keys keys' x.key) :
    operationPubkey keys' x = operationPubkey keys x := by
  unfold operationPubkey
  cases hk : x.key with
  | none => rfl
  | some r =>
      dsimp only
      rw [hx r hk]

theorem spec_frame {x : AwskmsSigCtx Alg Key}
    (hx : AgreeAt keys keys' x.key) : x.spec keys' = x.spec keys := by
  unfold AwskmsSigCtx.spec
  cases hk : x.key with
  | none => rfl
  | some r =>
      show awskmsKeySpec (keys' r) = awskmsKeySpec (keys r)
      rw [hx r hk]

theorem uri_frame {x : AwskmsSigCtx Alg Key} (hx : AgreeAt keys keys' x.key) :
    x.key.map (fun r => (keys' r).uri) = x.key.map fun r => (keys r).uri := by
  cases hk : x.key with
  | none => rfl
  | some r =>
      show some (keys' r).uri = some (keys r).uri
      rw [hx r hk]

theorem requiredSigSize_frame {x : AwskmsSigCtx Alg Key}
    (hx : AgreeAt keys keys' x.key) :
    requiredSigSize h keys' x = requiredSigSize h keys x := by
  unfold requiredSigSize maxSigSize
  rw [spec_frame hx, operationPubkey_frame hx]

theorem signsWithPss_frame {x : AwskmsSigCtx Alg Key}
    (hx : AgreeAt keys keys' x.key) :
    signsWithPss keys' x = signsWithPss keys x := by
  unfold signsWithPss
  rw [spec_frame hx]

theorem sizeProbe_frame {x : AwskmsSigCtx Alg Key}
    (hx : AgreeAt keys keys' x.key) (buf : SigBuf) :
    sizeProbe h keys' buf x = sizeProbe h keys buf x := by
  unfold sizeProbe
  rw [requiredSigSize_frame hx]

theorem outputBufferFits_frame {x : AwskmsSigCtx Alg Key}
    (hx : AgreeAt keys keys' x.key) (buf : SigBuf) :
    outputBufferFits h keys' buf x = outputBufferFits h keys buf x := by
  unfold outputBufferFits
  rw [requiredSigSize_frame hx]

theorem unsupportedParamsRefused_frame {x : AwskmsSigCtx Alg Key}
    (hx : AgreeAt keys keys' x.key) :
    unsupportedParamsRefused keys' x = unsupportedParamsRefused keys x := by
  unfold unsupportedParamsRefused
  rw [spec_frame hx]

theorem signDigest_frame {x : AwskmsSigCtx Alg Key}
    (hx : AgreeAt keys keys' x.key) (buf : SigBuf) (digest : Bytes) :
    signDigest h env keys' x buf digest = signDigest h env keys x buf digest := by
  unfold signDigest requireDigest signChecked signWith
  rw [sizeProbe_frame hx, outputBufferFits_frame hx,
    unsupportedParamsRefused_frame hx, spec_frame hx, signsWithPss_frame hx,
    operationRequiresFips_frame hx, uri_frame hx]

theorem oneshotSign_frame {x : AwskmsSigCtx Alg Key}
    (hx : AgreeAt keys keys' x.key) (buf : SigBuf) (tbs : Bytes) :
    awskmsSigOneshotSign h env keys' x buf tbs =
      awskmsSigOneshotSign h env keys x buf tbs := by
  unfold awskmsSigOneshotSign oneshotBody computeMu oneshotRequest
  rw [sizeProbe_frame hx, outputBufferFits_frame hx,
    unsupportedParamsRefused_frame hx, spec_frame hx,
    operationPubkey_frame hx, operationRequiresFips_frame hx, uri_frame hx]

theorem verify_frame {x : AwskmsSigCtx Alg Key}
    (hx : AgreeAt keys keys' x.key) (sig tbs : Bytes) :
    awskmsSigVerify h env keys' x sig tbs =
      awskmsSigVerify h env keys x sig tbs := by
  unfold awskmsSigVerify verifyKey verifyTrace verifyConfigured verifyParams
  rw [operationPubkey_frame hx, operationRequiresFips_frame hx, spec_frame hx,
    signsWithPss_frame hx]

theorem oneshotVerify_frame {x : AwskmsSigCtx Alg Key}
    (hx : AgreeAt keys keys' x.key) (sig tbs : Bytes) :
    awskmsSigOneshotVerify h env keys' x sig tbs =
      awskmsSigOneshotVerify h env keys x sig tbs := by
  unfold awskmsSigOneshotVerify verifyKey verifyTrace
  rw [operationPubkey_frame hx, operationRequiresFips_frame hx]

/-- Routines that agree on every context bound to `k`, and leave it bound to
`k`. -/
def AgreeOn (k : Option KeyRef) (a b : Act (AwskmsSigCtx Alg Key) Event) :
    Prop :=
  ∀ x, x.key = k → a x = b x ∧ (a x).state.key = k

theorem agreeOn_of_keepsKey {a : Act (AwskmsSigCtx Alg Key) Event}
    (ha : KeepsKey a) : AgreeOn k a a := by
  intro x hx
  exact ⟨rfl, (ha x).trans hx⟩

theorem setDigest_frame (hk : AgreeAt keys keys' k) (name : Bytes) :
    AgreeOn k (setDigest h env keys' name) (setDigest h env keys name) := by
  intro x hx
  refine ⟨?_, (setDigest_keepsKey x).trans hx⟩
  subst hx
  unfold setDigest
  rw [operationRequiresFips_frame hk]

theorem applyMdname_frame (hk : AgreeAt keys keys' k)
    (mdname : Option Bytes) :
    AgreeOn k (applyMdname h env keys' mdname)
      (applyMdname h env keys mdname) := by
  unfold applyMdname
  split
  · exact agreeOn_of_keepsKey fun _ => rfl
  · exact agreeOn_of_keepsKey fun _ => rfl
  · exact setDigest_frame hk _

theorem restartHash_frame (hk : AgreeAt keys keys' k) :
    AgreeOn k (restartHash env keys' : Act (AwskmsSigCtx Alg Key) Event)
      (restartHash env keys) := by
  intro x hx
  refine ⟨?_, (restartHash_keepsKey x).trans hx⟩
  subst hx
  unfold restartHash
  rw [spec_frame hk]

theorem refuseMdname_frame (hk : AgreeAt keys keys' k)
    (mdname : Option Bytes) :
    AgreeOn k (refuseMdname keys' mdname : Act (AwskmsSigCtx Alg Key) Event)
      (refuseMdname keys mdname) := by
  intro x hx
  refine ⟨?_, (refuseMdname_keepsKey x).trans hx⟩
  subst hx
  unfold refuseMdname
  rw [spec_frame hk]

/-- Every block of a parameter list leaves the key alone. -/
theorem settings_keepsKey {ps : List OsslParam} :
    ∀ a ∈ settings h env keys ps, KeepsKey a := by
  intro a ha x
  have hps : (SigCall.setCtxParams (some ps)).params = some ps := rfl
  refine (settings_writes hps a ha).keeps (P := fun y => y.key = x.key) ?_ rfl
  intro y z hw hy
  cases hw with
  | bind hr _ => cases hr
  | bindView hr _ _ => cases hr
  | _ => exact hy

theorem setCtxParams_frame (hk : AgreeAt keys keys' k)
    (params : Option (List OsslParam)) :
    AgreeOn k (awskmsSigSetCtxParams h env keys' params)
      (awskmsSigSetCtxParams h env keys params) := by
  cases params with
  | none => exact agreeOn_of_keepsKey fun _ => rfl
  | some ps =>
      intro x hx
      refine ⟨?_, setCtxParams_key.trans hx⟩
      refine Act.all_congr (P := fun y => y.key = k) ?_ hx
      have hkeep : ∀ a ∈ settings h env keys ps, KeepsKey a :=
        settings_keepsKey
      refine .cons ?_ (List.forall₂_same.mpr fun a ha => ?_)
      · show AgreeOn k (onParam ps _ (applyDigest h env keys'))
          (onParam ps _ (applyDigest h env keys))
        unfold onParam
        split
        · exact agreeOn_of_keepsKey fun _ => rfl
        · unfold applyDigest
          split
          · exact agreeOn_of_keepsKey fun _ => rfl
          · exact setDigest_frame hk _
      · exact agreeOn_of_keepsKey (hkeep a (List.mem_cons_of_mem _ ha))

theorem bindKey_frame {provkey : Option KeyRef}
    (hk : AgreeAt keys keys' provkey) (x : AwskmsSigCtx Alg Key) :
    bindKey h env keys' provkey x = bindKey h env keys provkey x := by
  unfold bindKey
  cases provkey with
  | none => rfl
  | some r =>
      dsimp only
      rw [hk r rfl]

theorem afterBind_frame (hk : AgreeAt keys keys' k) (sc : SigCall) :
    List.Forall₂ (AgreeOn k) (sc.afterBind h env keys')
      (sc.afterBind h env keys) := by
  cases sc with
  | signInit provkey params => exact .cons (setCtxParams_frame hk params) .nil
  | verifyInit provkey params => exact .cons (setCtxParams_frame hk params) .nil
  | digestSignInit mdname provkey params =>
      exact .cons (setCtxParams_frame hk params)
        (.cons (applyMdname_frame hk mdname) (.cons (restartHash_frame hk) .nil))
  | digestVerifyInit mdname provkey params =>
      exact .cons (setCtxParams_frame hk params)
        (.cons (applyMdname_frame hk mdname) (.cons (restartHash_frame hk) .nil))
  | oneshotInit mdname provkey params =>
      refine .cons (setCtxParams_frame hk params)
        (.cons (refuseMdname_frame hk mdname) (.cons ?_ .nil))
      intro x hx
      refine ⟨?_, hx⟩
      subst hx
      show (unsupportedParamsRefused keys' x).keep x = _
      rw [unsupportedParamsRefused_frame hk]
  | _ => exact .nil

/-- A call on a context reads the key it is given, or else the one the context
is bound to. -/
theorem sigCall_frame {sc : SigCall} {x : AwskmsSigCtx Alg Key}
    (hk : AgreeAt keys keys' (keyAfter sc.provkey x)) :
    sigCall h env keys' sc x = sigCall h env keys sc x := by
  cases hsc : sc.isInit with
  | true =>
      have hbind : bindKey h env keys' sc.provkey x =
          bindKey h env keys sc.provkey x := by
        refine bindKey_frame ?_ x
        intro r hr
        exact hk r (by rw [keyAfter, hr]; rfl)
      rw [sigCall_init hsc, sigCall_init hsc]
      cases hok : (bindKey h env keys sc.provkey x).ok with
      | false =>
          rw [Act.andThen_of_failed hok,
            Act.andThen_of_failed (hbind ▸ hok), hbind]
      | true =>
          have hall : Act.all (sc.afterBind h env keys') _ =
              Act.all (sc.afterBind h env keys) _ :=
            Act.all_congr (afterBind_frame hk sc) (bindKey_ok_key hok)
          rw [Act.andThen_of_ok hok, Act.andThen_of_ok (hbind ▸ hok), hbind,
            hall]
  | false =>
      have hx : AgreeAt keys keys' x.key := by
        intro r hr
        exact hk r (by rw [keyAfter, provkey_of_not_init hsc, hr]; rfl)
      cases sc with
      | setCtxParams params => exact (setCtxParams_frame hx params x rfl).1
      | getCtxParams wanted => rfl
      | signInit provkey params => cases hsc
      | sign buf tbs =>
          show (awskmsSigSign h env keys' x buf tbs).keep x =
            (awskmsSigSign h env keys x buf tbs).keep x
          unfold awskmsSigSign
          rw [signDigest_frame hx]
      | verifyInit provkey params => cases hsc
      | verify sig tbs =>
          show (awskmsSigVerify h env keys' x sig tbs).keep x = _
          rw [verify_frame hx]
          rfl
      | digestSignInit mdname provkey params => cases hsc
      | digestSignUpdate chunk => rfl
      | digestSignFinal buf =>
          show awskmsSigDigestSignFinal h env keys' buf x =
            awskmsSigDigestSignFinal h env keys buf x
          unfold awskmsSigDigestSignFinal
          rw [sizeProbe_frame hx, outputBufferFits_frame hx]
          cases hf : finishHash h x with
          | none => rfl
          | some out =>
              obtain ⟨y, digest⟩ := out
              obtain ⟨md, data, _, rfl, _⟩ := finishHash_eq hf
              dsimp only
              rw [signDigest_frame (x := { x with
                mdctx := some (.finalised md) }) hx]
      | digestVerifyInit mdname provkey params => cases hsc
      | digestVerifyUpdate chunk => rfl
      | digestVerifyFinal sig =>
          show awskmsSigDigestVerifyFinal h env keys' sig x =
            awskmsSigDigestVerifyFinal h env keys sig x
          unfold awskmsSigDigestVerifyFinal
          cases hf : finishHash h x with
          | none => rfl
          | some out =>
              obtain ⟨y, digest⟩ := out
              obtain ⟨md, data, _, rfl, _⟩ := finishHash_eq hf
              dsimp only
              rw [verify_frame (x := { x with
                mdctx := some (.finalised md) }) hx]
      | oneshotInit mdname provkey params => cases hsc
      | oneshotSign buf tbs =>
          show (awskmsSigOneshotSign h env keys' x buf tbs).keep x = _
          rw [oneshotSign_frame hx]
          rfl
      | oneshotVerify sig tbs =>
          show (awskmsSigOneshotVerify h env keys' x sig tbs).keep x = _
          rw [oneshotVerify_frame hx]
          rfl

/-- The key a call dereferences, if it does. -/
def Call.reads (s : Sys Alg Key) : Call → Option KeyRef
  | .storeSetCtxParams st _ | .storeLoad st _ =>
      (s.stores st).map fun ctx => ctx.key
  | .keymgmtDup r _ => some r
  | .sig c sc => (s.ctxs c).bind fun entry => keyAfter sc.provkey entry.2
  | _ => none

/-- Two outcomes of one call, on memories that differ: the same but for the
memory, and that the same wherever it was the same before. -/
structure Framed (keys keys' : Keys Key) (out out' : Out (Sys Alg Key) Event) :
    Prop where
  ok : out'.ok = out.ok
  trace : out'.trace = out.trace
  rest : out'.state = { out.state with keys := out'.state.keys }
  keys : ∀ r, keys' r = keys r → out'.state.keys r = out.state.keys r

theorem applyRefs_frame {keys keys' : Keys Key} {trace : List Event}
    {r : KeyRef} (hr : keys' r = keys r) :
    applyRefs keys' trace r = applyRefs keys trace r := by
  induction trace generalizing keys keys' with
  | nil => exact hr
  | cons e trace ih =>
      refine ih ?_
      have hupd : ∀ (q : KeyRef) (f : AwskmsKey Key → AwskmsKey Key),
          Function.update keys' q (f (keys' q)) r =
            Function.update keys q (f (keys q)) r := by
        intro q f
        by_cases hq : r = q
        · subst hq
          rw [Function.update_self, Function.update_self, hr]
        · rw [Function.update_of_ne hq, Function.update_of_ne hq, hr]
      cases e with
      | keyUpRef q => exact hupd q fun k => { k with refcnt := k.refcnt + 1 }
      | keyFree q =>
          exact hupd q fun k => { k with
            refcnt := k.refcnt - 1,
            freed := k.freed || decide (k.refcnt - 1 ≤ 0) }
      | _ => exact hr

theorem update_frame {keys keys' : Keys Key} {q r : KeyRef}
    (k : AwskmsKey Key) (hr : keys' r = keys r) :
    Function.update keys' q k r = Function.update keys q k r := by
  by_cases hq : r = q
  · subst hq
    rw [Function.update_self, Function.update_self]
  · rw [Function.update_of_ne hq, Function.update_of_ne hq, hr]

theorem onStore_frame {s : Sys Alg Key} {keys' : Keys Key} {st : StoreRef}
    {act : Act (StoreState Key) Event}
    (hk : AgreeAt s.keys keys' ((s.stores st).map fun ctx => ctx.key)) :
    Framed s.keys keys' (s.onStore st act)
      (({ s with keys := keys' } : Sys Alg Key).onStore st act) := by
  unfold Sys.onStore
  cases hst : s.stores st with
  | none => exact ⟨rfl, rfl, rfl, fun _ hr => hr⟩
  | some ctx =>
      have hctx : keys' ctx.key = s.keys ctx.key :=
        hk ctx.key (by rw [hst]; rfl)
      dsimp only
      rw [hctx]
      refine ⟨rfl, rfl, rfl, fun r hr => ?_⟩
      exact applyRefs_frame (update_frame _ hr)

theorem handOut_frame {keys keys' : Keys Key}
    {out out' : Out (Sys Alg Key) Event} (hf : Framed keys keys' out out') :
    Framed keys keys' (Sys.handOut out) (Sys.handOut out') := by
  obtain ⟨hok, htrace, hrest, hkeys⟩ := hf
  unfold Sys.handOut
  rw [htrace]
  split
  · refine ⟨hok, rfl, ?_, hkeys⟩
    show out'.state.addHandle _ = _
    rw [hrest]
    rfl
  · exact ⟨hok, htrace, hrest, hkeys⟩

variable (h env) in
/-- A call does what it did when a key it does not read is changed. -/
theorem step_frame {s : Sys Alg Key} {keys' : Keys Key} {call : Call}
    (hk : AgreeAt s.keys keys' (call.reads s)) :
    Framed s.keys keys' (Sys.step h env call s)
      (Sys.step h env call { s with keys := keys' }) := by
  cases call with
  | storeOpen uri =>
      simp only [Sys.step]
      split
      · exact ⟨rfl, rfl, rfl, fun r hr => update_frame _ hr⟩
      · exact ⟨rfl, rfl, rfl, fun r hr => hr⟩
  | storeSetCtxParams st params => exact onStore_frame hk
  | storeLoad st cb => exact handOut_frame (onStore_frame hk)
  | storeEof st => exact ⟨rfl, rfl, rfl, fun r hr => hr⟩
  | storeClose st =>
      simp only [Sys.step]
      cases s.stores st with
      | none => exact ⟨rfl, rfl, rfl, fun r hr => hr⟩
      | some ctx => exact ⟨rfl, rfl, rfl, fun r hr => applyRefs_frame hr⟩
  | keymgmtFree r => exact ⟨rfl, rfl, rfl, fun q hq => applyRefs_frame hq⟩
  | keymgmtDup r selection =>
      have hr : keys' r = s.keys r := hk r rfl
      simp only [Sys.step]
      rw [hr]
      cases awskmsKeymgmtDup h env (s.keys r) selection with
      | fail => exact ⟨rfl, rfl, rfl, fun q hq => hq⟩
      | share => exact ⟨rfl, rfl, rfl, fun q hq => applyRefs_frame hq⟩
      | fresh key => exact ⟨rfl, rfl, rfl, fun q hq => update_frame _ hq⟩
  | sigNewctx table propq =>
      simp only [Sys.step]
      cases (awskmsSigNewctx env propq : Option (AwskmsSigCtx Alg Key)) with
      | none => exact ⟨rfl, rfl, rfl, fun r hr => hr⟩
      | some x => exact ⟨rfl, rfl, rfl, fun r hr => hr⟩
  | sigFreectx c =>
      simp only [Sys.step]
      cases s.ctxs c with
      | none => exact ⟨rfl, rfl, rfl, fun r hr => hr⟩
      | some entry => exact ⟨rfl, rfl, rfl, fun r hr => applyRefs_frame hr⟩
  | sigDupctx c =>
      simp only [Sys.step]
      cases s.ctxs c with
      | none => exact ⟨rfl, rfl, rfl, fun r hr => hr⟩
      | some entry =>
          obtain ⟨table, x⟩ := entry
          dsimp only
          cases (awskmsSigDupctx env x).1 with
          | none => exact ⟨rfl, rfl, rfl, fun r hr => applyRefs_frame hr⟩
          | some copy => exact ⟨rfl, rfl, rfl, fun r hr => applyRefs_frame hr⟩
  | sig c sc =>
      simp only [Sys.step]
      cases hx : s.ctxs c with
      | none => exact ⟨rfl, rfl, rfl, fun r hr => hr⟩
      | some entry =>
          obtain ⟨table, x⟩ := entry
          dsimp only
          split
          · exact ⟨rfl, rfl, rfl, fun r hr => hr⟩
          · have hcall : sigCall h env keys' sc x = sigCall h env s.keys sc x := by
              refine sigCall_frame fun r hr => hk r ?_
              show (s.ctxs c).bind _ = some r
              rw [hx]
              exact hr
            rw [hcall]
            exact ⟨rfl, rfl, rfl, fun r hr => applyRefs_frame hr⟩

end AwsKms.Model
