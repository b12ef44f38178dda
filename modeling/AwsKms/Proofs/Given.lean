import AwsKms.Proofs.Stream

/-!
# What a context was given

A verification is judged by everything its context was given: the settings, the
key and the bytes to hash. `Given` is the caller's record of the three. It is
kept beside the machine and is never read off the context; `onRecord_run` is
that the context has just what is on record.

There is one thing a caller cannot always know. A digest init that fails where
libcrypto cannot start a hash has given up the old one or has not come that far,
and both look the same from outside. The record then says it is in doubt.
-/

namespace AwsKms.Model

open AwsKms.Lib

variable {Alg Key : Type} {h : Host Alg Key} {env : Env Alg Key}
  {keys : Keys Key}

/-- A hash on record: the digest that was selected when it was started, the
chunks since then, and whether the context is certain to have it still. -/
structure Heard (Alg : Type) where
  digest : Alg
  chunks : List Bytes
  certain : Bool
  deriving DecidableEq, Repr

namespace Heard

def bytes (st : Heard Alg) : Bytes := st.chunks.flatten

def start (digest : Alg) : Heard Alg := ⟨digest, [], true⟩

def feed (chunk : Bytes) (st : Heard Alg) : Heard Alg :=
  { st with chunks := st.chunks ++ [chunk] }

def doubt (st : Heard Alg) : Heard Alg := { st with certain := false }

theorem feed_bytes (chunk : Bytes) (st : Heard Alg) :
    (st.feed chunk).bytes = st.bytes ++ chunk := by
  rw [bytes, feed, List.flatten_append, List.flatten_singleton, bytes]

end Heard

/-- What a caller has on record of a context. -/
structure Given (Alg : Type) where
  demands : Demands Alg
  key : Option KeyRef
  heard : Option (Heard Alg)
  deriving DecidableEq

def Given.nothing : Given Alg := ⟨Demands.none, none, none⟩

/-- Whether a `digest_sign_final` is past its buffer, and ends the hash. -/
def endsHash (h : Host Alg Key) (keys : Keys Key) (buf : SigBuf)
    (ctx : AwskmsSigCtx Alg Key) : Bool :=
  !buf.sigNull && (outputBufferFits h keys buf ctx).ok

/-- The key on record after a call: an init takes the one it is given where that
one can be bound, whatever becomes of the rest of the init. -/
def keyTaken (h : Host Alg Key) : Note Alg Key (Option KeyRef) :=
  fun env keys sc ctx key =>
    match sc.provkey with
    | none => key
    | some r => if (bindKey h env keys (some r) ctx).ok then some r else key

/-- The hash on record after a call that leaves `digest` selected. -/
def heardAfter (h : Host Alg Key) (digest : Option Alg) :
    Note Alg Key (Option (Heard Alg)) :=
  fun env keys sc ctx heard =>
    let ok := (sigCall h env keys sc ctx).ok
    match sc with
    | .digestSignInit .. | .digestVerifyInit .. =>
        if ok then digest.map Heard.start
        else if hashesStart env then heard
        else heard.map Heard.doubt
    | .digestSignUpdate chunk | .digestVerifyUpdate chunk =>
        if ok then heard.map (Heard.feed chunk) else heard
    | .digestSignFinal buf => if endsHash h keys buf ctx then none else heard
    | .digestVerifyFinal _ => none
    | _ => heard

/-- What a call makes of the record. -/
def given (h : Host Alg Key) : Note Alg Key (Given Alg) :=
  fun env keys sc ctx g =>
    let demands := taken h env keys sc ctx g.demands
    ⟨demands, keyTaken h env keys sc ctx g.key,
      heardAfter h demands.digest env keys sc ctx g.heard⟩

theorem bindKey_failed {provkey : Option KeyRef} {x : AwskmsSigCtx Alg Key}
    (hfail : (bindKey h env keys provkey x).ok = false) :
    (bindKey h env keys provkey x).state = x := by
  unfold bindKey at hfail ⊢
  split at hfail
  · rfl
  · split at hfail
    · next hup => rw [if_pos hup]; rfl
    · next hup =>
        rw [if_neg hup]
        split at hfail
        · next hneed =>
            rw [if_pos hneed]
            dsimp only at hfail ⊢
            split at hfail
            · cases hfail
            · next hview => rw [if_neg hview]; rfl
        · cases hfail

variable (h env keys) in
theorem sigCall_keyTaken (sc : SigCall) (x : AwskmsSigCtx Alg Key) :
    (sigCall h env keys sc x).state.key = keyTaken h env keys sc x x.key := by
  cases hinit : sc.isInit with
  | false =>
      have hnone := provkey_of_not_init hinit
      rw [keyTaken, hnone]
      rcases sigCall_key h env keys sc x with hkey | ⟨r, hr, _⟩
      · exact hkey
      · rw [hnone] at hr
        cases hr
  | true =>
      rw [sigCall_init hinit]
      cases hok : (bindKey h env keys sc.provkey x).ok with
      | false =>
          rw [Act.andThen_of_failed hok, bindKey_failed hok, keyTaken]
          cases hp : sc.provkey with
          | none => rfl
          | some r =>
              rw [hp] at hok
              simp [hok]
      | true =>
          rw [Act.andThen_of_ok hok]
          have hafter : (Act.all (sc.afterBind h env keys)
              (bindKey h env keys sc.provkey x).state).state.key =
                keyAfter sc.provkey x := by
            refine Act.all_inv (P := fun y : AwskmsSigCtx Alg Key =>
              y.key = keyAfter sc.provkey x) ?_ (bindKey_ok_key hok)
            refine afterBind_keeps (fun sc' hnone y z hw hy => ?_) sc
            cases hw with
            | bind hr _ => rw [hnone] at hr; cases hr
            | bindView hr _ _ => rw [hnone] at hr; cases hr
            | _ => exact hy
          rw [hafter, keyTaken, keyAfter]
          cases hp : sc.provkey with
          | none => rfl
          | some r =>
              rw [hp] at hok
              simp [hok]

/-- The record of a hash is right about the one a context has. -/
structure Hears (m : Option (EvpMdCtx Alg)) (heard : Option (Heard Alg)) : Prop where
  running : ∀ md data, m = some (.running md data) →
    ∃ st, heard = some st ∧ st.digest = md.alg ∧ st.bytes = data
  certain : ∀ st, heard = some st → st.certain = true →
    ∃ md data, m = some (.running md data)

theorem Hears.of_not_running {m : Option (EvpMdCtx Alg)}
    (hno : ∀ md data, m ≠ some (.running md data)) : Hears m none :=
  ⟨fun md data hrun => absurd hrun (hno md data), fun _ hst => absurd hst (by nofun)⟩

theorem Hears.start (md : EvpMd Alg) :
    Hears (some (.running md [])) (some (Heard.start md.alg)) := by
  refine ⟨fun md' data hrun => ?_, fun _ _ _ => ⟨md, [], rfl⟩⟩
  obtain ⟨rfl, rfl⟩ := EvpMdCtx.running.inj (Option.some.inj hrun)
  exact ⟨_, rfl, rfl, rfl⟩

theorem Hears.feed {md : EvpMd Alg} {data : Bytes} {heard : Option (Heard Alg)}
    (hx : Hears (some (.running md data)) heard) (chunk : Bytes) :
    Hears (some (.running md (data ++ chunk))) (heard.map (Heard.feed chunk)) := by
  obtain ⟨st, rfl, hdigest, hbytes⟩ := hx.running md data rfl
  refine ⟨fun md' data' hrun => ?_, fun _ _ _ => ⟨md, _, rfl⟩⟩
  obtain ⟨rfl, rfl⟩ := EvpMdCtx.running.inj (Option.some.inj hrun)
  exact ⟨_, rfl, hdigest, by rw [Heard.feed_bytes, hbytes]⟩

/-- A start that failed leaves a record in doubt, where there is a doubt. -/
theorem Hears.not_started {m m' : Option (EvpMdCtx Alg)} {heard : Option (Heard Alg)}
    (hx : Hears m heard) (hm : NotStarted env m m') :
    Hears m' (if hashesStart env then heard else heard.map Heard.doubt) := by
  have hdoubt : hashesStart env = false →
      (∀ md data, m' = some (.running md data) → m = some (.running md data)) →
      Hears m' (if hashesStart env then heard else heard.map Heard.doubt) := by
    intro hstart hback
    rw [hstart]
    refine ⟨fun md data hrun => ?_, fun st hst hcertain => ?_⟩
    · obtain ⟨st, rfl, hdigest, hbytes⟩ := hx.running md data (hback md data hrun)
      exact ⟨_, rfl, hdigest, hbytes⟩
    · obtain ⟨_, _, rfl⟩ := Option.map_eq_some_iff.mp hst
      cases hcertain
  rcases hm with rfl | ⟨hstart, hno⟩
  · cases hstart : hashesStart env with
    | true => exact hx
    | false => exact hstart ▸ hdoubt hstart fun _ _ hrun => hrun
  · exact hdoubt hstart fun md data hrun => absurd hrun (hno md data)

/-- Whether a call has to do with the hash. -/
def SigCall.hashes : SigCall → Bool
  | .digestSignInit .. | .digestVerifyInit .. | .digestSignUpdate _
  | .digestVerifyUpdate _ | .digestSignFinal _ | .digestVerifyFinal _ => true
  | _ => false

theorem sigCall_mdctx {sc : SigCall} (hsc : sc.hashes = false)
    {x : AwskmsSigCtx Alg Key} :
    (sigCall h env keys sc x).state.mdctx = x.mdctx := by
  refine sigCall_keeps (P := fun y => y.mdctx = x.mdctx) ?_ rfl
  intro y z hw hy
  have hinit : sc.isDigestInit = true → False := by
    intro hi
    cases sc with
    | digestSignInit mdname provkey params => cases hsc
    | digestVerifyInit mdname provkey params => cases hsc
    | _ => cases hi
  cases hw with
  | loseHash hi _ => exact (hinit hi).elim
  | startHash hi _ => exact (hinit hi).elim
  | feed hc _ => rcases hc with rfl | rfl <;> cases hsc
  | finish hc _ => rcases hc with ⟨_, rfl⟩ | ⟨_, rfl⟩ <;> cases hsc
  | _ => exact hy

theorem update_mdctx (chunk : Bytes) (x : AwskmsSigCtx Alg Key) :
    let out : Out (AwskmsSigCtx Alg Key) Event := awskmsSigDigestSignUpdate chunk x
    out.ok = false ∧ out.state.mdctx = x.mdctx ∨
    out.ok = true ∧ ∃ md data, x.mdctx = some (.running md data) ∧
      out.state.mdctx = some (.running md (data ++ chunk)) := by
  unfold awskmsSigDigestSignUpdate
  cases hm : x.mdctx with
  | none => exact .inl ⟨rfl, hm⟩
  | some m =>
      cases m with
      | fresh => exact .inl ⟨rfl, hm⟩
      | finalised md => exact .inl ⟨rfl, hm⟩
      | running md data => exact .inr ⟨rfl, md, data, rfl, rfl⟩

theorem finishHash_not_running {x y : AwskmsSigCtx Alg Key} {digest : Bytes}
    (hf : finishHash h x = some (y, digest)) :
    ∀ md data, y.mdctx ≠ some (.running md data) := by
  obtain ⟨md, data, _, hy, _⟩ := finishHash_eq hf
  rw [hy]
  intro md' data' hrun
  cases hrun

theorem not_running_of_unfinished {x : AwskmsSigCtx Alg Key} (hf : finishHash h x = none) :
    ∀ md data, x.mdctx ≠ some (.running md data) := by
  intro md data hrun
  simp only [finishHash, hrun, Option.bind_some, EvpMdCtx.final, Option.map_some] at hf
  cases hf

/-- There is no size without a key. -/
theorem outputBufferFits_keyless {x : AwskmsSigCtx Alg Key} (hkey : x.key = none)
    (buf : SigBuf) : (outputBufferFits h keys buf x).ok = false := by
  have hsize : requiredSigSize h keys x = 0 := by
    simp [requiredSigSize, AwskmsSigCtx.spec, maxSigSize, operationPubkey, hkey,
      AwskmsKeyspec.terminator]
  rw [outputBufferFits, hsize]
  simp

variable (h env keys) in
theorem signFinal_mdctx (buf : SigBuf) (x : AwskmsSigCtx Alg Key) :
    let out := awskmsSigDigestSignFinal h env keys buf x
    endsHash h keys buf x = false ∧ out.state.mdctx = x.mdctx ∨
    endsHash h keys buf x = true ∧
      ∀ md data, out.state.mdctx ≠ some (.running md data) := by
  intro out
  simp only [out]
  unfold awskmsSigDigestSignFinal
  cases hends : endsHash h keys buf x with
  | false =>
      refine .inl ⟨rfl, ?_⟩
      split
      · rfl
      · split
        · rfl
        · next hsig =>
            have hfits : (outputBufferFits h keys buf x).ok = false := by
              simpa [endsHash, hsig] using hends
            rw [if_pos hfits]
            rfl
  | true =>
      obtain ⟨hsig, hfits⟩ := Bool.and_eq_true_iff.mp hends
      refine .inr ⟨rfl, ?_⟩
      split
      · next hmissing =>
          rcases hmissing with hm | hkey
          · intro md data hrun
            rw [Act.refuse_apply] at hrun
            rw [hrun] at hm
            cases hm
          · rw [outputBufferFits_keyless (by simpa using hkey)] at hfits
            cases hfits
      · rw [if_neg (by simpa using hsig), if_neg (by rw [hfits]; nofun)]
        cases hf : finishHash h x with
        | none => exact not_running_of_unfinished hf
        | some out => exact finishHash_not_running hf

theorem verifyFinal_mdctx (sig : Bytes) (x : AwskmsSigCtx Alg Key) :
    ∀ md data, (awskmsSigDigestVerifyFinal h env keys sig x).state.mdctx ≠
      some (.running md data) := by
  unfold awskmsSigDigestVerifyFinal
  cases hf : finishHash h x with
  | none => exact not_running_of_unfinished hf
  | some out => exact finishHash_not_running hf

variable (h env keys) in
/-- Every call keeps the record of the hash right, `digest` being the one it
leaves selected. -/
theorem hears_call (sc : SigCall) {x : AwskmsSigCtx Alg Key}
    {heard : Option (Heard Alg)} (hx : Hears x.mdctx heard) {digest : Option Alg}
    (hdigest : (sigCall h env keys sc x).state.md.map (·.alg) = digest) :
    Hears (sigCall h env keys sc x).state.mdctx
      (heardAfter h digest env keys sc x heard) := by
  have hinit : ∀ {mdname provkey params},
      sigCall h env keys sc x =
        awskmsSigDigestSignInit h env keys mdname provkey params x →
      Hears (sigCall h env keys sc x).state.mdctx
        (if (sigCall h env keys sc x).ok then digest.map Heard.start
        else if hashesStart env then heard else heard.map Heard.doubt) := by
    intro mdname provkey params hcall
    rw [hcall] at hdigest ⊢
    rcases digestInit_hash h env keys mdname provkey params x with
      ⟨hok, hm⟩ | ⟨hok, md, hmd, hm, _⟩
    · rw [hok]
      exact hx.not_started hm
    · rw [hmd] at hdigest
      rw [hok, hm, ← hdigest]
      exact Hears.start md
  have hupdate : ∀ {chunk},
      sigCall h env keys sc x = awskmsSigDigestSignUpdate chunk x →
      Hears (sigCall h env keys sc x).state.mdctx
        (if (sigCall h env keys sc x).ok then heard.map (Heard.feed chunk)
        else heard) := by
    intro chunk hcall
    rw [hcall]
    rcases update_mdctx chunk x with ⟨hok, hm⟩ | ⟨hok, md, data, hm, hm'⟩
    · rw [hok, hm]
      exact hx
    · rw [hok, hm']
      rw [hm] at hx
      exact hx.feed chunk
  cases sc with
  | digestSignInit mdname provkey params => exact hinit rfl
  | digestVerifyInit mdname provkey params => exact hinit rfl
  | digestSignUpdate chunk => exact hupdate rfl
  | digestVerifyUpdate chunk => exact hupdate rfl
  | digestSignFinal buf =>
      change Hears (awskmsSigDigestSignFinal h env keys buf x).state.mdctx
        (if endsHash h keys buf x then none else heard)
      rcases signFinal_mdctx h env keys buf x with ⟨hends, hm⟩ | ⟨hends, hno⟩
      · rw [hends, hm]
        exact hx
      · rw [hends]
        exact Hears.of_not_running hno
  | digestVerifyFinal sig => exact Hears.of_not_running (verifyFinal_mdctx sig x)
  | _ =>
      rw [sigCall_mdctx rfl]
      exact hx

/-- What a caller has on record of a context after the records of a run. -/
def givenTo (h : Host Alg Key)
    (evs : List (Rec (Sys Alg Key) (Input Alg Key) Event)) (c : CtxRef) : Given Alg :=
  historyOf (given h) Given.nothing evs c

/-- A context is as its record says. -/
structure OnRecord (ctx : AwskmsSigCtx Alg Key) (g : Given Alg) : Prop where
  mirrors : Mirrors ctx g.demands
  key : ctx.key = g.key
  hears : Hears ctx.mdctx g.heard

theorem onRecord_call {sc : SigCall} {x : AwskmsSigCtx Alg Key} {g : Given Alg}
    (hx : OnRecord x g) :
    OnRecord (sigCall h env keys sc x).state (given h env keys sc x g) := by
  have hmirrors : Mirrors (sigCall h env keys sc x).state
      (taken h env keys sc x g.demands) := mirrors_call hx.mirrors
  refine ⟨hmirrors, ?_, hears_call h env keys sc hx.hears hmirrors.digest⟩
  rw [sigCall_keyTaken, hx.key]
  rfl

/-- In every reachable state, a context is as its record says. -/
theorem onRecord_run {evs : List (Rec (Sys Alg Key) (Input Alg Key) Event)}
    {s : Sys Alg Key} (hr : (provider h).Run evs s) {c : CtxRef}
    {table : SigTable} {ctx : AwskmsSigCtx Alg Key}
    (hc : s.ctxs c = some (table, ctx)) :
    OnRecord ctx (givenTo h evs c) :=
  history_run (R := fun _ => OnRecord) (C := fun _ _ _ _ _ => True)
    (fun _ _ => ⟨mirrors_new, rfl, Hears.of_not_running fun _ _ hrun => by cases hrun⟩)
    (fun _ _ _ hx => ⟨mirrors_copy hx.mirrors, hx.key, hx.hears⟩)
    (fun _ _ _ _ _ _ _ _ hx => onRecord_call hx) hr
    (EachCall.of_forall fun _ _ _ _ _ => trivial) hc

end AwsKms.Model
