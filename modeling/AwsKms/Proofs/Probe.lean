import AwsKms.Proofs.Bench
import AwsKms.Proofs.Raise

/-!
# Size probes

A signing call with a NULL buffer asks for a size, and one with a buffer that
is too small is told it. Neither may cost a request or leave a mark, or a
caller that asks before it signs pays twice and hashes nothing.

`sizeReply` is what such a call is: one reply computed from the context, with
the context handed back untouched. That it can be left out of any run is the
general rule for inputs that leave the state alone. The size itself belongs to
the key: two views of one key are two decodes of the same bytes, and a decoder
answers both with a key of one size.
-/

namespace AwsKms.Model

open AwsKms.Lib

section

variable {Alg Key : Type} {h : Host Alg Key} {env : Env Alg Key}
  {keys : Keys Key}

/-- Whether a context is ready for a signing call at all: `digest_sign_final`
asks for a hash besides a key. -/
def SigCall.readyFor (sc : SigCall) (ctx : AwskmsSigCtx Alg Key) : Bool :=
  ctx.key.isSome && match sc with
    | .digestSignFinal _ => ctx.mdctx.isSome
    | _ => true

/-- The reply to a size call. -/
def sizeReply (h : Host Alg Key) (keys : Keys Key) (sc : SigCall)
    (buf : SigBuf) (ctx : AwskmsSigCtx Alg Key) : Reply Event :=
  if sc.readyFor ctx = false then ⟨false, []⟩
  else if buf.sigNull then sizeProbe h keys buf ctx
  else outputBufferFits h keys buf ctx

/-- A buffer that is NULL, or too small for a signature. -/
def Undersized (h : Host Alg Key) (keys : Keys Key) (buf : SigBuf)
    (ctx : AwskmsSigCtx Alg Key) : Prop :=
  buf.sigNull = true ∨ buf.sigsize < requiredSigSize h keys ctx

theorem undersized_refused {buf : SigBuf} {ctx : AwskmsSigCtx Alg Key}
    (hsmall : Undersized h keys buf ctx) (hsig : buf.sigNull = false) :
    (outputBufferFits h keys buf ctx).ok = false := by
  rcases hsmall with hnull | hlt
  · rw [hsig] at hnull
    cases hnull
  · cases hok : (outputBufferFits h keys buf ctx).ok with
    | false => rfl
    | true =>
        have hfits := (outputBufferFits_ok.mp hok).2.2
        omega

/-- A signing call with an undersized buffer is its size reply, and leaves the
context alone. -/
theorem sigCall_size {sc : SigCall} {buf : SigBuf} (hbuf : sc.buf? = some buf)
    {ctx : AwskmsSigCtx Alg Key} (hsmall : Undersized h keys buf ctx) :
    sigCall h env keys sc ctx = (sizeReply h keys sc buf ctx).keep ctx := by
  have hrefused := undersized_refused hsmall
  cases sc with
  | sign buf' tbs =>
      obtain rfl := Option.some.inj hbuf
      cases hk : ctx.key with
      | none => simp [sigCall, awskmsSigSign, sizeReply, SigCall.readyFor, hk]
      | some r =>
          cases hnull : buf'.sigNull with
          | true =>
              simp [sigCall, awskmsSigSign, signDigest, sizeReply,
                SigCall.readyFor, hk, hnull]
          | false =>
              simp [sigCall, awskmsSigSign, signDigest, sizeReply,
                SigCall.readyFor, hk, hnull,
                Reply.andThen_of_failed (hrefused hnull)]
  | digestSignFinal buf' =>
      obtain rfl := Option.some.inj hbuf
      cases hk : ctx.key with
      | none =>
          simp [sigCall, awskmsSigDigestSignFinal, sizeReply, SigCall.readyFor,
            hk, Reply.keep]
      | some r =>
          cases hm : ctx.mdctx with
          | none =>
              simp [sigCall, awskmsSigDigestSignFinal, sizeReply,
                SigCall.readyFor, hk, hm, Reply.keep]
          | some m =>
              cases hnull : buf'.sigNull with
              | true =>
                  simp [sigCall, awskmsSigDigestSignFinal, sizeReply,
                    SigCall.readyFor, hk, hm, hnull]
              | false =>
                  simp [sigCall, awskmsSigDigestSignFinal, sizeReply,
                    SigCall.readyFor, hk, hm, hnull, hrefused hnull]
  | oneshotSign buf' tbs =>
      obtain rfl := Option.some.inj hbuf
      cases hk : ctx.key with
      | none =>
          simp [sigCall, awskmsSigOneshotSign, sizeReply, SigCall.readyFor, hk]
      | some r =>
          cases hnull : buf'.sigNull with
          | true =>
              simp [sigCall, awskmsSigOneshotSign, sizeReply, SigCall.readyFor,
                hk, hnull]
          | false =>
              simp [sigCall, awskmsSigOneshotSign, sizeReply, SigCall.readyFor,
                hk, hnull, Reply.andThen_of_failed (hrefused hnull)]
  | _ => cases hbuf

/-- The values written to `*siglen`. -/
def siglens (trace : List Event) : List Nat :=
  trace.filterMap fun
    | .setSiglen n => some n
    | _ => none

/-- What a size call does besides its return code: it writes a size, and may
complain. -/
theorem sizeReply_trace {sc : SigCall} {buf : SigBuf}
    {ctx : AwskmsSigCtx Alg Key} :
    ∀ e ∈ (sizeReply h keys sc buf ctx).trace,
      (∃ n, e = .setSiglen n) ∨ ∃ err, e = .raise err := by
  intro e he
  unfold sizeReply at he
  split at he
  · cases he
  · split at he
    · unfold sizeProbe at he
      split at he
      · cases he
      · exact .inl ⟨_, List.mem_singleton.mp he⟩
    · unfold outputBufferFits at he
      simp only [] at he
      split at he
      · cases he
      · split at he
        · cases he
        · rcases List.mem_cons.mp he with he | he
          · exact .inl ⟨_, he⟩
          · exact .inr ⟨_, List.mem_singleton.mp he⟩

/-- A size call on a ready context with a usable view reports the size of a
signature, and succeeds when it only asked. -/
theorem sizeReply_reports {sc : SigCall} {buf : SigBuf}
    {ctx : AwskmsSigCtx Alg Key} (hready : sc.readyFor ctx = true)
    (hlen : buf.siglenNull = false) (hsmall : Undersized h keys buf ctx)
    (hview : requiredSigSize h keys ctx ≠ 0) :
    siglens (sizeReply h keys sc buf ctx).trace =
        [requiredSigSize h keys ctx] ∧
      (sizeReply h keys sc buf ctx).ok = buf.sigNull := by
  rw [sizeReply, if_neg (by rw [hready]; nofun)]
  cases hnull : buf.sigNull with
  | true =>
      rw [if_pos rfl, sizeProbe, if_neg (by rw [hlen]; nofun)]
      exact ⟨rfl, by simpa using hview⟩
  | false =>
      have hlt : ¬requiredSigSize h keys ctx ≤ buf.sigsize := by
        rcases hsmall with hs | hs
        · rw [hnull] at hs
          cases hs
        · omega
      rw [if_neg (by nofun), outputBufferFits]
      simp only [hlen, hview, Bool.false_eq_true, or_self, if_false, if_neg hlt]
      exact ⟨rfl, trivial⟩

/-- The size of a key's signatures, by its own view. -/
def keySigSize (h : Host Alg Key) (k : AwskmsKey Key) : Nat :=
  if (awskmsKeySpec k).sigLen ≠ 0 then (awskmsKeySpec k).sigLen
  else (k.pub.pkey.map fun pkey => (h.pkeySize pkey.key).toNat).getD 0

/-- Two decodes of the same bytes are keys of one size. -/
def DecodersAgree (h : Host Alg Key) (E : Env Alg Key → Prop) : Prop :=
  ∀ env env', E env → E env' → ∀ der propq propq' k k' n n',
    env.d2iPubkey der propq = some (k, n) →
    env'.d2iPubkey der propq' = some (k', n') → h.pkeySize k = h.pkeySize k'

/-- Whichever view an operation works on, it has the size of the key. -/
theorem requiredSigSize_key {E : Env Alg Key → Prop}
    (hagree : DecodersAgree h E)
    {evs : List (Rec (Sys Alg Key) (Input Alg Key) Event)} {s : Sys Alg Key}
    (hr : (provider h).Run evs s) (hE : ∀ e ∈ evs, E e.input.env)
    {c : CtxRef} {table : SigTable} {ctx : AwskmsSigCtx Alg Key}
    (hc : s.ctxs c = some (table, ctx)) {r : KeyRef} (hkey : ctx.key = some r) :
    requiredSigSize h s.keys ctx = keySigSize h (s.keys r) := by
  have hspec : ctx.spec s.keys = awskmsKeySpec (s.keys r) := by
    rw [AwskmsSigCtx.spec, hkey]
  rw [requiredSigSize, keySigSize, hspec]
  by_cases hlen : (awskmsKeySpec (s.keys r)).sigLen ≠ 0
  · rw [if_pos hlen, if_pos hlen]
  · rw [if_neg hlen, if_neg hlen, maxSigSize]
    have hs : Traced h E s := traced_run hr hE
    obtain ⟨pub, hpub, -⟩ := operation_viewed hr hc hkey
    simp only [hpub]
    rcases hs.operation_view hc hkey hpub with rfl | ⟨env, spec, pk, hE, _, hd⟩
    · cases (s.keys r).pub.pkey with
      | none => rfl
      | some pkey => rfl
    · obtain ⟨env', _, _, pk', hE', _, hd'⟩ :=
        (hs.kind r).decoded (.inl hd.nonempty)
      rw [hd.pkey, hd'.pkey, Option.map_some, Option.getD_some]
      exact congrArg Int.toNat
        (hagree env env' hE hE' _ _ _ _ _ _ _ hd.answer hd'.answer)

/-! ## Size calls in a run

A size call hands the context back, so it can be taken out of the run wherever
it stands. The size that it wrote is held against the key its context is bound
to, and not against what the context makes of that key. -/

/-- An input that is a signing call with an undersized buffer. -/
def SizeInput (h : Host Alg Key) (s : Sys Alg Key) (i : Input Alg Key) : Prop :=
  match i.call with
  | .sig c sc =>
      match sc.buf?, s.ctxs c with
      | some buf, some (_, ctx) => Undersized h s.keys buf ctx
      | some _, none => True
      | none, _ => False
  | _ => False

instance (s : Sys Alg Key) (i : Input Alg Key) :
    Decidable (SizeInput h s i) :=
  match hcall : i.call with
  | .sig c sc =>
      match hbuf : sc.buf?, hctx : s.ctxs c with
      | some buf, some (_, ctx) =>
          decidable_of_iff
            (buf.sigNull = true ∨ buf.sigsize < requiredSigSize h s.keys ctx)
            (by simp only [SizeInput, hcall, hbuf, hctx, Undersized])
      | some _, none =>
          .isTrue (by simp only [SizeInput, hcall, hbuf, hctx])
      | none, _ => .isFalse (by simp only [SizeInput, hcall, hbuf, not_false_eq_true])
  | .storeOpen _ | .storeSetCtxParams .. | .storeLoad .. | .storeEof _ |
    .storeClose _ | .keymgmtFree _ | .keymgmtDup .. | .sigNewctx .. |
    .sigFreectx _ | .sigDupctx _ =>
      .isFalse (by simp only [SizeInput, hcall, not_false_eq_true])

/-- A size call hands the whole state back, and issues no request. -/
theorem sizeInput_step {s : Sys Alg Key} {i : Input Alg Key}
    (hi : SizeInput h s i) :
    ((provider h).step i s).state = s ∧
      requests ((provider h).step i s).trace = [] := by
  unfold SizeInput at hi
  split at hi
  · next c sc hcall =>
      simp only [provider, hcall, Sys.step]
      split at hi
      · next buf table ctx hbuf hctx =>
          simp only [hctx]
          by_cases hoff : table.offers sc = false
          · rw [if_pos hoff]
            exact ⟨rfl, rfl⟩
          · rw [if_neg hoff, sigCall_size hbuf hi]
            refine ⟨?_, ?_⟩
            · rw [Sys.moveRefs_of_none fun e he r => ?_]
              · simp only [Reply.keep_state, Sys.setCtx]
                rw [← hctx, Function.update_eq_self]
              · rcases sizeReply_trace e he with ⟨n, rfl⟩ | ⟨err, rfl⟩
                · constructor <;> · intro hmove; cases hmove
                · constructor <;> · intro hmove; cases hmove
            · refine requests_eq_nil.mpr fun req hmem => ?_
              rcases sizeReply_trace _ hmem with ⟨n, hev⟩ | ⟨err, hev⟩
              · cases hev
              · cases hev
      · next hctx =>
          simp only [hctx]
          exact ⟨trivial, rfl⟩
      · cases hi
  · cases hi

/-- Leaving out the flagged inputs changes no other output, and not where the
run ends; what is left out issues no request. -/
def Invisible (h : Host Alg Key) (is : List (Input Alg Key × Bool)) : Prop :=
  let M := provider h
  Machine.erase (M.flaggedOuts M.start is) = M.outs M.start (Machine.erase is) ∧
  M.drive M.start (is.map (·.1)) = M.drive M.start (Machine.erase is) ∧
  ∀ out ∈ M.flaggedOuts M.start is, out.2 = true → requests out.1.trace = []

theorem sizeInputs_invisible {is : List (Input Alg Key × Bool)}
    (hx : (provider h).ExtrasAt (SizeInput h) (provider h).start is) :
    Invisible h is := by
  obtain ⟨houts, hdrive⟩ := Machine.outs_erase
    (fun s i hi => (sizeInput_step hi).1) hx
  exact ⟨houts, hdrive, Machine.flaggedOuts_extra
    (Q := fun out => requests out.trace = []) (fun s i hi => (sizeInput_step hi).2) hx⟩

/-- A size call of a run, on a context bound to a key `r` with a usable public
view, that has somewhere to report to. -/
structure SizeCallAt (h : Host Alg Key)
    (e : Rec (Sys Alg Key) (Input Alg Key) Event) (r : KeyRef)
    (c : CtxRef) (sc : SigCall) (table : SigTable)
    (ctx : AwskmsSigCtx Alg Key) (buf : SigBuf) : Prop where
  call : e.input.call = .sig c sc
  found : e.pre.ctxs c = some (table, ctx)
  offered : table.offers sc = true
  signs : sc.buf? = some buf
  small : Undersized h e.pre.keys buf ctx
  siglen : buf.siglenNull = false
  bound : ctx.key = some r
  view : keySigSize h (e.pre.keys r) ≠ 0

/-- Size calls on contexts that are ready for them report the size of the bound
key, and those that only asked succeed. It is one size for each key, wherever
in the run it is asked for. -/
structure SizesReported (h : Host Alg Key)
    (ready : SigCall → AwskmsSigCtx Alg Key → Bool)
    (evs : List (Rec (Sys Alg Key) (Input Alg Key) Event)) : Prop where
  reported : ∀ e ∈ evs, ∀ r c sc table ctx buf,
    SizeCallAt h e r c sc table ctx buf → ready sc ctx = true →
    siglens e.out.trace = [keySigSize h (e.pre.keys r)] ∧ e.out.ok = buf.sigNull
  same : ∃ size : KeyRef → Nat, ∀ e ∈ evs, ∀ r c sc table ctx buf,
    SizeCallAt h e r c sc table ctx buf → keySigSize h (e.pre.keys r) = size r

/-- A signing call that returned a signature issued one request for it, and
the length it reports last fits the buffer. -/
def SignsOnce (evs : List (Rec (Sys Alg Key) (Input Alg Key) Event)) : Prop :=
  ∀ e ∈ evs, ∀ c sc buf, e.input.call = .sig c sc → sc.buf? = some buf →
    buf.sigNull = false → e.out.ok = true →
    ∃ req n, requests e.out.trace = [req] ∧
      (siglens e.out.trace).getLast? = some n ∧ n ≤ buf.sigsize

/-- The view of a live key is the same at the end of the run. -/
theorem live_pub {before after : List (Rec (Sys Alg Key) (Input Alg Key) Event)}
    {s t : Sys Alg Key} (hs : (provider h).Run before s)
    (ht : (provider h).Run (before ++ after) t) {r : KeyRef} (hr : Live s r) :
    (t.keys r).pub = (s.keys r).pub := by
  refine (Machine.Run.invFrom (C := fun _ => True)
    (I := fun t => Live t r ∧ (t.keys r).pub = (s.keys r).pub) ?_ hs ht
    (fun _ _ => trivial) ⟨hr, rfl⟩).2
  rintro _ t i _ ⟨hl, hpub⟩ _ _
  obtain ⟨hl', _, hpub'⟩ := live_step h i.env i.call hl
  exact ⟨hl', hpub'.trans hpub⟩

theorem sizes_reported {evs : List (Rec (Sys Alg Key) (Input Alg Key) Event)}
    {s : Sys Alg Key} (hr : (provider h).Run evs s)
    (hagree : DecodersAgree h fun env => ∃ e ∈ evs, e.input.env = env) :
    SizesReported h SigCall.readyFor evs where
  reported := by
    intro e he r c sc table ctx buf hat hready
    obtain ⟨before, after, hsplit, hpre, _, hout⟩ := hr.of_mem e he
    have hsize := requiredSigSize_key hagree hpre
      (fun e' he' => ⟨e', hsplit ▸ List.mem_append_left _ he', rfl⟩)
      hat.found hat.bound
    have hstep : e.out.trace = (sizeReply h e.pre.keys sc buf ctx).trace ∧
        e.out.ok = (sizeReply h e.pre.keys sc buf ctx).ok := by
      rw [hout]
      simp only [provider, hat.call, Sys.step, hat.found, hat.offered,
        Bool.true_eq_false, if_false, sigCall_size hat.signs hat.small]
      exact ⟨rfl, rfl⟩
    have hreports := sizeReply_reports hready hat.siglen hat.small
      (hsize.trans_ne hat.view)
    rw [hsize] at hreports
    rw [hstep.1, hstep.2]
    exact hreports
  same := by
    refine ⟨fun r => keySigSize h (s.keys r), ?_⟩
    intro e he r c sc table ctx buf hat
    obtain ⟨before, after, hsplit, hpre, _, _⟩ := hr.of_mem e he
    have hlive := (sound_run hpre).bound c table ctx r hat.found hat.bound
    have hpub := live_pub hpre (hsplit ▸ hr) hlive
    have hsame : keySigSize h (s.keys r) = keySigSize h (e.pre.keys r) := by
      rw [keySigSize, keySigSize, awskmsKeySpec, awskmsKeySpec, hpub]
    exact hsame.symm

theorem signs_once {evs : List (Rec (Sys Alg Key) (Input Alg Key) Event)}
    {s : Sys Alg Key} (hr : (provider h).Run evs s) : SignsOnce evs := by
  intro e he c sc buf hcall hbuf hsig hok
  obtain ⟨_, _, _, _, _, hout⟩ := hr.of_mem e he
  rw [hout] at hok ⊢
  simp only [provider, hcall, Sys.step] at hok ⊢
  split at hok
  · cases hok
  · next table ctx hctx =>
      split at hok
      · cases hok
      · next hoff =>
          simp only [if_neg hoff]
          rcases sigCall_sign_cases h e.input.env e.pre.keys hbuf ctx with
            ⟨req, pre, _, hpre, hok', htrace⟩ | ⟨_, hloc⟩
          · obtain ⟨blob, _, hfits, hsign⟩ := awskmsKmsSign_ok (hok'.symm.trans hok)
            refine ⟨req, blob.length, ?_, ?_, hfits⟩
            · rw [htrace, requests_append, hpre, awskmsKmsSign_requests]
              rfl
            · rw [htrace, hsign, siglens, List.filterMap_append]
              exact List.getLast?_concat
          · have hfail := hloc hsig
            simp only [] at hfail
            rw [hfail] at hok
            cases hok

end

namespace Bench

theorem decodersAgree {E : Env Digest PubKey → Prop}
    (hE : ∀ env', E env' → env' = env) : DecodersAgree host E := by
  intro env1 env2 h1 h2 der propq propq' k k' n n' hk hk'
  obtain rfl := hE env1 h1
  obtain rfl := hE env2 h2
  have hsame : env.d2iPubkey der propq = env.d2iPubkey der propq' := rfl
  obtain ⟨rfl, _⟩ := Prod.mk.inj (Option.some.inj
    (hk.symm.trans (hsame.trans hk')))
  rfl

/-- Asks for a size. -/
def probe : SigBuf := ⟨true, false, 0⟩

/-- A streaming signature with a probe and a try with a 10-byte buffer before
it. -/
def probedStream : List (Input Digest PubKey × Bool) :=
  (inputs (opening "alias/ec" .prehash ++ [
    onCtx (.digestSignInit (some (ascii "SHA256")) (some 0) none),
    onCtx (.digestSignUpdate abc)])).map (·, false) ++ [
  (⟨onCtx (.digestSignFinal probe), env⟩, true),
  (⟨onCtx (.digestSignFinal ⟨false, false, 10⟩), env⟩, true),
  (⟨onCtx (.digestSignFinal buf), env⟩, false)]

/-- A context with a key, and nothing hashed yet. -/
def boundEc : List Call := opening "alias/ec" .prehash ++ [
  onCtx (.signInit (some 0) none)]

theorem probedStream_env : ∀ i ∈ probedStream, i.1.env = env := by
  intro i hi
  rcases List.mem_append.mp hi with hi | hi
  · obtain ⟨j, hj, rfl⟩ := List.mem_map.mp hi
    obtain ⟨call, _, rfl⟩ := List.mem_map.mp hj
    rfl
  · simp only [List.mem_cons, List.not_mem_nil, or_false] at hi
    rcases hi with rfl | rfl | rfl <;> rfl

end Bench

end AwsKms.Model
