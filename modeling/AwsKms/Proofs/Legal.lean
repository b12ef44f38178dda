import AwsKms.Proofs.Bench
import AwsKms.Proofs.Blocks
import AwsKms.Proofs.Views
import AwsKms.Spec.KmsApi

/-!
# Every request is one KMS can accept

The key spec table, the digest classification and the two request structures
agree with the service's side of the API. The table is finite, so what it
says about a row is decided row by row; everything else is read off
`DigestRequest` and `OneshotRequest`.
-/

namespace AwsKms.Model

open AwsKms.Lib AwsKms.Spec

variable {Alg Key : Type} {h : Host Alg Key}

/-- Whatever the table yields for a row, the service lists for that row's
KeySpec, with the digest asked for and, for RSA, the padding asked for. -/
theorem awskmsSigningAlgorithm_legal {spec : AwskmsKeyspec}
    (hspec : spec ∈ specs) {digest : AwskmsDigest} {pss : Bool}
    {algorithm : SigningAlgorithm}
    (halg : awskmsSigningAlgorithm spec digest pss = some algorithm) :
    algorithm ∈ signingAlgorithms spec.kmsKeySpec ∧
      digestOf algorithm = digest ∧
      (spec.family = .rsa →
        paddingOf algorithm = some (if pss then .pss else .pkcs1)) := by
  simp only [specs, List.mem_cons, List.not_mem_nil, or_false] at hspec
  rcases hspec with rfl | rfl | rfl | rfl | rfl | rfl | rfl | rfl | rfl | rfl
  all_goals
    cases digest <;> cases pss <;>
      first
        | (obtain rfl := Option.some.inj halg; decide)
        | cases halg

/-- A digest request is possible on RSA and EC rows only. -/
theorem digest_family {spec : AwskmsKeyspec} {digest : AwskmsDigest}
    {pss : Bool} {algorithm : SigningAlgorithm} (hne : digest ≠ .none)
    (halg : awskmsSigningAlgorithm spec digest pss = some algorithm) :
    spec.family = .rsa ∨ spec.family = .ec := by
  cases hf : spec.family with
  | rsa => exact .inl rfl
  | ec => exact .inr rfl
  | ed25519 =>
      simp only [awskmsSigningAlgorithm, hf, if_neg hne] at halg
      cases halg
  | mlDsa =>
      simp only [awskmsSigningAlgorithm, hf, if_neg hne] at halg
      cases halg

/-- The message type of a row goes with its family. -/
theorem msgType_family {spec : AwskmsKeyspec} (hspec : spec ∈ specs) :
    (spec.msgType = .raw ↔ spec.family = .ed25519) ∧
      (spec.msgType = .externalMu ↔ spec.family = .mlDsa) := by
  simp only [specs, List.mem_cons, List.not_mem_nil, or_false] at hspec
  rcases hspec with rfl | rfl | rfl | rfl | rfl | rfl | rfl | rfl | rfl | rfl
  all_goals decide

theorem shake256_muInput {raw context msg : Bytes} :
    h.shake256 (muInput (h.shake256 raw) context msg) =
      mu h.shake256 raw context msg := by
  simp [muInput, mu]

/-- The message a one-shot call is given. -/
def SigCall.tbs : SigCall → Bytes
  | .sign _ tbs | .oneshotSign _ tbs => tbs
  | _ => []

/-- What libcrypto's decoder is relied on for: a key exposes the raw public
value its SubjectPublicKeyInfo holds, under every property query. -/
def DecodesRaw (h : Host Alg Key) (rawOf : Bytes → Bytes)
    (env : Env Alg Key) : Prop :=
  ∀ der propq pk n raw, env.d2iPubkey der propq = some (pk, n) →
    h.pkeyPub pk = some raw → raw = rawOf der

/-- A request of a signing call, held against the API: its key is a key of the
table, and the request is legal for the padding and the context string on
record and the `mu` of the bound key's own public value. -/
def LegalAt (h : Host Alg Key) (rawOf : Bytes → Bytes)
    (history : CtxRef → Demands Alg)
    (e : Rec (Sys Alg Key) (Input Alg Key) Event) (req : KmsRequest) : Prop :=
  ∃ c sc table ctx r spec, e.input.call = .sig c sc ∧
    e.pre.ctxs c = some (table, ctx) ∧ ctx.key = some r ∧
    (e.pre.keys r).pub.spec = some spec ∧ spec ∈ specs ∧
    Legal spec ((history c).padding.getD .pkcs1)
      ((history c).context.getD [])
      (mu h.shake256 (rawOf (e.pre.keys r).pub.der)
        ((history c).context.getD []) sc.tbs) req

/-- Every request of a run is legal with respect to a history of what its
context was told, and a signing call that issues none fails. -/
def RequestsLegal (h : Host Alg Key) (rawOf : Bytes → Bytes)
    (note : Note Alg Key (Demands Alg))
    (evs : List (Rec (Sys Alg Key) (Input Alg Key) Event)) : Prop :=
  ∀ before e after, evs = before ++ e :: after →
    (∀ req ∈ requests e.out.trace,
      LegalAt h rawOf (historyOf note Demands.none before) e req) ∧
    ∀ c sc buf, e.input.call = .sig c sc → sc.buf? = some buf →
      buf.sigNull = false → requests e.out.trace = [] → e.out.ok = false

theorem DigestRequest.legal {keys : Keys Key} {ctx : AwskmsSigCtx Alg Key}
    {buf : SigBuf} {digest m : Bytes} {req : KmsRequest}
    (hreq : DigestRequest h keys ctx buf digest req)
    (hspec : ctx.spec keys ∈ specs) {d : Demands Alg} (hd : Mirrors ctx d) :
    Legal (ctx.spec keys) (d.padding.getD .pkcs1) (d.context.getD []) m
      req := by
  obtain ⟨hoff, hdig, hpad⟩ := awskmsSigningAlgorithm_legal hspec hreq.algorithm
  have hmsg : req.messageType = .DIGEST ∧ req.msg = digest := by
    rw [hreq.request]
    exact ⟨rfl, rfl⟩
  refine ⟨hoff, fun hrsa => ?_, ?_, fun hne => ?_⟩
  · rw [hpad hrsa, ← hd.padding, signsWithPss, hrsa]
    cases ctx.padMode <;> rfl
  · rw [hmsg.1, hmsg.2]
    refine .digest (digest_family hreq.selected hreq.algorithm) ?_ ?_
    · rw [hdig, hreq.length]
    · rw [hdig]
      exact hreq.selected
  · rcases hreq.context with hlen | hml
    · rw [← hd.context] at hne
      exact absurd (ContextString.bytes_eq_nil.mpr hlen) hne
    · exact hml

theorem OneshotRequest.legal {keys : Keys Key} {ctx : AwskmsSigCtx Alg Key}
    {buf : SigBuf} {tbs raw : Bytes} {req : KmsRequest}
    (hreq : OneshotRequest h keys ctx buf tbs req)
    (hspec : ctx.spec keys ∈ specs) {d : Demands Alg} (hd : Mirrors ctx d)
    (hshake : ∀ m, (h.shake256 m).length = 64)
    (htr : ∀ pub tr, operationPubkey keys ctx = some pub → pub.tr = some tr →
      tr.bytes = h.shake256 raw) :
    Legal (ctx.spec keys) (d.padding.getD .pkcs1) (d.context.getD [])
      (mu h.shake256 raw (d.context.getD []) tbs) req := by
  obtain ⟨hoff, _, _⟩ := awskmsSigningAlgorithm_legal hspec hreq.algorithm
  refine ⟨hoff, fun hrsa => ?_, ?_, fun hne => ?_⟩
  · have hnone := hreq.algorithm
    simp only [awskmsSigningAlgorithm, hrsa] at hnone
    cases hnone
  · have hmessage := hreq.message
    revert hmessage
    generalize req.messageType = messageType
    generalize req.msg = msg
    intro hmessage
    cases hmessage with
    | raw htype hzero hlarge =>
        exact .raw ((msgType_family hspec).1.mp htype) (by omega) hlarge
    | mu htype hpub htr' =>
        refine .externalMu ((msgType_family hspec).2.mp htype) ?_ (hshake _)
        rw [htr _ _ hpub htr', hd.context, shake256_muInput]
  · rcases hreq.context with hlen | hml
    · rw [← hd.context] at hne
      exact absurd (ContextString.bytes_eq_nil.mpr hlen) hne
    · exact hml

/-- In every run, every request is legal for the settings its context took
last and for the public value of its own key; nothing else gets as far as a
request. -/
theorem requests_legal {rawOf : Bytes → Bytes}
    (hshake : ∀ m, (h.shake256 m).length = 64)
    {evs : List (Rec (Sys Alg Key) (Input Alg Key) Event)} {s : Sys Alg Key}
    (hr : (provider h).Run evs s)
    (hraw : ∀ e ∈ evs, DecodesRaw h rawOf e.input.env) :
    RequestsLegal h rawOf (taken h) evs := by
  intro before e after hsplit
  refine ⟨fun req hreq => ?_, fun c sc buf hcall hbuf hnull hnone => ?_⟩
  · obtain ⟨hpre, c, sc, table, ctx, r, hcall, hctx, _, hkey, hlive, hsign, _⟩ :=
      run_requests hr hsplit hreq
    have htraced : Traced h (DecodesRaw h rawOf) e.pre := by
      refine traced_run hpre fun x hx => hraw x ?_
      rw [hsplit]
      exact List.mem_append_left _ hx
    obtain ⟨spec, hspec⟩ := Option.isSome_iff_exists.mp hlive.viewed
    have hmem := (htraced.kind r).spec_mem hspec
    have hctxspec : ctx.spec e.pre.keys = spec := by
      rw [AwskmsSigCtx.spec, hkey]
      simp only [awskmsKeySpec, hspec, Option.getD_some]
    have hmirror := mirrors_run hpre hctx
    refine ⟨c, sc, table, ctx, r, spec, hcall, hctx, hkey, hspec, hmem, ?_⟩
    rw [← hctxspec] at hmem ⊢
    cases hsign with
    | sign _ hd => exact hd.legal hmem hmirror
    | final _ _ hd => exact hd.legal hmem hmirror
    | oneshot ho =>
        refine ho.legal hmem hmirror hshake fun pub tr hpub htr => ?_
        obtain ⟨env, spec', fips, pk, hE, _, hml, hdec, htrb⟩ :=
          htraced.operation_tr hctx hkey hpub htr
        rw [htrb]
        exact congrArg h.shake256 (hE _ _ _ _ _ hdec.answer (hdec.raw (.inr hml)).1)
  · subst hsplit
    obtain ⟨_, _, hout⟩ := hr.at_split
    rw [hout] at hnone ⊢
    simp only [provider, hcall, Sys.step] at hnone ⊢
    split
    · rfl
    · next table ctx hctx =>
        rw [hctx] at hnone
        simp only [] at hnone
        split
        · rfl
        · next hoff =>
            rw [if_neg hoff] at hnone
            rcases sigCall_sign_cases h e.input.env e.pre.keys hbuf ctx with
              ⟨req, pre, _, hp, _, htrace⟩ | hloc
            · simp only [htrace, requests_append, awskmsKmsSign_requests]
                at hnone
              simp at hnone
            · exact hloc.2 hnull

namespace Bench

/-- An ML-DSA context is told `A`, and then `B` beside an MGF1 digest it cannot
honour; that call fails. -/
def refusedContext : List Call := opening "alias/mldsa" .oneshot ++ [
  onCtx (.oneshotInit none (some 0) none),
  onCtx (.setCtxParams (some [⟨"context-string", .octetString (ascii "A")⟩])),
  onCtx (.setCtxParams (some [⟨"context-string", .octetString (ascii "B")⟩,
    strParam "mgf1-digest" "SHA256"]))]

theorem decodesRaw_env : DecodesRaw host rawOf env := by
  intro der propq pk n raw hdec hpub
  simp only [env] at hdec
  split at hdec
  · next hder =>
      obtain ⟨rfl, _⟩ := Prod.mk.inj (Option.some.inj hdec)
      subst hder
      obtain rfl := Option.some.inj hpub
      decide +kernel
  · split at hdec
    · next hder =>
        obtain ⟨rfl, _⟩ := Prod.mk.inj (Option.some.inj hdec)
        subst hder
        obtain rfl := Option.some.inj hpub
        decide +kernel
    · split at hdec
      · obtain ⟨rfl, _⟩ := Prod.mk.inj (Option.some.inj hdec)
        cases hpub
      · split at hdec
        · next hder =>
            obtain ⟨rfl, _⟩ := Prod.mk.inj (Option.some.inj hdec)
            subst hder
            obtain rfl := Option.some.inj hpub
            decide +kernel
        · cases hdec

end Bench

/-- The run of `refusedContext` and a signature of `abc` issues one request, and
it is legal for the settings that were taken. -/
theorem requests_legal_refusedContext :
    requests (Bench.recOf Bench.refusedContext
      (Bench.onCtx (.oneshotSign Bench.buf Bench.abc))).out.trace ≠ [] ∧
    RequestsLegal Bench.host Bench.rawOf (taken Bench.host)
      (Bench.runOf (Bench.refusedContext ++
        [Bench.onCtx (.oneshotSign Bench.buf Bench.abc)])) :=
  ⟨by decide +kernel,
    requests_legal Bench.shake256_length (Bench.run_runOf (by decide +kernel))
      fun _ he => Bench.runOf_env he ▸ Bench.decodesRaw_env⟩

/-- It is not legal for the settings of the calls that succeeded: its `mu` is
that of `B`. -/
theorem requests_not_legal_accepted :
    ¬ ∀ evs s, (provider Bench.host).Run evs s →
      (∀ e ∈ evs, DecodesRaw Bench.host Bench.rawOf e.input.env) →
      RequestsLegal Bench.host Bench.rawOf (accepted Bench.host) evs := by
  intro hall
  have hlegal := hall (Bench.runOf (Bench.refusedContext ++
    [Bench.onCtx (.oneshotSign Bench.buf Bench.abc)])) _
    (Bench.run_runOf (by decide +kernel))
    fun _ he => Bench.runOf_env he ▸ Bench.decodesRaw_env
  rw [Bench.runOf_snoc] at hlegal
  obtain ⟨hreqs, _⟩ := hlegal _ _ [] rfl
  obtain ⟨c, sc, table, ctx, r, spec, hcall, hctx, hkey, _, _, hl⟩ := hreqs
    ⟨⟨some (ascii "alias/mldsa"), none, none, none⟩, false, .ML_DSA_SHAKE_256,
      .EXTERNAL_MU, Bench.muB⟩ (by decide +kernel)
  obtain ⟨rfl, rfl⟩ := Call.sig.inj hcall
  have hbound : ctx.key = some 0 := by
    have hstate : (((Bench.recOf Bench.refusedContext (Bench.onCtx
        (.oneshotSign Bench.buf Bench.abc))).pre.ctxs 0).map (·.2.key)) =
          some (some 0) := by decide +kernel
    rw [hctx] at hstate
    exact Option.some.inj hstate
  obtain rfl := Option.some.inj (hkey.symm.trans hbound)
  have hmu := hl.message.mu_eq
  revert hmu
  decide +kernel

end AwsKms.Model
