import AwsKms.Proofs.Bench
import AwsKms.Proofs.Blocks
import AwsKms.Proofs.Views

/-!
# The framing of an ML-DSA message

KMS signs an ML-DSA message by its representative, and the provider computes
that one itself: SHAKE256 over the hash of the public key, a zero byte, the
length of the context string in one byte, the context string and the message.
What keeps two such inputs apart is the length byte, and it does as long as no
context string is longer than 255 bytes, which `awskms_mu` checks again.

Which context string it is comes from the buffer of the context. The buffer is
written over from the front and never cleared, so what is absorbed is right
because only the bytes in force are read, also after a shorter string and in a
copy.
-/

namespace AwsKms.Model

open AwsKms.Lib

variable {Alg Key : Type} {h : Host Alg Key}

/-- What stands behind the hash of the public key: the domain separator of pure
ML-DSA, the length byte, the context string and the message. -/
def framed (context msg : Bytes) : Bytes :=
  0 :: UInt8.ofNat context.length :: (context ++ msg)

theorem muInput_framed (tr context msg : Bytes) :
    muInput tr context msg = tr ++ framed context msg := by
  rw [muInput, framed, List.append_assoc, List.append_assoc]
  rfl

theorem lengthByte_toNat {n : Nat} (hn : n ≤ 255) : (UInt8.ofNat n).toNat = n :=
  UInt8.toNat_ofNat_of_lt (Nat.lt_succ_of_le hn)

/-- The length byte says where the context string ends. -/
theorem framed_injective {context context' msg msg' : Bytes}
    (hc : context.length ≤ 255) (hc' : context'.length ≤ 255)
    (heq : framed context msg = framed context' msg') :
    context = context' ∧ msg = msg' := by
  obtain ⟨_, htail⟩ := List.cons.inj heq
  obtain ⟨hbyte, hrest⟩ := List.cons.inj htail
  have hlen : context.length = context'.length := by
    rw [← lengthByte_toNat hc, ← lengthByte_toNat hc', hbyte]
  exact List.append_inj hrest hlen

/-- One pass of SHAKE256 has its output, or it fails where libcrypto does. -/
theorem shakeOver_ok_iff {env : Env Alg Key} {fips : Bool} {input : Bytes}
    {failed : ProviderError} :
    (shakeOver h env fips input failed).1.ok = true ↔
      (env.mdFetch (ascii "SHAKE256") (awskmsDependencyPropq fips)).isSome ∧
        env.ok .mdCtxNew = true ∧ env.ok .shake = true := by
  unfold shakeOver
  dsimp only
  cases env.mdFetch (ascii "SHAKE256") (awskmsDependencyPropq fips) with
  | none => simp
  | some alg => cases env.ok .mdCtxNew <;> cases env.ok .shake <;> simp

theorem shakeOver_output {env : Env Alg Key} {fips : Bool} {input : Bytes}
    {failed : ProviderError} (hok : (shakeOver h env fips input failed).1.ok = true) :
    (shakeOver h env fips input failed).2 = h.shake256 input := by
  obtain ⟨hfetch, hctx, hshake⟩ := shakeOver_ok_iff.mp hok
  obtain ⟨alg, hfetch⟩ := Option.isSome_iff_exists.mp hfetch
  unfold shakeOver
  simp [hfetch, hctx, hshake]

/-- What `awskms_mu` does with every hash of a key, context string and
message. -/
structure Framing (h : Host Alg Key) : Prop where
  absorbs : ∀ env fips tr context msg, context.length ≤ 255 →
    awskmsMu h env fips tr context msg =
      shakeOver h env fips (tr ++ framed context msg)
        ⟨.internalError, "computing ML-DSA mu failed", []⟩
  succeeds : ∀ env fips tr context msg,
    (awskmsMu h env fips tr context msg).1.ok = true ↔ context.length ≤ 255 ∧
      (env.mdFetch (ascii "SHAKE256") (awskmsDependencyPropq fips)).isSome ∧
      env.ok .mdCtxNew = true ∧ env.ok .shake = true
  output : ∀ env fips tr context msg,
    (awskmsMu h env fips tr context msg).1.ok = true →
    (awskmsMu h env fips tr context msg).2 = h.shake256 (tr ++ framed context msg) ∧
      (awskmsMu h env fips tr context msg).2.length = 64
  refuses : ∀ env fips tr context msg, 255 < context.length →
    awskmsMu h env fips tr context msg =
      (⟨false, [raise .unsupportedParameter
        "an ML-DSA context string may be at most 255 bytes, got %zu"
        [.num context.length]]⟩, [])
  lengthByte : ∀ context : Bytes, context.length ≤ 255 →
    (UInt8.ofNat context.length).toNat = context.length
  injective : ∀ tr context context' msg msg', context.length ≤ 255 →
    context'.length ≤ 255 → tr ++ framed context msg = tr ++ framed context' msg' →
    context = context' ∧ msg = msg'
  absent : ∀ env fips tr msg (c : ContextString) hfit,
    awskmsMu h env fips tr
        (AwskmsSigCtx.new fips : AwskmsSigCtx Alg Key).context.bytes msg =
      awskmsMu h env fips tr (c.store [] hfit).bytes msg

theorem awskmsMu_of_fits {env : Env Alg Key} {fips : Bool} {tr context msg : Bytes}
    (hc : context.length ≤ 255) :
    awskmsMu h env fips tr context msg =
      shakeOver h env fips (tr ++ framed context msg)
        ⟨.internalError, "computing ML-DSA mu failed", []⟩ := by
  rw [awskmsMu, if_neg (Nat.not_lt_of_le hc), muInput_framed]

theorem awskmsMu_of_long {env : Env Alg Key} {fips : Bool} {tr context msg : Bytes}
    (hc : 255 < context.length) :
    awskmsMu h env fips tr context msg =
      (⟨false, [raise .unsupportedParameter
        "an ML-DSA context string may be at most 255 bytes, got %zu"
        [.num context.length]]⟩, []) := by
  rw [awskmsMu, if_pos hc]

theorem framing (hshake : ∀ m, (h.shake256 m).length = 64) : Framing h where
  absorbs _ _ _ _ _ := awskmsMu_of_fits
  succeeds env fips tr context msg := by
    by_cases hc : context.length ≤ 255
    · rw [awskmsMu_of_fits hc, shakeOver_ok_iff, and_iff_right hc]
    · rw [awskmsMu_of_long (Nat.lt_of_not_le hc)]
      exact ⟨fun hok => absurd hok Bool.false_ne_true, fun hall => absurd hall.1 hc⟩
  output env fips tr context msg hok := by
    by_cases hc : context.length ≤ 255
    · rw [awskmsMu_of_fits hc] at hok ⊢
      rw [shakeOver_output hok]
      exact ⟨rfl, hshake _⟩
    · rw [awskmsMu_of_long (Nat.lt_of_not_le hc)] at hok
      cases hok
  refuses _ _ _ _ _ := awskmsMu_of_long
  lengthByte _ := lengthByte_toNat
  injective _ _ _ _ _ hc hc' heq :=
    framed_injective hc hc' (List.append_cancel_left heq)
  absent env fips tr msg c hfit := by
    rw [ContextString.store_bytes]
    rfl

/-- The context string on record: no record counts as the empty string. -/
def lastContext (history : CtxRef → Demands Alg) (c : CtxRef) : Bytes :=
  (history c).context.getD []

/-- What the contexts of a state hold, and what a one-shot ML-DSA signature of a
run absorbs, is the context string on record in a history. -/
structure AbsorbsLast (h : Host Alg Key) (note : Note Alg Key (Demands Alg))
    (evs : List (Rec (Sys Alg Key) (Input Alg Key) Event)) : Prop where
  held : ∀ before e after, evs = before ++ e :: after →
    ∀ c table ctx, e.pre.ctxs c = some (table, ctx) →
      ctx.context.bytes = lastContext (historyOf note Demands.none before) c
  signed : ∀ before e after, evs = before ++ e :: after →
    ∀ c buf tbs table ctx, e.input.call = .sig c (.oneshotSign buf tbs) →
      e.pre.ctxs c = some (table, ctx) →
      (ctx.spec e.pre.keys).family = .mlDsa →
      ∀ req ∈ requests e.out.trace, ∃ pub tr,
        operationPubkey e.pre.keys ctx = some pub ∧ pub.tr = some tr ∧
        req.messageType = .EXTERNAL_MU ∧
        req.msg = h.shake256 (tr.bytes ++
          framed (lastContext (historyOf note Demands.none before) c) tbs)

theorem mlDsa_msgType {spec : AwskmsKeyspec} (hspec : spec ∈ specs)
    (hml : spec.family = .mlDsa) : spec.msgType = .externalMu := by
  revert hml
  revert spec
  decide

theorem absorbsLast {evs : List (Rec (Sys Alg Key) (Input Alg Key) Event)}
    {s : Sys Alg Key} (hr : (provider h).Run evs s) :
    AbsorbsLast h (taken h) evs := by
  have hheld : ∀ before e after, evs = before ++ e :: after →
      ∀ c table ctx, e.pre.ctxs c = some (table, ctx) →
        ctx.context.bytes = lastContext (historyOf (taken h) Demands.none before) c := by
    intro before e after hsplit c table ctx hctx
    subst hsplit
    exact (mirrors_run hr.at_split.1 hctx).context
  refine ⟨hheld, fun before e after hsplit c buf tbs table ctx hcall hctx hml req hreq => ?_⟩
  have hlast := hheld before e after hsplit c table ctx hctx
  obtain ⟨hpre, c', sc, table', ctx', r, hcall', hctx', _, hkey, hlive, hsign, _⟩ :=
    run_requests hr hsplit hreq
  obtain ⟨rfl, rfl⟩ := Call.sig.inj (hcall.symm.trans hcall')
  obtain ⟨rfl, rfl⟩ := Prod.mk.inj (Option.some.inj (hctx.symm.trans hctx'))
  have hmem : ctx.spec e.pre.keys ∈ specs := spec_mem_run hpre hkey hlive
  cases hsign with
  | oneshot ho =>
      have hmessage := ho.message
      generalize req.messageType = messageType at hmessage ⊢
      generalize req.msg = msg at hmessage ⊢
      cases hmessage with
      | raw hraw _ _ =>
          rw [mlDsa_msgType hmem hml] at hraw
          cases hraw
      | @mu pub tr _ hpub htr =>
          refine ⟨pub, tr, hpub, htr, rfl, ?_⟩
          rw [muInput_framed, hlast]

/-- `awskms_mu` frames every message as FIPS 204 does, and what it is given for
the context string is what the context took last. -/
theorem mu_framed (hshake : ∀ m, (h.shake256 m).length = 64)
    {evs : List (Rec (Sys Alg Key) (Input Alg Key) Event)} {s : Sys Alg Key}
    (hr : (provider h).Run evs s) : Framing h ∧ AbsorbsLast h (taken h) evs :=
  ⟨framing hshake, absorbsLast hr⟩

namespace Bench

/-- An ML-DSA context is told a context string, and then another one beside an
MGF1 digest that it cannot honour. -/
def retold : List Call := opening "alias/mldsa" .oneshot ++ [
  onCtx (.oneshotInit none (some 0) (some
    [⟨"context-string", .octetString (ascii "A")⟩])),
  onCtx (.setCtxParams (some [strParam "mgf1-digest" "SHA256",
    ⟨"context-string", .octetString (ascii "B")⟩]))]

def signAbc : Call := onCtx (.oneshotSign buf abc)

/-- The signature is over `mu` with the second string. -/
theorem retold_request :
    (requests (recOf retold signAbc).out.trace).map (·.msg) = [muB] := by
  decide +kernel

/-- The key of the context, as the signature finds it. -/
theorem retold_ctx {table : SigTable} {ctx : AwskmsSigCtx Digest PubKey}
    (hctx : (recOf retold signAbc).pre.ctxs 0 = some (table, ctx)) :
    (ctx.spec (recOf retold signAbc).pre.keys).family = .mlDsa ∧
      ∀ pub tr, operationPubkey (recOf retold signAbc).pre.keys ctx = some pub →
        pub.tr = some tr → tr.bytes = mlDsaTr := by
  have hall : ((recOf retold signAbc).pre.ctxs 0).all (fun p =>
      decide ((p.2.spec (recOf retold signAbc).pre.keys).family = .mlDsa) &&
        (operationPubkey (recOf retold signAbc).pre.keys p.2).all fun pub =>
          pub.tr.all fun tr => tr.bytes == mlDsaTr) = true := by decide +kernel
  rw [hctx, Option.all_some, Bool.and_eq_true, decide_eq_true_iff] at hall
  refine ⟨hall.1, fun pub tr hpub htr => ?_⟩
  have htail := hall.2
  rw [hpub, Option.all_some, htr, Option.all_some] at htail
  exact eq_of_beq htail

end Bench

theorem mu_framed_retold :
    requests (Bench.recOf Bench.retold Bench.signAbc).out.trace ≠ [] ∧
      Framing Bench.host ∧
      AbsorbsLast Bench.host (taken Bench.host)
        (Bench.runOf (Bench.retold ++ [Bench.signAbc])) :=
  ⟨by decide +kernel,
    mu_framed Bench.shake256_length (Bench.run_runOf (by decide +kernel))⟩

/-- The string of a call that was refused is absorbed. -/
theorem mu_not_of_accepted :
    ¬ ∀ evs s, (provider Bench.host).Run evs s →
      AbsorbsLast Bench.host (accepted Bench.host) evs := by
  intro hall
  have hrun := hall (Bench.runOf (Bench.retold ++ [Bench.signAbc])) _
    (Bench.run_runOf (by decide +kernel))
  rw [Bench.runOf_snoc] at hrun
  have hsome : ((Bench.recOf Bench.retold Bench.signAbc).pre.ctxs 0).isSome := by
    decide +kernel
  obtain ⟨⟨table, ctx⟩, hctx⟩ := Option.isSome_iff_exists.mp hsome
  obtain ⟨hml, htr⟩ := Bench.retold_ctx hctx
  obtain ⟨req, hreq, hmsg⟩ : ∃ req ∈ requests (Bench.recOf Bench.retold
      Bench.signAbc).out.trace, req.msg = Bench.muB :=
    List.mem_map.mp (Bench.retold_request ▸ List.mem_singleton_self _)
  obtain ⟨pub, tr, hpub, hsometr, _, habs⟩ := hrun.signed _ _ [] rfl 0 Bench.buf
    Bench.abc table ctx rfl hctx hml req hreq
  have hlast : lastContext (historyOf (accepted Bench.host) Demands.none
      (Bench.runOf Bench.retold)) 0 = ascii "A" := by decide +kernel
  rw [hmsg, htr pub tr hpub hsometr, hlast] at habs
  revert habs
  decide +kernel

end AwsKms.Model
