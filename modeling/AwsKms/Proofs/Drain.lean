import AwsKms.Proofs.Session

/-!
# Draining a store

A consumer that wants everything a store has loads from it until it says
there is no more. This one has at most one object, and says so once it has
handed it out or was asked for an object of another kind. A load that fails
says nothing: the session is as it was, and the loop goes round again with
another request. So the loop ends with the first answer of the service that
can be loaded, and not before.
-/

namespace AwsKms.Model

open AwsKms.Lib

section

variable {Alg Key : Type} {h : Host Alg Key} {env : Env Alg Key}

/-- `while (!eof(ctx)) load(ctx);`, for at most so many rounds. Each load gets
its own answers and its own callback; the loop has ended when `ok` is set. -/
def drain (h : Host Alg Key) (st : StoreRef) :
    Nat → (Nat → Env Alg Key × ObjectCb) → Act (Sys Alg Key) Event
  | 0, _ => fun s => ⟨(s.stores st).any awskmsStoreEof, s, []⟩
  | n + 1, answers => fun s =>
      if (s.stores st).any awskmsStoreEof then ⟨true, s, []⟩
      else
        let load := Sys.step h (answers 0).1 (.storeLoad st (answers 0).2) s
        let rest := drain h st n (fun i => answers (i + 1)) load.state
        ⟨rest.ok, rest.state, load.trace ++ rest.trace⟩

/-- A request for a public key. -/
def Event.isAsk : Event → Bool
  | .kmsGetPublicKey _ _ => true
  | _ => false

/-- The service answers for the key with one the validation accepts. -/
def Loadable (h : Host Alg Key) (env : Env Alg Key) (key : AwskmsKey Key) :
    Prop :=
  ∃ answer, env.getPublicKey key.uri key.fipsRequired = .ok answer ∧
    (awskmsPubkeyFromSpki h env answer.spki answer.keySpec key.fipsRequired
      AwskmsPubkey.zero).ok = true

theorem Loadable.congr {key key' : AwskmsKey Key} (hsame : SameKey key key') :
    Loadable h env key' ↔ Loadable h env key := by
  unfold Loadable
  rw [hsame.uri, hsame.fips]

theorem loadKey_ok_iff {st : StoreState Key}
    (hblank : st.key.pub = AwskmsPubkey.zero) :
    (awskmsStoreLoadKey h env st).ok = true ↔ Loadable h env st.key := by
  have hspec : ¬st.key.pub.spec.isSome = true := by
    rw [hblank]
    exact Bool.false_ne_true
  unfold awskmsStoreLoadKey Loadable
  rw [if_neg hspec, hblank]
  cases hans : env.getPublicKey st.key.uri st.key.fipsRequired with
  | error e =>
      refine ⟨fun hok => ?_, fun ⟨answer, hanswer, _⟩ => ?_⟩
      · cases hok
      · cases hanswer
  | ok answer =>
      refine ⟨fun hok => ⟨answer, rfl, hok⟩, fun ⟨answer', hanswer, hok⟩ => ?_⟩
      obtain rfl := Except.ok.inj hanswer
      exact hok

variable (h env) in
/-- A load asks at most once. -/
theorem load_asks (cb : ObjectCb) (st : StoreState Key) :
    (awskmsStoreLoad h env cb st).trace.countP Event.isAsk ≤ 1 := by
  have hload : (awskmsStoreLoadKey h env st).trace.countP Event.isAsk ≤ 1 := by
    unfold awskmsStoreLoadKey
    split
    · exact Nat.zero_le 1
    · cases env.getPublicKey st.key.uri st.key.fipsRequired with
      | error e => exact Nat.le_refl 1
      | ok answer =>
          simp only [List.countP_cons]
          have hview : (awskmsPubkeyFromSpki h env answer.spki answer.keySpec
              st.key.fipsRequired st.key.pub).trace.countP Event.isAsk = 0 := by
            rw [List.countP_eq_zero]
            intro e he hask
            have hunder := awskmsPubkeyFromSpki_under he
            cases e with
            | kmsGetPublicKey uri fips => exact hunder
            | _ => cases hask
          rw [hview]
          exact Nat.le_refl 1
  rcases awskmsStoreLoad_cases h env cb st
    with ⟨ht, _⟩ | ⟨ht, _⟩ | ⟨_, _, _, ht⟩
  · rw [ht]
    exact Nat.zero_le 1
  · rw [ht]
    exact hload
  · rw [ht, List.countP_append, List.countP_cons]
    have htail : (if cb.loads && env.ok .keyUpRef then
        [Event.keyUpRef st.ctx.key] else []).countP Event.isAsk = 0 := by
      split
      · rfl
      · rfl
    rw [htail]
    exact hload

/-- A session that is waiting for its object. -/
structure Waiting (s : Sys Alg Key) (st : StoreRef) (ctx : AwskmsStoreCtx) :
    Prop where
  held : s.stores st = some ctx
  open_ : ctx.emitted = false
  here : ¬ctx.Elsewhere
  blank : (s.keys ctx.key).pub = AwskmsPubkey.zero

theorem Waiting.eof {s : Sys Alg Key} {st : StoreRef} {ctx : AwskmsStoreCtx}
    (hw : Waiting s st ctx) : (s.stores st).any awskmsStoreEof = false := by
  rw [hw.held]
  exact hw.open_

/-- A round ends the session, on an answer that can be loaded, or leaves it
waiting for the same key. -/
theorem Waiting.round {s : Sys Alg Key} {st : StoreRef} {ctx : AwskmsStoreCtx}
    (hw : Waiting s st ctx) (env : Env Alg Key) (cb : ObjectCb) :
    let out := Sys.step h env (.storeLoad st cb) s
    out.trace.countP Event.isAsk ≤ 1 ∧
      (Loadable h env (s.keys ctx.key) ∧
          (out.state.stores st).any awskmsStoreEof = true ∨
        ¬Loadable h env (s.keys ctx.key) ∧ Waiting out.state st ctx ∧
          SameKey (s.keys ctx.key) (out.state.keys ctx.key)) := by
  intro out
  have hload := storeLoad_open h env cb hw.held
  have hasks := load_asks h env cb ⟨ctx, s.keys ctx.key⟩
  have hok : (awskmsStoreLoadKey h env ⟨ctx, s.keys ctx.key⟩).ok = true ↔
      Loadable h env (s.keys ctx.key) := loadKey_ok_iff hw.blank
  have hthrough : awskmsStoreLoad h env cb ⟨ctx, s.keys ctx.key⟩ =
      (awskmsStoreLoadKey h env).andThen (emitObject env cb)
        ⟨ctx, s.keys ctx.key⟩ := by
    have hem : ¬ctx.emitted = true := by
      rw [hw.open_]
      exact Bool.false_ne_true
    unfold awskmsStoreLoad
    rw [if_neg hem]
    exact if_neg hw.here
  refine ⟨by rw [hload.trace]; exact hasks, ?_⟩
  by_cases hloads : Loadable h env (s.keys ctx.key)
  · refine .inl ⟨hloads, ?_⟩
    rw [hload.ctx, hthrough, Act.andThen_of_ok (hok.mpr hloads)]
    rfl
  · refine .inr ⟨hloads, ?_⟩
    have hfail : (awskmsStoreLoadKey h env ⟨ctx, s.keys ctx.key⟩).ok = false := by
      rw [← Bool.not_eq_true]
      exact mt hok.mp hloads
    have hstep : LoadStep h env cb ⟨ctx, s.keys ctx.key⟩ _ :=
      load_step h env cb fun _ => hw.blank
    have hsame : (awskmsStoreLoad h env cb ⟨ctx, s.keys ctx.key⟩).state =
        ⟨ctx, s.keys ctx.key⟩ := by
      refine hstep.open ?_
      rw [hthrough, Act.andThen_of_failed hfail,
        (awskmsStoreLoadKey_writes h env _).1]
      exact hw.open_
    have hctx := hload.ctx
    have hkey := hload.key
    rw [hsame] at hctx hkey
    exact ⟨⟨hctx, hw.open_, hw.here, hkey.pub.trans hw.blank⟩, hkey⟩

/-- The loop ends, with no more requests than rounds. -/
def Drains (h : Host Alg Key) (st : StoreRef)
    (answers : Nat → Env Alg Key × ObjectCb) (s : Sys Alg Key) : Prop :=
  ∃ n, (drain h st n answers s).ok = true ∧
    (drain h st n answers s).trace.countP Event.isAsk ≤ n

/-- A loop over a session that has nothing more to give is no loop. -/
theorem drains_of_eof {st : StoreRef} {answers : Nat → Env Alg Key × ObjectCb}
    {s : Sys Alg Key} (heof : (s.stores st).any awskmsStoreEof = true) :
    Drains h st answers s :=
  ⟨0, heof, Nat.le_refl 0⟩

theorem drain_succ {st : StoreRef} {answers : Nat → Env Alg Key × ObjectCb}
    {s : Sys Alg Key} {n : Nat}
    (heof : (s.stores st).any awskmsStoreEof = false) :
    drain h st (n + 1) answers s =
      let load := Sys.step h (answers 0).1 (.storeLoad st (answers 0).2) s
      let rest := drain h st n (fun i => answers (i + 1)) load.state
      ⟨rest.ok, rest.state, load.trace ++ rest.trace⟩ := by
  simp only [drain, heof, Bool.false_eq_true, if_false]

/-- One more round, one more request at most. -/
theorem Drains.round {st : StoreRef} {answers : Nat → Env Alg Key × ObjectCb}
    {s : Sys Alg Key}
    (heof : (s.stores st).any awskmsStoreEof = false)
    (hasks : (Sys.step h (answers 0).1 (.storeLoad st (answers 0).2)
      s).trace.countP Event.isAsk ≤ 1)
    (hrest : Drains h st (fun i => answers (i + 1))
      (Sys.step h (answers 0).1 (.storeLoad st (answers 0).2) s).state) :
    Drains h st answers s := by
  obtain ⟨n, hok, hcount⟩ := hrest
  refine ⟨n + 1, ?_, ?_⟩
  · rw [drain_succ heof]
    exact hok
  · rw [drain_succ heof]
    simp only [List.countP_append]
    omega

theorem Waiting.drains {s : Sys Alg Key} {st : StoreRef} {ctx : AwskmsStoreCtx}
    (hw : Waiting s st ctx) {answers : Nat → Env Alg Key × ObjectCb} {i : Nat}
    (hi : Loadable h (answers i).1 (s.keys ctx.key)) :
    Drains h st answers s := by
  induction i generalizing s answers with
  | zero =>
      obtain ⟨hasks, hround⟩ := hw.round (h := h) (answers 0).1 (answers 0).2
      rcases hround with ⟨_, heof⟩ | ⟨hno, _⟩
      · exact .round hw.eof hasks (drains_of_eof heof)
      · exact absurd hi hno
  | succ i ih =>
      obtain ⟨hasks, hround⟩ := hw.round (h := h) (answers 0).1 (answers 0).2
      rcases hround with ⟨_, heof⟩ | ⟨_, hw', hsame⟩
      · exact .round hw.eof hasks (drains_of_eof heof)
      · have hrest : Drains h st (fun i => answers (i + 1)) _ :=
          ih hw' ((Loadable.congr hsame).mpr hi)
        exact .round hw.eof hasks hrest

theorem Waiting.spins {s : Sys Alg Key} {st : StoreRef} {ctx : AwskmsStoreCtx}
    (hw : Waiting s st ctx) (answers : Nat → Env Alg Key × ObjectCb)
    (hno : ∀ i, ¬Loadable h (answers i).1 (s.keys ctx.key)) (n : Nat) :
    (drain h st n answers s).ok = false := by
  induction n generalizing s answers with
  | zero => exact hw.eof
  | succ n ih =>
      rw [drain_succ hw.eof]
      obtain ⟨_, ⟨hyes, _⟩ | ⟨_, hw', hsame⟩⟩ :=
        hw.round (h := h) (answers 0).1 (answers 0).2
      · exact absurd hyes (hno 0)
      · exact ih hw' _ fun i hi => hno (i + 1) ((Loadable.congr hsame).mp hi)

/-- Draining an open store ends exactly when it has nothing to give, or some
answer of the service can be loaded. -/
theorem store_drains_iff {evs : List (Rec (Sys Alg Key) (Input Alg Key) Event)}
    {s : Sys Alg Key} (hr : (provider h).Run evs s) {st : StoreRef}
    {ctx : AwskmsStoreCtx} (hst : s.stores st = some ctx)
    (answers : Nat → Env Alg Key × ObjectCb) :
    Drains h st answers s ↔ ctx.emitted = true ∨ ctx.Elsewhere ∨
      ∃ i, Loadable h (answers i).1 (s.keys ctx.key) := by
  by_cases hem : ctx.emitted = true
  · refine ⟨fun _ => .inl hem, fun _ => drains_of_eof ?_⟩
    rw [hst]
    exact hem
  have hopen : ctx.emitted = false := Bool.not_eq_true _ ▸ hem
  have heof : (s.stores st).any awskmsStoreEof = false := by
    rw [hst]
    exact hopen
  by_cases helse : ctx.Elsewhere
  · refine ⟨fun _ => .inr (.inl helse), fun _ => ?_⟩
    have hload := storeLoad_open h (answers 0).1 (answers 0).2 hst
    have hskip : awskmsStoreLoad h (answers 0).1 (answers 0).2
        ⟨ctx, s.keys ctx.key⟩ =
        ⟨false, ⟨{ ctx with emitted := true }, s.keys ctx.key⟩, []⟩ := by
      unfold awskmsStoreLoad
      rw [if_neg hem]
      exact if_pos helse
    refine .round heof ?_ (drains_of_eof ?_)
    · rw [hload.trace, hskip]
      exact Nat.zero_le 1
    · rw [hload.ctx, hskip]
      rfl
  · have hw : Waiting s st ctx :=
      ⟨hst, hopen, helse, (sessions_run hr).blank st ctx hst hopen⟩
    constructor
    · rintro ⟨n, hok, _⟩
      by_contra hno
      have hspin := hw.spins answers
        (fun i hi => hno (.inr (.inr ⟨i, hi⟩))) n
      rw [hok] at hspin
      cases hspin
    · rintro (hyes | hyes | ⟨i, hi⟩)
      · exact absurd hyes hem
      · exact absurd hyes helse
      · exact hw.drains hi

end

namespace Bench

/-- The store of an EC key, opened. -/
def opened : List (Input Digest PubKey) :=
  inputs [.storeOpen (some (ascii "aws-kms:key-id=alias/ec"))]

theorem run_opened : (provider host).Run
    ((provider host).records (provider host).start opened)
    ((provider host).drive (provider host).start opened) :=
  Machine.run_records (by decide +kernel)

theorem opened_store : ((provider host).drive (provider host).start
    opened).stores 0 = some ⟨0, false, 0⟩ := by decide +kernel

end Bench

theorem store_drains_away : Drains Bench.host 0
    (fun i => (if i = 0 then Bench.away else Bench.env, ⟨true, true⟩))
    ((provider Bench.host).drive (provider Bench.host).start Bench.opened) := by
  refine (store_drains_iff Bench.run_opened Bench.opened_store _).mpr
    (.inr (.inr ⟨1, ?_⟩))
  exact ⟨⟨"ECC_NIST_P256", Bench.ecSpki⟩, by decide +kernel, by decide +kernel⟩

/-- A service that stays away keeps the loop going. -/
theorem store_not_drained :
    ¬∀ (evs : List (Rec (Sys Bench.Digest Bench.PubKey)
        (Input Bench.Digest Bench.PubKey) Event))
      (s : Sys Bench.Digest Bench.PubKey),
      (provider Bench.host).Run evs s → ∀ st ctx, s.stores st = some ctx →
      ∀ answers, Drains Bench.host st answers s := by
  intro hall
  obtain ⟨n, hok, _⟩ := hall _ _ Bench.run_opened 0 _ Bench.opened_store
    fun _ => (Bench.away, ⟨true, true⟩)
  have hw : Waiting ((provider Bench.host).drive (provider Bench.host).start
      Bench.opened) 0 ⟨0, false, 0⟩ :=
    ⟨Bench.opened_store, rfl, fun helse => helse.1 rfl,
      (sessions_run Bench.run_opened).blank 0 _ Bench.opened_store rfl⟩
  have hno : ∀ key, ¬Loadable Bench.host Bench.away key := by
    rintro key ⟨answer, hanswer, _⟩
    cases hanswer
  have hspin := hw.spins (fun _ => (Bench.away, ⟨true, true⟩))
    (fun _ => hno _) n
  rw [hok] at hspin
  cases hspin

end AwsKms.Model
