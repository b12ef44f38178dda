import AwsKms.Proofs.Legal

/-!
# The streaming hash

`digest_sign_init` is the only routine that makes the running hash follow the
selected digest; everything after it can pull the two apart. `Stream` is what
the caller believes is being hashed: the key the last successful init bound
and the chunks fed since. `InStep` is what has to hold for the belief to be
right, and `Steady` is what a call must not do to it while a hash is running.

`HashStep` is the inversion lemma of the running hash: a call leaves it alone,
loses it, starts it or feeds it.
-/

namespace AwsKms.Model

open AwsKms.Lib AwsKms.Spec

variable {Alg Key : Type} {h : Host Alg Key} {env : Env Alg Key}
  {keys : Keys Key}

theorem setDigest_mdctx {name : Bytes} {x : AwskmsSigCtx Alg Key} :
    (setDigest h env keys name x).state.mdctx = x.mdctx := by
  unfold setDigest
  split
  · rfl
  · simp only []
    split
    · rfl
    · split
      · rfl
      · rfl

theorem applyMdname_mdctx {mdname : Option Bytes}
    {x : AwskmsSigCtx Alg Key} :
    (applyMdname h env keys mdname x).state.mdctx = x.mdctx := by
  unfold applyMdname
  split
  · rfl
  · rfl
  · exact setDigest_mdctx

theorem signInit_mdctx {provkey : Option KeyRef}
    {params : Option (List OsslParam)} {x : AwskmsSigCtx Alg Key} :
    (awskmsSigSignInit h env keys provkey params x).state.mdctx = x.mdctx := by
  refine signInit_keeps (P := fun y => y.mdctx = x.mdctx)
    (rfl : (SigCall.signInit provkey params).provkey = provkey) rfl ?_ rfl
  intro y z hw hy
  cases hw with
  | loseHash hsc _ => cases hsc
  | startHash hsc _ => cases hsc
  | feed hsc _ => rcases hsc with hsc | hsc <;> cases hsc
  | finish hsc _ => rcases hsc with ⟨_, hsc⟩ | ⟨_, hsc⟩ <;> cases hsc
  | _ => exact hy

theorem signInit_ok_key {provkey : Option KeyRef}
    {params : Option (List OsslParam)} {x : AwskmsSigCtx Alg Key}
    (hok : (awskmsSigSignInit h env keys provkey params x).ok = true) :
    (awskmsSigSignInit h env keys provkey params x).state.key =
      keyAfter provkey x := by
  obtain ⟨hbind, _⟩ := Act.andThen_ok.mp hok
  rw [awskmsSigSignInit, Act.andThen_of_ok hbind, setCtxParams_key]
  exact bindKey_ok_key hbind

/-- A digest init is a sign init, then a digest name, then a fresh hash. -/
theorem digestInit_eq {mdname : Option Bytes} {provkey : Option KeyRef}
    {params : Option (List OsslParam)} {x : AwskmsSigCtx Alg Key} :
    awskmsSigDigestSignInit h env keys mdname provkey params x =
      (awskmsSigSignInit h env keys provkey params).andThen
        ((applyMdname h env keys mdname).andThen (restartHash env keys)) x := by
  have hsplit : Act.all ([bindKey h env keys provkey,
      awskmsSigSetCtxParams h env keys params] ++
      [applyMdname h env keys mdname, restartHash env keys]) x = _ :=
    Act.all_append
  rw [Act.all_pair, Act.all_pair] at hsplit
  exact hsplit

/-- Where the running hash found after a call comes from. -/
inductive HashStep (h : Host Alg Key) (env : Env Alg Key) (keys : Keys Key)
    (sc : SigCall) (x : AwskmsSigCtx Alg Key) :
    Option (EvpMdCtx Alg) → Prop where
  | kept {m : Option (EvpMdCtx Alg)} : x.mdctx = m →
      (sc.isDigestInit = true → (sigCall h env keys sc x).ok = false) →
      (∀ chunk, sc = .digestSignUpdate chunk ∨ sc = .digestVerifyUpdate chunk →
        (sigCall h env keys sc x).ok = false) → HashStep h env keys sc x m
  | lost {m : Option (EvpMdCtx Alg)} :
      (∀ md data, m ≠ some (.running md data)) → HashStep h env keys sc x m
  | started {md : EvpMd Alg} : sc.isDigestInit = true →
      (sigCall h env keys sc x).ok = true →
      (sigCall h env keys sc x).state.md = some md →
      (sigCall h env keys sc x).state.key = keyAfter sc.provkey x →
      HashStep h env keys sc x (some (.running md []))
  | fed {md : EvpMd Alg} {data chunk : Bytes} :
      sc = .digestSignUpdate chunk ∨ sc = .digestVerifyUpdate chunk →
      x.mdctx = some (.running md data) →
      (sigCall h env keys sc x).ok = true →
      HashStep h env keys sc x (some (.running md (data ++ chunk)))

/-- Whether libcrypto has what it takes to start a hash. -/
def hashesStart (env : Env Alg Key) : Bool :=
  env.ok .mdCtxNew && env.ok .digestInit

/-- A failed start leaves the hash as it was, or without one where libcrypto
could not start it. -/
def NotStarted (env : Env Alg Key) (m m' : Option (EvpMdCtx Alg)) : Prop :=
  m' = m ∨ hashesStart env = false ∧ ∀ md data, m' ≠ some (.running md data)

variable (env keys) in
theorem restartHash_cases (x : AwskmsSigCtx Alg Key) :
    let out := restartHash env keys x
    out.ok = false ∧ NotStarted env x.mdctx out.state.mdctx ∨
    out.ok = true ∧ ∃ md, x.md = some md ∧
      out.state = { x with mdctx := some (.running md []) } := by
  intro out
  simp only [out]
  unfold restartHash
  split
  · exact .inl ⟨rfl, .inl rfl⟩
  · next md hmd =>
      split
      · next hnew =>
          exact .inl ⟨rfl, .inr ⟨by simp [hashesStart, hnew], fun md data => nofun⟩⟩
      · split
        · next hinit =>
            exact .inl ⟨rfl, .inr ⟨by simp [hashesStart, hinit], fun md data => nofun⟩⟩
        · exact .inr ⟨rfl, md, hmd, rfl⟩

theorem applyMdname_key {mdname : Option Bytes} {x : AwskmsSigCtx Alg Key} :
    (applyMdname h env keys mdname x).state.key = x.key := by
  have hset : ∀ name, (setDigest h env keys name x).state.key = x.key := by
    intro name
    unfold setDigest
    split
    · rfl
    · simp only []
      split
      · rfl
      · split
        · rfl
        · rfl
  unfold applyMdname
  split
  · rfl
  · rfl
  · exact hset _

variable (h env keys) in
/-- A digest init that succeeds starts a hash of the digest it selected, on the
key it was given; one that fails leaves the hash as it was or without. -/
theorem digestInit_hash (mdname : Option Bytes) (provkey : Option KeyRef)
    (params : Option (List OsslParam)) (x : AwskmsSigCtx Alg Key) :
    let out := awskmsSigDigestSignInit h env keys mdname provkey params x
    out.ok = false ∧ NotStarted env x.mdctx out.state.mdctx ∨
    out.ok = true ∧ ∃ md, out.state.md = some md ∧
      out.state.mdctx = some (.running md []) ∧
      out.state.key = keyAfter provkey x := by
  intro out
  have hout : out = (awskmsSigSignInit h env keys provkey params).andThen
      ((applyMdname h env keys mdname).andThen (restartHash env keys)) x :=
    digestInit_eq
  rw [hout]
  have hm1 : (awskmsSigSignInit h env keys provkey params x).state.mdctx =
      x.mdctx := signInit_mdctx
  cases h1 : (awskmsSigSignInit h env keys provkey params x).ok with
  | false =>
      rw [Act.andThen_of_failed h1]
      exact .inl ⟨h1, .inl hm1⟩
  | true =>
      have hk1 := signInit_ok_key h1
      rw [Act.andThen_of_ok h1]
      generalize (awskmsSigSignInit h env keys provkey params x).state = y
        at hm1 hk1
      have hm2 : (applyMdname h env keys mdname y).state.mdctx = y.mdctx :=
        applyMdname_mdctx
      have hk2 : (applyMdname h env keys mdname y).state.key = y.key :=
        applyMdname_key
      cases h2 : (applyMdname h env keys mdname y).ok with
      | false =>
          rw [Act.andThen_of_failed h2]
          exact .inl ⟨h2, .inl (hm2.trans hm1)⟩
      | true =>
          rw [Act.andThen_of_ok h2]
          generalize (applyMdname h env keys mdname y).state = z at hm2 hk2
          rcases restartHash_cases env keys z with
            ⟨hok, hmd⟩ | ⟨hok, md, hmd, hst⟩
          · rw [hm2, hm1] at hmd
            exact .inl ⟨hok, hmd⟩
          · refine .inr ⟨hok, md, ?_, ?_, ?_⟩
            · simp only [hst, hmd]
            · simp only [hst]
            · simp only [hst, hk2, hk1]

variable (h env keys) in
theorem hash_step (sc : SigCall) (x : AwskmsSigCtx Alg Key) :
    HashStep h env keys sc x (sigCall h env keys sc x).state.mdctx := by
  have hinit : ∀ {mdname provkey params}, sc = .digestSignInit mdname provkey
      params ∨ sc = .digestVerifyInit mdname provkey params →
      HashStep h env keys sc x (sigCall h env keys sc x).state.mdctx := by
    intro mdname provkey params hsc
    have hcall : sigCall h env keys sc x =
        awskmsSigDigestSignInit h env keys mdname provkey params x := by
      rcases hsc with rfl | rfl <;> rfl
    have hkey : sc.provkey = provkey := by rcases hsc with rfl | rfl <;> rfl
    rcases digestInit_hash h env keys mdname provkey params x with
      ⟨hok, hmd | ⟨-, hmd⟩⟩ | ⟨hok, md, hmd, hm, hk⟩
    · rw [hcall, hmd]
      refine .kept rfl (fun _ => hcall ▸ hok) fun chunk hup => ?_
      rcases hsc with rfl | rfl <;> rcases hup with hup | hup <;> cases hup
    · rw [hcall]
      exact .lost hmd
    · rw [hcall, hm]
      refine .started (by rcases hsc with rfl | rfl <;> rfl) (hcall ▸ hok)
        (hcall ▸ hmd) (hcall ▸ hkey ▸ hk)
  have hupd : ∀ {chunk}, sc = .digestSignUpdate chunk ∨
      sc = .digestVerifyUpdate chunk →
      HashStep h env keys sc x (sigCall h env keys sc x).state.mdctx := by
    intro chunk hsc
    have hcall : sigCall h env keys sc x =
        awskmsSigDigestSignUpdate chunk x := by
      rcases hsc with rfl | rfl <;> rfl
    have hno : sc.isDigestInit = false := by rcases hsc with rfl | rfl <;> rfl
    cases hm : x.mdctx.bind fun m => m.update chunk with
    | none =>
        have hst : sigCall h env keys sc x = ⟨false, x, []⟩ := by
          rw [hcall]
          simp only [awskmsSigDigestSignUpdate, hm, Act.refuse_apply]
        rw [hst]
        exact .kept rfl (fun hi => by rw [hno] at hi; cases hi)
          fun _ _ => by rw [hst]
    | some m =>
        obtain ⟨m0, hm0, hu⟩ := Option.bind_eq_some_iff.mp hm
        have hst : sigCall h env keys sc x =
            ⟨true, { x with mdctx := some m }, []⟩ := by
          rw [hcall]
          simp only [awskmsSigDigestSignUpdate, hm]
        cases m0 with
        | fresh => cases hu
        | finalised md => cases hu
        | running md data =>
            obtain rfl := Option.some.inj hu
            rw [hst]
            exact .fed hsc hm0 (by rw [hst])
  have hkeep : sc.isDigestInit = false →
      (∀ chunk, sc ≠ .digestSignUpdate chunk ∧ sc ≠ .digestVerifyUpdate chunk) →
      HashStep h env keys sc x (sigCall h env keys sc x).state.mdctx := by
    intro hno hnot
    have hm : (sigCall h env keys sc x).state.mdctx = x.mdctx ∨
        ∀ md data, (sigCall h env keys sc x).state.mdctx ≠
          some (.running md data) := by
      refine sigCall_keeps (P := fun y => y.mdctx = x.mdctx ∨
        ∀ md data, y.mdctx ≠ some (.running md data)) ?_ (.inl rfl)
      intro y z hw hy
      cases hw with
      | loseHash hi _ =>
          rw [hno] at hi
          cases hi
      | startHash hi _ =>
          rw [hno] at hi
          cases hi
      | feed hc _ =>
          rcases hc with hc | hc
          · exact absurd hc (hnot _).1
          · exact absurd hc (hnot _).2
      | finish _ _ =>
          right
          intro md data hrun
          cases hrun
      | _ => exact hy
    rcases hm with hm | hm
    · refine .kept hm.symm (fun hi => ?_) fun chunk hc => ?_
      · rw [hno] at hi
        cases hi
      · rcases hc with hc | hc
        · exact absurd hc (hnot _).1
        · exact absurd hc (hnot _).2
    · exact .lost hm
  cases hsc : sc with
  | digestSignInit mdname provkey params => exact hsc ▸ hinit (.inl hsc)
  | digestVerifyInit mdname provkey params => exact hsc ▸ hinit (.inr hsc)
  | digestSignUpdate chunk => exact hsc ▸ hupd (.inl hsc)
  | digestVerifyUpdate chunk => exact hsc ▸ hupd (.inr hsc)
  | _ =>
      rw [← hsc]
      refine hkeep (by rw [hsc]; rfl) fun chunk => ?_
      rw [hsc]
      constructor
      · intro hc
        cases hc
      · intro hc
        cases hc

/-! ## What the caller believes is being hashed

The belief is kept from the calls and their returns, without a look at the
context. A call that fails may have lost the hash all the same, and then
nothing is believed of it. -/

/-- A stream: the key the last successful digest init bound, and the chunks
fed since. -/
structure Stream where
  key : Option KeyRef
  chunks : List Bytes
  deriving DecidableEq, Repr

/-- What a call makes of the stream. `digest_verify_init` and
`digest_verify_update` are the same routines as their signing twins and count
as them. -/
def streamed (h : Host Alg Key) : Note Alg Key (Option Stream) :=
  fun env keys sc ctx stream =>
    if (sigCall h env keys sc ctx).ok = false then stream
    else
      match sc with
      | .digestSignInit _ provkey _ | .digestVerifyInit _ provkey _ =>
          some ⟨keyAfter provkey ctx, []⟩
      | .digestSignUpdate chunk | .digestVerifyUpdate chunk =>
          stream.map fun st => { st with chunks := st.chunks ++ [chunk] }
      | _ => stream

/-- What a call on a context with a running hash must be: a digest init that
succeeds, or a call that gives no other key and names no digest KMS would sign
under another algorithm. -/
def Steady (h : Host Alg Key) (env : Env Alg Key) (keys : Keys Key)
    (sc : SigCall) (ctx : AwskmsSigCtx Alg Key) : Prop :=
  match ctx.mdctx with
  | some (.running md _) =>
      sc.isDigestInit = true ∧ (sigCall h env keys sc ctx).ok = true ∨
      (∀ r ∈ sc.provkey, ctx.key = some r) ∧
        ∀ name ∈ sc.names, name ≠ [] →
          ∀ alg ∈ env.mdFetch name (operationPropq keys ctx),
            h.mdXof alg = false →
            awskmsDigestOf h alg = awskmsDigestOf h md.alg
  | _ => True

instance (sc : SigCall) (ctx : AwskmsSigCtx Alg Key) :
    Decidable (Steady h env keys sc ctx) := by
  unfold Steady
  split
  · infer_instance
  · exact .isTrue trivial

/-- The selected digest is the class of `md`, or none. -/
def Selects (h : Host Alg Key) (md : EvpMd Alg)
    (ctx : AwskmsSigCtx Alg Key) : Prop :=
  ctx.digest = .none ∨ ctx.digest = awskmsDigestOf h md.alg

/-- The running hash is the stream's, and so is the key, and so is the digest
the request will name. -/
structure InStep (h : Host Alg Key) (ctx : AwskmsSigCtx Alg Key)
    (stream : Option Stream) : Prop where
  selected : ∀ md, ctx.md = some md → Selects h md ctx
  running : ∀ md data, ctx.mdctx = some (.running md data) →
    ∃ st, stream = some st ∧ ctx.key = st.key ∧ data = st.chunks.flatten ∧
      Selects h md ctx

variable (env keys) in
theorem selects_call (sc : SigCall) {x : AwskmsSigCtx Alg Key}
    (hx : ∀ md, x.md = some md → Selects h md x) :
    ∀ md, (sigCall h env keys sc x).state.md = some md →
      Selects h md (sigCall h env keys sc x).state := by
  refine sigCall_keeps
    (P := fun y => ∀ md, y.md = some md → Selects h md y) ?_ hx
  intro y z hw hy md hmd
  cases hw with
  | clearDigest _ => cases hmd
  | selectDigest _ _ _ _ =>
      obtain rfl := Option.some.inj hmd
      exact .inr rfl
  | dropDigest _ => exact .inl rfl
  | _ => exact hy md hmd

/-- A steady call that is no fresh start keeps the key and the class. -/
theorem steady_keeps {sc : SigCall} {x : AwskmsSigCtx Alg Key}
    {md : EvpMd Alg} (hkey : ∀ r ∈ sc.provkey, x.key = some r)
    (hname : ∀ name ∈ sc.names, name ≠ [] →
      ∀ alg ∈ env.mdFetch name (operationPropq keys x),
        h.mdXof alg = false → awskmsDigestOf h alg = awskmsDigestOf h md.alg)
    (hx : Selects h md x) :
    (sigCall h env keys sc x).state.key = x.key ∧
      Selects h md (sigCall h env keys sc x).state := by
  have hall : (sigCall h env keys sc x).state.key = x.key ∧
      (sigCall h env keys sc x).state.fipsRequired = x.fipsRequired ∧
      Selects h md (sigCall h env keys sc x).state := by
    refine sigCall_keeps (P := fun y => y.key = x.key ∧
      y.fipsRequired = x.fipsRequired ∧ Selects h md y) ?_ ⟨rfl, rfl, hx⟩
    rintro y z hw ⟨hk, hf, hs⟩
    cases hw with
    | bind hr _ => exact ⟨(hkey _ hr).symm, hf, hs⟩
    | bindView hr _ _ => exact ⟨(hkey _ hr).symm, hf, hs⟩
    | clearDigest _ => exact ⟨hk, hf, .inl rfl⟩
    | selectDigest hn hne hfetch hxof =>
        have hpropq : operationPropq keys y = operationPropq keys x := by
          simp only [operationPropq, operationRequiresFips, hk, hf]
        exact ⟨hk, hf, .inr (hname _ hn hne _ (hpropq ▸ hfetch) hxof)⟩
    | dropDigest _ => exact ⟨hk, hf, .inl rfl⟩
    | _ => exact ⟨hk, hf, hs⟩
  exact ⟨hall.1, hall.2.2⟩

theorem streamed_other {sc : SigCall} {x : AwskmsSigCtx Alg Key}
    {stream : Option Stream}
    (hinit : sc.isDigestInit = true → (sigCall h env keys sc x).ok = false)
    (hupd : ∀ chunk, sc = .digestSignUpdate chunk ∨
      sc = .digestVerifyUpdate chunk → (sigCall h env keys sc x).ok = false) :
    streamed h env keys sc x stream = stream := by
  unfold streamed
  split
  · rfl
  · next hok =>
      cases sc with
      | digestSignInit mdname provkey params => exact absurd (hinit rfl) hok
      | digestVerifyInit mdname provkey params => exact absurd (hinit rfl) hok
      | digestSignUpdate chunk => exact absurd (hupd chunk (.inl rfl)) hok
      | digestVerifyUpdate chunk => exact absurd (hupd chunk (.inr rfl)) hok
      | _ => rfl

theorem inStep_call {sc : SigCall} {x : AwskmsSigCtx Alg Key}
    {stream : Option Stream} (hsteady : Steady h env keys sc x)
    (hx : InStep h x stream) :
    InStep h (sigCall h env keys sc x).state
      (streamed h env keys sc x stream) := by
  have hsel := selects_call env keys sc hx.selected
  have hother : ∀ {md data}, x.mdctx = some (.running md data) →
      ((sc.isDigestInit = true → (sigCall h env keys sc x).ok = false)) →
      (sigCall h env keys sc x).state.key = x.key ∧
        Selects h md (sigCall h env keys sc x).state := by
    intro md data hm hno
    obtain ⟨_, _, _, _, hmd⟩ := hx.running md data hm
    simp only [Steady, hm] at hsteady
    rcases hsteady with ⟨hi, hok⟩ | ⟨hkey, hname⟩
    · rw [hno hi] at hok
      cases hok
    · exact steady_keeps hkey hname hmd
  refine ⟨hsel, ?_⟩
  have hstep := hash_step h env keys sc x
  generalize hm : (sigCall h env keys sc x).state.mdctx = m at hstep
  cases hstep with
  | kept heq hinit hupd =>
      rintro md data rfl
      obtain ⟨st, hst, hkey, hdata, _⟩ := hx.running md data heq
      obtain ⟨hk, hs⟩ := hother heq hinit
      exact ⟨st, by rw [streamed_other hinit hupd, hst], hk.trans hkey, hdata, hs⟩
  | lost hno =>
      rintro md data rfl
      exact absurd rfl (hno md data)
  | @started md0 hi hok hmd hkey =>
      intro md data hrun
      simp only [Option.some.injEq, EvpMdCtx.running.injEq] at hrun
      obtain ⟨rfl, rfl⟩ := hrun
      refine ⟨⟨keyAfter sc.provkey x, []⟩, ?_, hkey, rfl, hsel _ hmd⟩
      unfold streamed
      rw [if_neg (by rw [hok]; nofun)]
      cases sc with
      | digestSignInit mdname provkey params => rfl
      | digestVerifyInit mdname provkey params => rfl
      | _ => cases hi
  | @fed md0 data0 chunk hc hrun0 hok =>
      intro md data hrun
      simp only [Option.some.injEq, EvpMdCtx.running.injEq] at hrun
      obtain ⟨rfl, rfl⟩ := hrun
      obtain ⟨st, hst, hkey, hdata, _⟩ := hx.running _ _ hrun0
      have hno : sc.isDigestInit = true →
          (sigCall h env keys sc x).ok = false := by
        rcases hc with rfl | rfl <;> nofun
      obtain ⟨hk, hs⟩ := hother hrun0 hno
      refine ⟨{ st with chunks := st.chunks ++ [chunk] }, ?_, hk.trans hkey, ?_,
        hs⟩
      · unfold streamed
        rw [if_neg (by rw [hok]; nofun), hst]
        rcases hc with rfl | rfl <;> rfl
      · rw [hdata, List.flatten_append, List.flatten_singleton]

/-- In every run whose calls are steady, every running hash is its stream's. -/
theorem inStep_run {evs : List (Rec (Sys Alg Key) (Input Alg Key) Event)}
    {s : Sys Alg Key} (hr : (provider h).Run evs s)
    (hsteady : EachCall (streamed h) none
      (fun env keys sc ctx _ => Steady h env keys sc ctx) evs) {c : CtxRef}
    {table : SigTable} {ctx : AwskmsSigCtx Alg Key}
    (hc : s.ctxs c = some (table, ctx)) :
    InStep h ctx (historyOf (streamed h) none evs c) :=
  history_run (R := fun _ => InStep h)
    (fun _ _ => ⟨nofun, nofun⟩)
    (fun _ _ _ hx => ⟨hx.selected, hx.running⟩)
    (fun _ _ _ _ _ _ _ hC hx => inStep_call hC hx) hr hsteady hc

/-! ## Requests of a stream

A final signs what the hash gives. With the belief in step this is the
digest of the chunks, under the digest that is selected, for the key that
was bound. -/

/-- A digest that is a member of the SHA-2 family computes it. -/
def ComputesSha2 (h : Host Alg Key) (sha2 : AwskmsDigest → Bytes → Bytes) :
    Prop :=
  ∀ alg digest name, awskmsDigestName digest = some name →
    h.mdIsA alg (ascii name) = true → h.hash alg = sha2 digest

/-- A request of `digest_sign_final` is over the hash its own algorithm names
of everything in the stream, and it is what `sign` issues for that hash under
the stream's key. -/
def Coherent (h : Host Alg Key) (sha2 : AwskmsDigest → Bytes → Bytes)
    (stream : Option Stream) (e : Rec (Sys Alg Key) (Input Alg Key) Event)
    (c : CtxRef) (buf : SigBuf) (req : KmsRequest) : Prop :=
  ∃ st r table ctx, stream = some st ∧ st.key = some r ∧
    e.pre.ctxs c = some (table, ctx) ∧ ctx.key = some r ∧
    req.msg = sha2 (digestOf req.signingAlgorithm) st.chunks.flatten ∧
    requests (awskmsSigSign h e.input.env e.pre.keys ctx buf req.msg).trace =
      [req]

def StreamsCoherent (h : Host Alg Key) (sha2 : AwskmsDigest → Bytes → Bytes)
    (evs : List (Rec (Sys Alg Key) (Input Alg Key) Event)) : Prop :=
  ∀ before e after, evs = before ++ e :: after →
    ∀ c buf req, e.input.call = .sig c (.digestSignFinal buf) →
      req ∈ requests e.out.trace →
      Coherent h sha2 (historyOf (streamed h) none before c) e c buf req

theorem hash_of_class {sha2 : AwskmsDigest → Bytes → Bytes}
    (hsha : ComputesSha2 h sha2) {alg : Alg} {digest : AwskmsDigest}
    (hclass : awskmsDigestOf h alg = digest) (hother : digest ≠ .other) :
    h.hash alg = sha2 digest := by
  subst hclass
  unfold awskmsDigestOf at hother ⊢
  split
  · next hm => exact hsha _ _ _ rfl hm
  · split
    · next hm => exact hsha _ _ _ rfl hm
    · split
      · next hm => exact hsha _ _ _ rfl hm
      · simp_all

theorem digestOf_ne_other (algorithm : SigningAlgorithm) :
    digestOf algorithm ≠ .other := by
  cases algorithm <;> decide

/-- `digest_sign_final` with room for the signature is `sign` of the finished
hash. -/
theorem digestSignFinal_eq_sign {ctx : AwskmsSigCtx Alg Key} {buf : SigBuf}
    {md : EvpMd Alg} {data : Bytes}
    (hm : ctx.mdctx = some (.running md data)) (hsig : buf.sigNull = false)
    (hfits : (outputBufferFits h keys buf ctx).ok = true) :
    (awskmsSigDigestSignFinal h env keys buf ctx).trace =
      (awskmsSigSign h env keys ctx buf (h.hash md.alg data)).trace := by
  cases hk : ctx.key with
  | none =>
      simp only [awskmsSigDigestSignFinal, awskmsSigSign, hk, Option.isNone_none,
        or_true, if_true, Act.refuse_apply]
  | some r =>
      have hfinish : finishHash h ctx = some
          ({ ctx with mdctx := some (.finalised md) }, h.hash md.alg data) := by
        simp only [finishHash, hm, Option.bind_some, EvpMdCtx.final,
          Option.map_some]
      have hsame : signDigest h env keys
          { ctx with mdctx := some (.finalised md) } buf (h.hash md.alg data) =
            signDigest h env keys ctx buf (h.hash md.alg data) := rfl
      rw [hk] at hsame
      simp only [awskmsSigDigestSignFinal, awskmsSigSign, hk, hm, hsig, hfits,
        hfinish, Option.isNone_some, Bool.false_eq_true, Bool.true_eq_false,
        or_self, if_false, Reply.keep_trace, hsame]

/-- In every run whose calls are steady, every request of `digest_sign_final`
is coherent with its stream. -/
theorem streams_coherent {sha2 : AwskmsDigest → Bytes → Bytes}
    (hsha : ComputesSha2 h sha2)
    {evs : List (Rec (Sys Alg Key) (Input Alg Key) Event)} {s : Sys Alg Key}
    (hr : (provider h).Run evs s)
    (hsteady : EachCall (streamed h) none
      (fun env keys sc ctx _ => Steady h env keys sc ctx) evs) :
    StreamsCoherent h sha2 evs := by
  rintro before e after rfl c buf req hcall hreq
  obtain ⟨hpre, c', sc, table, ctx, r, hcall', hctx, hoff, hkey, hlive,
    hsign, hone⟩ := run_requests hr rfl hreq
  obtain ⟨rfl, rfl⟩ := Call.sig.inj (hcall.symm.trans hcall')
  have hin := inStep_run hpre hsteady.before hctx
  have hmem : ctx.spec e.pre.keys ∈ specs := spec_mem_run hpre hkey hlive
  cases hsign with
  | @final _ _ md data _ _ hm hd =>
      obtain ⟨st, hst, hk, hdata, hsel⟩ := hin.running md data hm
      have hmsg : req.msg = h.hash md.alg data := by rw [hd.request]
      obtain ⟨_, hdig, _⟩ := awskmsSigningAlgorithm_legal hmem hd.algorithm
      have hclass : awskmsDigestOf h md.alg = digestOf req.signingAlgorithm := by
        rw [hdig, ← hsel.resolve_left hd.selected]
      have hhash := hash_of_class hsha hclass (digestOf_ne_other _)
      refine ⟨st, r, table, ctx, hst, hk.symm.trans hkey, hctx, hkey, ?_, ?_⟩
      · rw [hmsg, hhash, hdata]
      · rw [← hone, hmsg, ← digestSignFinal_eq_sign hm hd.sig
          (outputBufferFits_ok.mpr ⟨hd.siglen, hd.sized, hd.fits⟩)]
        obtain ⟨_, _, hout⟩ := hr.at_split
        rw [hout]
        simp only [provider, hcall]
        rw [step_sig hctx hoff]
        rfl

namespace Bench

/-- The SHA-2 digests of the bench. -/
def sha2 : AwskmsDigest → Bytes → Bytes
  | .sha256 => Digest.hash .sha256
  | .sha384 => Digest.hash .sha384
  | _ => fun _ => []

theorem computesSha2 : ComputesSha2 host sha2 := by
  intro alg digest name hname hisA
  have hfinite : ∀ (alg : Digest) (digest : AwskmsDigest),
      (awskmsDigestName digest).any (fun n => alg.isA (ascii n)) = true →
      alg = .sha256 ∧ digest = .sha256 ∨ alg = .sha384 ∧ digest = .sha384 := by
    intro alg digest
    cases alg <;> cases digest <;> decide
  rcases hfinite alg digest (by rw [hname]; exact hisA) with
    ⟨rfl, rfl⟩ | ⟨rfl, rfl⟩
  · rfl
  · rfl

/-- A stream of `abc` in two chunks under SHA-256. -/
def streamAbc : List Call := opening "alias/ec" .prehash ++ [
  onCtx (.digestSignInit (some (ascii "SHA256")) (some 0) none),
  onCtx (.digestSignUpdate (ascii "a")),
  onCtx (.digestSignUpdate (ascii "bc"))]

/-- A stream of `abc` under SHA3-256, after which SHA-256 is selected. -/
def switchedDigest : List Call := opening "alias/ec" .prehash ++ [
  onCtx (.digestSignInit (some (ascii "SHA3-256")) (some 0) none),
  onCtx (.digestSignUpdate abc),
  onCtx (.setCtxParams (some [strParam "digest" "SHA256"]))]

end Bench

theorem streams_coherent_streamAbc :
    requests (Bench.recOf Bench.streamAbc
      (Bench.onCtx (.digestSignFinal Bench.buf))).out.trace ≠ [] ∧
    StreamsCoherent Bench.host Bench.sha2 (Bench.runOf (Bench.streamAbc ++
      [Bench.onCtx (.digestSignFinal Bench.buf)])) :=
  ⟨by decide +kernel, streams_coherent Bench.computesSha2
    (Bench.run_runOf (by decide +kernel)) (by decide +kernel)⟩

/-- A request names SHA-256 over what SHA3-256 hashed. -/
theorem streams_not_coherent :
    ¬ ∀ evs s, (provider Bench.host).Run evs s →
      StreamsCoherent Bench.host Bench.sha2 evs := by
  intro hall
  have hrun := hall (Bench.runOf (Bench.switchedDigest ++
    [Bench.onCtx (.digestSignFinal Bench.buf)])) _
    (Bench.run_runOf (by decide +kernel))
  rw [Bench.runOf_snoc] at hrun
  obtain ⟨st, r, table, ctx, hst, _, _, _, hmsg, _⟩ := hrun _ _ [] rfl 0
    Bench.buf ⟨⟨some (ascii "alias/ec"), none, none, none⟩, false,
      .ECDSA_SHA_256, .DIGEST, Bench.sha3_256Abc⟩ rfl (by decide +kernel)
  have hchunks : historyOf (streamed Bench.host) none
      (Bench.runOf Bench.switchedDigest) 0 = some ⟨some 0, [Bench.abc]⟩ := by
    decide +kernel
  obtain rfl := Option.some.inj (hchunks.symm.trans hst)
  revert hmsg
  decide +kernel

end AwsKms.Model
