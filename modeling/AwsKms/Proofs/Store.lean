import AwsKms.Model.Store
import AwsKms.Proofs.Spki

/-!
# What the store calls write

A store call writes its own context and the key that context owns, and of
that key only two things: the FIPS bit, on a query that asks for FIPS, and
the public view, once, when there is none yet. Those are `set_key` and
`load_key` below. The last lemma is what makes a load safe to hand out: the
callback runs only on a key whose view is there.
-/

namespace AwsKms.Model

open AwsKms.Lib

variable {Alg Key : Type} {h : Host Alg Key} {env : Env Alg Key}

/-- Whether a parameter list on a store context asks for FIPS, by its query or
by the process default. -/
def storeRequestsFips (env : Env Alg Key) (params : List OsslParam) : Bool :=
  match storePropq (some params) with
  | none => false
  | some propq => awskmsFipsRequested env.defaultFips propq

theorem applyExpect_key (ps : List OsslParam) (st : StoreState Key) :
    (applyExpect ps st).state.key = st.key ∧
      (applyExpect ps st).state.ctx.key = st.ctx.key ∧
      (applyExpect ps st).trace = [] := by
  cases hl : locate ps ossl_STORE_PARAM_EXPECT with
  | none => simp [applyExpect, hl]
  | some p =>
      cases hp : paramInt p with
      | none => simp [applyExpect, hl, hp]
      | some n => simp [applyExpect, hl, hp]

variable (env) in
theorem awskmsStoreApplyProperties_writes (ps : List OsslParam)
    (st : StoreState Key) :
    let out := awskmsStoreApplyProperties env (some ps) st
    out.state.ctx = st.ctx ∧ out.trace = [] ∧
      (out.state.key = st.key ∨ storeRequestsFips env ps = true ∧
        out.state.key = { st.key with fipsRequired := true }) := by
  intro out
  simp only [out, awskmsStoreApplyProperties, storeRequestsFips]
  cases hq : storePropq (some ps) with
  | none => exact ⟨rfl, rfl, .inl rfl⟩
  | some propq =>
      simp only []
      split
      · next hf => exact ⟨rfl, rfl, .inr ⟨hf, rfl⟩⟩
      · exact ⟨rfl, rfl, .inl rfl⟩

variable (env) in
/-- A parameter call leaves the key alone, or turns its FIPS bit on. -/
theorem storeSetCtxParams_writes (params : Option (List OsslParam))
    (st : StoreState Key) :
    let out := awskmsStoreSetCtxParams env params st
    out.state.ctx.key = st.ctx.key ∧ out.trace = [] ∧
      (out.state.key = st.key ∨
        ∃ ps, params = some ps ∧ storeRequestsFips env ps = true ∧
          out.state.key = { st.key with fipsRequired := true }) := by
  intro out
  cases params with
  | none => exact ⟨rfl, rfl, .inl rfl⟩
  | some ps =>
      obtain ⟨hkey, hctx, htrace⟩ := applyExpect_key ps st
      have hout : out = ((applyExpect ps).andThen
        (awskmsStoreApplyProperties env (some ps))) st := rfl
      cases hok : (applyExpect ps st).ok with
      | false =>
          rw [hout, Act.andThen_of_failed hok]
          exact ⟨hctx, htrace, .inl hkey⟩
      | true =>
          rw [hout, Act.andThen_of_ok hok]
          obtain ⟨hc, ht, hk⟩ := awskmsStoreApplyProperties_writes env
            ps (applyExpect ps st).state
          refine ⟨by rw [hc, hctx], by simp only [htrace, ht]; rfl, ?_⟩
          rcases hk with hk | ⟨hf, hk⟩
          · exact .inl (hk.trans hkey)
          · exact .inr ⟨ps, rfl, hf, by rw [hk, hkey]⟩

variable (h env) in
/-- `awskms_store_load_key` leaves the key alone, or gives it the view it
lacked. -/
theorem awskmsStoreLoadKey_writes (st : StoreState Key) :
    let out := awskmsStoreLoadKey h env st
    out.state.ctx = st.ctx ∧
      (out.state.key = st.key ∧ (out.ok = true → st.key.pub.spec.isSome) ∨
        st.key.pub.spec = none ∧ ∃ answer,
          env.getPublicKey st.key.uri st.key.fipsRequired = .ok answer ∧
          let view := awskmsPubkeyFromSpki h env answer.spki answer.keySpec
            st.key.fipsRequired st.key.pub
          out.ok = view.ok ∧
            out.state.key = { st.key with pub := view.state }) := by
  intro out
  simp only [out, awskmsStoreLoadKey]
  split
  · next hs => exact ⟨rfl, .inl ⟨rfl, fun _ => hs⟩⟩
  · next hs =>
      cases hg : env.getPublicKey st.key.uri st.key.fipsRequired with
      | error e => exact ⟨rfl, .inl ⟨rfl, nofun⟩⟩
      | ok answer =>
          exact ⟨rfl, .inr ⟨by simpa using hs, answer, rfl, rfl, rfl⟩⟩

theorem awskmsStoreLoadKey_loaded {st : StoreState Key}
    (htr : st.key.pub.tr = none)
    (hok : (awskmsStoreLoadKey h env st).ok = true) :
    (awskmsStoreLoadKey h env st).state.key.pub.spec.isSome := by
  obtain ⟨_, hw | ⟨hs, answer, _, hview, hkey⟩⟩ :=
    awskmsStoreLoadKey_writes h env st
  · rw [hw.1]
    exact hw.2 hok
  · obtain ⟨spec, key, _, hdec⟩ :=
      awskmsPubkeyFromSpki_ok htr (hview.symm.trans hok)
    rw [hkey]
    simp [hdec.specEq]

theorem awskmsStoreLoadKey_trace {st : StoreState Key} {e : Event}
    (he : e ∈ (awskmsStoreLoadKey h env st).trace) :
    e = .kmsGetPublicKey st.key.uri st.key.fipsRequired ∨
      e.Under (awskmsDependencyPropq st.key.fipsRequired) := by
  simp only [awskmsStoreLoadKey] at he
  split at he
  · cases he
  · cases hg : env.getPublicKey st.key.uri st.key.fipsRequired with
    | error err =>
        simp only [hg, Act.refuse_apply, List.mem_cons, List.not_mem_nil,
          or_false] at he
        rcases he with rfl | rfl
        · exact .inl rfl
        · exact .inr trivial
    | ok answer =>
        simp only [hg, List.mem_cons] at he
        rcases he with rfl | he
        · exact .inl rfl
        · exact .inr (awskmsPubkeyFromSpki_under he)

variable (h env) in
/-- The three ways through `awskms_store_load`: nothing to do, a key that
could not be loaded, and a key handed to the callback. -/
theorem awskmsStoreLoad_cases (cb : ObjectCb) (st : StoreState Key) :
    let out := awskmsStoreLoad h env cb st
    let load := awskmsStoreLoadKey h env st
    (out.trace = [] ∧ out.state.key = st.key ∧
        out.state.ctx.key = st.ctx.key) ∨
      (out.trace = load.trace ∧ load.ok = false ∧ out.state = load.state) ∨
      (load.ok = true ∧ out.state.key = load.state.key ∧
        out.state.ctx.key = st.ctx.key ∧
        out.trace = load.trace ++
          .objectCb (awskmsKeySpec load.state.key).keytype st.ctx.key ::
            if cb.loads && env.ok .keyUpRef then [.keyUpRef st.ctx.key]
            else []) := by
  intro out load
  simp only [out, awskmsStoreLoad]
  split
  · exact .inl ⟨rfl, rfl, rfl⟩
  · split
    · exact .inl ⟨rfl, rfl, rfl⟩
    · cases hok : (awskmsStoreLoadKey h env st).ok with
      | false =>
          rw [Act.andThen_of_failed hok]
          exact .inr (.inl ⟨rfl, rfl, rfl⟩)
      | true =>
          have hctx := (awskmsStoreLoadKey_writes h env st).1
          rw [Act.andThen_of_ok hok]
          refine .inr (.inr ⟨rfl, rfl, ?_, ?_⟩)
          · exact congrArg (·.key) hctx
          · simp only [emitObject, hctx, load]

theorem awskmsStoreLoad_key {cb : ObjectCb} {st : StoreState Key} :
    (awskmsStoreLoad h env cb st).state.ctx.key = st.ctx.key := by
  rcases awskmsStoreLoad_cases h env cb st
    with ⟨_, _, hk⟩ | ⟨_, _, hk⟩ | ⟨_, _, hk, _⟩
  · exact hk
  · rw [hk, (awskmsStoreLoadKey_writes h env st).1]
  · exact hk

/-- Besides what the load of the key asks for, a load calls the callback and
takes one reference. -/
theorem awskmsStoreLoad_trace {cb : ObjectCb} {st : StoreState Key} {e : Event}
    (he : e ∈ (awskmsStoreLoad h env cb st).trace) :
    e ∈ (awskmsStoreLoadKey h env st).trace ∨
      (awskmsStoreLoadKey h env st).ok = true ∧
        (awskmsStoreLoad h env cb st).state.key =
          (awskmsStoreLoadKey h env st).state.key ∧
        ((∃ keytype, e = .objectCb keytype st.ctx.key) ∨
          e = .keyUpRef st.ctx.key) := by
  rcases awskmsStoreLoad_cases h env cb st
    with ⟨ht, _, _⟩ | ⟨ht, _, _⟩ | ⟨hok, hkey, _, ht⟩
  · rw [ht] at he
    cases he
  · rw [ht] at he
    exact .inl he
  · rw [ht] at he
    rcases List.mem_append.mp he with he | he
    · exact .inl he
    · refine .inr ⟨hok, hkey, ?_⟩
      rcases List.mem_cons.mp he with rfl | he
      · exact .inl ⟨_, rfl⟩
      · split at he
        · exact .inr (List.mem_singleton.mp he)
        · cases he

/-- A key that reaches the callback, or libcrypto through it, has its view. -/
theorem awskmsStoreLoad_handsOut {cb : ObjectCb} {st : StoreState Key}
    {e : Event} (he : e ∈ (awskmsStoreLoad h env cb st).trace) {r : KeyRef}
    (hr : (∃ keytype, e = .objectCb keytype r) ∨ e = .keyUpRef r) :
    r = st.ctx.key ∧ (awskmsStoreLoadKey h env st).ok = true ∧
      (awskmsStoreLoad h env cb st).state.key =
        (awskmsStoreLoadKey h env st).state.key := by
  rcases awskmsStoreLoad_trace he with he | ⟨hok, hkey, hev⟩
  · rcases awskmsStoreLoadKey_trace he with rfl | hu
    · rcases hr with ⟨_, hr⟩ | hr <;> cases hr
    · rcases hr with ⟨_, rfl⟩ | rfl <;> exact absurd hu id
  · refine ⟨?_, hok, hkey⟩
    rcases hr with ⟨_, rfl⟩ | rfl
    · rcases hev with ⟨_, hev⟩ | hev
      · injection hev
      · cases hev
    · rcases hev with ⟨_, hev⟩ | hev
      · cases hev
      · injection hev

end AwsKms.Model
