import AwsKms.Model.Spki

/-!
# What a decoded public view is

Everything the rest of the provider relies on about a public view is decided
in `awskmsPubkeyFromSpki`, so it is said once here: a view that was accepted
is the decode of exactly the bytes it retains, under the query its FIPS bit
selects, and passed the check of its family. A view that was refused is the
zero structure, with nothing of the attempt left in it.
-/

namespace AwsKms.Model

open AwsKms.Lib

variable {Alg Key : Type} {h : Host Alg Key} {env : Env Alg Key}

/-- The effects a call can have on its way to an answer it computes locally:
errors, and fetches or decodes under one property query. -/
def Event.Under (propq : String) : Event → Prop
  | .raise _ => True
  | .fetchMd _ q | .decode q | .verifyWith q => q = propq
  | _ => False

/-- The view a successful decode of `der` leaves. -/
structure Decoded (h : Host Alg Key) (env : Env Alg Key) (der : Bytes)
    (spec : AwskmsKeyspec) (fips : Bool) (key : Key)
    (p : AwskmsPubkey Key) : Prop where
  nonempty : der ≠ []
  derEq : p.der = der
  specEq : p.spec = some spec
  pkey : p.pkey = some ⟨key, awskmsDependencyPropq fips⟩
  answer : env.d2iPubkey der (awskmsDependencyPropq fips) =
    some (key, der.length)
  isA : h.pkeyIsA key spec.keytype = true
  group : spec.family = .ec → h.pkeyGroup key = spec.groupName
  bits : spec.family = .rsa → h.pkeyBits key = expectedRsaBits spec
  raw : spec.family = .ed25519 ∨ spec.family = .mlDsa →
    h.pkeyPub key = some p.raw ∧ (spec.pubLen ≠ 0 → p.raw.length = spec.pubLen)
  tr : p.tr = if spec.family = .mlDsa then
    some ⟨h.shake256 p.raw, awskmsDependencyPropq fips⟩ else none

theorem shakeOver_under {fips : Bool} {input : Bytes} {failed : ProviderError}
    {e : Event} (he : e ∈ (shakeOver h env fips input failed).1.trace) :
    e.Under (awskmsDependencyPropq fips) := by
  unfold shakeOver at he
  simp only [] at he
  split at he
  · rcases List.mem_cons.mp he with rfl | he
    · rfl
    · obtain rfl := List.mem_singleton.mp he
      trivial
  · split at he
    · obtain rfl := List.mem_singleton.mp he
      rfl
    · split at he
      · rcases List.mem_cons.mp he with rfl | he
        · rfl
        · obtain rfl := List.mem_singleton.mp he
          trivial
      · obtain rfl := List.mem_singleton.mp he
        rfl

theorem shakeOver_ok {fips : Bool} {input : Bytes} {failed : ProviderError}
    (hok : (shakeOver h env fips input failed).1.ok = true) :
    (shakeOver h env fips input failed).2 = h.shake256 input := by
  unfold shakeOver at hok ⊢
  simp only [] at hok ⊢
  split at hok
  · cases hok
  · split at hok
    · cases hok
    · next hctx =>
        rw [if_neg hctx]
        split at hok
        · cases hok
        · next hshake => rw [if_neg hshake]

theorem computeTr_ok {fips : Bool} {p : AwskmsPubkey Key}
    (hok : (computeTr h env fips p).ok = true) :
    (computeTr h env fips p).state =
      { p with tr := some ⟨h.shake256 p.raw, awskmsDependencyPropq fips⟩ } := by
  unfold computeTr at hok ⊢
  simp only [] at hok ⊢
  split at hok
  · next hs => rw [if_pos hs, shakeOver_ok hs]
  · next hs => exact absurd hok hs

theorem loadRawPublic_ok {spec : AwskmsKeyspec} {key : Key}
    {p : AwskmsPubkey Key}
    (hok : (loadRawPublic h env spec key p).ok = true) :
    ∃ raw, h.pkeyPub key = some raw ∧
      (spec.pubLen ≠ 0 → raw.length = spec.pubLen) ∧
      (loadRawPublic h env spec key p).state = { p with raw := raw } := by
  unfold loadRawPublic at hok ⊢
  split at hok
  · cases hok
  · cases hok
  · next raw _ hpub =>
      split at hok
      · cases hok
      · next hdup =>
          split at hok
          · cases hok
          · next hget =>
              split at hok
              · cases hok
              · next hlen =>
                  refine ⟨raw, hpub, ?_, ?_⟩
                  · intro hne
                    exact Decidable.byContradiction fun hl => hlen ⟨hne, hl⟩
                  · rw [if_neg hdup, if_neg hget, if_neg hlen]

theorem checkGroup_ok {spec : AwskmsKeyspec} {key : Key}
    {p : AwskmsPubkey Key} (hok : (checkGroup h spec key p).ok = true) :
    h.pkeyGroup key = spec.groupName ∧ (checkGroup h spec key p).state = p := by
  cases hg : h.pkeyGroup key with
  | none =>
      simp only [checkGroup, hg] at hok
      cases hok
  | some group =>
      by_cases hne : some group ≠ spec.groupName
      · simp only [checkGroup, hg, if_pos hne] at hok
        cases hok
      · simp only [checkGroup, hg, if_neg hne]
        exact ⟨Decidable.not_not.mp hne, rfl⟩

theorem checkBits_ok {spec : AwskmsKeyspec} {key : Key}
    {p : AwskmsPubkey Key} (hok : (checkBits h spec key p).ok = true) :
    h.pkeyBits key = expectedRsaBits spec ∧
      (checkBits h spec key p).state = p := by
  by_cases hbad : expectedRsaBits spec = 0 ∨
      h.pkeyBits key ≠ expectedRsaBits spec
  · simp only [checkBits, if_pos hbad] at hok
    cases hok
  · simp only [checkBits, if_neg hbad]
    rw [not_or, Decidable.not_not] at hbad
    exact ⟨hbad.2, rfl⟩

/-- A view the checks of its family accepted. The retained bytes, the spec and
the key are set before these checks, which never write them. -/
theorem familyChecks_ok {fips : Bool} {spec : AwskmsKeyspec} {key : Key}
    {p : AwskmsPubkey Key} (htr : p.tr = none)
    (hok : (familyChecks h env fips spec key p).ok = true) :
    let q := (familyChecks h env fips spec key p).state
    (q.der = p.der ∧ q.spec = p.spec ∧ q.pkey = p.pkey) ∧
      (spec.family = .ec → h.pkeyGroup key = spec.groupName) ∧
      (spec.family = .rsa → h.pkeyBits key = expectedRsaBits spec) ∧
      (spec.family = .ed25519 ∨ spec.family = .mlDsa →
        h.pkeyPub key = some q.raw ∧
          (spec.pubLen ≠ 0 → q.raw.length = spec.pubLen)) ∧
      q.tr = if spec.family = .mlDsa then
        some ⟨h.shake256 q.raw, awskmsDependencyPropq fips⟩ else none := by
  intro q
  cases hf : spec.family with
  | ec =>
      have hq : q = (checkGroup h spec key p).state := by
        simp only [q, familyChecks, hf]
      simp only [familyChecks, hf] at hok
      obtain ⟨hgroup, hst⟩ := checkGroup_ok hok
      rw [hq, hst]
      simp [hgroup, htr]
  | rsa =>
      have hq : q = (checkBits h spec key p).state := by
        simp only [q, familyChecks, hf]
      simp only [familyChecks, hf] at hok
      obtain ⟨hbits, hst⟩ := checkBits_ok hok
      rw [hq, hst]
      simp [hbits, htr]
  | ed25519 =>
      have hq : q = (loadRawPublic h env spec key p).state := by
        simp only [q, familyChecks, hf]
      simp only [familyChecks, hf] at hok
      obtain ⟨raw, hpub, hlen, hst⟩ := loadRawPublic_ok hok
      rw [hq, hst]
      simpa [hpub, htr] using hlen
  | mlDsa =>
      simp only [familyChecks, hf] at hok
      obtain ⟨hraw, htrok⟩ := Act.andThen_ok.mp hok
      obtain ⟨raw, hpub, hlen, hst⟩ := loadRawPublic_ok hraw
      have hq : q = { p with
          raw := raw,
          tr := some ⟨h.shake256 raw, awskmsDependencyPropq fips⟩ } := by
        simp only [q, familyChecks, hf]
        rw [Act.andThen_of_ok hraw]
        simp only []
        rw [computeTr_ok htrok, hst]
      rw [hq]
      simpa [hpub] using hlen

theorem acceptKey_ok {fips : Bool} {spec : AwskmsKeyspec} {key : Key}
    {consumed derLen : Nat} {p : AwskmsPubkey Key}
    (hok : (acceptKey h env fips spec key consumed derLen p).ok = true) :
    consumed = derLen ∧ h.pkeyIsA key spec.keytype = true ∧
      acceptKey h env fips spec key consumed derLen p =
        familyChecks h env fips spec key p := by
  by_cases hlen : consumed ≠ derLen
  · simp only [acceptKey, if_pos hlen] at hok
    cases hok
  · by_cases hisA : h.pkeyIsA key spec.keytype = false
    · simp only [acceptKey, if_neg hlen, if_pos hisA] at hok
      cases hok
    · simp only [acceptKey, if_neg hlen, if_neg hisA]
      exact ⟨Decidable.not_not.mp hlen, by simpa using hisA, trivial⟩

theorem decodePubkey_ok {fips : Bool} {spec : AwskmsKeyspec}
    {p : AwskmsPubkey Key} (hne : p.der ≠ []) (hspec : p.spec = some spec)
    (htr : p.tr = none) (hok : (decodePubkey h env fips spec p).ok = true) :
    ∃ key, Decoded h env p.der spec fips key
      (decodePubkey h env fips spec p).state := by
  cases hd : env.d2iPubkey p.der (awskmsDependencyPropq fips) with
  | none =>
      simp only [decodePubkey, hd] at hok
      cases hok
  | some answer =>
      obtain ⟨key, consumed⟩ := answer
      simp only [decodePubkey, hd] at hok ⊢
      obtain ⟨hset, hacc⟩ := Act.andThen_ok.mp hok
      obtain ⟨hlen, hisA, hfam⟩ := acceptKey_ok hacc
      rw [hfam] at hacc
      rw [Act.andThen_of_ok hset]
      simp only []
      rw [hfam]
      obtain ⟨⟨hder, hsp, hpk⟩, hgroup, hbits, hraw, htr'⟩ :=
        familyChecks_ok (p := { p with
          pkey := some ⟨key, awskmsDependencyPropq fips⟩ }) htr hacc
      exact ⟨key, hne, hder, hsp.trans hspec, hpk, by rw [hd, hlen], hisA,
        hgroup, hbits, hraw, htr'⟩

/-- An accepted view is the decode of the bytes it retains. -/
theorem awskmsPubkeyFromSpki_ok {der : Bytes} {kmsKeySpec : String}
    {fips : Bool} {p : AwskmsPubkey Key} (htr : p.tr = none)
    (hok : (awskmsPubkeyFromSpki h env der kmsKeySpec fips p).ok = true) :
    ∃ spec key, awskmsKeyspecByName kmsKeySpec = some spec ∧
      Decoded h env der spec fips key
        (awskmsPubkeyFromSpki h env der kmsKeySpec fips p).state := by
  unfold awskmsPubkeyFromSpki at hok ⊢
  rw [Act.onFail_of_ok hok]
  rw [Act.onFail_ok] at hok
  cases hs : awskmsKeyspecByName kmsKeySpec with
  | none =>
      simp only [hs] at hok
      cases hok
  | some spec =>
      simp only [hs] at hok ⊢
      split at hok
      · cases hok
      · next hne =>
          rw [if_neg hne]
          split at hok
          · cases hok
          · next hlong =>
              rw [if_neg hlong]
              split at hok
              · cases hok
              · next hdup =>
                  rw [if_neg hdup]
                  obtain ⟨key, hkey⟩ := decodePubkey_ok
                    (p := { p with spec := some spec, der := der })
                    hne rfl htr hok
                  exact ⟨spec, key, rfl, hkey⟩

/-- A refused view is cleared. -/
theorem awskmsPubkeyFromSpki_failed {der : Bytes} {kmsKeySpec : String}
    {fips : Bool} {p : AwskmsPubkey Key}
    (hfail : (awskmsPubkeyFromSpki h env der kmsKeySpec fips p).ok = false) :
    (awskmsPubkeyFromSpki h env der kmsKeySpec fips p).state =
      AwskmsPubkey.zero := by
  unfold awskmsPubkeyFromSpki at hfail ⊢
  rw [Act.onFail_ok] at hfail
  rw [Act.onFail, if_neg (by simpa using hfail)]

theorem refuse_raise_under {σ : Type} {propq : String} {reason : Reason}
    {fmt : String} {args : List FmtArg} {s : σ} {e : Event}
    (he : e ∈ (Act.refuse [raise reason fmt args] s).trace) :
    e.Under propq := by
  obtain rfl := List.mem_singleton.mp he
  trivial

theorem loadRawPublic_under {propq : String} {spec : AwskmsKeyspec}
    {key : Key} {p : AwskmsPubkey Key} {e : Event}
    (he : e ∈ (loadRawPublic h env spec key p).trace) : e.Under propq := by
  unfold loadRawPublic at he
  split at he
  · exact refuse_raise_under he
  · exact refuse_raise_under he
  · split at he
    · cases he
    · split at he
      · exact refuse_raise_under he
      · split at he
        · exact refuse_raise_under he
        · cases he

theorem computeTr_under {fips : Bool} {p : AwskmsPubkey Key} {e : Event}
    (he : e ∈ (computeTr h env fips p).trace) :
    e.Under (awskmsDependencyPropq fips) := by
  unfold computeTr at he
  simp only [] at he
  split at he
  · exact shakeOver_under he
  · exact shakeOver_under he

theorem familyChecks_under {fips : Bool} {spec : AwskmsKeyspec} {key : Key}
    {p : AwskmsPubkey Key} {e : Event}
    (he : e ∈ (familyChecks h env fips spec key p).trace) :
    e.Under (awskmsDependencyPropq fips) := by
  cases hf : spec.family with
  | ec =>
      simp only [familyChecks, hf, checkGroup] at he
      cases hg : h.pkeyGroup key with
      | none =>
          simp only [hg] at he
          exact refuse_raise_under he
      | some group =>
          simp only [hg] at he
          split at he
          · exact refuse_raise_under he
          · cases he
  | rsa =>
      simp only [familyChecks, hf, checkBits] at he
      split at he
      · exact refuse_raise_under he
      · cases he
  | ed25519 =>
      simp only [familyChecks, hf] at he
      exact loadRawPublic_under he
  | mlDsa =>
      simp only [familyChecks, hf] at he
      rcases Act.mem_trace_andThen.mp he with he | ⟨_, he⟩
      · exact loadRawPublic_under he
      · exact computeTr_under he

theorem decodePubkey_under {fips : Bool} {spec : AwskmsKeyspec}
    {p : AwskmsPubkey Key} {e : Event}
    (he : e ∈ (decodePubkey h env fips spec p).trace) :
    e.Under (awskmsDependencyPropq fips) := by
  cases hd : env.d2iPubkey p.der (awskmsDependencyPropq fips) with
  | none =>
      simp only [decodePubkey, hd] at he
      rcases List.mem_cons.mp he with rfl | he
      · rfl
      · exact refuse_raise_under (s := p) he
  | some answer =>
      obtain ⟨key, consumed⟩ := answer
      simp only [decodePubkey, hd] at he
      rcases Act.mem_trace_andThen.mp he with he | ⟨_, he⟩
      · obtain rfl := List.mem_singleton.mp he
        rfl
      · unfold acceptKey at he
        split at he
        · exact refuse_raise_under he
        · split at he
          · exact refuse_raise_under he
          · exact familyChecks_under he

/-- Everything a decode asks for, it asks for under the query its FIPS bit
selects. -/
theorem awskmsPubkeyFromSpki_under {der : Bytes} {kmsKeySpec : String}
    {fips : Bool} {p : AwskmsPubkey Key} {e : Event}
    (he : e ∈ (awskmsPubkeyFromSpki h env der kmsKeySpec fips p).trace) :
    e.Under (awskmsDependencyPropq fips) := by
  rw [awskmsPubkeyFromSpki, Act.onFail_trace] at he
  cases hs : awskmsKeyspecByName kmsKeySpec with
  | none =>
      simp only [hs] at he
      exact refuse_raise_under he
  | some spec =>
      simp only [hs] at he
      split at he
      · exact refuse_raise_under he
      · split at he
        · exact refuse_raise_under he
        · split at he
          · cases he
          · exact decodePubkey_under he

end AwsKms.Model
