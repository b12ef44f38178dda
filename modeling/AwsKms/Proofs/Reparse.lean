import AwsKms.Proofs.Bench
import AwsKms.Proofs.Views

/-!
# A public view, all or nothing

`Decoded` says what an accepted view is good for. Here it is said when a view
is accepted, with the allocator and SHAKE256 taken to work, and what every
field of it is, so that two views of the same bytes can be compared: the one a
key was loaded with, and the one an operation under FIPS makes of the bytes
that key retains. They differ in the query of the key they hold, and in
nothing else a caller can see.
-/

namespace AwsKms.Model

open AwsKms.Lib

section

variable {Alg Key : Type} {h : Host Alg Key} {env : Env Alg Key}

theorem rsa_bits : ∀ spec ∈ specs, spec.family = .rsa →
    expectedRsaBits spec ≠ 0 := by decide

theorem raw_length : ∀ spec ∈ specs,
    spec.family = .ed25519 ∨ spec.family = .mlDsa → 0 < spec.pubLen := by
  decide

theorem byName_self : ∀ spec ∈ specs,
    awskmsKeyspecByName spec.kmsKeySpec = some spec := by decide

/-- The key is one of the spec. -/
structure KeyMatches (h : Host Alg Key) (spec : AwskmsKeyspec) (key : Key) :
    Prop where
  type : h.pkeyIsA key spec.keytype = true
  curve : spec.family = .ec → ∃ group, h.pkeyGroup key = some group ∧
    spec.groupName = some group
  bits : spec.family = .rsa → h.pkeyBits key = expectedRsaBits spec
  length : spec.family = .ed25519 ∨ spec.family = .mlDsa →
    ∃ raw, h.pkeyPub key = some raw ∧ raw.length = spec.pubLen

/-- The bytes are the whole encoding of a key of the named spec. -/
structure Accepts (h : Host Alg Key) (env : Env Alg Key) (der : Bytes)
    (kmsKeySpec : String) (fips : Bool) (spec : AwskmsKeyspec) (key : Key) :
    Prop where
  named : awskmsKeyspecByName kmsKeySpec = some spec
  nonempty : 0 < der.length
  fits : (der.length : Int) ≤ h.longMax
  whole : env.d2iPubkey der (awskmsDependencyPropq fips) =
    some (key, der.length)
  key : KeyMatches h spec key

/-- The allocator, SHAKE256 and the accessors of a decoded key work. -/
structure Available (env : Env Alg Key) (fips : Bool) : Prop where
  memdupDer : env.ok .memdupDer = true
  memdupRaw : env.ok .memdupRaw = true
  getRaw : env.ok .getRaw = true
  mdCtxNew : env.ok .mdCtxNew = true
  shake : env.ok .shake = true
  fetch : env.mdFetch (ascii "SHAKE256") (awskmsDependencyPropq fips) ≠ none

/-- The families whose raw public value is kept. -/
def AwskmsFamily.keepsRaw : AwskmsFamily → Bool
  | .ed25519 | .mlDsa => true
  | .ec | .rsa => false

/-- The raw value a view of the key keeps. -/
def rawOf (h : Host Alg Key) (spec : AwskmsKeyspec) (key : Key) : Bytes :=
  if spec.family.keepsRaw then (h.pkeyPub key).getD [] else []

/-- The view of an accepted key. -/
def viewOf (h : Host Alg Key) (der : Bytes) (fips : Bool)
    (spec : AwskmsKeyspec) (key : Key) : AwskmsPubkey Key where
  der := der
  pkey := some ⟨key, awskmsDependencyPropq fips⟩
  spec := some spec
  raw := rawOf h spec key
  tr := if spec.family = .mlDsa then
    some ⟨h.shake256 (rawOf h spec key), awskmsDependencyPropq fips⟩ else none

/-- The structure under construction when the family's checks begin. -/
def halfBuilt (der : Bytes) (fips : Bool) (spec : AwskmsKeyspec) (key : Key) :
    AwskmsPubkey Key :=
  ⟨der, some ⟨key, awskmsDependencyPropq fips⟩, some spec, [], none⟩

theorem loadRawPublic_pass {fips : Bool} (hav : Available env fips)
    {spec : AwskmsKeyspec} {key : Key} {raw : Bytes}
    (hpub : h.pkeyPub key = some raw) (hpos : 0 < spec.pubLen)
    (hlen : raw.length = spec.pubLen) (p : AwskmsPubkey Key) :
    loadRawPublic h env spec key p = ⟨true, { p with raw := raw }, []⟩ := by
  have hgood : ¬(spec.pubLen ≠ 0 ∧ raw.length ≠ spec.pubLen) := fun hbad =>
    hbad.2 hlen
  cases raw with
  | nil =>
      rw [List.length_nil] at hlen
      omega
  | cons c raw =>
      simp only [loadRawPublic, hpub, hav.memdupRaw, hav.getRaw,
        Bool.true_eq_false, if_false, if_neg hgood]

theorem computeTr_pass {fips : Bool} (hav : Available env fips)
    (p : AwskmsPubkey Key) : (computeTr h env fips p).ok = true := by
  obtain ⟨alg, hfetch⟩ := Option.ne_none_iff_exists'.mp hav.fetch
  simp only [computeTr, shakeOver, hfetch, hav.mdCtxNew, hav.shake,
    Bool.true_eq_false, if_false, if_true]

theorem familyChecks_pass {fips : Bool} (hav : Available env fips)
    {spec : AwskmsKeyspec} (hspec : spec ∈ specs) {key : Key}
    (hkey : KeyMatches h spec key) (der : Bytes) :
    (familyChecks h env fips spec key (halfBuilt der fips spec key)).ok =
      true := by
  cases hf : spec.family with
  | ec =>
      obtain ⟨group, hgroup, hname⟩ := hkey.curve hf
      have hsame : ¬some group ≠ spec.groupName := fun hne => hne hname.symm
      simp only [familyChecks, hf, checkGroup, hgroup, if_neg hsame]
      rfl
  | rsa =>
      have hbits := hkey.bits hf
      have hgood : ¬(expectedRsaBits spec = 0 ∨
          h.pkeyBits key ≠ expectedRsaBits spec) := by
        rintro (hzero | hne)
        · exact rsa_bits spec hspec hf hzero
        · exact hne hbits
      simp only [familyChecks, hf, checkBits, if_neg hgood]
      rfl
  | ed25519 =>
      obtain ⟨raw, hpub, hlen⟩ := hkey.length (.inl hf)
      have hpos := raw_length spec hspec (.inl hf)
      simp only [familyChecks, hf, loadRawPublic_pass hav hpub hpos hlen]
  | mlDsa =>
      obtain ⟨raw, hpub, hlen⟩ := hkey.length (.inr hf)
      have hpos := raw_length spec hspec (.inr hf)
      simp only [familyChecks, hf]
      refine Act.andThen_ok.mpr ⟨?_, computeTr_pass hav _⟩
      rw [loadRawPublic_pass hav hpub hpos hlen]

/-- What passes the checks of its family matches its spec, and its view has
nothing in it but what the family keeps. -/
theorem familyChecks_view {fips : Bool} {spec : AwskmsKeyspec}
    (hspec : spec ∈ specs) {key : Key}
    (hisA : h.pkeyIsA key spec.keytype = true) {der : Bytes}
    (hok : (familyChecks h env fips spec key
      (halfBuilt der fips spec key)).ok = true) :
    KeyMatches h spec key ∧
      (familyChecks h env fips spec key (halfBuilt der fips spec key)).state =
        viewOf h der fips spec key := by
  obtain ⟨⟨hder, hsp, hpk⟩, hgroup, hbits, hraw, htr⟩ :=
    familyChecks_ok (p := halfBuilt der fips spec key) rfl hok
  have hmatch : KeyMatches h spec key := by
    refine ⟨hisA, fun hf => ?_, hbits, fun hf => ?_⟩
    · have hsame := hgroup hf
      simp only [familyChecks, hf, checkGroup] at hok
      cases hg : h.pkeyGroup key with
      | none =>
          simp only [hg] at hok
          cases hok
      | some group => exact ⟨group, rfl, hg ▸ hsame.symm⟩
    · obtain ⟨hpub, hlen⟩ := hraw hf
      have hpos := raw_length spec hspec hf
      exact ⟨_, hpub, hlen (by omega)⟩
  have hkept : (familyChecks h env fips spec key
      (halfBuilt der fips spec key)).state.raw = rawOf h spec key := by
    unfold rawOf
    cases hf : spec.family with
    | ec =>
        simp only [familyChecks, hf] at hok ⊢
        rw [(checkGroup_ok hok).2]
        rfl
    | rsa =>
        simp only [familyChecks, hf] at hok ⊢
        rw [(checkBits_ok hok).2]
        rfl
    | ed25519 =>
        rw [(hraw (.inl hf)).1]
        rfl
    | mlDsa =>
        rw [(hraw (.inr hf)).1]
        rfl
  refine ⟨hmatch, ?_⟩
  generalize familyChecks h env fips spec key (halfBuilt der fips spec key) =
    out at *
  obtain ⟨_, ⟨_, _, _, _, _⟩, _⟩ := out
  simp only [halfBuilt] at hder hsp hpk hkept htr
  rw [viewOf, hder, hsp, hpk, htr, hkept]

variable (h env) in
/-- Past the checks on the name and the bytes, the routine is the decode and
the checks of the family. -/
theorem awskmsPubkeyFromSpki_eq {der : Bytes} {kmsKeySpec : String}
    {fips : Bool} {spec : AwskmsKeyspec} {key : Key}
    (hnamed : awskmsKeyspecByName kmsKeySpec = some spec) (hne : der ≠ [])
    (hfits : (der.length : Int) ≤ h.longMax)
    (hdup : env.ok .memdupDer = true)
    (hwhole : env.d2iPubkey der (awskmsDependencyPropq fips) =
      some (key, der.length))
    (hisA : h.pkeyIsA key spec.keytype = true) :
    let checks := familyChecks h env fips spec key (halfBuilt der fips spec key)
    let out := awskmsPubkeyFromSpki h env der kmsKeySpec fips AwskmsPubkey.zero
    out.ok = checks.ok ∧ (checks.ok = true → out.state = checks.state) := by
  intro checks out
  have hlong : ¬h.longMax < (der.length : Int) := by omega
  have hacc : ∀ p, acceptKey h env fips spec key der.length der.length p =
      familyChecks h env fips spec key p := by
    intro p
    have hyes : ¬h.pkeyIsA key spec.keytype = false := by
      rw [hisA]
      decide
    simp only [acceptKey, if_neg hyes, ne_eq, not_true_eq_false, if_false]
  have hbody : out = Act.onFail (fun p =>
      decodePubkey h env fips spec { p with spec := some spec, der := der })
      (fun _ => AwskmsPubkey.zero) AwskmsPubkey.zero := by
    simp only [out, awskmsPubkeyFromSpki, Act.onFail, hnamed, if_neg hne,
      if_neg hlong, hdup, Bool.true_eq_false, if_false]
  have hdecode : decodePubkey h env fips spec
      { (AwskmsPubkey.zero : AwskmsPubkey Key) with
        spec := some spec, der := der } =
      ⟨checks.ok, checks.state, [.decode (awskmsDependencyPropq fips)] ++
        checks.trace⟩ := by
    simp only [decodePubkey, hwhole, Act.andThen, if_true, hacc]
    rfl
  rw [hbody, Act.onFail_ok]
  refine ⟨congrArg (·.ok) hdecode, fun hok => ?_⟩
  rw [Act.onFail_of_ok, hdecode]
  rw [Act.onFail_ok, hdecode]
  exact hok

theorem awskmsPubkeyFromSpki_accepts {der : Bytes} {kmsKeySpec : String}
    {fips : Bool}
    (hok : (awskmsPubkeyFromSpki h env der kmsKeySpec fips
      AwskmsPubkey.zero).ok = true) :
    ∃ spec key, Accepts h env der kmsKeySpec fips spec key ∧
      (awskmsPubkeyFromSpki h env der kmsKeySpec fips
        AwskmsPubkey.zero).state = viewOf h der fips spec key := by
  obtain ⟨spec, key, hnamed, hdec⟩ := awskmsPubkeyFromSpki_ok rfl hok
  have hmem := (awskmsKeyspecByName_mem hnamed).1
  -- what the length and the allocation were is not in `Decoded`
  have hpassed : (der.length : Int) ≤ h.longMax ∧
      env.ok .memdupDer = true := by
    rw [awskmsPubkeyFromSpki, Act.onFail_ok] at hok
    simp only [hnamed, if_neg hdec.nonempty] at hok
    split at hok
    · cases hok
    · next hlong =>
        split at hok
        · cases hok
        · next hdup => exact ⟨by omega, by simpa using hdup⟩
  obtain ⟨hokc, hstate⟩ := awskmsPubkeyFromSpki_eq h env hnamed hdec.nonempty
    hpassed.1 hpassed.2 hdec.answer hdec.isA
  rw [hok] at hokc
  obtain ⟨hkey, hview⟩ := familyChecks_view hmem hdec.isA hokc.symm
  exact ⟨spec, key, ⟨hnamed, List.length_pos_of_ne_nil hdec.nonempty, hpassed.1,
    hdec.answer, hkey⟩, (hstate hokc.symm).trans hview⟩

theorem awskmsPubkeyFromSpki_pass {der : Bytes} {kmsKeySpec : String}
    {fips : Bool} (hav : Available env fips) {spec : AwskmsKeyspec} {key : Key}
    (ha : Accepts h env der kmsKeySpec fips spec key) :
    (awskmsPubkeyFromSpki h env der kmsKeySpec fips AwskmsPubkey.zero).ok =
      true := by
  have hmem := (awskmsKeyspecByName_mem ha.named).1
  obtain ⟨hok, _⟩ := awskmsPubkeyFromSpki_eq h env ha.named
    (List.ne_nil_of_length_pos ha.nonempty) ha.fits hav.memdupDer ha.whole
    ha.key.type
  rw [hok]
  exact familyChecks_pass hav hmem ha.key der

/-- The raw value of a view is the one its key has. -/
def RawKept (h : Host Alg Key) (p : AwskmsPubkey Key) : Prop :=
  ∀ spec pkey, p.spec = some spec → p.der ≠ [] → p.pkey = some pkey →
    p.raw = rawOf h spec pkey.key

theorem rawKept_spki (der : Bytes) (kmsKeySpec : String) (fips : Bool) :
    RawKept h (awskmsPubkeyFromSpki h env der kmsKeySpec fips
      AwskmsPubkey.zero).state := by
  intro spec pkey hspec hne hpkey
  cases hok : (awskmsPubkeyFromSpki h env der kmsKeySpec fips
      AwskmsPubkey.zero).ok with
  | false =>
      rw [awskmsPubkeyFromSpki_failed hok] at hspec
      cases hspec
  | true =>
      obtain ⟨spec', key, _, hview⟩ := awskmsPubkeyFromSpki_accepts hok
      rw [hview] at hspec hpkey ⊢
      obtain rfl := Option.some.inj hspec
      obtain rfl := Option.some.inj hpkey
      rfl

theorem rawKept_step {s : Sys Alg Key} (hs : Sound s)
    (hk : ∀ r, RawKept h (s.keys r).pub) (call : Call) (r : KeyRef) :
    RawKept h ((Sys.step h env call s).state.keys r).pub := by
  have hstep := key_step h env s call r
  generalize (Sys.step h env call s).state.keys r = k at hstep
  have hzero : RawKept h (AwskmsPubkey.zero : AwskmsPubkey Key) := by
    intro spec pkey hspec
    cases hspec
  have hshell : ∀ spec pkey,
      RawKept h (AwskmsPubkey.shell spec pkey : AwskmsPubkey Key) :=
    fun spec pkey spec' pkey' _ hne => absurd rfl hne
  cases hstep with
  | kept hsk =>
      rw [hsk.pub]
      exact hk r
  | opened _ hsk =>
      rw [hsk.pub, awskmsStoreOpen_pub]
      exact hzero
  | copied hdup hsk =>
      rw [hsk.pub]
      rcases (awskmsKeymgmtDup_fresh hdup).view with hv | hv | ⟨_, _, hv⟩
      · rw [hv]
        exact hk _
      · rw [hv]
        exact hshell _ _
      · rw [hv]
        exact hshell _ _
  | fipsOn _ _ hsk =>
      rw [hsk.pub]
      exact hk _
  | viewed _ hnone _ hsk =>
      rw [hsk.pub, hs.blank _ hnone]
      intro spec pkey hspec hne hpkey
      exact rawKept_spki _ _ _ spec pkey hspec hne hpkey

theorem rawKept_run {evs : List (Rec (Sys Alg Key) (Input Alg Key) Event)}
    {s : Sys Alg Key} (hr : (provider h).Run evs s) (r : KeyRef) :
    RawKept h (s.keys r).pub := by
  have hboth : Sound s ∧ ∀ r, RawKept h (s.keys r).pub := by
    refine Machine.Run.inv (I := fun s => Sound s ∧ ∀ r, RawKept h (s.keys r).pub)
      ⟨sound_empty, fun r spec pkey hspec => ?_⟩
      (fun _ i hs ha => ⟨sound_step hs.1 ha, rawKept_step hs.1 hs.2 i.call⟩) hr
    cases hspec
  exact hboth.2 r

/-- The decoder is a function of the bytes; the query decides only whether it
answers. -/
def DecodesBy (decode : Bytes → Option (Key × Nat)) (env : Env Alg Key) :
    Prop :=
  ∀ der propq answer, env.d2iPubkey der propq = some answer →
    decode der = some answer

/-- Two views a caller cannot tell apart. -/
structure SameView (p q : AwskmsPubkey Key) : Prop where
  spec : p.spec = q.spec
  der : p.der = q.der
  raw : p.raw = q.raw
  tr : p.tr.map (·.bytes) = q.tr.map (·.bytes)

/-- A reparse of the bytes a key retains is the view that key has. -/
theorem fipsView_same {evs : List (Rec (Sys Alg Key) (Input Alg Key) Event)}
    {s : Sys Alg Key} (hr : (provider h).Run evs s)
    {decode : Bytes → Option (Key × Nat)}
    (hdecode : ∀ e ∈ evs, DecodesBy decode e.input.env)
    (henv : DecodesBy decode env) (r : KeyRef)
    (hok : (fipsView h env (s.keys r)).ok = true) :
    SameView (fipsView h env (s.keys r)).state (s.keys r).pub := by
  have htraced := traced_run hr hdecode
  unfold fipsView at hok ⊢
  split at hok
  · cases hok
  next hne =>
    rw [if_neg hne]
    obtain ⟨spec, key, hacc, hview⟩ := awskmsPubkeyFromSpki_accepts hok
    obtain ⟨env₀, spec₀, fips₀, key₀, hE, hmem, hdec⟩ :=
      (htraced.kind r).decoded (.inl hne)
    have hspec : spec = spec₀ := by
      have hnamed := hacc.named
      rw [awskmsKeySpec, hdec.specEq, Option.getD_some,
        byName_self spec₀ hmem] at hnamed
      exact (Option.some.inj hnamed).symm
    subst hspec
    have hkey : key = key₀ := by
      have h1 := henv _ _ _ hacc.whole
      have h2 := hE _ _ _ hdec.answer
      rw [h1] at h2
      exact congrArg Prod.fst (Option.some.inj h2)
    subst hkey
    have hraw := rawKept_run hr r spec _ hdec.specEq hne hdec.pkey
    rw [hview]
    refine ⟨hdec.specEq.symm, rfl, hraw.symm, ?_⟩
    rw [hdec.tr, hraw]
    simp only [viewOf]
    split
    · rfl
    · rfl

end

namespace Bench

/-- The decoder of the bench, under any query. -/
def decode (der : Bytes) : Option (PubKey × Nat) := env.d2iPubkey der ""

theorem env_decodes : DecodesBy decode env := fun _ _ _ hanswer => hanswer

/-- An ML-DSA key, loaded without FIPS. -/
def loadedMlDsa : List Call := opening "alias/mldsa" .oneshot

theorem run_loadedMlDsa :
    (provider host).Run (runOf loadedMlDsa) (stateOf loadedMlDsa) :=
  run_runOf (by decide +kernel)

theorem loadedMlDsa_decodes :
    ∀ e ∈ runOf loadedMlDsa, DecodesBy decode e.input.env := by
  intro e he
  have hin : e.input ∈ inputs loadedMlDsa := Machine.records_input he
  obtain ⟨call, -, hcall⟩ := List.mem_map.mp hin
  rw [← hcall]
  exact env_decodes

end Bench

end AwsKms.Model
