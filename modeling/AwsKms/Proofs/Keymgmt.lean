import Mathlib.Logic.Basic
import Mathlib.Data.Nat.Bitwise
import AwsKms.Proofs.Views
import AwsKms.Proofs.Bench

/-!
# Duplicating and comparing keys

A duplicate can be the key itself, its public half, its curve or no more than
its type, and `has` and `match` are asked of all four. What makes them agree is
that a key answers for a selection only when it holds what comparing under
that selection will look at, and that a duplicate holds what its selection
named. The private half is the exception: it is a KMS reference, and comparing
it compares public keys. A key with a reference was loaded, and so has one.
-/

namespace AwsKms.Model

open AwsKms.Lib

section

variable {Alg Key : Type} {h : Host Alg Key} {env : Env Alg Key}
  {E : Env Alg Key → Prop}

/-- A key with a public part. -/
def PublicPart (h : Host Alg Key) (k : Key) : Prop :=
  h.pkeyHasN k = true ∨ ∃ pub, h.pkeyPub k = some pub ∧ pub ≠ []

/-- A key with a named group. -/
def HasGroup (h : Host Alg Key) (k : Key) : Prop :=
  ∃ group, h.pkeyGroup k = some group ∧ group ≠ ""

/-- Comparing is an equivalence on keys that have what is compared, and a
curve taken out of a key and put back is that curve without a point. -/
structure PkeyLaws (h : Host Alg Key) : Prop where
  eq : Equivalence fun a b : {k // PublicPart h k} => h.pkeyEq a b = true
  params : Equivalence fun a b : {k // HasGroup h k} =>
    h.pkeyParametersEq a b = true
  domainGroup : ∀ k d, h.pkeyDomain k = some d → h.pkeyGroup d = h.pkeyGroup k
  domainParams : ∀ k d, h.pkeyDomain k = some d →
    h.pkeyParametersEq k d = true
  domainPub : ∀ k d, h.pkeyDomain k = some d → h.pkeyPub d = none

/-- `d2i_PUBKEY_ex` decodes public keys. -/
def DecodesPublic (h : Host Alg Key) (env : Env Alg Key) : Prop :=
  ∀ der propq k n, env.d2iPubkey der propq = some (k, n) → PublicPart h k

/-- What a key holds when it has a selection. -/
structure Holds (h : Host Alg Key) (key : AwskmsKey Key)
    (selection : Selection) : Prop where
  spec : key.pub.spec.isSome
  pub : selection.wantsPublic = true → hasPublicKey h key = true
  priv : selection.wantsPrivate = true → hasPrivateKey key = true
  domain : selection.wantsDomain = true → hasDomainParameters h key = true

theorem has_iff {key : AwskmsKey Key} {selection : Selection} :
    awskmsKeymgmtHas h key selection = true ↔ Holds h key selection := by
  unfold awskmsKeymgmtHas
  constructor
  · intro hhas
    simp only [Bool.and_eq_true, Bool.or_eq_true, Bool.not_eq_true'] at hhas
    obtain ⟨⟨⟨hspec, hpub⟩, hpriv⟩, hdom⟩ := hhas
    refine ⟨hspec, fun hw => ?_, fun hw => ?_, fun hw => ?_⟩
    · exact hpub.resolve_left (by rw [hw]; decide)
    · exact hpriv.resolve_left (by rw [hw]; decide)
    · exact hdom.resolve_left (by rw [hw]; decide)
  · intro hh
    have hpub := hh.pub
    have hpriv := hh.priv
    have hdom := hh.domain
    rw [hh.spec]
    generalize selection.wantsPublic = p at *
    generalize selection.wantsPrivate = v at *
    generalize selection.wantsDomain = d at *
    cases p <;> cases v <;> cases d <;> simp_all

/-- A part of a selection. -/
def Selection.Within (t s : Selection) : Prop :=
  ∀ i, Nat.testBit t i = true → Nat.testBit s i = true

theorem within_of_and {t s : Selection} (hts : t &&& s = t) : t.Within s := by
  intro i hi
  rw [← hts, Nat.testBit_and, Bool.and_eq_true] at hi
  exact hi.2

theorem Selection.Within.keypair {t s : Selection} (hts : t.Within s)
    (hw : t.wantsKeypair = true) : s.wantsKeypair = true := by
  unfold wantsKeypair at hw ⊢
  rw [Bool.or_eq_true] at hw ⊢
  exact hw.imp (hts 0) (hts 1)

/-- Having a selection is having each part of it. -/
theorem Holds.within {key : AwskmsKey Key} {t s : Selection}
    (hts : t.Within s) (hh : Holds h key s) : Holds h key t where
  spec := hh.spec
  pub hw := hh.pub (hts 1 hw)
  priv hw := hh.priv (hts 0 hw)
  domain hw := hh.domain (hts 2 hw)

theorem hasPublicKey_public {key : AwskmsKey Key}
    (hp : hasPublicKey h key = true) :
    ∃ pkey, key.pub.pkey = some pkey ∧ PublicPart h pkey.key := by
  unfold hasPublicKey at hp
  split at hp
  · next pkey spec hpkey _ =>
      refine ⟨pkey, hpkey, ?_⟩
      split at hp
      · exact .inl hp
      · split at hp
        · cases hp
        · cases hp
        · next pub hne hpub => exact .inr ⟨pub, hpub, hne⟩
  · cases hp

theorem hasDomainParameters_group {key : AwskmsKey Key}
    (hd : hasDomainParameters h key = true)
    (hec : (awskmsKeySpec key).family = .ec) :
    ∃ pkey, key.pub.pkey = some pkey ∧ HasGroup h pkey.key := by
  unfold hasDomainParameters at hd
  rw [if_neg (fun hne => hne hec)] at hd
  split at hd
  · cases hd
  · next pkey hpkey =>
      refine ⟨pkey, hpkey, ?_⟩
      split at hd
      · cases hd
      · next group hgroup => exact ⟨group, hgroup, bne_iff_ne.mp hd⟩

theorem hasPrivateKey_uri {key : AwskmsKey Key}
    (hp : hasPrivateKey key = true) : key.uri ≠ AwskmsUri.zero := by
  intro hz
  unfold hasPrivateKey at hp
  rw [hz] at hp
  cases hp

/-- A key that holds a half of a pair has a public part to compare. -/
theorem Holds.public (hE : ∀ env, E env → DecodesPublic h env)
    {key : AwskmsKey Key} (hk : KeyKind h E key) {selection : Selection}
    (hh : Holds h key selection) (hw : selection.wantsKeypair = true) :
    ∃ pkey, key.pub.pkey = some pkey ∧ PublicPart h pkey.key := by
  rcases Bool.or_eq_true_iff.mp hw with hpriv | hpub
  · have huri := hasPrivateKey_uri (hh.priv hpriv)
    cases hk with
    | blank hb =>
        have hspec := hh.spec
        rw [hb] at hspec
        cases hspec
    | loaded hEnv _ _ hdec =>
        exact ⟨_, hdec.pkey, hE _ hEnv _ _ _ _ hdec.answer⟩
    | publicHalf hz => exact absurd hz huri
    | shell hz => exact absurd hz huri
  · exact hasPublicKey_public (hh.pub hpub)

/-! ## Match

Two keys match when they agree on all that the selection names. Both hold what
it names, so agreement is an equality of public parts, and goes over from a
key to what it was made from. -/

/-- What `match` compares two distinct keys by. -/
structure Agree (h : Host Alg Key) (selection : Selection)
    (a b : AwskmsKey Key) : Prop where
  domain : selection.wantsDomain = true →
    (awskmsKeySpec a).family = .ec ∨ (awskmsKeySpec b).family = .ec →
    (awskmsKeySpec a).family = .ec ∧ (awskmsKeySpec b).family = .ec ∧
      evpPkeyParametersEq h a.pub.pkey b.pub.pkey = true
  pair : selection.wantsKeypair = true →
    evpPkeyEq h a.pub.pkey b.pub.pkey = true

theorem match_iff {keys : Keys Key} {a b : KeyRef} {selection : Selection} :
    awskmsKeymgmtMatch h keys a b selection = true ↔
      Holds h (keys a) selection ∧ Holds h (keys b) selection ∧
        (a = b ∨ Agree h selection (keys a) (keys b)) := by
  unfold awskmsKeymgmtMatch
  constructor
  · intro hm
    split at hm
    · cases hm
    · next hhas =>
        rw [not_or, Bool.not_eq_false, Bool.not_eq_false] at hhas
        refine ⟨has_iff.mp hhas.1, has_iff.mp hhas.2, ?_⟩
        split at hm
        · next heq => exact .inl heq
        · refine .inr ?_
          split at hm
          · cases hm
          · next hdom =>
              split at hm
              · cases hm
              · next hpair =>
                  refine ⟨fun hw hec => ?_, fun hw => ?_⟩
                  · by_contra hno
                    refine hdom ⟨hw, hec, ?_⟩
                    rw [not_and_or, not_and_or, Bool.not_eq_true] at hno
                    exact hno
                  · by_contra hno
                    exact hpair ⟨hw, Bool.not_eq_true _ ▸ hno⟩
  · rintro ⟨ha, hb, hab⟩
    rw [if_neg (by rw [has_iff.mpr ha, has_iff.mpr hb]; decide)]
    split
    · rfl
    · next hne =>
        have hagree := hab.resolve_left hne
        rw [if_neg, if_neg]
        · rintro ⟨hw, hno⟩
          rw [hagree.pair hw] at hno
          cases hno
        · rintro ⟨hw, hec, hno⟩
          obtain ⟨hea, heb, hpar⟩ := hagree.domain hw hec
          rcases hno with hno | hno | hno
          · exact hno hea
          · exact hno heb
          · rw [hpar] at hno
            cases hno

theorem Agree.within {t s : Selection} (hts : t.Within s)
    {a b : AwskmsKey Key} (hab : Agree h s a b) : Agree h t a b where
  domain hw := hab.domain (hts 2 hw)
  pair hw := hab.pair (hts.keypair hw)

section

variable (hl : PkeyLaws h) (hE : ∀ env, E env → DecodesPublic h env)
  {a b c : AwskmsKey Key} {selection : Selection}

include hl hE

theorem Agree.symm (hka : KeyKind h E a) (hkb : KeyKind h E b)
    (ha : Holds h a selection) (hb : Holds h b selection)
    (hab : Agree h selection a b) : Agree h selection b a where
  domain hw hec := by
    obtain ⟨hea, heb, hpar⟩ := hab.domain hw hec.symm
    obtain ⟨pa, hpa, hga⟩ := hasDomainParameters_group (ha.domain hw) hea
    obtain ⟨pb, hpb, hgb⟩ := hasDomainParameters_group (hb.domain hw) heb
    rw [hpa, hpb] at hpar ⊢
    exact ⟨heb, hea, hl.params.symm (x := ⟨pa.key, hga⟩) (y := ⟨pb.key, hgb⟩) hpar⟩
  pair hw := by
    have heq := hab.pair hw
    obtain ⟨pa, hpa, hua⟩ := ha.public hE hka hw
    obtain ⟨pb, hpb, hub⟩ := hb.public hE hkb hw
    rw [hpa, hpb] at heq ⊢
    exact hl.eq.symm (x := ⟨pa.key, hua⟩) (y := ⟨pb.key, hub⟩) heq

theorem Agree.trans (hka : KeyKind h E a) (hkb : KeyKind h E b)
    (hkc : KeyKind h E c) (ha : Holds h a selection)
    (hb : Holds h b selection) (hc : Holds h c selection)
    (hab : Agree h selection a b) (hbc : Agree h selection b c) :
    Agree h selection a c where
  domain hw hec := by
    have heb : (awskmsKeySpec b).family = .ec := by
      rcases hec with hea | hec
      · exact (hab.domain hw (.inl hea)).2.1
      · exact (hbc.domain hw (.inr hec)).1
    obtain ⟨hea, _, hpab⟩ := hab.domain hw (.inr heb)
    obtain ⟨_, hec, hpbc⟩ := hbc.domain hw (.inl heb)
    obtain ⟨pa, hpa, hga⟩ := hasDomainParameters_group (ha.domain hw) hea
    obtain ⟨pb, hpb, hgb⟩ := hasDomainParameters_group (hb.domain hw) heb
    obtain ⟨pc, hpc, hgc⟩ := hasDomainParameters_group (hc.domain hw) hec
    rw [hpa, hpb] at hpab
    rw [hpb, hpc] at hpbc
    rw [hpa, hpc]
    exact ⟨hea, hec, hl.params.trans (x := ⟨pa.key, hga⟩) (y := ⟨pb.key, hgb⟩)
      (z := ⟨pc.key, hgc⟩) hpab hpbc⟩
  pair hw := by
    have heqab := hab.pair hw
    have heqbc := hbc.pair hw
    obtain ⟨pa, hpa, hua⟩ := ha.public hE hka hw
    obtain ⟨pb, hpb, hub⟩ := hb.public hE hkb hw
    obtain ⟨pc, hpc, huc⟩ := hc.public hE hkc hw
    rw [hpa, hpb] at heqab
    rw [hpb, hpc] at heqbc
    rw [hpa, hpc]
    exact hl.eq.trans (x := ⟨pa.key, hua⟩) (y := ⟨pb.key, hub⟩)
      (z := ⟨pc.key, huc⟩) heqab heqbc

/-- Keys with one view agree on what they hold. -/
theorem Agree.of_view (hka : KeyKind h E a) (ha : Holds h a selection)
    (hpub : b.pub = a.pub) : Agree h selection a b where
  domain hw hec := by
    have hspec : awskmsKeySpec b = awskmsKeySpec a := by
      rw [awskmsKeySpec, hpub, awskmsKeySpec]
    rw [hspec, or_self] at hec
    obtain ⟨pa, hpa, hga⟩ := hasDomainParameters_group (ha.domain hw) hec
    rw [hspec, hpub, hpa]
    exact ⟨hec, hec, hl.params.refl ⟨pa.key, hga⟩⟩
  pair hw := by
    obtain ⟨pa, hpa, hua⟩ := ha.public hE hka hw
    rw [hpub, hpa]
    exact hl.eq.refl ⟨pa.key, hua⟩

end

/-! ## Dup

A duplicate is one of four: the key with one more holder, its public half, its
group, or its type. Each holds what its selection named and agrees with the
key on that. The private half without the public one is refused. -/

/-- How much of a view a new object has. -/
inductive Partial (h : Host Alg Key) (key : AwskmsKey Key)
    (selection : Selection) (k : AwskmsKey Key) : Prop where
  | half : selection.wantsPublic = true → k.pub = key.pub →
      Partial h key selection k
  | curve {pkey : EvpPkey Key} {domain : Key} :
      selection.wantsPublic = false → selection.wantsDomain = true →
      (awskmsKeySpec key).family = .ec → key.pub.pkey = some pkey →
      h.pkeyDomain pkey.key = some domain →
      k.pub = .shell key.pub.spec
        (some ⟨domain, awskmsDependencyPropq key.fipsRequired⟩) →
      Partial h key selection k
  | type : selection.wantsPublic = false →
      (selection.wantsDomain = true → (awskmsKeySpec key).family ≠ .ec) →
      k.pub = .shell key.pub.spec none → Partial h key selection k

theorem dup_has {key : AwskmsKey Key} {selection : Selection}
    (hd : awskmsKeymgmtDup h env key selection ≠ .fail) :
    Holds h key selection := by
  rw [← has_iff]
  by_contra hno
  rw [Bool.not_eq_true] at hno
  rw [awskmsKeymgmtDup, if_pos hno] at hd
  exact hd rfl

theorem dup_partial {key k : AwskmsKey Key} {selection : Selection}
    (hk : awskmsKeymgmtDup h env key selection = .fresh k) :
    Partial h key selection k := by
  have hpriv := (awskmsKeymgmtDup_fresh hk).partly
  unfold awskmsKeymgmtDup at hk
  split at hk
  · cases hk
  · rw [if_neg (by rw [hpriv]; decide)] at hk
    split at hk
    · next hpub =>
        rw [dupPublicKey_eq (ofOption_fresh hk)]
        exact .half hpub rfl
    · next hpub =>
        rw [Bool.not_eq_true] at hpub
        split at hk
        · next hdom =>
            obtain ⟨pkey, domain, hpkey, hdomain, hdk⟩ :=
              dupDomainParameters_eq (ofOption_fresh hk)
            rw [hdk]
            exact .curve hpub hdom.1 hdom.2 hpkey hdomain rfl
        · next hdom =>
            rw [newSubsetKey_eq (ofOption_fresh hk)]
            exact .type hpub (fun hw hec => hdom ⟨hw, hec⟩) rfl

theorem spec_of_shell {k key : AwskmsKey Key} {pkey : Option (EvpPkey Key)}
    (hpub : k.pub = .shell key.pub.spec pkey) :
    awskmsKeySpec k = awskmsKeySpec key := by
  rw [awskmsKeySpec, hpub]
  rfl

theorem Partial.spec {key k : AwskmsKey Key} {selection : Selection}
    (hp : Partial h key selection k) : k.pub.spec = key.pub.spec := by
  cases hp with
  | half _ hpub => rw [hpub]
  | curve _ _ _ _ _ hpub => rw [hpub]; rfl
  | type _ _ hpub => rw [hpub]; rfl

/-- A duplicate holds what its selection named. -/
theorem Partial.holds (hl : PkeyLaws h) {key k : AwskmsKey Key}
    {selection : Selection} (hp : Partial h key selection k)
    (hpriv : selection.wantsPrivate = false)
    (hh : Holds h key selection) : Holds h k selection where
  spec := hp.spec ▸ hh.spec
  pub hw := by
    cases hp with
    | half _ hpub =>
        rw [hasPublicKey, hpub]
        exact hh.pub hw
    | curve hno => rw [hno] at hw; cases hw
    | type hno => rw [hno] at hw; cases hw
  priv hw := by rw [hpriv] at hw; cases hw
  domain hw := by
    cases hp with
    | half _ hpub =>
        rw [hasDomainParameters, awskmsKeySpec, hpub]
        exact hh.domain hw
    | @curve pkey domain _ _ hec hpkey hdomain hpub =>
        obtain ⟨pkey', hpkey', group, hgroup, hne⟩ :=
          hasDomainParameters_group (hh.domain hw) hec
        obtain rfl := Option.some.inj (hpkey.symm.trans hpkey')
        rw [hasDomainParameters, spec_of_shell hpub,
          if_neg (fun hno => hno hec), hpub]
        simp only [AwskmsPubkey.shell, hl.domainGroup _ _ hdomain, hgroup]
        exact bne_iff_ne.mpr hne
    | type _ hec hpub =>
        rw [hasDomainParameters, spec_of_shell hpub, if_pos (hec hw)]

/-- A duplicate compares equal to its source under its selection. -/
theorem Partial.agree (hl : PkeyLaws h)
    (hE : ∀ env, E env → DecodesPublic h env) {key k : AwskmsKey Key}
    (hk : KeyKind h E key) {selection : Selection}
    (hp : Partial h key selection k)
    (hpriv : selection.wantsPrivate = false)
    (hh : Holds h key selection) : Agree h selection key k := by
  cases hp with
  | half _ hpub => exact .of_view hl hE hk hh hpub
  | @curve pkey domain hno _ hec hpkey hdomain hpub =>
      refine ⟨fun _ _ => ⟨hec, (spec_of_shell hpub).symm ▸ hec, ?_⟩, fun hw => ?_⟩
      · rw [hpkey, hpub]
        exact hl.domainParams _ _ hdomain
      · rw [Selection.wantsKeypair, hpriv, hno] at hw
        cases hw
  | type hno hec hpub =>
      refine ⟨fun hw hfam => ?_, fun hw => ?_⟩
      · rw [spec_of_shell hpub, or_self] at hfam
        exact absurd hfam (hec hw)
      · rw [Selection.wantsKeypair, hpriv, hno] at hw
        cases hw

/-- A duplicate has a public key only if one was asked for. -/
theorem Partial.noPublic (hl : PkeyLaws h) {key k : AwskmsKey Key}
    {selection : Selection} (hp : Partial h key selection k)
    (hw : selection.wantsPublic = false) : hasPublicKey h k = false := by
  cases hp with
  | half hno => rw [hno] at hw; cases hw
  | @curve pkey domain _ _ hec _ hdomain hpub =>
      unfold hasPublicKey
      rw [hpub]
      split
      · next pkey' spec hpkey hspec =>
          obtain rfl := Option.some.inj hpkey
          have hfam : spec.family = .ec := by
            have hsrc : key.pub.spec = some spec := hspec
            rw [awskmsKeySpec, hsrc] at hec
            exact hec
          rw [if_neg (by rw [hfam]; decide), hl.domainPub _ _ hdomain]
      · rfl
  | type _ _ hpub =>
      rw [hasPublicKey, hpub]
      rfl

/-- The object is shared only when both halves are asked for. -/
theorem dup_share {key : AwskmsKey Key} {selection : Selection}
    (hk : awskmsKeymgmtDup h env key selection = .share) :
    selection.wantsPrivate = true ∧ selection.wantsPublic = true := by
  unfold awskmsKeymgmtDup at hk
  split at hk
  · cases hk
  · split at hk
    · next hpriv =>
        split at hk
        · cases hk
        · next hpub => exact ⟨hpriv, Bool.not_eq_false _ ▸ hpub⟩
    · have hno : ∀ o : Option (AwskmsKey Key), KeymgmtDup.ofOption o ≠ .share := by
        intro o
        cases o with
        | none => nofun
        | some k => nofun
      split at hk
      · exact absurd hk (hno _)
      · split at hk
        · exact absurd hk (hno _)
        · exact absurd hk (hno _)

/-- The private half is not duplicated alone. -/
theorem dup_privateOnly {key : AwskmsKey Key} {selection : Selection}
    (hpriv : selection.wantsPrivate = true)
    (hpub : selection.wantsPublic = false) :
    awskmsKeymgmtDup h env key selection = .fail := by
  rw [awskmsKeymgmtDup, if_pos hpriv, if_pos hpub, ite_self]

/-- The object a duplication hands back. -/
def Sys.dupRef (h : Host Alg Key) (env : Env Alg Key) (s : Sys Alg Key)
    (r : KeyRef) (selection : Selection) : Option KeyRef :=
  match awskmsKeymgmtDup h env (s.keys r) selection with
  | .fail => none
  | .share => some r
  | .fresh _ => some s.nextKey

/-- `r'` in `t` is what duplicating `r` of `s` under a selection should be. -/
structure Duplicate (h : Host Alg Key) (selection : Selection)
    (s : Sys Alg Key) (r : KeyRef) (t : Sys Alg Key) (r' : KeyRef) : Prop where
  has : awskmsKeymgmtHas h (t.keys r') selection = true
  same : awskmsKeymgmtMatch h t.keys r r' selection = true
  spec : (t.keys r').pub.spec = (s.keys r).pub.spec
  fips : (t.keys r').fipsRequired = (s.keys r).fipsRequired
  priv : awskmsKeymgmtHas h (t.keys r') selectPrivateKey = true →
    selection.wantsPrivate = true
  pub : awskmsKeymgmtHas h (t.keys r') selectPublicKey = true →
    selection.wantsPublic = true

/-- Under a selection, `match` is an equivalence on the keys that have it, and
it holds of every part of that selection. -/
structure MatchLaws (h : Host Alg Key) (selection : Selection)
    (keys : Keys Key) : Prop where
  refl : ∀ a, awskmsKeymgmtMatch h keys a a selection =
    awskmsKeymgmtHas h (keys a) selection
  symm : ∀ a b, awskmsKeymgmtMatch h keys a b selection = true →
    awskmsKeymgmtMatch h keys b a selection = true
  trans : ∀ a b c, awskmsKeymgmtMatch h keys a b selection = true →
    awskmsKeymgmtMatch h keys b c selection = true →
    awskmsKeymgmtMatch h keys a c selection = true
  part : ∀ a b part, part &&& selection = part →
    awskmsKeymgmtMatch h keys a b selection = true →
    awskmsKeymgmtMatch h keys a b part = true

theorem matchLaws (hl : PkeyLaws h) (hE : ∀ env, E env → DecodesPublic h env)
    {keys : Keys Key} (hk : ∀ r, KeyKind h E (keys r))
    (selection : Selection) : MatchLaws h selection keys where
  refl a := by
    rw [Bool.eq_iff_iff, match_iff, has_iff]
    constructor
    · intro hm
      exact hm.1
    · intro hh
      exact ⟨hh, hh, .inl rfl⟩
  symm a b hm := by
    obtain ⟨ha, hb, hab⟩ := match_iff.mp hm
    refine match_iff.mpr ⟨hb, ha, ?_⟩
    rcases hab with heq | hagree
    · exact .inl heq.symm
    · exact .inr (hagree.symm hl hE (hk a) (hk b) ha hb)
  trans a b c hab hbc := by
    obtain ⟨ha, hb, hab⟩ := match_iff.mp hab
    obtain ⟨_, hc, hbc⟩ := match_iff.mp hbc
    refine match_iff.mpr ⟨ha, hc, ?_⟩
    rcases hab with rfl | hab
    · exact hbc
    · rcases hbc with rfl | hbc
      · exact .inr hab
      · exact .inr (hab.trans hl hE (hk a) (hk b) (hk c) ha hb hc hbc)
  part a b part hpart hm := by
    have hin := within_of_and hpart
    obtain ⟨ha, hb, hab⟩ := match_iff.mp hm
    refine match_iff.mpr ⟨ha.within hin, hb.within hin, ?_⟩
    rcases hab with heq | hagree
    · exact .inl heq
    · exact .inr (hagree.within hin)

theorem Holds.of_same {a b : AwskmsKey Key} {selection : Selection}
    (hh : Holds h a selection) (huri : b.uri = a.uri) (hpub : b.pub = a.pub) :
    Holds h b selection where
  spec := hpub ▸ hh.spec
  pub hw := by
    rw [hasPublicKey, hpub]
    exact hh.pub hw
  priv hw := by
    rw [hasPrivateKey, huri]
    exact hh.priv hw
  domain hw := by
    rw [hasDomainParameters, awskmsKeySpec, hpub]
    exact hh.domain hw

theorem dup_duplicate (hl : PkeyLaws h)
    (hE : ∀ env, E env → DecodesPublic h env) {s : Sys Alg Key}
    (hs : Traced h E s) (env : Env Alg Key) {r : KeyRef}
    (hr : s.handles r ≠ 0) {selection : Selection}
    (hok : (Sys.step h env (.keymgmtDup r selection) s).ok = true) :
    ∃ r', s.dupRef h env r selection = some r' ∧
      Duplicate h selection s r
        (Sys.step h env (.keymgmtDup r selection) s).state r' := by
  unfold Sys.dupRef
  simp only [Sys.step] at hok ⊢
  cases hdup : awskmsKeymgmtDup h env (s.keys r) selection with
  | fail =>
      rw [hdup] at hok
      cases hok
  | share =>
      have hdone : awskmsKeymgmtDup h env (s.keys r) selection ≠ .fail := by
        simp [hdup]
      have hh : Holds h (s.keys r) selection := dup_has hdone
      obtain ⟨hpriv, hpub⟩ := dup_share hdup
      refine ⟨r, rfl, ?_⟩
      have hkey : ((s.addHandle r).moveRefs [.keyUpRef r]).keys r =
          { s.keys r with refcnt := (s.keys r).refcnt + 1 } :=
        Function.update_self ..
      have hnow : Holds h (((s.addHandle r).moveRefs [.keyUpRef r]).keys r)
          selection := by
        rw [hkey]
        exact hh.of_same rfl rfl
      refine ⟨has_iff.mpr hnow, match_iff.mpr ⟨hnow, hnow, .inl rfl⟩, ?_, ?_,
        fun _ => hpriv, fun _ => hpub⟩
      · rw [hkey]
      · rw [hkey]
  | fresh k =>
      have hdone : awskmsKeymgmtDup h env (s.keys r) selection ≠ .fail := by
        simp [hdup]
      have hh : Holds h (s.keys r) selection := dup_has hdone
      have hd := awskmsKeymgmtDup_fresh hdup
      have hp := dup_partial hdup
      have hne : r ≠ s.nextKey := Nat.ne_of_lt (hs.sound.handle r hr).1
      refine ⟨s.nextKey, rfl, ?_⟩
      have hnew : (s.addKey k).keys s.nextKey = k := Function.update_self ..
      have hold : (s.addKey k).keys r = s.keys r := Function.update_of_ne hne ..
      have hhk := hp.holds hl hd.partly hh
      constructor
      · rw [hnew]
        exact has_iff.mpr hhk
      · rw [match_iff, hnew, hold]
        exact ⟨hh, hhk, .inr (hp.agree hl hE (hs.kind r) hd.partly hh)⟩
      · rw [hnew]
        exact hp.spec
      · rw [hnew]
        exact hd.fips
      · rw [hnew]
        intro hhas
        exact absurd hd.uri (hasPrivateKey_uri ((has_iff.mp hhas).priv rfl))
      · rw [hnew]
        intro hhas
        by_contra hno
        have hnone := hp.noPublic hl (Bool.not_eq_true _ ▸ hno)
        rw [(has_iff.mp hhas).pub rfl] at hnone
        cases hnone

/-- Duplicating, having and matching agree with each other in every state a
run can reach, for every key and every selection. -/
theorem keymgmt_coherent (hl : PkeyLaws h)
    {evs : List (Rec (Sys Alg Key) (Input Alg Key) Event)} {s : Sys Alg Key}
    (hr : (provider h).Run evs s)
    (hE : ∀ e ∈ evs, DecodesPublic h e.input.env) (selection : Selection) :
    (∀ env r, s.handles r ≠ 0 →
      (Sys.step h env (.keymgmtDup r selection) s).ok = true →
      ∃ r', s.dupRef h env r selection = some r' ∧
        Duplicate h selection s r
          (Sys.step h env (.keymgmtDup r selection) s).state r') ∧
    (selection.wantsPrivate = true → selection.wantsPublic = false →
      ∀ env r, Sys.step h env (.keymgmtDup r selection) s = ⟨false, s, []⟩) ∧
    MatchLaws h selection s.keys := by
  have hs : Traced h (DecodesPublic h) s := traced_run hr hE
  refine ⟨fun env r hheld hok => ?_, fun hpriv hpub env r => ?_, ?_⟩
  · exact dup_duplicate hl (fun _ hd => hd) hs env hheld hok
  · simp only [Sys.step, dup_privateOnly hpriv hpub]
  · exact matchLaws hl (fun _ hd => hd) hs.kind selection

end

namespace Bench

theorem pkeyLaws : PkeyLaws host where
  eq := by
    refine ⟨fun a => ?_, fun {a b} hab => ?_, fun {a b c} hab hbc => ?_⟩
    · exact decide_eq_true rfl
    · exact decide_eq_true (of_decide_eq_true hab).symm
    · exact decide_eq_true
        ((of_decide_eq_true hab).trans (of_decide_eq_true hbc))
  params := by
    have hcurve : ∀ k, HasGroup host k → k = .ec ∨ k = .ecDomain := by
      rintro k ⟨group, hgroup, _⟩
      cases k with
      | ec => exact .inl rfl
      | ecDomain => exact .inr rfl
      | ed25519 => cases hgroup
      | rsa => cases hgroup
      | mlDsa => cases hgroup
    have hall : ∀ a b : {k // HasGroup host k},
        host.pkeyParametersEq a b = true := by
      rintro ⟨a, ha⟩ ⟨b, hb⟩
      rcases hcurve a ha with rfl | rfl <;> rcases hcurve b hb with rfl | rfl <;>
        rfl
    exact ⟨fun a => hall a a, fun _ => hall _ _, fun _ _ => hall _ _⟩
  domainGroup k d hd := by
    cases k <;> cases hd
    rfl
  domainParams k d hd := by
    cases k <;> cases hd
    rfl
  domainPub k d hd := by
    cases k <;> cases hd
    rfl

theorem decodesPublic : DecodesPublic host env := by
  intro der propq k n hd
  simp only [env] at hd
  split at hd
  · obtain ⟨rfl, _⟩ := Prod.mk.inj (Option.some.inj hd)
    exact .inr ⟨_, rfl, by decide⟩
  · split at hd
    · obtain ⟨rfl, _⟩ := Prod.mk.inj (Option.some.inj hd)
      exact .inr ⟨_, rfl, by decide⟩
    · split at hd
      · obtain ⟨rfl, _⟩ := Prod.mk.inj (Option.some.inj hd)
        exact .inl rfl
      · split at hd
        · obtain ⟨rfl, _⟩ := Prod.mk.inj (Option.some.inj hd)
          exact .inr ⟨_, rfl, by decide⟩
        · cases hd

/-- A loaded EC key and a duplicate of its public half. -/
def halved : List Call := [
  .storeOpen (some (ascii "aws-kms:key-id=alias/ec")),
  .storeLoad 0 ⟨true, true⟩,
  .keymgmtDup 0 (selectPublicKey ||| selectDomainParameters)]

end Bench

/-- The curve of the public half of a loaded EC key. -/
theorem keymgmt_coherent_curve :
    Duplicate Bench.host selectDomainParameters
      (Bench.stateOf Bench.halved) 1
      (Sys.step Bench.host Bench.env (.keymgmtDup 1 selectDomainParameters)
        (Bench.stateOf Bench.halved)).state 2 := by
  have ha : (provider Bench.host).AllowedAll (provider Bench.host).start
      (Bench.inputs Bench.halved) := by decide +kernel
  have hE : ∀ e ∈ Bench.runOf Bench.halved,
      DecodesPublic Bench.host e.input.env := by
    intro e he
    rw [Bench.runOf_env he]
    exact Bench.decodesPublic
  obtain ⟨r', hr', hdup⟩ := (keymgmt_coherent Bench.pkeyLaws
    (Bench.run_runOf ha) hE selectDomainParameters).1 Bench.env 1
    (by decide +kernel) (by decide +kernel)
  have href : (Bench.stateOf Bench.halved).dupRef Bench.host Bench.env 1
      selectDomainParameters = some 2 := by decide +kernel
  obtain rfl := Option.some.inj (hr'.symm.trans href)
  exact hdup

end AwsKms.Model
