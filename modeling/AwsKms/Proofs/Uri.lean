import Mathlib.Data.List.Perm.Basic
import AwsKms.Proofs.Bench
import AwsKms.Proofs.UriPath

/-!
# The parser accepts the scheme and nothing else

Each routine of `uri.c` is one clause of `Names`: the loop over the items is
the path attributes, the pass over the query keys is `EachOnce` of the pairs,
`arn_region` is `ArnRegion`. The parser is then read off clause by clause, once
for what an acceptance means and once for what is enough for one.
-/

namespace AwsKms.Model

open AwsKms.Lib AwsKms.Spec

/-! ## The query

The keys of the query are looked at twice: that each is known and stands once,
and then one by one for its value. Between the two passes nothing changes, so
the second finds at most one. -/

theorem checkQueryKeys_ok {ks : List Bytes} {profiles endpoints : Nat}
    (hp : profiles ≤ 1) (he : endpoints ≤ 1) :
    (checkQueryKeys profiles endpoints ks).ok = true ↔
      (∀ k ∈ ks, k = ascii "profile" ∨ k = ascii "endpoint") ∧
        profiles + ks.count (ascii "profile") ≤ 1 ∧
        endpoints + ks.count (ascii "endpoint") ≤ 1 := by
  have hkey : ascii "endpoint" ≠ ascii "profile" := by decide
  induction ks generalizing profiles endpoints with
  | nil => simp [checkQueryKeys, hp, he]
  | cons k ks ih =>
      rw [checkQueryKeys]
      by_cases hkp : k = ascii "profile"
      · subst hkp
        rw [if_pos rfl, List.count_cons_self, List.count_cons_of_ne hkey.symm]
        split
        · next hbig =>
            simp only [Bool.false_eq_true, false_iff]
            rintro ⟨_, h, _⟩
            omega
        · next hbig =>
            have hp' : profiles + 1 ≤ 1 := by omega
            refine (ih hp' he).trans ?_
            simp only [List.mem_cons, forall_eq_or_imp, true_or, true_and]
            constructor
            · rintro ⟨h1, h2, h3⟩
              exact ⟨h1, by omega, h3⟩
            · rintro ⟨h1, h2, h3⟩
              exact ⟨h1, by omega, h3⟩
      · rw [if_neg hkp]
        by_cases hke : k = ascii "endpoint"
        · subst hke
          rw [if_pos rfl, List.count_cons_self, List.count_cons_of_ne hkey]
          split
          · next hbig =>
              simp only [Bool.false_eq_true, false_iff]
              rintro ⟨_, _, h⟩
              omega
          · next hbig =>
              have he' : endpoints + 1 ≤ 1 := by omega
              refine (ih hp he').trans ?_
              simp only [List.mem_cons, forall_eq_or_imp, or_true, true_and]
              constructor
              · rintro ⟨h1, h2, h3⟩
                exact ⟨h1, h2, by omega⟩
              · rintro ⟨h1, h2, h3⟩
                exact ⟨h1, h2, by omega⟩
        · rw [if_neg hke]
          simp only [Bool.false_eq_true, false_iff]
          rintro ⟨h, _⟩
          rcases h k List.mem_cons_self with h | h
          · exact hkp h
          · exact hke h

theorem checkQueryKeys_once {pairs : List (Bytes × Bytes)} :
    (checkQueryKeys 0 0 (pairs.map (·.1))).ok = true ↔
      EachOnce "profile" "endpoint" pairs := by
  rw [checkQueryKeys_ok (Nat.zero_le 1) (Nat.zero_le 1), Nat.zero_add,
    Nat.zero_add]
  constructor
  · rintro ⟨hknown, hp, he⟩
    refine ⟨fun a ha => hknown a.1 (List.mem_map_of_mem ha), ?_⟩
    refine List.nodup_iff_count_le_one.mpr fun k => ?_
    by_cases hk : k ∈ pairs.map (·.1)
    · rcases hknown k hk with rfl | rfl
      · exact hp
      · exact he
    · rw [List.count_eq_zero_of_not_mem hk]
      exact Nat.zero_le 1
  · rintro ⟨hknown, honce⟩
    refine ⟨fun k hk => ?_, List.nodup_iff_count_le_one.mp honce _,
      List.nodup_iff_count_le_one.mp honce _⟩
    obtain ⟨a, ha, rfl⟩ := List.mem_map.mp hk
    exact hknown a ha

/-- Where names occur once, the first attribute of a name is the only one. -/
theorem find_attr {pairs : List (Bytes × Bytes)}
    (honce : (pairs.map (·.1)).Nodup) {name : Bytes} {pair : Bytes × Bytes} :
    (pairs.find? fun p => p.1 == name) = some pair ↔
      pair ∈ pairs ∧ pair.1 = name := by
  constructor
  · intro hf
    exact ⟨List.mem_of_find?_eq_some hf, by simpa using List.find?_some hf⟩
  · rintro ⟨hmem, rfl⟩
    cases hf : pairs.find? fun p => p.1 == pair.1 with
    | none => exact absurd (List.find?_eq_none.mp hf pair hmem) (by simp)
    | some p =>
        have hp : p.1 = pair.1 := by simpa using List.find?_some hf
        exact congrArg some (List.inj_on_of_nodup_map honce
          (List.mem_of_find?_eq_some hf) hmem hp)

theorem takeQueryAttr_ok {pairs : List (Bytes × Bytes)} {name : String}
    {set : AwskmsUri → Bytes → AwskmsUri} {out : AwskmsUri}
    (honce : (pairs.map (·.1)).Nodup) :
    (takeQueryAttr pairs name set out).ok = true ↔
      ∀ v, (ascii name, v) ∈ pairs → 0 ∉ v := by
  cases hf : pairs.find? fun p => p.1 == ascii name with
  | none =>
      simp only [takeQueryAttr, hf, Act.done_apply, true_iff]
      intro v hv
      exact absurd (List.find?_eq_none.mp hf _ hv) (by simp)
  | some p =>
      obtain ⟨hmem, hname⟩ := (find_attr honce).mp hf
      have hone : ∀ v, (ascii name, v) ∈ pairs → v = p.2 := by
        intro v hv
        have h := (find_attr honce).mpr ⟨hv, rfl⟩
        rw [hf] at h
        rw [Option.some.inj h]
      simp only [takeQueryAttr, hf]
      split
      · next hz =>
          simp only [Act.refuse_apply, Bool.false_eq_true, false_iff]
          intro h
          exact h p.2 (hname ▸ hmem) hz
      · next hz =>
          simp only [true_iff]
          intro v hv
          rw [hone v hv]
          exact hz

/-- The state a query attribute leaves, in the two forms it can have. -/
theorem takeQueryAttr_state {pairs : List (Bytes × Bytes)} {name : String}
    {set : AwskmsUri → Bytes → AwskmsUri} {out : AwskmsUri}
    (honce : (pairs.map (·.1)).Nodup)
    (hok : (takeQueryAttr pairs name set out).ok = true) :
    (∀ v, (ascii name, v) ∉ pairs) ∧
        (takeQueryAttr pairs name set out).state = out ∨
      ∃ v, (∀ w, (ascii name, w) ∈ pairs ↔ w = v) ∧
        (takeQueryAttr pairs name set out).state = set out v := by
  cases hf : pairs.find? fun p => p.1 == ascii name with
  | none =>
      refine .inl ⟨fun v hv => ?_, ?_⟩
      · exact absurd (List.find?_eq_none.mp hf _ hv) (by simp)
      · simp only [takeQueryAttr, hf, Act.done_apply]
  | some p =>
      obtain ⟨hmem, hname⟩ := (find_attr honce).mp hf
      refine .inr ⟨p.2, fun w => ⟨fun hw => ?_, ?_⟩, ?_⟩
      · have h := (find_attr honce).mpr ⟨hw, rfl⟩
        rw [hf] at h
        rw [Option.some.inj h]
      · rintro rfl
        exact hname ▸ hmem
      · simp only [takeQueryAttr, hf] at hok ⊢
        split at hok
        · cases hok
        · next hz => rw [if_neg hz]

section

variable {Alg Key : Type} (h : Host Alg Key)

/-- The decoded pairs of a URL's query, in order. -/
def queryPairs (url : AdaUrl) : List (Bytes × Bytes) :=
  if url.search = [] then [] else h.adaSearchParams (url.search.drop 1)

variable {h}

theorem parseQuery_eq {url : AdaUrl} :
    parseQuery h url = Act.all [
      (checkQueryKeys 0 0 ((queryPairs h url).map (·.1))).keep,
      takeQueryAttr (queryPairs h url) "profile"
        fun out v => { out with profile := some v },
      takeQueryAttr (queryPairs h url) "endpoint"
        fun out v => { out with endpoint := some v }] := by
  unfold parseQuery queryPairs
  split
  · rfl
  · rfl

theorem parseQuery_ok {url : AdaUrl} {out : AwskmsUri} :
    (parseQuery h url out).ok = true ↔
      EachOnce "profile" "endpoint" (queryPairs h url) ∧
        ∀ pair ∈ queryPairs h url, 0 ∉ pair.2 := by
  rw [parseQuery_eq, Act.all_cons_ok, Act.all_cons_ok, Act.all_cons_ok,
    Reply.keep_ok, checkQueryKeys_once]
  constructor
  · rintro ⟨honce, hp, he, _⟩
    rw [takeQueryAttr_ok honce.once] at hp he
    refine ⟨honce, fun pair hpair => ?_⟩
    obtain ⟨name, v⟩ := pair
    rcases honce.known _ hpair with rfl | rfl
    · exact hp v hpair
    · exact he v hpair
  · rintro ⟨honce, hnul⟩
    refine ⟨honce, ?_, ?_, rfl⟩
    · exact (takeQueryAttr_ok honce.once).mpr fun v hv => hnul _ hv
    · exact (takeQueryAttr_ok honce.once).mpr fun v hv => hnul _ hv

theorem parseQuery_state {url : AdaUrl} {out : AwskmsUri}
    (hok : (parseQuery h url out).ok = true) (hprofile : out.profile = none)
    (hendpoint : out.endpoint = none) :
    let st := (parseQuery h url out).state
    st.keyId = out.keyId ∧ st.region = out.region ∧
      (∀ v, st.profile = some v ↔ (ascii "profile", v) ∈ queryPairs h url) ∧
      ∀ v, st.endpoint = some v ↔ (ascii "endpoint", v) ∈ queryPairs h url := by
  intro st
  have honce := (parseQuery_ok.mp hok).1.once
  simp only [st]
  rw [parseQuery_eq] at hok ⊢
  obtain ⟨h0, h1, h2, _⟩ := Act.all_cons_ok.mp hok |>.imp_right fun h =>
    (Act.all_cons_ok.mp h).imp_right Act.all_cons_ok.mp
  rw [Act.all_cons_state h0, Act.all_cons_state h1, Act.all_cons_state h2]
  simp only [Reply.keep_state, Act.all_nil, Act.done_apply] at h1 h2 ⊢
  rcases takeQueryAttr_state honce h1 with ⟨hp, hs1⟩ | ⟨v, hp, hs1⟩ <;>
    rw [hs1] at h2 ⊢ <;>
    rcases takeQueryAttr_state honce h2 with ⟨he, hs2⟩ | ⟨w, he, hs2⟩ <;>
    rw [hs2]
  · exact ⟨rfl, rfl, fun x => by simp [hprofile, hp x],
      fun x => by simp [hendpoint, he x]⟩
  · exact ⟨rfl, rfl, fun x => by simp [hprofile, hp x],
      fun x => by simp [he x, eq_comm]⟩
  · exact ⟨rfl, rfl, fun x => by simp [hp x, eq_comm],
      fun x => by simp [hendpoint, he x]⟩
  · exact ⟨rfl, rfl, fun x => by simp [hp x, eq_comm],
      fun x => by simp [he x, eq_comm]⟩

end

theorem colonField_iff {s a b : Bytes} :
    colonField s = some (a, b) ↔ 58 ∉ a ∧ s = a ++ 58 :: b := by
  unfold colonField
  constructor
  · intro hs
    split at hs
    · next hmem =>
        obtain ⟨hno, heq⟩ := cut_mem hmem
        obtain ⟨rfl, rfl⟩ := Prod.mk.inj (Option.some.inj hs)
        exact ⟨hno, heq⟩
    · cases hs
  · rintro ⟨hno, rfl⟩
    rw [if_pos (by simp), takeWhile_cut hno, dropWhile_cut hno]

theorem arnRegion_iff {id region : Bytes} :
    arnRegion id = some region ↔ ArnRegion id region := by
  constructor
  · intro hid
    unfold arnRegion at hid
    split at hid
    · cases hid
    · next hprefix =>
        have hid' : id = ascii "arn:" ++ id.drop 4 := by
          rw [← Decidable.not_not.mp hprefix, List.take_append_drop]
        split at hid
        · cases hid
        · next partition p1 hf1 =>
            split at hid
            · cases hid
            · next service p2 hf2 =>
                split at hid
                · cases hid
                · next r p3 hf3 =>
                    split at hid
                    · cases hid
                    · next field hf4 =>
                        obtain ⟨account, rest⟩ := field
                        split at hid
                        · cases hid
                        · next hkms =>
                            split at hid
                            · cases hid
                            · next hne =>
                                obtain rfl := Option.some.inj hid
                                obtain ⟨n1, e1⟩ := colonField_iff.mp hf1
                                obtain ⟨n2, e2⟩ := colonField_iff.mp hf2
                                obtain ⟨n3, e3⟩ := colonField_iff.mp hf3
                                obtain ⟨n4, e4⟩ := colonField_iff.mp hf4
                                have hp1 : p1 = ascii "kms" ++
                                    58 :: p1.drop 4 := by
                                  have h := List.take_append_drop 4 p1
                                  rw [Decidable.not_not.mp hkms] at h
                                  exact h.symm
                                obtain ⟨rfl, _⟩ := cut_unique n2 (by decide)
                                  (e2.symm.trans hp1)
                                refine ⟨hne, n3, partition, account, rest, n1,
                                  n4, ?_⟩
                                rw [← e4, ← e3, ← e2, ← e1]
                                exact hid'
  · rintro ⟨hne, hno, partition, account, rest, hpart, hacc, rfl⟩
    unfold arnRegion
    have hdrop : ∀ s : Bytes, (ascii "arn:" ++ s).drop 4 = s := fun s => rfl
    have htake : ∀ s : Bytes, (ascii "arn:" ++ s).take 4 = ascii "arn:" :=
      fun s => rfl
    have hkms : ∀ s : Bytes, (ascii "kms" ++ 58 :: s).take 4 = ascii "kms:" :=
      fun s => rfl
    simp only [htake, ne_eq, not_true_eq_false, if_false, hdrop,
      colonField_iff.mpr ⟨hpart, rfl⟩,
      colonField_iff.mpr ⟨(by decide : (58 : UInt8) ∉ ascii "kms"), rfl⟩,
      colonField_iff.mpr ⟨hno, rfl⟩, colonField_iff.mpr ⟨hacc, rfl⟩, hkms, hne]

/-! ## The whole parser

The routines run one after the other on one structure, and each fills its own
fields. An accepted URI is one for which all of them went through, and the
scheme says of the same fields what they found. -/

theorem isAttr_unique {item : Bytes} {a b : Bytes × Bytes}
    (ha : IsAttr item a) (hb : IsAttr item b) : a = b := by
  obtain ⟨hna, va, heqa, hda⟩ := ha
  obtain ⟨hnb, vb, heqb, hdb⟩ := hb
  obtain ⟨hname, hvalue⟩ := cut_unique hna hnb (heqa.symm.trans heqb)
  subst hvalue
  exact Prod.ext hname (hda.unique hdb)

theorem attrs_unique {items : List Bytes} {as bs : List (Bytes × Bytes)}
    (ha : List.Forall₂ IsAttr items as) (hb : List.Forall₂ IsAttr items bs) :
    as = bs := by
  induction ha generalizing bs with
  | nil => cases hb; rfl
  | cons hone _ ih =>
      cases hb with
      | cons hone' hb => rw [isAttr_unique hone hone', ih hb]

theorem arnRegion_unique {id r r' : Bytes} (hr : ArnRegion id r)
    (hr' : ArnRegion id r') : r = r' := by
  have h := arnRegion_iff.mpr hr
  rw [arnRegion_iff.mpr hr'] at h
  exact (Option.some.inj h).symm

/-- A URL names one URI at most. -/
theorem uriOf_unique {url : AdaUrl} {pairs : List (Bytes × Bytes)}
    {u u' : AwskmsUri} (hu : UriOf url pairs u) (hu' : UriOf url pairs u') :
    u = u' := by
  obtain ⟨attrs, hn⟩ := hu
  obtain ⟨attrs', hn'⟩ := hu'
  obtain rfl := attrs_unique hn.path hn'.path
  obtain ⟨id, _, hid, hmem, _, hregion⟩ := hn.keyId
  obtain ⟨id', _, hid', hmem', _, hregion'⟩ := hn'.keyId
  have hsame : id = id' := by
    have h := List.inj_on_of_nodup_map hn.pathNames.once hmem hmem' rfl
    exact congrArg Prod.snd h
  subst hsame
  obtain ⟨k, r, p, e⟩ := u
  obtain ⟨k', r', p', e'⟩ := u'
  have hr : r = r' := Option.ext fun v => (hregion v).trans (hregion' v).symm
  have hp : p = p' := Option.ext fun v =>
    (hn.profile v).trans (hn'.profile v).symm
  have he : e = e' := Option.ext fun v =>
    (hn.endpoint v).trans (hn'.endpoint v).symm
  simp only [] at hid hid'
  rw [hid, hid', hr, hp, he]

section

variable {Alg Key : Type} {h : Host Alg Key}

theorem checkScheme_iff {url : AdaUrl} {out : AwskmsUri} :
    (checkScheme url out).ok = true ↔ url.protocol = ascii "aws-kms:" := by
  unfold checkScheme
  split
  · next hne => simp [hne]
  · next heq => simp [Decidable.not_not.mp heq]

theorem checkScheme_state {url : AdaUrl} {out : AwskmsUri} :
    (checkScheme url out).state = out := by
  unfold checkScheme
  split <;> rfl

theorem checkHash_iff {url : AdaUrl} {out : AwskmsUri} :
    (checkHash url out).ok = true ↔ url.hash = [] := by
  unfold checkHash
  split
  · next hne => simp [hne]
  · next heq => simp [Decidable.not_not.mp heq]

theorem checkHash_state {url : AdaUrl} {out : AwskmsUri} :
    (checkHash url out).state = out := by
  unfold checkHash
  split <;> rfl

theorem requireKeyId_iff {out : AwskmsUri} :
    (requireKeyId out).ok = true ↔ ∃ id, id ≠ [] ∧ out.keyId = some id := by
  unfold requireKeyId
  cases hid : out.keyId with
  | none => simp
  | some id =>
      cases id with
      | nil => simp
      | cons c id => simp

theorem requireKeyId_state {out : AwskmsUri} :
    (requireKeyId out).state = out := by
  unfold requireKeyId
  split <;> rfl

/-- The cross-check, in terms of what the fields were before it. -/
theorem crossCheckRegion_iff {out : AwskmsUri} {id : Bytes}
    (hid : out.keyId = some id) :
    (crossCheckRegion out).ok = true ↔
      ∀ arn region, ArnRegion id arn → out.region = some region →
        region = arn := by
  unfold crossCheckRegion
  rw [hid, Option.getD_some]
  cases harn : arnRegion id with
  | none =>
      simp only [Act.done_apply, true_iff]
      intro arn region h
      rw [arnRegion_iff.mpr h] at harn
      cases harn
  | some arn =>
      have hone := arnRegion_iff.mp harn
      cases hreg : out.region with
      | none => simp
      | some region =>
          simp only [ne_eq]
          split
          · next hne =>
              simp only [Act.refuse_apply, Bool.false_eq_true, false_iff]
              exact fun hall => hne (hall arn region hone rfl)
          · next heq =>
              simp only [Act.done_apply, true_iff]
              rintro arn' region' harn' ⟨⟩
              rw [Decidable.not_not.mp heq, arnRegion_unique hone harn']

theorem crossCheckRegion_state {out : AwskmsUri} {id : Bytes}
    (hid : out.keyId = some id)
    (hok : (crossCheckRegion out).ok = true) :
    let st := (crossCheckRegion out).state
    st.keyId = out.keyId ∧ st.profile = out.profile ∧
      st.endpoint = out.endpoint ∧
      ∀ v, st.region = some v ↔ out.region = some v ∨ ArnRegion id v := by
  intro st
  have hagree := (crossCheckRegion_iff hid).mp hok
  simp only [st]
  unfold crossCheckRegion at hok ⊢
  rw [hid, Option.getD_some] at hok ⊢
  cases harn : arnRegion id with
  | none =>
      refine ⟨hid, rfl, rfl, fun v => ⟨.inl, ?_⟩⟩
      rintro (hv | hv)
      · exact hv
      · rw [arnRegion_iff.mpr hv] at harn
        cases harn
  | some arn =>
      have hone := arnRegion_iff.mp harn
      cases hreg : out.region with
      | none =>
          refine ⟨by simp, rfl, rfl, fun v => ⟨fun hv => ?_, ?_⟩⟩
          · obtain rfl := Option.some.inj hv
            exact .inr hone
          · rintro (hv | hv)
            · cases hv
            · rw [arnRegion_unique hone hv]
      | some region =>
          have heq := hagree arn region hone hreg
          simp only [ne_eq, heq, not_true_eq_false, if_false, Act.done_apply]
          refine ⟨by simp [hid], trivial, trivial, fun v => ?_⟩
          rw [hreg, heq]
          constructor
          · exact .inl
          · rintro (hv | hv)
            · exact hv
            · rw [arnRegion_unique hone hv]

/-- The steps of the parser after the URL is known to be valid. -/
def parseSteps (h : Host Alg Key) (url : AdaUrl) :
    List (Act AwskmsUri ProviderError) :=
  [checkScheme url, checkHash url, parsePathAttrs url.pathname,
    parseQuery h url, requireKeyId, crossCheckRegion]

theorem items_nul {pathname : Bytes} (hnul : 0 ∉ pathname) :
    ∀ item ∈ pathItems pathname, 0 ∉ item := by
  induction pathname with
  | nil =>
      intro item hitem
      rw [pathItems, List.mem_singleton] at hitem
      rw [hitem]
      exact List.not_mem_nil
  | cons c s ih =>
      have hs := ih fun hz => hnul (List.mem_cons_of_mem _ hz)
      rw [pathItems]
      split
      · intro item hitem
        rcases List.mem_cons.mp hitem with rfl | hitem
        · exact List.not_mem_nil
        · exact hs item hitem
      · intro item hitem hz
        split at hitem
        · rw [List.mem_singleton] at hitem
          subst hitem
          rw [List.mem_singleton] at hz
          exact hnul (hz ▸ List.mem_cons_self)
        · next first items hitems =>
            rw [hitems] at hs
            rcases List.mem_cons.mp hitem with rfl | hitem
            · rcases List.mem_cons.mp hz with rfl | hz
              · exact hnul List.mem_cons_self
              · exact hs first List.mem_cons_self hz
            · exact hs item (List.mem_cons_of_mem _ hitem) hz

/-- The path attributes of an accepted path, and the state they leave. -/
theorem parsePathAttrs_names {pathname : Bytes} (hnul : 0 ∉ pathname)
    (hok : (parsePathAttrs pathname AwskmsUri.zero).ok = true) :
    ∃ attrs, List.Forall₂ IsAttr (pathAttrs pathname) attrs ∧
      EachOnce "key-id" "region" attrs ∧
      let st := (parsePathAttrs pathname AwskmsUri.zero).state
      (∀ v, st.keyId = some v ↔ (ascii "key-id", v) ∈ attrs) ∧
      (∀ v, st.region = some v ↔ (ascii "region", v) ∈ attrs) ∧
      st.profile = none ∧ st.endpoint = none := by
  obtain ⟨attrs, hattrs, honce, hst⟩ := parsePathAttrs_ok (items_nul hnul) hok
  have hall := parsePathAttrs_of (items_nul hnul) hattrs honce hst
  have hkey : ascii "region" ≠ ascii "key-id" := by decide
  refine ⟨attrs, ?_, ⟨fun a ha => (hst a ha).1, honce⟩, ?_⟩
  · rw [pathAttrs, ← pathItems_eq]
    exact hattrs
  · simp only [parsePathAttrs, hall]
    obtain ⟨hp, he⟩ := foldl_setAttr_query attrs AwskmsUri.zero
    refine ⟨fun v => ?_, fun v => ?_, hp, he⟩
    · have hv := foldl_setAttr honce hst (.inl rfl) v
      simpa [attrSlot, AwskmsUri.zero] using hv
    · have hv := foldl_setAttr honce hst (.inr rfl) v
      simpa [attrSlot, hkey, AwskmsUri.zero] using hv

theorem parsePathAttrs_complete {pathname : Bytes} (hnul : 0 ∉ pathname)
    {attrs : List (Bytes × Bytes)}
    (hattrs : List.Forall₂ IsAttr (pathAttrs pathname) attrs)
    (honce : EachOnce "key-id" "region" attrs) :
    (parsePathAttrs pathname AwskmsUri.zero).ok = true := by
  rw [pathAttrs, ← pathItems_eq] at hattrs
  have hst : ∀ a ∈ attrs, Storable AwskmsUri.zero a := by
    intro a ha
    refine ⟨honce.known a ha, ?_⟩
    unfold attrSlot
    split <;> rfl
  rw [parsePathAttrs, parsePathAttrs_of (items_nul hnul) hattrs honce.once hst]

/-- An acceptance, step by step, is a URI of the scheme. -/
theorem parseSteps_names {url : AdaUrl} (hvalid : url.valid = true)
    (hnul : 0 ∉ url.pathname)
    (hok : (Act.all (parseSteps h url) AwskmsUri.zero).ok = true) :
    UriOf url (queryPairs h url)
      (Act.all (parseSteps h url) AwskmsUri.zero).state := by
  unfold parseSteps at hok ⊢
  obtain ⟨h1, hok⟩ := Act.all_cons_ok.mp hok
  rw [checkScheme_state] at hok
  obtain ⟨h2, hok⟩ := Act.all_cons_ok.mp hok
  rw [checkHash_state] at hok
  obtain ⟨h3, hok⟩ := Act.all_cons_ok.mp hok
  obtain ⟨attrs, hattrs, honce, hkey, hreg, hp, he⟩ :=
    parsePathAttrs_names hnul h3
  rw [Act.all_cons_state h1, checkScheme_state, Act.all_cons_state h2,
    checkHash_state, Act.all_cons_state h3]
  generalize (parsePathAttrs url.pathname AwskmsUri.zero).state = st
    at hok hkey hreg hp he
  obtain ⟨h4, hok⟩ := Act.all_cons_ok.mp hok
  obtain ⟨hk4, hr4, hp4, he4⟩ := parseQuery_state h4 hp he
  rw [Act.all_cons_state h4]
  generalize (parseQuery h url st).state = st4 at hok hk4 hr4 hp4 he4
  obtain ⟨h5, hok⟩ := Act.all_cons_ok.mp hok
  rw [Act.all_cons_state h5, requireKeyId_state]
  rw [requireKeyId_state] at hok
  obtain ⟨h6, _⟩ := Act.all_cons_ok.mp hok
  rw [Act.all_cons_state h6, Act.all_nil, Act.done_apply]
  obtain ⟨id, hne, hid⟩ := requireKeyId_iff.mp h5
  obtain ⟨hk6, hp6, he6, hr6⟩ := crossCheckRegion_state hid h6
  have hagree := (crossCheckRegion_iff hid).mp h6
  obtain ⟨hquery, hvalues⟩ := parseQuery_ok.mp h4
  refine ⟨attrs, hvalid, checkScheme_iff.mp h1, checkHash_iff.mp h2, hattrs,
    honce, hquery, hvalues, ⟨id, hne, hk6.trans hid, ?_, ?_, ?_⟩, ?_, ?_⟩
  · exact (hkey id).mp (hk4.symm.trans hid)
  · intro arn region harn hmem
    exact hagree arn region harn (hr4.trans ((hreg region).mpr hmem))
  · intro region
    rw [hr6, hr4, hreg]
  · intro v
    rw [hp6]
    exact hp4 v
  · intro v
    rw [he6]
    exact he4 v

/-- A URI of the scheme gets through every step. -/
theorem parseSteps_complete {url : AdaUrl} {attrs : List (Bytes × Bytes)}
    {u : AwskmsUri} (hnul : 0 ∉ url.pathname)
    (hn : Names url attrs (queryPairs h url) u) :
    (Act.all (parseSteps h url) AwskmsUri.zero).ok = true := by
  obtain ⟨id, hne, _, hmem, hagree, _⟩ := hn.keyId
  have h3 := parsePathAttrs_complete hnul hn.path hn.pathNames
  obtain ⟨attrs', hattrs', _, hkey, hreg, hp, he⟩ :=
    parsePathAttrs_names hnul h3
  obtain rfl := attrs_unique hn.path hattrs'
  unfold parseSteps
  rw [Act.all_cons_ok, Act.all_cons_ok, Act.all_cons_ok, Act.all_cons_ok,
    Act.all_cons_ok, Act.all_cons_ok]
  simp only [checkScheme_state, checkHash_state]
  generalize (parsePathAttrs url.pathname AwskmsUri.zero).state = st
    at hkey hreg hp he
  have h4 : (parseQuery h url st).ok = true :=
    parseQuery_ok.mpr ⟨hn.queryNames, hn.queryValues⟩
  obtain ⟨hk4, hr4, _, _⟩ := parseQuery_state h4 hp he
  have hid : (parseQuery h url st).state.keyId = some id :=
    hk4.trans ((hkey id).mpr hmem)
  refine ⟨checkScheme_iff.mpr hn.scheme, checkHash_iff.mpr hn.fragment, h3, h4,
    requireKeyId_iff.mpr ⟨id, hne, hid⟩, ?_, rfl⟩
  rw [requireKeyId_state]
  refine (crossCheckRegion_iff hid).mpr fun arn region harn hregion => ?_
  exact hagree arn region harn ((hreg region).mp (hr4.symm.trans hregion))

/-- An accepted URI has a key id, and it is not empty. -/
theorem awskmsUriParse_keyId {uri : Option Bytes}
    (hok : (awskmsUriParse h uri AwskmsUri.zero).ok = true) :
    ∃ id, id ≠ [] ∧
      (awskmsUriParse h uri AwskmsUri.zero).state.keyId = some id := by
  cases uri with
  | none => cases hok
  | some s =>
      simp only [awskmsUriParse] at hok ⊢
      rw [Act.onFail_of_ok hok]
      rw [Act.onFail_ok] at hok
      split at hok
      · cases hok
      · next hvalid =>
          simp only [if_neg hvalid]
          obtain ⟨h1, hok⟩ := Act.all_cons_ok.mp hok
          obtain ⟨h2, hok⟩ := Act.all_cons_ok.mp hok
          obtain ⟨h3, hok⟩ := Act.all_cons_ok.mp hok
          obtain ⟨h4, hok⟩ := Act.all_cons_ok.mp hok
          rw [Act.all_cons_state h1, Act.all_cons_state h2,
            Act.all_cons_state h3, Act.all_cons_state h4]
          generalize (parseQuery h (h.adaParse s) _).state = st at hok ⊢
          obtain ⟨h5, hok⟩ := Act.all_cons_ok.mp hok
          rw [Act.all_cons_state h5, requireKeyId_state]
          rw [requireKeyId_state] at hok
          obtain ⟨h6, _⟩ := Act.all_cons_ok.mp hok
          rw [Act.all_cons_state h6]
          obtain ⟨id, hne, hid⟩ := requireKeyId_iff.mp h5
          exact ⟨id, hne, (crossCheckRegion_state hid h6).1.trans hid⟩

/-- Two URLs that differ in the order of their attributes alone. -/
structure Reordered (url url' : AdaUrl) (pairs pairs' : List (Bytes × Bytes)) :
    Prop where
  valid : url'.valid = url.valid
  scheme : url'.protocol = url.protocol
  fragment : url'.hash = url.hash
  path : (pathAttrs url'.pathname).Perm (pathAttrs url.pathname)
  query : pairs'.Perm pairs

theorem Reordered.symm {url url' : AdaUrl} {pairs pairs' : List (Bytes × Bytes)}
    (hr : Reordered url url' pairs pairs') : Reordered url' url pairs' pairs :=
  ⟨hr.valid.symm, hr.scheme.symm, hr.fragment.symm, hr.path.symm,
    hr.query.symm⟩

theorem eachOnce_perm {name name' : String} {as bs : List (Bytes × Bytes)}
    (hperm : bs.Perm as) (ha : EachOnce name name' as) :
    EachOnce name name' bs :=
  ⟨fun b hb => ha.known b (hperm.mem_iff.mp hb),
    (hperm.map (·.1)).nodup_iff.mpr ha.once⟩

/-- What a URL names does not depend on the order of its attributes. -/
theorem uriOf_reordered {url url' : AdaUrl} {pairs pairs' : List (Bytes × Bytes)}
    {u : AwskmsUri} (hr : Reordered url url' pairs pairs')
    (hu : UriOf url pairs u) : UriOf url' pairs' u := by
  obtain ⟨attrs, hn⟩ := hu
  obtain ⟨attrs', hattrs, hperm⟩ := List.perm_comp_forall₂ hr.path hn.path
  obtain ⟨id, hne, hid, hmem, hagree, hregion⟩ := hn.keyId
  refine ⟨attrs', hr.valid.trans hn.valid, hr.scheme.trans hn.scheme,
    hr.fragment.trans hn.fragment, hattrs, eachOnce_perm hperm hn.pathNames,
    eachOnce_perm hr.query hn.queryNames,
    fun p hp => hn.queryValues p (hr.query.mem_iff.mp hp),
    ⟨id, hne, hid, hperm.mem_iff.mpr hmem, ?_, ?_⟩, ?_, ?_⟩
  · intro arn region harn hreg
    exact hagree arn region harn (hperm.mem_iff.mp hreg)
  · intro region
    rw [hregion, hperm.mem_iff]
  · intro v
    rw [hn.profile, hr.query.mem_iff]
  · intro v
    rw [hn.endpoint, hr.query.mem_iff]

/-- A path that spells both its values in escapes. -/
def escapedPath (id region : Bytes) : Bytes :=
  (ascii "key-id" ++ 61 :: percentEncode id) ++
    59 :: (ascii "region" ++ 61 :: percentEncode region)

theorem escapedPath_attrs {id region : Bytes} (hid : 0 ∉ id)
    (hregion : 0 ∉ region) :
    List.Forall₂ IsAttr (pathAttrs (escapedPath id region))
      [(ascii "key-id", id), (ascii "region", region)] := by
  have hsep : ∀ v : Bytes, 59 ∉ percentEncode v := by
    intro v hmem
    have h := mem_percentEncode hmem
    revert h
    decide
  have hno : ∀ (name v : Bytes), 59 ∉ name → 59 ∉ name ++ 61 :: percentEncode v := by
    intro name v hname hmem
    rcases List.mem_append.mp hmem with hmem | hmem
    · exact hname hmem
    · rcases List.mem_cons.mp hmem with hmem | hmem
      · exact absurd hmem (by decide)
      · exact hsep v hmem
  have hsplit : (escapedPath id region).splitOn 59 =
      [ascii "key-id" ++ 61 :: percentEncode id,
        ascii "region" ++ 61 :: percentEncode region] := by
    rw [escapedPath, List.splitOn_append_cons_self_of_not_mem
      (hno _ _ (by decide)), List.splitOn_eq_singleton (hno _ _ (by decide))]
  rw [pathAttrs, hsplit]
  have hk : (61 : UInt8) ∉ ascii "key-id" := by decide
  have hr : (61 : UInt8) ∉ ascii "region" := by decide
  exact .cons ⟨hk, _, rfl, percentDecodes_encode hid⟩
    (.cons ⟨hr, _, rfl, percentDecodes_encode hregion⟩ .nil)

theorem uriOf_escaped {id region : Bytes} (hne : id ≠ []) (hid : 0 ∉ id)
    (hregion : 0 ∉ region) (hagree : ∀ arn, ArnRegion id arn → region = arn) :
    UriOf ⟨true, ascii "aws-kms:", escapedPath id region, [], []⟩ []
      ⟨some id, some region, none, none⟩ := by
  have hkey : ascii "region" ≠ ascii "key-id" := by decide
  refine ⟨_, rfl, rfl, rfl, escapedPath_attrs hid hregion, ⟨?_, ?_⟩,
    ⟨nofun, List.nodup_nil⟩, nofun, ⟨id, hne, rfl, List.mem_cons_self, ?_, ?_⟩,
    by simp, by simp⟩
  · intro attr hattr
    simp only [List.mem_cons, List.not_mem_nil, or_false] at hattr
    rcases hattr with rfl | rfl
    · exact .inl rfl
    · exact .inr rfl
  · simp [hkey.symm]
  · intro arn r harn hmem
    simp only [List.mem_cons, Prod.mk.injEq, hkey, false_and, true_and,
      List.not_mem_nil, or_false, false_or] at hmem
    rw [hmem]
    exact hagree arn harn
  · intro r
    simp only [Option.some.injEq, List.mem_cons, Prod.mk.injEq, hkey, false_and,
      true_and, List.not_mem_nil, or_false, false_or]
    constructor
    · rintro rfl
      exact .inl rfl
    · rintro (rfl | harn)
      · rfl
      · exact hagree r harn

/-- What is relied on the URL parser for: it puts no NUL into a pathname. -/
def NulFree (h : Host Alg Key) : Prop :=
  ∀ s : Bytes, 0 ∉ s → 0 ∉ (h.adaParse s).pathname

/-- The parser on one string: it accepts exactly the URIs of the scheme and
returns what they name, clears its output otherwise, does not see the order of
attributes, and takes any value in escapes. -/
structure ParsesExactly (h : Host Alg Key) (s : Bytes) : Prop where
  accepts : ∀ u, ((awskmsUriParse h (some s) AwskmsUri.zero).ok = true ∧
      (awskmsUriParse h (some s) AwskmsUri.zero).state = u) ↔
    UriOf (h.adaParse s) (queryPairs h (h.adaParse s)) u
  clears : (awskmsUriParse h (some s) AwskmsUri.zero).ok = false →
    (awskmsUriParse h (some s) AwskmsUri.zero).state = AwskmsUri.zero
  unordered : ∀ s', 0 ∉ s' → Reordered (h.adaParse s) (h.adaParse s')
      (queryPairs h (h.adaParse s)) (queryPairs h (h.adaParse s')) →
    (awskmsUriParse h (some s') AwskmsUri.zero).ok =
        (awskmsUriParse h (some s) AwskmsUri.zero).ok ∧
      (awskmsUriParse h (some s') AwskmsUri.zero).state =
        (awskmsUriParse h (some s) AwskmsUri.zero).state
  escaped : ∀ id region, id ≠ [] → 0 ∉ id → 0 ∉ region →
    (∀ arn, ArnRegion id arn → region = arn) →
    h.adaParse s = ⟨true, ascii "aws-kms:", escapedPath id region, [], []⟩ →
    (awskmsUriParse h (some s) AwskmsUri.zero).ok = true ∧
      (awskmsUriParse h (some s) AwskmsUri.zero).state =
        ⟨some id, some region, none, none⟩

theorem awskmsUriParse_accepts {s : Bytes} (hnul : 0 ∉ (h.adaParse s).pathname)
    (u : AwskmsUri) :
    ((awskmsUriParse h (some s) AwskmsUri.zero).ok = true ∧
      (awskmsUriParse h (some s) AwskmsUri.zero).state = u) ↔
      UriOf (h.adaParse s) (queryPairs h (h.adaParse s)) u := by
  cases hvalid : (h.adaParse s).valid with
  | false =>
      constructor
      · rintro ⟨hok, _⟩
        simp only [awskmsUriParse, hvalid, Act.onFail_ok, if_true,
          Act.refuse_apply] at hok
        cases hok
      · rintro ⟨attrs, hn⟩
        rw [hn.valid] at hvalid
        cases hvalid
  | true =>
      have hparse : awskmsUriParse h (some s) =
          (Act.all (parseSteps h (h.adaParse s))).onFail
            fun _ => AwskmsUri.zero := by
        simp only [awskmsUriParse, hvalid, Bool.true_eq_false, if_false,
          parseSteps]
      rw [hparse]
      constructor
      · rintro ⟨hok, rfl⟩
        rw [Act.onFail_of_ok hok]
        rw [Act.onFail_ok] at hok
        exact parseSteps_names hvalid hnul hok
      · rintro ⟨attrs, hn⟩
        have hok := parseSteps_complete hnul hn
        rw [Act.onFail_of_ok (by rw [Act.onFail_ok, hok])]
        exact ⟨hok, uriOf_unique (parseSteps_names hvalid hnul hok)
          ⟨attrs, hn⟩⟩

theorem awskmsUriParse_clears {s : Bytes}
    (hok : (awskmsUriParse h (some s) AwskmsUri.zero).ok = false) :
    (awskmsUriParse h (some s) AwskmsUri.zero).state = AwskmsUri.zero := by
  simp only [awskmsUriParse] at hok ⊢
  rw [Act.onFail_of_failed hok]

/-- URI acceptance is exact and all-or-nothing. -/
theorem awskmsUriParse_exact (hnul : NulFree h) {s : Bytes} (hs : 0 ∉ s) :
    ParsesExactly h s := by
  have haccepts := awskmsUriParse_accepts (hnul s hs)
  refine ⟨haccepts, awskmsUriParse_clears, fun s' hs' hr => ?_, ?_⟩
  · have haccepts' := awskmsUriParse_accepts (hnul s' hs')
    cases hok : (awskmsUriParse h (some s) AwskmsUri.zero).ok with
    | true =>
        have hu := (haccepts _).mp ⟨hok, rfl⟩
        exact (haccepts' _).mpr (uriOf_reordered hr hu)
    | false =>
        cases hok' : (awskmsUriParse h (some s') AwskmsUri.zero).ok with
        | true =>
            have hu := (haccepts' _).mp ⟨hok', rfl⟩
            have hback := (haccepts _).mpr (uriOf_reordered hr.symm hu)
            rw [hok] at hback
            cases hback.1
        | false =>
            rw [awskmsUriParse_clears hok, awskmsUriParse_clears hok']
            exact ⟨rfl, rfl⟩
  · intro id region hne hid hregion hagree hurl
    refine (haccepts _).mpr ?_
    rw [hurl]
    exact uriOf_escaped hne hid hregion hagree

end

theorem Bench.nulFree : NulFree Bench.host := fun _ hs hmem =>
  hs (List.mem_of_mem_drop hmem)

theorem awskmsUriParse_exact_bench :
    ParsesExactly Bench.host
      (ascii "aws-kms:region=eu-west-1;;key-id=alias%2fec;") :=
  awskmsUriParse_exact Bench.nulFree (by decide)

example : (awskmsUriParse Bench.host
    (some (ascii "aws-kms:region=eu-west-1;;key-id=alias%2fec;"))
    AwskmsUri.zero).state =
    ⟨some (ascii "alias/ec"), some (ascii "eu-west-1"), none, none⟩ := by
  decide +kernel

end AwsKms.Model
