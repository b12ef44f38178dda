import Mathlib.Data.List.Nodup
import Mathlib.Data.List.TakeWhile
import AwsKms.Spec.UriScheme

/-!
# The attributes of the path

`parse_path_attrs` is a loop over the items of the opaque path with one output
structure. Two lemmas say what it does: items that spell attributes of free
fields are stored one after the other (`parsePathAttrs_of`), and items that
were all stored spell such attributes (`parsePathAttrs_ok`). Under them is the
decoding loop, which is `PercentDecodes`.
-/

namespace AwsKms.Model

open AwsKms.Lib AwsKms.Spec

theorem hexval_iff {c n : UInt8} : hexval c = some n ↔ HexDigit c n := by
  constructor
  · intro hc
    unfold hexval at hc
    split at hc
    · next hd =>
        obtain rfl := Option.some.inj hc
        exact .decimal hd.1 hd.2
    · split at hc
      · next hl =>
          obtain rfl := Option.some.inj hc
          exact .lower hl.1 hl.2
      · split at hc
        · next hu =>
            obtain rfl := Option.some.inj hc
            exact .upper hu.1 hu.2
        · cases hc
  · intro hd
    unfold hexval
    cases hd with
    | decimal h1 h2 => rw [if_pos ⟨h1, h2⟩]
    | lower h1 h2 =>
        rw [if_neg (by grind), if_pos ⟨h1, h2⟩]
    | upper h1 h2 =>
        rw [if_neg (by grind), if_neg (by grind), if_pos ⟨h1, h2⟩]

theorem decodeBytes_plain {c : UInt8} {rest : Bytes} (hc : c ≠ 37) :
    decodeBytes (c :: rest) = (decodeBytes rest).map fun out => c :: out := by
  cases rest with
  | nil => simp [decodeBytes, hc]
  | cons d rest =>
      cases rest with
      | nil => simp [decodeBytes, hc]
      | cons d' rest =>
          rw [decodeBytes]
          exact if_neg hc

theorem decodeBytes_iff {s v : Bytes} :
    decodeBytes s = some v ↔ PercentDecodes s v := by
  constructor
  · intro hs
    induction s using decodeBytes.induct generalizing v with
    | case1 =>
        obtain rfl := Option.some.inj hs
        exact .nil
    | case2 hi lo tail a b hb ha hz =>
        simp [decodeBytes, ha, hb, hz] at hs
    | case3 hi lo tail a b hb ha hz ih =>
        simp only [decodeBytes, ha, hb, if_neg hz, if_true] at hs
        obtain ⟨out, hout, rfl⟩ := Option.map_eq_some_iff.mp hs
        exact .escape (hexval_iff.mp ha) (hexval_iff.mp hb) hz (ih hout)
    | case4 hi lo tail hno =>
        simp only [decodeBytes, if_true] at hs
        cases hs
    | case5 rest hno =>
        cases rest with
        | nil => simp [decodeBytes] at hs
        | cons hi rest =>
            cases rest with
            | nil => simp [decodeBytes] at hs
            | cons lo tail => exact absurd rfl (hno hi lo tail)
    | case6 c rest hc ih =>
        rw [decodeBytes_plain hc] at hs
        obtain ⟨out, hout, rfl⟩ := Option.map_eq_some_iff.mp hs
        exact .plain hc (ih hout)
  · intro hd
    induction hd with
    | nil => rfl
    | plain hc _ ih => rw [decodeBytes_plain hc, ih, Option.map_some]
    | escape ha hb hne _ ih =>
        simp only [decodeBytes, hexval_iff.mpr ha, hexval_iff.mpr hb,
          if_neg hne, if_true, ih, Option.map_some]

theorem cString_of_nul {v : Bytes} (hv : 0 ∉ v) : cString v = v := by
  refine List.takeWhile_eq_self_iff.mpr fun c hc => ?_
  simp only [ne_eq, decide_eq_true_eq]
  rintro rfl
  exact hv hc

theorem decode_iff {s v : Bytes} (hs : 0 ∉ s) :
    decode s = some v ↔ PercentDecodes s v := by
  unfold decode
  constructor
  · intro hd
    obtain ⟨out, hout, rfl⟩ := Option.map_eq_some_iff.mp hd
    have hdec := decodeBytes_iff.mp hout
    rwa [cString_of_nul (hdec.nul hs)]
  · intro hd
    rw [decodeBytes_iff.mpr hd, Option.map_some, cString_of_nul (hd.nul hs)]

theorem pathItems_eq (s : Bytes) : pathItems s = s.splitOn 59 := by
  induction s with
  | nil => rfl
  | cons c s ih =>
      rw [pathItems, List.splitOn_cons_eq_if_modifyHead, ih]
      by_cases hc : c = 59
      · simp [hc]
      · rw [if_neg hc, if_neg (by simpa using hc)]
        cases hs : s.splitOn 59 with
        | nil => exact absurd hs (List.splitOn_ne_nil _ _)
        | cons item items => rfl

/-- The field an attribute goes to. -/
def attrSlot (name : Bytes) (out : AwskmsUri) : Option Bytes :=
  if name = ascii "key-id" then out.keyId else out.region

/-- The structure with an attribute stored. -/
def setAttr (out : AwskmsUri) (attr : Bytes × Bytes) : AwskmsUri :=
  if attr.1 = ascii "key-id" then { out with keyId := some attr.2 }
  else { out with region := some attr.2 }

/-- An attribute the scheme knows, in a field that is still free. -/
def Storable (out : AwskmsUri) (attr : Bytes × Bytes) : Prop :=
  (attr.1 = ascii "key-id" ∨ attr.1 = ascii "region") ∧
    attrSlot attr.1 out = none

theorem parsePathAttr_empty {out : AwskmsUri} :
    parsePathAttr [] out = ⟨true, out, []⟩ := by
  unfold parsePathAttr
  rw [if_pos rfl]
  rfl

theorem parsePathAttr_of {item : Bytes} {attr : Bytes × Bytes}
    {out : AwskmsUri} (hnul : 0 ∉ item) (hattr : IsAttr item attr)
    (hst : Storable out attr) :
    parsePathAttr item out = ⟨true, setAttr out attr, []⟩ := by
  obtain ⟨name, v⟩ := attr
  obtain ⟨hno, value, rfl, hdec⟩ := hattr
  obtain ⟨hknown, hfree⟩ := hst
  have hvalue : decode value = some v := by
    refine (decode_iff fun h => hnul ?_).mpr hdec
    simp [h]
  have hne : name ++ 61 :: value ≠ [] := by simp
  have hmem : (61 : UInt8) ∈ name ++ 61 :: value := by simp
  simp only [parsePathAttr, if_neg hne, hmem, not_true_eq_false, if_false,
    takeWhile_cut hno, dropWhile_cut hno]
  rcases hknown with rfl | rfl
  · simp only [attrSlot, if_true] at hfree
    simp only [setAttr, if_true, storeAttr, hfree, Option.isSome_none,
      Bool.false_eq_true, if_false, hvalue]
  · have hkey : ascii "region" ≠ ascii "key-id" := by decide
    simp only [attrSlot, if_neg hkey] at hfree
    simp only [setAttr, if_neg hkey, if_true, storeAttr, hfree,
      Option.isSome_none, Bool.false_eq_true, if_false, hvalue]

theorem storeAttr_ok {name value : Bytes} {slot : AwskmsUri → Option Bytes}
    {set : AwskmsUri → Bytes → AwskmsUri} {out : AwskmsUri}
    (hok : (storeAttr name value slot set out).ok = true) :
    slot out = none ∧ ∃ v, decode value = some v := by
  unfold storeAttr at hok
  split at hok
  · cases hok
  · next hfree =>
      refine ⟨by simpa using hfree, ?_⟩
      split at hok
      · cases hok
      · next v hv => exact ⟨v, hv⟩

theorem parsePathAttr_ok {item : Bytes} {out : AwskmsUri} (hnul : 0 ∉ item)
    (hne : item ≠ []) (hok : (parsePathAttr item out).ok = true) :
    ∃ attr, IsAttr item attr ∧ Storable out attr := by
  unfold parsePathAttr at hok
  simp only [if_neg hne] at hok
  split at hok
  · cases hok
  · next hmem =>
      have hmem' := Decidable.not_not.mp hmem
      obtain ⟨hno, heq⟩ := cut_mem hmem'
      have hvalue : (0 : UInt8) ∉ (item.dropWhile (· ≠ 61)).drop 1 := by
        intro h
        rw [heq] at hnul
        exact hnul (List.mem_append_right _ (List.mem_cons_of_mem _ h))
      split at hok
      · next hkey =>
          obtain ⟨hfree, v, hv⟩ := storeAttr_ok hok
          refine ⟨(ascii "key-id", v), ⟨hkey ▸ hno, _, hkey ▸ heq,
            (decode_iff hvalue).mp hv⟩, .inl rfl, ?_⟩
          rw [attrSlot, if_pos rfl]
          exact hfree
      · split at hok
        · next hreg =>
            obtain ⟨hfree, v, hv⟩ := storeAttr_ok hok
            refine ⟨(ascii "region", v), ⟨hreg ▸ hno, _, hreg ▸ heq,
              (decode_iff hvalue).mp hv⟩, .inr rfl, ?_⟩
            have hkey : ascii "region" ≠ ascii "key-id" := by decide
            rw [attrSlot, if_neg hkey]
            exact hfree
        · cases hok

theorem setAttr_slot {out : AwskmsUri} {attr : Bytes × Bytes} {name : Bytes}
    (hname : name = ascii "key-id" ∨ name = ascii "region")
    (hattr : attr.1 = ascii "key-id" ∨ attr.1 = ascii "region")
    (hne : name ≠ attr.1) :
    attrSlot name (setAttr out attr) = attrSlot name out := by
  obtain ⟨aname, v⟩ := attr
  have hkey : ascii "region" ≠ ascii "key-id" := by decide
  rcases hname with rfl | rfl <;> rcases hattr with rfl | rfl
  · exact absurd rfl hne
  · simp [attrSlot, setAttr, hkey]
  · simp [attrSlot, setAttr, hkey]
  · exact absurd rfl hne

theorem setAttr_stored {out : AwskmsUri} {attr : Bytes × Bytes} :
    attrSlot attr.1 (setAttr out attr) = some attr.2 := by
  unfold attrSlot setAttr
  split <;> rfl

theorem Storable.setAttr {out : AwskmsUri} {a b : Bytes × Bytes}
    (ha : Storable out a) (hb : b.1 = ascii "key-id" ∨ b.1 = ascii "region")
    (hne : a.1 ≠ b.1) : Storable (setAttr out b) a :=
  ⟨ha.1, by rw [setAttr_slot ha.1 hb hne]; exact ha.2⟩

/-- Attributes that fit are stored, one after the other. -/
theorem parsePathAttrs_of {items : List Bytes} {attrs : List (Bytes × Bytes)}
    {out : AwskmsUri} (hnul : ∀ item ∈ items, 0 ∉ item)
    (hattrs : List.Forall₂ IsAttr (items.filter (· ≠ [])) attrs)
    (honce : (attrs.map (·.1)).Nodup) (hst : ∀ a ∈ attrs, Storable out a) :
    Act.all (items.map parsePathAttr) out =
      ⟨true, attrs.foldl setAttr out, []⟩ := by
  induction items generalizing attrs out with
  | nil =>
      cases hattrs
      rfl
  | cons item items ih =>
      have hitems : ∀ item ∈ items, 0 ∉ item := fun x hx =>
        hnul x (List.mem_cons_of_mem _ hx)
      rw [List.map_cons, Act.all_cons]
      by_cases hne : item = []
      · subst hne
        rw [Act.andThen_of_ok (by rw [parsePathAttr_empty]), parsePathAttr_empty]
        simp only [List.nil_append]
        rw [ih hitems (by simpa using hattrs) honce hst]
      · rw [List.filter_cons_of_pos (by simpa using hne)] at hattrs
        cases hattrs with
        | @cons _ attr _ attrs hattr hattrs =>
            have hone := parsePathAttr_of (hnul item List.mem_cons_self) hattr
              (hst attr List.mem_cons_self)
            rw [List.map_cons, List.nodup_cons] at honce
            rw [Act.andThen_of_ok (by rw [hone]), hone]
            simp only [List.nil_append, List.foldl_cons]
            rw [ih hitems hattrs honce.2 fun a ha =>
              (hst a (List.mem_cons_of_mem _ ha)).setAttr
                (hst attr List.mem_cons_self).1 fun heq =>
                  honce.1 (List.mem_map.mpr ⟨a, ha, heq⟩)]

/-- Items that were all stored are attributes that fit. -/
theorem parsePathAttrs_ok {items : List Bytes} {out : AwskmsUri}
    (hnul : ∀ item ∈ items, 0 ∉ item)
    (hok : (Act.all (items.map parsePathAttr) out).ok = true) :
    ∃ attrs, List.Forall₂ IsAttr (items.filter (· ≠ [])) attrs ∧
      (attrs.map (·.1)).Nodup ∧ ∀ a ∈ attrs, Storable out a := by
  induction items generalizing out with
  | nil => exact ⟨[], .nil, List.nodup_nil, nofun⟩
  | cons item items ih =>
      have hitems : ∀ item ∈ items, 0 ∉ item := fun x hx =>
        hnul x (List.mem_cons_of_mem _ hx)
      rw [List.map_cons, Act.all_cons] at hok
      obtain ⟨hhead, hrest⟩ := Act.andThen_ok.mp hok
      by_cases hne : item = []
      · subst hne
        rw [parsePathAttr_empty] at hrest
        obtain ⟨attrs, h1, h2, h3⟩ := ih hitems hrest
        exact ⟨attrs, by simpa using h1, h2, h3⟩
      · obtain ⟨attr, hattr, hst⟩ :=
          parsePathAttr_ok (hnul item List.mem_cons_self) hne hhead
        rw [parsePathAttr_of (hnul item List.mem_cons_self) hattr hst] at hrest
        obtain ⟨attrs, h1, h2, h3⟩ := ih hitems hrest
        -- a name met again would find its field taken
        have hfresh : ∀ a ∈ attrs, a.1 ≠ attr.1 := by
          intro a ha heq
          have hfree := (h3 a ha).2
          rw [heq, setAttr_stored] at hfree
          cases hfree
        refine ⟨attr :: attrs, ?_, ?_, fun a ha => ?_⟩
        · rw [List.filter_cons_of_pos (by simpa using hne)]
          exact .cons hattr h1
        · rw [List.map_cons, List.nodup_cons]
          refine ⟨fun hmem => ?_, h2⟩
          obtain ⟨a, ha, heq⟩ := List.mem_map.mp hmem
          exact hfresh a ha heq
        · rcases List.mem_cons.mp ha with rfl | ha
          · exact hst
          · have h := h3 a ha
            rw [Storable, setAttr_slot h.1 hst.1 (hfresh a ha)] at h
            exact h

/-- What the stored attributes make of a free field. -/
theorem foldl_setAttr {attrs : List (Bytes × Bytes)} {out : AwskmsUri}
    (honce : (attrs.map (·.1)).Nodup) (hst : ∀ a ∈ attrs, Storable out a)
    {name : Bytes} (hname : name = ascii "key-id" ∨ name = ascii "region")
    (v : Bytes) :
    attrSlot name (attrs.foldl setAttr out) = some v ↔
      attrSlot name out = some v ∨ (name, v) ∈ attrs := by
  induction attrs generalizing out with
  | nil => simp
  | cons attr attrs ih =>
      obtain ⟨hkattr, hfree⟩ := hst attr List.mem_cons_self
      rw [List.map_cons, List.nodup_cons] at honce
      have hrest : ∀ a ∈ attrs, Storable (setAttr out attr) a := fun a ha =>
        (hst a (List.mem_cons_of_mem _ ha)).setAttr hkattr fun heq =>
          honce.1 (List.mem_map.mpr ⟨a, ha, heq⟩)
      rw [List.foldl_cons, ih honce.2 hrest, List.mem_cons]
      by_cases hne : name = attr.1
      · subst hne
        rw [setAttr_stored, hfree]
        constructor
        · rintro (h | h)
          · obtain rfl := Option.some.inj h
            exact .inr (.inl rfl)
          · exact .inr (.inr h)
        · rintro (h | h | h)
          · cases h
          · exact .inl (congrArg (fun p : Bytes × Bytes => some p.2) h).symm
          · exact .inr h
      · rw [setAttr_slot hname hkattr hne]
        constructor
        · rintro (h | h)
          · exact .inl h
          · exact .inr (.inr h)
        · rintro (h | h | h)
          · exact .inl h
          · exact absurd (congrArg Prod.fst h) hne
          · exact .inr h

theorem foldl_setAttr_query (attrs : List (Bytes × Bytes)) (out : AwskmsUri) :
    (attrs.foldl setAttr out).profile = out.profile ∧
      (attrs.foldl setAttr out).endpoint = out.endpoint := by
  induction attrs generalizing out with
  | nil => exact ⟨rfl, rfl⟩
  | cons attr attrs ih =>
      have hone : (setAttr out attr).profile = out.profile ∧
          (setAttr out attr).endpoint = out.endpoint := by
        unfold setAttr
        split <;> exact ⟨rfl, rfl⟩
      rw [List.foldl_cons, (ih _).1, (ih _).2]
      exact hone

end AwsKms.Model
