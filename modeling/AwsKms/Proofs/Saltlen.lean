import Mathlib.Data.List.Induction
import Mathlib.Data.List.TakeWhile
import AwsKms.Proofs.Settle
import AwsKms.Spec.SaltLength

/-!
# Two spellings of a salt length

`parse_decimal_int` looks at a text twice, once itself and once through
`strtol`. Its own look leaves `strtol` nothing to skip and nothing to stop at,
so what remains of the two is the range: `strtol` gives up at the limits of a
`long`, the provider at those of an `int`, and the second are never outside the
first. A salt length in words or digits is therefore the integer it spells.
-/

namespace AwsKms.Model

open AwsKms.Lib AwsKms.Spec

variable {Alg Key : Type} {h : Host Alg Key} {env : Env Alg Key}
  {keys : Keys Key}

theorem isDigit_iff {c : UInt8} :
    isDigit c = true ↔ 48 ≤ c.toNat ∧ c.toNat ≤ 57 := by
  rw [isDigit, Bool.and_eq_true, decide_eq_true_iff, decide_eq_true_iff,
    UInt8.le_iff_toNat_le, UInt8.le_iff_toNat_le]
  exact Iff.rfl

theorem decimal_iff {digits : Bytes} :
    Decimal digits ↔ digits ≠ [] ∧ digits.all isDigit = true := by
  rw [List.all_eq_true]
  constructor
  · intro hd
    exact ⟨hd.nonempty, fun c hc => isDigit_iff.mpr (hd.digit c hc)⟩
  · intro hd
    exact ⟨hd.1, fun c hc => isDigit_iff.mp (hd.2 c hc)⟩

/-- What the digits so far stand for, and one more. -/
theorem decimalValue_concat (digits : Bytes) (c : UInt8) :
    decimalValue (digits ++ [c]) = (c.toNat - 48) + 10 * decimalValue digits := by
  rw [decimalValue, List.map_append, List.reverse_append]
  exact Nat.ofDigits_cons ..

theorem digitsValue_concat (digits : Bytes) (c : UInt8) :
    digitsValue (digits ++ [c]) = 10 * digitsValue digits + ((c.toNat : Int) - 48) := by
  rw [digitsValue, List.foldl_append]
  rfl

/-- `strtol` adds up what the digits stand for. -/
theorem digitsValue_eq {digits : Bytes} (hd : digits.all isDigit = true) :
    digitsValue digits = decimalValue digits := by
  induction digits using List.reverseRecOn with
  | nil => rfl
  | append_singleton digits c ih =>
      rw [List.all_append, Bool.and_eq_true] at hd
      have hc : 48 ≤ c.toNat ∧ c.toNat ≤ 57 := by
        have hlast := hd.2
        rw [List.all_cons, List.all_nil, Bool.and_true] at hlast
        exact isDigit_iff.mp hlast
      rw [digitsValue_concat, decimalValue_concat, ih hd.1]
      omega

/-- A plus or a minus. -/
def isSign (c : UInt8) : Bool := c = 43 || c = 45

/-- A text without its sign. -/
def unsigned (text : Bytes) : Bytes :=
  if text.head? = some 43 ∨ text.head? = some 45 then text.drop 1 else text

/-- The number a sign and digits stand for. -/
def signedValue (text : Bytes) : Int :=
  if text.head? = some 45 then -decimalValue (unsigned text)
  else decimalValue (unsigned text)

theorem unsigned_cons (c : UInt8) (rest : Bytes) :
    unsigned (c :: rest) = if isSign c then rest else c :: rest := by
  unfold unsigned isSign
  simp

/-- A text that is a sign and digits begins with no blank. -/
theorem dropSpaces_of_unsigned {text : Bytes}
    (hd : (unsigned text).all isDigit = true) : dropSpaces text = text := by
  cases text with
  | nil => rfl
  | cons c rest =>
      have hspace : awskmsIsSpace c = false := by
        rw [unsigned_cons] at hd
        cases hs : isSign c with
        | true =>
            rw [isSign, Bool.or_eq_true, decide_eq_true_iff, decide_eq_true_iff] at hs
            rcases hs with rfl | rfl
            · rfl
            · rfl
        | false =>
            rw [hs, if_neg Bool.false_ne_true, List.all_cons, Bool.and_eq_true] at hd
            have hc := isDigit_iff.mp hd.1
            unfold awskmsIsSpace
            simp only [Bool.or_eq_false_iff, decide_eq_false_iff_not]
            refine ⟨⟨⟨⟨⟨?_, ?_⟩, ?_⟩, ?_⟩, ?_⟩, ?_⟩ <;> rintro rfl <;> revert hc <;> decide
      rw [dropSpaces, List.dropWhile_cons, hspace]
      rfl

/-- All that `strtol` can do to such a text is to clamp it. -/
theorem strtol_unsigned {text : Bytes} (hne : unsigned text ≠ [])
    (hd : (unsigned text).all isDigit = true) :
    strtol h text =
      if signedValue text < -h.longMax - 1 then ⟨-h.longMax - 1, true, []⟩
      else if h.longMax < signedValue text then ⟨h.longMax, true, []⟩
      else ⟨signedValue text, false, []⟩ := by
  have htake : (unsigned text).takeWhile isDigit = unsigned text :=
    List.takeWhile_eq_self_iff.mpr fun c hc => List.all_eq_true.mp hd c hc
  have hdrop : (unsigned text).dropWhile isDigit = [] :=
    List.dropWhile_eq_nil_iff.mpr fun c hc => List.all_eq_true.mp hd c hc
  have hvalue : (if text.head? = some 45 then -digitsValue (unsigned text)
      else digitsValue (unsigned text)) = signedValue text := by
    rw [signedValue, digitsValue_eq hd]
  have hbody : (if text.head? = some 43 ∨ text.head? = some 45 then text.drop 1
      else text) = unsigned text := rfl
  unfold strtol
  dsimp only
  rw [dropSpaces_of_unsigned hd, hbody, htake, if_neg hne, hdrop, hvalue]

/-- A sign and digits are read if an `int` can hold what they stand for, and
nothing else is. -/
theorem parseDecimalInt_iff (hlong : intMax ≤ h.longMax) {text : Bytes} {n : Int} :
    parseDecimalInt h text = some n ↔ Decimal (unsigned text) ∧
      n = signedValue text ∧ intMin ≤ n ∧ n ≤ intMax := by
  have hbody : (if text.head? = some 43 ∨ text.head? = some 45 then text.drop 1
      else text) = unsigned text := rfl
  rw [decimal_iff]
  unfold parseDecimalInt
  dsimp only
  rw [hbody]
  by_cases hne : unsigned text = []
  · rw [if_pos hne]
    exact ⟨nofun, fun hn => absurd hne hn.1.1⟩
  · rw [if_neg hne]
    cases hd : (unsigned text).all isDigit with
    | false =>
        rw [if_pos rfl]
        exact ⟨nofun, fun hn => absurd hn.1.2 Bool.false_ne_true⟩
    | true =>
        have htext : text ≠ [] := fun heq => hne (by rw [heq]; rfl)
        have hlow : intMin = -intMax - 1 := rfl
        rw [if_neg (by simp), strtol_unsigned hne hd]
        -- a clamped value is out of the range of an `int` before it is clamped
        by_cases hunder : signedValue text < -h.longMax - 1
        · rw [if_pos hunder, if_pos (.inl rfl)]
          refine ⟨nofun, fun hn => ?_⟩
          omega
        · rw [if_neg hunder]
          by_cases hover : h.longMax < signedValue text
          · rw [if_pos hover, if_pos (.inl rfl)]
            refine ⟨nofun, fun hn => ?_⟩
            omega
          · rw [if_neg hover]
            by_cases hfit : intMin ≤ signedValue text ∧ signedValue text ≤ intMax
            · have hpass : ¬ (false = true ∨ ([] : Bytes) = text ∨ ([] : Bytes) ≠ [] ∨
                  signedValue text < intMin ∨ intMax < signedValue text) := by
                rintro (hb | ht | hr | hl | hg)
                · exact Bool.false_ne_true hb
                · exact htext ht.symm
                · exact hr rfl
                · omega
                · omega
              rw [if_neg hpass, Option.some_inj]
              constructor
              · rintro rfl
                exact ⟨⟨hne, rfl⟩, rfl, hfit⟩
              · exact fun hn => hn.2.1.symm
            · have hstop : signedValue text < intMin ∨ intMax < signedValue text := by omega
              rw [if_pos (.inr (.inr (.inr hstop)))]
              refine ⟨nofun, fun hn => absurd ?_ hfit⟩
              rw [← hn.2.1]
              exact hn.2.2

/-! ## Texts

What the getter takes is a text without a NUL of fewer than 32 bytes. It is
one of the three words or a decimal number in range, never both, and spells
one integer. -/

theorem unsigned_of_decimal {digits : Bytes} (hd : Decimal digits) :
    unsigned digits = digits ∧ digits.head? ≠ some 45 := by
  cases digits with
  | nil => exact absurd rfl hd.nonempty
  | cons c rest =>
      have hc := hd.digit c List.mem_cons_self
      have hsign : isSign c = false := by
        rw [isSign, Bool.or_eq_false_iff, decide_eq_false_iff_not, decide_eq_false_iff_not]
        constructor
        · rintro rfl
          exact absurd hc (by decide)
        · rintro rfl
          exact absurd hc (by decide)
      refine ⟨by rw [unsigned_cons, hsign, if_neg Bool.false_ne_true], fun hhead => ?_⟩
      obtain rfl := Option.some.inj hhead
      exact absurd hc (by decide)

/-- A salt length is spelled by a name, or by a sign and digits. -/
theorem saltText_iff {text : Bytes} {n : Int} :
    SaltText text n ↔ (text = ascii "digest" ∧ n = rsa_PSS_SALTLEN_DIGEST) ∨
      (text = ascii "auto" ∧ n = rsa_PSS_SALTLEN_AUTO) ∨
      (text = ascii "max" ∧ n = rsa_PSS_SALTLEN_MAX) ∨
      (Decimal (unsigned text) ∧ n = signedValue text) := by
  constructor
  · intro ht
    cases ht with
    | digest => exact .inl ⟨rfl, rfl⟩
    | auto => exact .inr (.inl ⟨rfl, rfl⟩)
    | max => exact .inr (.inr (.inl ⟨rfl, rfl⟩))
    | plain hd =>
        obtain ⟨hunsigned, hhead⟩ := unsigned_of_decimal hd
        rw [signedValue, if_neg hhead, hunsigned]
        exact .inr (.inr (.inr ⟨hd, rfl⟩))
    | plus hd => exact .inr (.inr (.inr ⟨hd, rfl⟩))
    | minus hd => exact .inr (.inr (.inr ⟨hd, rfl⟩))
  · rintro (⟨rfl, rfl⟩ | ⟨rfl, rfl⟩ | ⟨rfl, rfl⟩ | ⟨hd, rfl⟩)
    · exact .digest
    · exact .auto
    · exact .max
    · cases text with
      | nil => exact absurd rfl hd.nonempty
      | cons c rest =>
          rw [unsigned_cons] at hd
          by_cases hplus : c = 43
          · subst hplus
            exact .plus hd
          · by_cases hminus : c = 45
            · subst hminus
              exact .minus hd
            · have hsign : isSign c = false := by
                rw [isSign, decide_eq_false hplus, decide_eq_false hminus, Bool.or_false]
              have hhead : (c :: rest).head? ≠ some 45 :=
                fun heq => hminus (Option.some.inj heq)
              rw [signedValue, if_neg hhead, unsigned_cons, hsign, if_neg Bool.false_ne_true]
              rw [hsign, if_neg Bool.false_ne_true] at hd
              exact .plain hd

/-- The names are not digits. -/
theorem not_decimal_name {text : Bytes} (ht : text = ascii "digest" ∨
    text = ascii "auto" ∨ text = ascii "max") : ¬ Decimal (unsigned text) := by
  rw [decimal_iff]
  rcases ht with rfl | rfl | rfl
  · decide
  · decide
  · decide

/-- A text spells one salt length. -/
theorem saltText_unique {text : Bytes} {n m : Int} (hn : SaltText text n)
    (hm : SaltText text m) : n = m := by
  rw [saltText_iff] at hn hm
  rcases hn with ⟨rfl, rfl⟩ | ⟨rfl, rfl⟩ | ⟨rfl, rfl⟩ | ⟨hd, rfl⟩
  · rcases hm with ⟨_, rfl⟩ | ⟨heq, _⟩ | ⟨heq, _⟩ | ⟨hd, _⟩
    · rfl
    · exact absurd heq (by decide)
    · exact absurd heq (by decide)
    · exact absurd hd (not_decimal_name (.inl rfl))
  · rcases hm with ⟨heq, _⟩ | ⟨_, rfl⟩ | ⟨heq, _⟩ | ⟨hd, _⟩
    · exact absurd heq (by decide)
    · rfl
    · exact absurd heq (by decide)
    · exact absurd hd (not_decimal_name (.inr (.inl rfl)))
  · rcases hm with ⟨heq, _⟩ | ⟨heq, _⟩ | ⟨_, rfl⟩ | ⟨hd, _⟩
    · exact absurd heq (by decide)
    · exact absurd heq (by decide)
    · rfl
    · exact absurd hd (not_decimal_name (.inr (.inr rfl)))
  · rcases hm with ⟨heq, _⟩ | ⟨heq, _⟩ | ⟨heq, _⟩ | ⟨_, rfl⟩
    · exact absurd hd (not_decimal_name (.inl heq))
    · exact absurd hd (not_decimal_name (.inr (.inl heq)))
    · exact absurd hd (not_decimal_name (.inr (.inr heq)))
    · rfl

/-- What is spelled has no NUL in it. -/
theorem saltText_no_nul {text : Bytes} {n : Int} (ht : SaltText text n) :
    (0 : UInt8) ∉ text := by
  have hdigits : ∀ {digits : Bytes}, Decimal digits → (0 : UInt8) ∉ digits :=
    fun hd hmem => absurd (hd.digit 0 hmem) (by decide)
  cases ht with
  | digest => decide
  | auto => decide
  | max => decide
  | plain hd => exact hdigits hd
  | plus hd => exact List.not_mem_cons_of_ne_of_not_mem (by decide) (hdigits hd)
  | minus hd => exact List.not_mem_cons_of_ne_of_not_mem (by decide) (hdigits hd)

theorem getUtf8Param_iff {p : OsslParam} {data : Option Bytes}
    (hp : p.data = .utf8String data) {text : Bytes} :
    getUtf8Param p 32 = some text ↔
      data = some text ∧ text.length ≤ 31 ∧ (0 : UInt8) ∉ text := by
  unfold getUtf8Param
  rw [hp]
  cases data with
  | none => simp
  | some data =>
      simp only [ite_eq_iff, Option.some_inj, not_or, Nat.not_le, Nat.lt_succ_iff]
      constructor
      · rintro (⟨_, hnone⟩ | ⟨⟨hlen, hnul⟩, rfl⟩)
        · cases hnone
        · exact ⟨rfl, hlen, hnul⟩
      · rintro ⟨rfl, hlen, hnul⟩
        exact .inr ⟨⟨hlen, hnul⟩, rfl⟩

/-- The names first, then the decimals. -/
theorem readSaltText_iff (hlong : intMax ≤ h.longMax) {text : Bytes} {n : Int} :
    (if text = ascii "digest" then some rsa_PSS_SALTLEN_DIGEST
      else if text = ascii "auto" then some rsa_PSS_SALTLEN_AUTO
      else if text = ascii "max" then some rsa_PSS_SALTLEN_MAX
      else parseDecimalInt h text) = some n ↔
      SaltText text n ∧ intMin ≤ n ∧ n ≤ intMax := by
  have hname : ∀ {m : Int}, SaltText text m → intMin ≤ m ∧ m ≤ intMax →
      (some m = some n ↔ SaltText text n ∧ intMin ≤ n ∧ n ≤ intMax) := by
    intro m hm hrange
    rw [Option.some_inj]
    constructor
    · rintro rfl
      exact ⟨hm, hrange⟩
    · exact fun hn => saltText_unique hm hn.1
  by_cases hdigest : text = ascii "digest"
  · rw [if_pos hdigest]
    exact hname (hdigest ▸ .digest) (by decide)
  · rw [if_neg hdigest]
    by_cases hauto : text = ascii "auto"
    · rw [if_pos hauto]
      exact hname (hauto ▸ .auto) (by decide)
    · rw [if_neg hauto]
      by_cases hmax : text = ascii "max"
      · rw [if_pos hmax]
        exact hname (hmax ▸ .max) (by decide)
      · rw [if_neg hmax, parseDecimalInt_iff hlong, saltText_iff]
        simp only [hdigest, hauto, hmax, false_and, false_or, and_assoc]

/-- A text is read as the salt length it spells, or not at all. -/
theorem readPssSaltlen_iff (hlong : intMax ≤ h.longMax) {p : OsslParam}
    {data : Option Bytes} (hp : p.data = .utf8String data) {n : Int} :
    readPssSaltlen h p = some n ↔ ∃ text, data = some text ∧ Spells text n := by
  have hread : readPssSaltlen h p = some n ↔ ∃ text, getUtf8Param p 32 = some text ∧
      SaltText text n ∧ intMin ≤ n ∧ n ≤ intMax := by
    unfold readPssSaltlen
    rw [hp]
    dsimp only
    cases hu : getUtf8Param p 32 with
    | none => simp
    | some text =>
        dsimp only
        rw [readSaltText_iff hlong]
        simp
  rw [hread]
  refine exists_congr fun text => ?_
  rw [getUtf8Param_iff hp]
  constructor
  · rintro ⟨⟨hdata, hlen, _⟩, hsalt, hlow, hhigh⟩
    exact ⟨hdata, hlen, hsalt, hlow, hhigh⟩
  · rintro ⟨hdata, hspell⟩
    exact ⟨⟨hdata, hspell.short, saltText_no_nul hspell.salt⟩, hspell.salt, hspell.low,
      hspell.high⟩

/-- The character of a digit. -/
theorem digitByte {d : Nat} (hd : d < 10) :
    (Nat.digitChar d).toNat.toUInt8.toNat = 48 + d := by
  revert d
  decide

/-- The digits of a number stand for it. -/
theorem decimal_toDigits (n : Nat) :
    Decimal ((Nat.toDigits 10 n).map fun c => c.toNat.toUInt8) ∧
      decimalValue ((Nat.toDigits 10 n).map fun c => c.toNat.toUInt8) = n := by
  induction n using Nat.strong_induction_on with
  | _ n ih =>
      have hone : ∀ {d : Nat}, d < 10 → Decimal [(Nat.digitChar d).toNat.toUInt8] := by
        intro d hd
        refine ⟨List.cons_ne_nil _ _, fun c hc => ?_⟩
        rw [List.mem_singleton.mp hc, digitByte hd]
        omega
      by_cases hlt : n < 10
      · rw [Nat.toDigits_of_lt_base hlt, List.map_singleton]
        refine ⟨hone hlt, ?_⟩
        have hvalue := decimalValue_concat [] (Nat.digitChar n).toNat.toUInt8
        rw [List.nil_append, digitByte hlt] at hvalue
        rw [hvalue]
        have hnil : decimalValue [] = 0 := rfl
        omega
      · have hge : 10 ≤ n := Nat.le_of_not_lt hlt
        have hmod : n % 10 < 10 := Nat.mod_lt _ (by decide)
        obtain ⟨hd, hvalue⟩ := ih (n / 10) (by omega)
        rw [Nat.toDigits_of_base_le (by decide) hge, List.map_append, List.map_singleton]
        constructor
        · refine ⟨List.concat_ne_nil _ _, fun c hc => ?_⟩
          rcases List.mem_append.mp hc with hc | hc
          · exact hd.digit c hc
          · exact (hone hmod).digit c hc
        · rw [decimalValue_concat, hvalue, digitByte hmod]
          omega

/-- The text of an `int` spells it. -/
theorem spells_toString {n : Int} (hlow : intMin ≤ n) (hhigh : n ≤ intMax) :
    Spells (ascii (toString n)) n := by
  have hlong : ∀ m : Nat, m < 10 ^ 10 →
      ((Nat.toDigits 10 m).map fun c => c.toNat.toUInt8).length ≤ 10 := by
    intro m hm
    rw [List.length_map]
    exact (Nat.length_toDigits_le_iff (by decide) (by decide)).mpr hm
  simp only [intMin, intMax] at hlow hhigh
  rw [Int.toString_eq_repr, Int.repr_eq_if]
  split
  · next hpos =>
      obtain ⟨hd, hvalue⟩ := decimal_toDigits n.toNat
      rw [ascii, Nat.toList_repr]
      refine ⟨(hlong _ (by omega)).trans (by decide), ?_, hlow, hhigh⟩
      have hsalt := SaltText.plain hd
      rw [hvalue, Int.toNat_of_nonneg hpos] at hsalt
      exact hsalt
  · next hneg =>
      obtain ⟨hd, hvalue⟩ := decimal_toDigits (-n).toNat
      rw [ascii, String.toList_append, Nat.toList_repr, List.map_append]
      refine ⟨?_, ?_, hlow, hhigh⟩
      · rw [List.length_append]
        exact (Nat.add_le_add_left (hlong _ (by omega)) _).trans (by decide)
      · have hsalt := SaltText.minus hd
        rw [hvalue, Int.toNat_of_nonneg (by omega), Int.neg_neg] at hsalt
        exact hsalt
/-! ## Calls

A call that is given the text instead of the integer differs in one parameter.
The reading of that parameter is the same, and nothing else looks at it. -/

/-- A salt length parameter with another payload. -/
def respellParam (data : OsslParamData) (p : OsslParam) : OsslParam :=
  if p.key = ossl_SIGNATURE_PARAM_PSS_SALTLEN then { p with data } else p

/-- The same call, its salt length spelled otherwise. -/
def SigCall.respell (data : OsslParamData) : SigCall → SigCall
  | .setCtxParams params => .setCtxParams (params.map (·.map (respellParam data)))
  | .signInit provkey params =>
      .signInit provkey (params.map (·.map (respellParam data)))
  | .verifyInit provkey params =>
      .verifyInit provkey (params.map (·.map (respellParam data)))
  | .digestSignInit mdname provkey params =>
      .digestSignInit mdname provkey (params.map (·.map (respellParam data)))
  | .digestVerifyInit mdname provkey params =>
      .digestVerifyInit mdname provkey (params.map (·.map (respellParam data)))
  | .oneshotInit mdname provkey params =>
      .oneshotInit mdname provkey (params.map (·.map (respellParam data)))
  | sc => sc

theorem locate_respell (data : OsslParamData) (ps : List OsslParam) (key : String) :
    locate (ps.map (respellParam data)) key =
      (locate ps key).map (respellParam data) := by
  have hkey : ∀ p, (respellParam data p).key = p.key := by
    intro p
    unfold respellParam
    split
    · rfl
    · rfl
  rw [locate, List.find?_map]
  congr 2
  funext p
  exact congrArg (· == key) (hkey p)

theorem onParam_respell {data data' : OsslParamData} {ps : List OsslParam}
    {key : String} {block : OsslParam → Act (AwskmsSigCtx Alg Key) Event}
    (hblock : ∀ p, p.key = key →
      block (respellParam data p) = block (respellParam data' p)) :
    onParam (ps.map (respellParam data)) key block =
      onParam (ps.map (respellParam data')) key block := by
  unfold onParam
  rw [locate_respell, locate_respell]
  cases hp : locate ps key with
  | none => rfl
  | some p =>
      have hkey := List.find?_some (p := fun p : OsslParam => p.key == key) hp
      exact hblock p (eq_of_beq hkey)

/-- Two payloads that are read alike are set alike. -/
theorem setCtxParams_respell {data data' : OsslParamData}
    (hread : ∀ key, readPssSaltlen h ⟨key, data⟩ = readPssSaltlen h ⟨key, data'⟩)
    (params : Option (List OsslParam)) :
    awskmsSigSetCtxParams h env keys (params.map (·.map (respellParam data))) =
      awskmsSigSetCtxParams h env keys (params.map (·.map (respellParam data'))) := by
  cases params with
  | none => rfl
  | some ps =>
      have hother : ∀ {key : String}, key ≠ ossl_SIGNATURE_PARAM_PSS_SALTLEN →
          ∀ block : OsslParam → Act (AwskmsSigCtx Alg Key) Event, ∀ p, p.key = key →
            block (respellParam data p) = block (respellParam data' p) := by
        intro key hne block p hp
        have hsame : p.key ≠ ossl_SIGNATURE_PARAM_PSS_SALTLEN := hp ▸ hne
        rw [respellParam, respellParam, if_neg hsame, if_neg hsame]
      have hsalt : ∀ p, p.key = ossl_SIGNATURE_PARAM_PSS_SALTLEN →
          (applyPssSaltlen h (respellParam data p) : Act (AwskmsSigCtx Alg Key) Event) =
            applyPssSaltlen h (respellParam data' p) := by
        intro p hp
        rw [respellParam, respellParam, if_pos hp, if_pos hp, applyPssSaltlen,
          applyPssSaltlen, hread]
      show Act.all (settings h env keys _) = Act.all (settings h env keys _)
      unfold settings
      rw [onParam_respell (hother (by decide) (applyDigest h env keys)),
        onParam_respell (hother (by decide) applyPadMode), onParam_respell hsalt,
        onParam_respell (hother (by decide) applyContextString),
        onParam_respell (hother (by decide) applyInstance),
        onParam_respell (hother (by decide) (checkMgf1Digest h))]

/-- The same holds of the inits, which set parameters among other things. -/
theorem sigCall_respell {data data' : OsslParamData}
    (hread : ∀ key, readPssSaltlen h ⟨key, data⟩ = readPssSaltlen h ⟨key, data'⟩)
    (sc : SigCall) :
    sigCall h env keys (sc.respell data) = sigCall h env keys (sc.respell data') := by
  have hset : ∀ params : Option (List OsslParam),
      awskmsSigSetCtxParams h env keys (params.map (·.map (respellParam data))) =
        awskmsSigSetCtxParams h env keys (params.map (·.map (respellParam data'))) :=
    setCtxParams_respell hread
  cases sc with
  | setCtxParams params => exact hset params
  | signInit provkey params =>
      exact congrArg (bindKey h env keys provkey).andThen (hset params)
  | verifyInit provkey params =>
      exact congrArg (bindKey h env keys provkey).andThen (hset params)
  | digestSignInit mdname provkey params =>
      exact congrArg (fun set => Act.all [bindKey h env keys provkey, set,
        applyMdname h env keys mdname, restartHash env keys]) (hset params)
  | digestVerifyInit mdname provkey params =>
      exact congrArg (fun set => Act.all [bindKey h env keys provkey, set,
        applyMdname h env keys mdname, restartHash env keys]) (hset params)
  | oneshotInit mdname provkey params =>
      exact congrArg (fun set => Act.all [bindKey h env keys provkey, set,
        refuseMdname keys mdname,
        fun ctx => (unsupportedParamsRefused keys ctx).keep ctx]) (hset params)
  | _ => rfl

theorem digestWrite_saltlen (name : Option Bytes) (x : AwskmsSigCtx Alg Key) :
    (digestWrite h env keys name x).pssSaltlen = x.pssSaltlen := by
  unfold digestWrite
  split
  · rfl
  · split
    · rfl
    · split
      · rfl
      · rfl

theorem contextWrite_saltlen (data : Option Bytes) (x : AwskmsSigCtx Alg Key) :
    (contextWrite data x).pssSaltlen = x.pssSaltlen := by
  unfold contextWrite
  split
  · rfl
  · split
    · rfl
    · rfl

theorem instanceWrite_saltlen (name : Option Bytes) (x : AwskmsSigCtx Alg Key) :
    (instanceWrite name x).pssSaltlen = x.pssSaltlen := by
  cases name with
  | none => rfl
  | some name => rfl

/-- The writes of the parameters leave the salt length among them. -/
theorem paramSteps_saltlen {sc : SigCall} {n : Int} (hn : sc.saltlen h = some n)
    (x : AwskmsSigCtx Alg Key) :
    (Act.writeAll (paramSteps h env keys sc) x).pssSaltlen = n := by
  obtain ⟨p, hp, _⟩ := Option.bind_eq_some_iff.mp hn
  obtain ⟨ps, hps, _⟩ := Option.bind_eq_some_iff.mp hp
  have hsalt : ∀ y : AwskmsSigCtx Alg Key,
      (saltlenWrite (sc.saltlen h) y).pssSaltlen = n := by
    intro y
    rw [hn]
    rfl
  unfold paramSteps
  rw [hps]
  simp only [Act.writeAll, List.foldl_cons, List.foldl_nil, id_eq,
    instanceWrite_saltlen, contextWrite_saltlen, hsalt]

/-- The end of an init leaves the salt length alone. -/
theorem endSteps_saltlen (sc : SigCall) (x : AwskmsSigCtx Alg Key) :
    (Act.writeAll (endSteps h env keys sc) x).pssSaltlen = x.pssSaltlen := by
  cases sc with
  | digestSignInit mdname provkey params => exact digestWrite_saltlen _ x
  | digestVerifyInit mdname provkey params => exact digestWrite_saltlen _ x
  | _ => rfl

/-- The writes of a call leave the salt length it carries. -/
theorem writeAll_saltlen {sc : SigCall} {n : Int} (hn : sc.saltlen h = some n)
    (x : AwskmsSigCtx Alg Key) :
    (Act.writeAll (callSteps h env keys sc) x).pssSaltlen = n := by
  have hinit : ∀ y : AwskmsSigCtx Alg Key, (Act.writeAll (paramSteps h env keys sc ++
      endSteps h env keys sc) y).pssSaltlen = n := by
    intro y
    rw [Act.writeAll, List.foldl_append]
    exact (endSteps_saltlen sc _).trans (paramSteps_saltlen hn y)
  cases sc with
  | setCtxParams params => exact paramSteps_saltlen hn x
  | _ => exact hinit _

/-- Every text of a salt length, as every call that can carry one takes it. -/
structure SaltlenSpellings (h : Host Alg Key) (env : Env Alg Key) (keys : Keys Key) :
    Prop where
  alone : ∀ data ctx,
    let out := sigCall h env keys
      (.setCtxParams (some [⟨ossl_SIGNATURE_PARAM_PSS_SALTLEN, .utf8String data⟩])) ctx
    (out.ok = true ↔ ∃ text n, data = some text ∧ Spells text n) ∧
      ∀ text n, data = some text → Spells text n →
        out = ⟨true, { ctx with pssSaltlen := n }, []⟩
  taken : ∀ sc p text n ctx, sc.param ossl_SIGNATURE_PARAM_PSS_SALTLEN = some p →
    p.data = .utf8String (some text) → Spells text n →
    (sigCall h env keys sc ctx).ok = true →
    (sigCall h env keys sc ctx).state.pssSaltlen = n
  refused : ∀ sc p data ctx, sc.param ossl_SIGNATURE_PARAM_PSS_SALTLEN = some p →
    p.data = .utf8String data → (∀ text n, data = some text → ¬ Spells text n) →
    (sigCall h env keys sc ctx).ok = false ∧
      (sigCall h env keys sc ctx).state.pssSaltlen = ctx.pssSaltlen
  same : ∀ sc text n, Spells text n →
    sigCall h env keys (SigCall.respell (.utf8String (some text)) sc) =
      sigCall h env keys (SigCall.respell (.integer n) sc)
  decimal : ∀ n, intMin ≤ n → n ≤ intMax → Spells (ascii (toString n)) n

theorem setCtxParams_alone (data : OsslParamData) (ctx : AwskmsSigCtx Alg Key) :
    sigCall h env keys
        (.setCtxParams (some [⟨ossl_SIGNATURE_PARAM_PSS_SALTLEN, data⟩])) ctx =
      applyPssSaltlen h ⟨ossl_SIGNATURE_PARAM_PSS_SALTLEN, data⟩ ctx := by
  have hdone : ∀ a : Act (AwskmsSigCtx Alg Key) Event, Act.done.andThen a = a := by
    intro a
    funext x
    rw [Act.andThen_of_ok rfl]
    rfl
  have hothers : settings h env keys [⟨ossl_SIGNATURE_PARAM_PSS_SALTLEN, data⟩] =
      [Act.done, Act.done, applyPssSaltlen h ⟨ossl_SIGNATURE_PARAM_PSS_SALTLEN, data⟩,
        Act.done, Act.done, Act.done] := rfl
  have hcall : sigCall h env keys
      (.setCtxParams (some [⟨ossl_SIGNATURE_PARAM_PSS_SALTLEN, data⟩])) ctx =
        Act.all (settings h env keys [⟨ossl_SIGNATURE_PARAM_PSS_SALTLEN, data⟩]) ctx := rfl
  rw [hcall, hothers]
  simp only [Act.all_cons, Act.all_nil, hdone, Act.andThen_done]

theorem isSetup_of_param {sc : SigCall} {key : String} {p : OsslParam}
    (hp : sc.param key = some p) : sc.isSetup = true := by
  obtain ⟨ps, hps, _⟩ := Option.bind_eq_some_iff.mp hp
  cases sc with
  | setCtxParams params => rfl
  | signInit provkey params => rfl
  | verifyInit provkey params => rfl
  | digestSignInit mdname provkey params => rfl
  | digestVerifyInit mdname provkey params => rfl
  | oneshotInit mdname provkey params => rfl
  | _ => cases hps

/-- A text is taken as the salt length it spells, or refused, and the integer of
that value in its place changes nothing. -/
theorem saltlen_spellings (hlong : intMax ≤ h.longMax) (env : Env Alg Key)
    (keys : Keys Key) : SaltlenSpellings h env keys where
  alone data ctx := by
    dsimp only
    rw [setCtxParams_alone]
    have hiff := fun n => readPssSaltlen_iff hlong (n := n)
      (p := ⟨ossl_SIGNATURE_PARAM_PSS_SALTLEN, .utf8String data⟩) rfl
    constructor
    · unfold applyPssSaltlen
      cases hread : readPssSaltlen h ⟨ossl_SIGNATURE_PARAM_PSS_SALTLEN,
          .utf8String data⟩ with
      | none =>
          refine ⟨nofun, fun ⟨text, n, htext, hspell⟩ => ?_⟩
          have hsome := (hiff n).mpr ⟨text, htext, hspell⟩
          rw [hread] at hsome
          cases hsome
      | some n =>
          obtain ⟨text, htext, hspell⟩ := (hiff n).mp hread
          exact ⟨fun _ => ⟨text, n, htext, hspell⟩, fun _ => rfl⟩
    · intro text n htext hspell
      rw [applyPssSaltlen, (hiff n).mpr ⟨text, htext, hspell⟩]
  taken sc p text n ctx hp hdata hspell hok := by
    have hn : sc.saltlen h = some n := by
      rw [SigCall.saltlen, hp]
      exact (readPssSaltlen_iff hlong hdata).mpr ⟨text, rfl, hspell⟩
    have hsettles : Settles h env keys sc ctx _ _ :=
      sigCall_settles (isSetup_of_param hp) ctx
    rw [hok] at hsettles
    generalize (sigCall h env keys sc ctx).state = y at hsettles
    cases hsettles with
    | applied hy =>
        rw [hy.written]
        exact writeAll_saltlen hn ctx
  refused sc p data ctx hp hdata hno := by
    have hread : readPssSaltlen h p = none := by
      rw [Option.eq_none_iff_forall_ne_some]
      intro n hn
      obtain ⟨text, htext, hspell⟩ := (readPssSaltlen_iff hlong hdata).mp hn
      exact hno text n htext hspell
    constructor
    · rw [← Bool.not_eq_true]
      intro hok
      obtain ⟨_, _, _, hset, _⟩ := sigCall_ok_parts (isSetup_of_param hp) hok
      have hsome := (setCtxParams_readable hset).saltlen (by rw [hp]; rfl)
      rw [SigCall.saltlen, hp, Option.bind_some, hread] at hsome
      cases hsome
    · refine sigCall_keeps (P := fun y => y.pssSaltlen = ctx.pssSaltlen) ?_ rfl
      intro x y hw hx
      cases hw with
      | saltlen hq hn =>
          obtain rfl := Option.some.inj (hp.symm.trans hq)
          rw [hread] at hn
          cases hn
      | _ => exact hx
  same sc text n hspell := by
    refine sigCall_respell (fun key => ?_) sc
    have htext := (readPssSaltlen_iff hlong (p := ⟨key, .utf8String (some text)⟩) rfl).mpr
      ⟨text, rfl, hspell⟩
    rw [htext]
    exact (if_pos ⟨hspell.low, hspell.high⟩).symm
  decimal n := spells_toString

theorem saltlen_spellings_bench :
    SaltlenSpellings Bench.host Bench.env fun _ => awskmsKeyNew :=
  saltlen_spellings (by decide) Bench.env _

end AwsKms.Model
