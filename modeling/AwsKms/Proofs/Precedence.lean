import AwsKms.Proofs.Routing
import AwsKms.Spec.Precedence

/-!
# Where a call is routed

Region and endpoint are looked for as documented: an empty setting is passed
over. A profile is not. A URI or a provider section that has the setting, with
nothing in it, ends the search, and the SDK is given no profile at all, which
may change the region and the endpoint as well.

For FIPS there is one region the code lets through that it means to refuse,
or at least that begins like the ones it means: `cn-` and nothing behind it.
-/

namespace AwsKms.Model

open AwsKms.Lib AwsKms.Spec

section

variable {Rest : Type} {q : ClientRequest Rest} {shared : SharedEndpoints}

theorem firstNonEmpty_cons (s : Bytes) (rest : List Bytes) :
    firstNonEmpty (s :: rest) = if s = [] then firstNonEmpty rest else s := rfl

theorem firstNonEmpty_append (sources rest : List Bytes) :
    firstNonEmpty (sources ++ rest) = firstNonEmpty (firstNonEmpty sources :: rest) := by
  induction sources with
  | nil => rfl
  | cons s sources ih =>
      rw [List.cons_append, firstNonEmpty_cons, firstNonEmpty_cons s sources]
      by_cases hs : s = []
      · rw [if_pos hs, if_pos hs, ih]
      · rw [if_neg hs, if_neg hs, firstNonEmpty_cons, if_neg hs]

/-- A search among the sources of another is part of it. -/
theorem firstNonEmpty_nested (s : Bytes) (sources rest : List Bytes) :
    firstNonEmpty (s :: firstNonEmpty sources :: rest) =
      firstNonEmpty (s :: (sources ++ rest)) := by
  rw [firstNonEmpty_cons, firstNonEmpty_cons s, firstNonEmpty_append]

theorem firstNonEmpty_ne_nil {sources : List Bytes} {s : Bytes}
    (hs : s ∈ sources) (hne : s ≠ []) : firstNonEmpty sources ≠ [] := by
  induction sources with
  | nil => cases hs
  | cons t sources ih =>
      rw [firstNonEmpty_cons]
      split
      · next ht =>
          refine ih ((List.mem_cons.mp hs).resolve_left ?_)
          rintro rfl
          exact hne ht
      · next ht => exact ht

/-- A profile setting that is there and has nothing in it is what the search
comes to. -/
def EmptyProfile (q : ClientRequest Rest) : Prop :=
  q.uri.profile.map cString = some [] ∨
    q.uri.profile = none ∧ q.ambientProfileSelected = false ∧
      q.provctx.profile.map cString = some []

theorem documentedProfile_ne_nil : documentedProfile q ≠ [] :=
  firstNonEmpty_ne_nil (s := ascii "default") (by simp) (by decide)

/-- What the environment and the shared files select. -/
theorem ambient_profile (h : DocumentedSdk q.sdk shared) (rest : List Bytes) :
    firstNonEmpty (q.sdk.getEnv "AWS_DEFAULT_PROFILE" ::
      q.sdk.getEnv "AWS_PROFILE" ::
      (if profileExists q.sdk (ascii "default") then ascii "default" else []) ::
      rest) =
    if q.ambientProfileSelected then q.sdk.getConfigProfileName
    else firstNonEmpty rest := by
  have hname := h.configProfileName
  have hdefault : ascii "default" ≠ [] := by decide
  rw [firstNonEmpty_cons, firstNonEmpty_cons] at hname
  rw [firstNonEmpty_cons, firstNonEmpty_cons, firstNonEmpty_cons,
    ClientRequest.ambientProfileSelected]
  by_cases h1 : q.sdk.getEnv "AWS_DEFAULT_PROFILE" = []
  · rw [if_pos h1] at hname ⊢
    by_cases h2 : q.sdk.getEnv "AWS_PROFILE" = []
    · rw [if_pos h2] at hname ⊢
      have hshared : q.sdk.getConfigProfileName = ascii "default" := by
        rw [hname, firstNonEmpty_cons, if_neg hdefault]
      rw [hshared]
      cases hexists : profileExists q.sdk (ascii "default") with
      | true => simp [hdefault]
      | false => simp [h1, h2]
    · rw [if_neg h2] at hname ⊢
      simp [h2, hname]
  · rw [if_neg h1] at hname ⊢
    simp [h1, hname]

theorem unselected_profile (h : DocumentedSdk q.sdk shared)
    (hselected : q.ambientProfileSelected = false) :
    q.sdk.getConfigProfileName = ascii "default" := by
  simp only [ClientRequest.ambientProfileSelected, Bool.or_eq_false_iff,
    decide_eq_false_iff_not, not_not] at hselected
  rw [h.configProfileName, hselected.1.1, hselected.1.2]
  rfl

theorem profile_eq_iff (h : DocumentedSdk q.sdk shared) :
    q.profile = documentedProfile q ↔ ¬ EmptyProfile q := by
  have hne := documentedProfile_ne_nil (q := q)
  have hdefault : ascii "default" ≠ [] := by decide
  unfold EmptyProfile ClientRequest.profile
  rw [documentedProfile, firstNonEmpty_cons, ambient_profile h] at hne ⊢
  cases huri : q.uri.profile with
  | some p =>
      simp only [huri, ofPointer, Option.map_some, Option.getD_some] at hne ⊢
      by_cases hp : cString p = []
      · simp only [hp, if_true] at hne ⊢
        simp [Ne.symm hne]
      · simp [hp]
  | none =>
      simp only [ofPointer, Option.map_none, Option.getD_none, if_true]
      cases hselected : q.ambientProfileSelected with
      | true => simp
      | false =>
          simp only [Bool.false_eq_true, if_false]
          cases hprovider : q.provctx.profile with
          | none =>
              rw [unselected_profile h hselected]
              simp [firstNonEmpty]
          | some p =>
              simp only [Option.map_some, Option.getD_some, firstNonEmpty_cons]
              by_cases hp : cString p = []
              · simp [hp, hdefault]
              · simp [hp]

theorem baseConfig_region (q : ClientRequest Rest) : q.baseConfig.region =
    (q.sdk.clientConfiguration (pointerOf q.profile)).region := by
  unfold ClientRequest.baseConfig
  split
  · rfl
  · rfl

/-- With the right profile the region is the right one. -/
theorem region_eq (h : q.profile = documentedProfile q) :
    q.region = documentedRegion q := by
  rw [ClientRequest.region, documentedRegion, baseConfig_region, h,
    environmentRegion, firstNonEmpty_nested]
  rfl

/-- So is the endpoint. -/
theorem endpoint_eq (hsdk : DocumentedSdk q.sdk shared)
    (h : q.profile = documentedProfile q) :
    q.endpoint = documentedEndpoint q shared := by
  rw [ClientRequest.endpoint, documentedEndpoint, h, hsdk.endpointSource]
  split
  · exact firstNonEmpty_nested _ [] _
  · exact firstNonEmpty_nested _ _ _

theorem goesTo_config (hsdk : DocumentedSdk q.sdk shared)
    (h : q.profile = documentedProfile q) : GoesTo q shared q.config := by
  have hne : documentedProfile q ≠ [] := documentedProfile_ne_nil
  have hendpoint := endpoint_eq hsdk h
  constructor
  · simp [ClientRequest.config, ClientRequest.baseConfig, h, hne]
  · exact ⟨region_eq h, region_eq h⟩
  · simp [ClientRequest.config, ClientRequest.baseConfig, hendpoint, h, hne]
  · rfl

theorem lower_c {a : UInt8} : asciiLower a = 99 ↔ a = 99 ∨ a = 67 := by
  grind [asciiLower]

theorem lower_n {a : UInt8} : asciiLower a = 110 ↔ a = 110 ∨ a = 78 := by
  grind [asciiLower]

theorem lower_dash {a : UInt8} : asciiLower a = 45 ↔ a = 45 := by
  grind [asciiLower]

/-- A region of China's, unless it is no more than its beginning. -/
theorem isChinaRegion_iff (region : Bytes) : isChinaRegion region = true ↔
    startsWithCn region = true ∧ region.length ≠ 3 := by
  have hcn : ascii "cn-" = [99, 110, 45] := by decide
  rw [startsWithCn, hcn, decide_eq_true_iff]
  match region with
  | [] => simp [isChinaRegion]
  | [a] => simp [isChinaRegion]
  | [a, b] => simp [isChinaRegion]
  | [a, b, c] => simp [isChinaRegion]
  | a :: b :: c :: d :: rest =>
      simp [isChinaRegion, lower_c, lower_n, lower_dash, and_assoc]

theorem refusal_iff (q : ClientRequest Rest) : (∃ e, q.refusal = some e) ↔
    q.fipsRequired = true ∧ (q.endpoint ≠ [] ∨ isChinaRegion q.region = true) := by
  rw [ClientRequest.refusal]
  cases q.fipsRequired with
  | false => simp
  | true =>
      by_cases hendpoint : q.endpoint = []
      · cases isChinaRegion q.region with
        | true => simp [hendpoint]
        | false => simp [hendpoint]
      · simp [hendpoint]

/-- The documented order, and the documented exclusion. -/
structure RoutedAsDocumented (q : ClientRequest Rest) (shared : SharedEndpoints) :
    Prop where
  profile : q.profile = documentedProfile q
  region : q.region = documentedRegion q
  endpoint : q.endpoint = documentedEndpoint q shared
  /-- what is built for the call has these settings -/
  built : ∀ evs s, (clients Rest).Run evs s → ∀ t candidate,
    s.phase t = .built q candidate → GoesTo q shared candidate.parts.config
  /-- an error, and the cache as it was -/
  refused : q.fipsRequired = true →
    documentedEndpoint q shared ≠ [] ∨ startsWithCn (documentedRegion q) = true →
    ∀ t s, ∃ e, (clients Rest).step (.lookup t q) s = ⟨false, s, [.refused t q e]⟩
  /-- and nothing is ever built for the call -/
  notBuilt : q.fipsRequired = true →
    documentedEndpoint q shared ≠ [] ∨ startsWithCn (documentedRegion q) = true →
    ∀ evs s, (clients Rest).Run evs s → ∀ t candidate,
      s.phase t ≠ .missed q ∧ s.phase t ≠ .built q candidate
  returned : q.fipsRequired = true → ∀ evs s, (clients Rest).Run evs s →
    ∀ e ∈ evs, ∀ t client, .returned t q client ∈ e.out.trace →
      documentedEndpoint q shared = [] ∧ startsWithCn (documentedRegion q) = false

/-- The one region that begins like China's and is let through. -/
def OnlyCn (q : ClientRequest Rest) (shared : SharedEndpoints) : Prop :=
  q.fipsRequired = true ∧ documentedEndpoint q shared = [] ∧
    startsWithCn (documentedRegion q) = true ∧ (documentedRegion q).length = 3

theorem step_refused {e : ProviderError} (h : q.refusal = some e) (t : Nat)
    (s : Clients Rest) :
    (clients Rest).step (.lookup t q) s = ⟨false, s, [.refused t q e]⟩ := by
  simp only [clients, Clients.step, h]

theorem step_accepted (h : q.refusal = none) (t : Nat) (s : Clients Rest) :
    ((clients Rest).step (.lookup t q) s).ok = true := by
  simp only [clients, Clients.step, h]
  rcases cachedClient q.key s.state with ⟨_ | client, state⟩
  · rfl
  · rfl

/-- In every environment and for every call: settings are taken from where the
documentation says, and FIPS excludes what it says, exactly when no profile
setting the search comes to is empty and the region is not `cn-` alone. -/
theorem routed_as_documented_iff (h : DocumentedSdk q.sdk shared) :
    RoutedAsDocumented q shared ↔ ¬ EmptyProfile q ∧ ¬ OnlyCn q shared := by
  constructor
  · intro hr
    refine ⟨(profile_eq_iff h).mp hr.profile, ?_⟩
    rintro ⟨hfips, hendpoint, hcn, hlen⟩
    obtain ⟨e, he⟩ := hr.refused hfips (.inr hcn) 0 Clients.empty
    have hnone : q.refusal = none := by
      rw [Option.eq_none_iff_forall_ne_some]
      intro e he
      have hcause := ((refusal_iff q).mp ⟨e, he⟩).2
      rw [hr.endpoint, hr.region, isChinaRegion_iff] at hcause
      rcases hcause with hne | ⟨-, hne⟩
      · exact hne hendpoint
      · exact hne hlen
    have hok := step_accepted hnone 0 Clients.empty
    rw [he] at hok
    cases hok
  · rintro ⟨hprofile, honly⟩
    have hp := (profile_eq_iff h).mpr hprofile
    have hregion := region_eq hp
    have hendpoint := endpoint_eq h hp
    have hrefusal : q.fipsRequired = true →
        documentedEndpoint q shared ≠ [] ∨ startsWithCn (documentedRegion q) = true →
        ∃ e, q.refusal = some e := by
      intro hfips hcause
      refine (refusal_iff q).mpr ⟨hfips, ?_⟩
      rw [hendpoint, hregion, isChinaRegion_iff]
      by_cases hover : documentedEndpoint q shared = []
      · have hcn := hcause.resolve_left fun hne => hne hover
        exact .inr ⟨hcn, fun hlen => honly ⟨hfips, hover, hcn, hlen⟩⟩
      · exact .inl hover
    refine ⟨hp, hregion, hendpoint, fun evs s hr t candidate hphase => ?_, ?_, ?_, ?_⟩
    · have hflight := (builtFor_run hr).phase t
      rw [hphase] at hflight
      rw [hflight.2]
      exact goesTo_config h hp
    · intro hfips hcause t s
      obtain ⟨e, he⟩ := hrefusal hfips hcause
      exact ⟨e, step_refused he t s⟩
    · intro hfips hcause evs s hr t candidate
      obtain ⟨e, he⟩ := hrefusal hfips hcause
      have hflight := (builtFor_run hr).phase t
      refine ⟨fun hphase => ?_, fun hphase => ?_⟩
      · rw [hphase] at hflight
        have hnone := hflight.2
        rw [he] at hnone
        cases hnone
      · rw [hphase] at hflight
        have hnone := hflight.1.2
        rw [he] at hnone
        cases hnone
    · intro hfips evs s hr e hmem t client hret
      by_contra hcause
      rw [not_and_or, Bool.not_eq_false] at hcause
      obtain ⟨err, herr⟩ := hrefusal hfips hcause
      obtain ⟨before, after, rfl, hpre, ha, hout⟩ := hr.of_mem e hmem
      rw [hout] at hret
      have hnone := (returned_built hpre ha hret).1.2
      rw [herr] at hnone
      cases hnone

end

namespace Bench

/-- Shared files without an endpoint in them. -/
def noEndpoints : SharedEndpoints := ⟨fun _ => false, fun _ => [], fun _ => []⟩

theorem documentedSdk : DocumentedSdk sdk noEndpoints where
  configProfileName := by decide
  endpointSource _ := by simp [sdk, noEndpoints, firstNonEmpty]

/-- A FIPS call for a key in China. -/
def chinaRequest : ClientRequest Unit where
  sdk := sdk
  provctx := ⟨none, none, none⟩
  uri := ⟨some (ascii "alias/signer"), some (ascii "CN-north-1"), none, none⟩
  fipsRequired := true

/-- The URI ends in `?profile=`. -/
def emptyProfileRequest : ClientRequest Unit where
  sdk := sdk
  provctx := ⟨none, none, none⟩
  uri := ⟨some (ascii "alias/signer"), none, some [], none⟩
  fipsRequired := false

end Bench

theorem routed_as_documented_iff_china :
    RoutedAsDocumented Bench.chinaRequest Bench.noEndpoints := by
  refine (routed_as_documented_iff Bench.documentedSdk).mpr ⟨?_, ?_⟩
  · rintro (huri | ⟨-, -, hprovider⟩)
    · simp [Bench.chinaRequest] at huri
    · simp [Bench.chinaRequest] at hprovider
  · rintro ⟨-, -, -, hlen⟩
    exact absurd hlen (by decide)

/-- The environment selects `prod`, and the call runs without a profile. -/
theorem not_routed_as_documented :
    DocumentedSdk Bench.emptyProfileRequest.sdk Bench.noEndpoints ∧
    Bench.emptyProfileRequest.profile = [] ∧
    documentedProfile Bench.emptyProfileRequest = ascii "prod" ∧
    ¬ RoutedAsDocumented Bench.emptyProfileRequest Bench.noEndpoints := by
  have hempty : Bench.emptyProfileRequest.profile = [] := by decide
  have hprod : documentedProfile Bench.emptyProfileRequest = ascii "prod" := by decide
  refine ⟨Bench.documentedSdk, hempty, hprod, fun h => ?_⟩
  have hprofile := h.profile
  rw [hempty, hprod] at hprofile
  exact absurd hprofile (by decide)

end AwsKms.Model
