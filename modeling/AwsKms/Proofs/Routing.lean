import AwsKms.Proofs.Client
import AwsKms.Proofs.Uri

/-!
# What a client's key tells about the client

`ClientKey` is computed from the same inputs as the client, and most of what
the client is built from can be read back from it. One thing cannot: a
provider context without a profile and one whose profile is empty have the
same key, and the credentials chain of the second may have a member more.
-/

namespace AwsKms.Model

open AwsKms.Lib

section

variable {Rest : Type}

/-- The SDK's texts come from the environment and from lines of text files:
no NUL in them. -/
structure SdkTexts (sdk : Sdk Rest) : Prop where
  env : ∀ v, 0 ∉ sdk.getEnv v
  configProfileName : 0 ∉ sdk.getConfigProfileName
  profileRegion : ∀ p, 0 ∉ sdk.cachedConfigProfileRegion p
  configRegion : ∀ p, 0 ∉ (sdk.clientConfiguration p).region
  endpoint : ∀ service p, 0 ∉ sdk.endpointSource service p

/-- The two calls differ in that only one was given a provider profile, and
an empty one would be a member of the chain. -/
structure Confused (q q' : ClientRequest Rest) : Prop where
  provider : q.provctx.profile.isSome ≠ q'.provctx.profile.isSome
  uri : q.uri.profile.map cString ≠ some []
  ambient : q.ambientConfig.credentialProviderConfig.profile ≠ []

theorem nul_cString (b : Bytes) : 0 ∉ cString b := by
  intro hmem
  have hne := List.mem_takeWhile_imp hmem
  simp at hne

theorem nul_ofPointer (p : Option Bytes) : 0 ∉ ofPointer p := by
  cases p with
  | none => simp [ofPointer]
  | some b => exact nul_cString b

theorem nul_firstNonEmpty {sources : List Bytes}
    (h : ∀ s ∈ sources, 0 ∉ s) : 0 ∉ firstNonEmpty sources := by
  induction sources with
  | nil => simp [firstNonEmpty]
  | cons s rest ih =>
      unfold firstNonEmpty
      split
      · exact ih fun s hs => h s (List.mem_cons_of_mem _ hs)
      · exact h s List.mem_cons_self

namespace ClientRequest

variable {q q' : ClientRequest Rest}

theorem nul_profile (ht : SdkTexts q.sdk) : 0 ∉ q.profile := by
  unfold profile
  split
  · exact nul_cString _
  · split
    · exact ht.configProfileName
    · split
      · exact nul_cString _
      · exact ht.configProfileName

theorem nul_baseRegion (ht : SdkTexts q.sdk) : 0 ∉ q.baseConfig.region := by
  unfold baseConfig
  split
  · exact ht.configRegion _
  · exact ht.configRegion _

theorem nul_region (ht : SdkTexts q.sdk) : 0 ∉ q.region := by
  refine nul_firstNonEmpty fun s hs => ?_
  simp only [List.mem_cons, List.not_mem_nil, or_false] at hs
  rcases hs with rfl | rfl | rfl | rfl | rfl
  · exact nul_ofPointer _
  · refine nul_firstNonEmpty fun s hs => ?_
    simp only [List.mem_cons, List.not_mem_nil, or_false] at hs
    rcases hs with rfl | rfl
    · exact ht.env _
    · exact ht.env _
  · unfold profileRegion
    split
    · exact ht.profileRegion _
    · simp
  · exact nul_ofPointer _
  · exact nul_baseRegion ht

theorem nul_endpoint (ht : SdkTexts q.sdk) : 0 ∉ q.endpoint := by
  refine nul_firstNonEmpty fun s hs => ?_
  simp only [List.mem_cons, List.not_mem_nil, or_false] at hs
  rcases hs with rfl | rfl | rfl
  · exact nul_ofPointer _
  · exact ht.endpoint _ _
  · exact nul_ofPointer _

/-- What two calls with one key agree on. -/
structure SameRoute (q q' : ClientRequest Rest) : Prop where
  sdk : q.sdk = q'.sdk
  region : q.region = q'.region
  profile : q.profile = q'.profile
  endpoint : q.endpoint = q'.endpoint
  fips : q.fipsRequired = q'.fipsRequired
  uriProfile : q.uri.profile.map cString = q'.uri.profile.map cString
  providerProfile : ofPointer q.provctx.profile = ofPointer q'.provctx.profile

theorem sameRoute (hsdk : q.sdk = q'.sdk) (ht : SdkTexts q.sdk)
    (hkey : q.key = q'.key) : SameRoute q q' := by
  have ht' : SdkTexts q'.sdk := hsdk ▸ ht
  unfold key at hkey
  injection hkey with hregion hprofile hendpoint _ hprovider hfips huri
  rw [cString_of_nul (nul_region ht), cString_of_nul (nul_region ht')]
    at hregion
  rw [cString_of_nul (nul_profile ht), cString_of_nul (nul_profile ht')]
    at hprofile
  rw [cString_of_nul (nul_endpoint ht), cString_of_nul (nul_endpoint ht')]
    at hendpoint
  refine ⟨hsdk, hregion, hprofile, hendpoint, hfips, ?_, hprovider⟩
  -- a URI's profile is the one selected
  unfold profile at hprofile
  cases hp : q.uri.profile with
  | none =>
      rw [hp] at huri
      cases hp' : q'.uri.profile with
      | none => rfl
      | some p' =>
          rw [hp'] at huri
          cases huri
  | some p =>
      rw [hp] at huri hprofile
      cases hp' : q'.uri.profile with
      | none =>
          rw [hp'] at huri
          cases huri
      | some p' =>
          rw [hp'] at hprofile
          exact congrArg some hprofile

theorem SameRoute.config (h : SameRoute q q') : q.config = q'.config := by
  have hbase : q.baseConfig = q'.baseConfig := by
    simp only [baseConfig, h.sdk, h.profile]
  simp only [ClientRequest.config, hbase, h.region, h.endpoint, h.fips]

end ClientRequest

section

variable {u u' p p' : Option Bytes} {b : Bytes}
  {ambient : CredentialProviderConfiguration Rest}

/-- Both profiles are read as C strings. -/
theorem precedenceChain_congr (hu : u.map cString = u'.map cString)
    (hp : p.map cString = p'.map cString) :
    precedenceChain u ambient p = precedenceChain u' ambient p' := by
  cases u with
  | none =>
      obtain rfl : u' = none := Option.map_eq_none_iff.mp hu.symm
      cases p with
      | none =>
          obtain rfl : p' = none := Option.map_eq_none_iff.mp hp.symm
          rfl
      | some a =>
          obtain ⟨a', rfl, ha⟩ := Option.map_eq_some_iff.mp hp.symm
          simp only [precedenceChain, Option.map_none, ha]
  | some c =>
      obtain ⟨c', rfl, hc⟩ := Option.map_eq_some_iff.mp hu.symm
      cases p with
      | none =>
          obtain rfl : p' = none := Option.map_eq_none_iff.mp hp.symm
          simp only [precedenceChain, hc]
      | some a =>
          obtain ⟨a', rfl, ha⟩ := Option.map_eq_some_iff.mp hp.symm
          simp only [precedenceChain, Option.map_some, hc, ha]

/-- No provider profile and an empty one make the same chain unless the empty
one is a member. -/
theorem precedenceChain_empty (hb : cString b = []) :
    precedenceChain u ambient none = precedenceChain u ambient (some b) ↔
      ¬(u.map cString ≠ some [] ∧ ambient.profile ≠ []) := by
  simp only [precedenceChain, hb]
  by_cases h : u.map cString ≠ some [] ∧ ambient.profile ≠ []
  · rw [if_pos h]
    simp [h]
  · rw [if_neg h]
    simp only [h, not_false_eq_true]

end

/-- Two calls with one key build the same client unless they are confused. -/
theorem parts_eq_iff {q q' : ClientRequest Rest} (ht : SdkTexts q.sdk)
    (hsdk : q.sdk = q'.sdk) (hkey : q.key = q'.key) :
    q.parts = q'.parts ↔ ¬ Confused q q' := by
  have hroute := ClientRequest.sameRoute hsdk ht hkey
  have hambient : q.ambientConfig = q'.ambientConfig := by
    simp only [ClientRequest.ambientConfig, hsdk]
  have hparts : q.parts = q'.parts ↔
      precedenceChain q.uri.profile q.ambientConfig.credentialProviderConfig
          q.provctx.profile =
        precedenceChain q.uri.profile q.ambientConfig.credentialProviderConfig
          q'.provctx.profile := by
    simp only [ClientRequest.parts, ClientParts.mk.injEq, hroute.config,
      true_and, ← hambient]
    rw [precedenceChain_congr hroute.uriProfile.symm rfl]
  rw [hparts]
  have hprovider := hroute.providerProfile
  cases hp : q.provctx.profile with
  | none =>
      cases hp' : q'.provctx.profile with
      | none =>
          refine ⟨fun _ hconf => hconf.provider ?_, fun _ => rfl⟩
          rw [hp, hp']
      | some b' =>
          rw [hp, hp'] at hprovider
          rw [precedenceChain_empty hprovider.symm, not_iff_not]
          refine ⟨fun ⟨hu, ha⟩ => ⟨?_, hu, ha⟩, fun h => ⟨h.uri, h.ambient⟩⟩
          rw [hp, hp']
          simp
  | some b =>
      cases hp' : q'.provctx.profile with
      | none =>
          rw [hp, hp'] at hprovider
          rw [eq_comm, precedenceChain_empty hprovider, not_iff_not]
          refine ⟨fun ⟨hu, ha⟩ => ⟨?_, hu, ha⟩, fun h => ⟨h.uri, h.ambient⟩⟩
          rw [hp, hp']
          simp
      | some b' =>
          rw [hp, hp'] at hprovider
          refine ⟨fun _ hconf => hconf.provider ?_, fun _ => ?_⟩
          · rw [hp, hp']
            rfl
          · exact precedenceChain_congr rfl (congrArg some hprovider)

/-! ## Runs

A client in the cache was built for the first caller with its key. Every later
caller with that key has the same route, so what it is handed is what would
have been built for it, up to the one thing the key does not tell. -/

/-- The call was made in the run. -/
def AskedFor (evs : List (ClientRec Rest)) (q : ClientRequest Rest) : Prop :=
  ∃ e ∈ evs, ∃ t, e.input = .lookup t q

/-- What a call in a process that has made none before is answered with. -/
def ClientRequest.fresh (q : ClientRequest Rest) : Option (ClientParts Rest) :=
  (((clients Rest).outs .empty
      [.lookup 0 q, .construct 0, .publish 0]).flatMap (·.trace)).findSome?
    fun
    | .returned _ _ client => some client.parts
    | _ => none

theorem ClientRequest.fresh_eq {q : ClientRequest Rest}
    (h : q.refusal = none) : q.fresh = some q.parts := by
  have hmiss : cachedClient q.key (⟨.empty, ∅⟩ : ProcessState Rest) =
      (none, ⟨.empty, ∅⟩) := by
    simp [cachedClient]
  have hroom : (∅ : AList fun _ : ClientKey => ClientEntry Rest).entries.length ≠
      kMaxClients := by
    simp [kMaxClients]
  simp only [fresh, Machine.outs, clients, Clients.step, Clients.empty, h,
    Clients.setPhase, hmiss, Function.update_self, publishClient,
    AList.lookup_empty, if_neg hroom, List.flatMap_cons, List.flatMap_nil,
    Option.toList_none, List.map_nil, List.nil_append, List.append_nil,
    List.findSome?_cons]

/-- A call in progress, and what its thread has built for it. -/
def InFlight (evs : List (ClientRec Rest)) : ClientPhase Rest → Prop
  | .idle => True
  | .missed q => AskedFor evs q ∧ q.refusal = none
  | .built q candidate =>
      (AskedFor evs q ∧ q.refusal = none) ∧ candidate.parts = q.parts

/-- What a run has built so far, and for which calls. -/
structure BuiltFor (evs : List (ClientRec Rest)) (s : Clients Rest) : Prop where
  phase : ∀ t, InFlight evs (s.phase t)
  cached : ∀ k client, s.state.Cached k client →
    ∃ q, AskedFor evs q ∧ q.key = k ∧ client.parts = q.parts

theorem askedFor_append {evs more : List (ClientRec Rest)} {q : ClientRequest Rest}
    (h : AskedFor evs q) : AskedFor (evs ++ more) q := by
  obtain ⟨e, he, hq⟩ := h
  exact ⟨e, List.mem_append_left _ he, hq⟩

theorem inFlight_append {evs more : List (ClientRec Rest)}
    {phase : ClientPhase Rest} (h : InFlight evs phase) :
    InFlight (evs ++ more) phase := by
  cases phase with
  | idle => trivial
  | missed q => exact ⟨askedFor_append h.1, h.2⟩
  | built q candidate => exact ⟨⟨askedFor_append h.1.1, h.1.2⟩, h.2⟩

/-- One thread's phase is written, and the others are as they were. -/
theorem inFlight_setPhase {evs : List (ClientRec Rest)} {s : Clients Rest}
    (h : ∀ t, InFlight evs (s.phase t)) (t : Nat) (phase : ClientPhase Rest)
    (hp : InFlight evs phase) (t' : Nat) :
    InFlight evs ((s.setPhase t phase).phase t') := by
  show InFlight evs (Function.update s.phase t phase t')
  by_cases ht : t' = t
  · subst ht
    rw [Function.update_self]
    exact hp
  · rw [Function.update_of_ne ht]
    exact h t'

/-- Only a lookup brings in a call, and its own record shows which. -/
theorem inFlight_step {evs : List (ClientRec Rest)} {s : Clients Rest}
    (h : ∀ t, InFlight evs (s.phase t)) {i : ClientStep Rest}
    (hasked : ∀ t q, i = .lookup t q → AskedFor evs q) (t : Nat) :
    InFlight evs (((clients Rest).step i s).state.phase t) := by
  cases i with
  | lookup t' q =>
      simp only [clients, Clients.step]
      cases hok : q.refusal with
      | some e => exact h t
      | none =>
          obtain ⟨found, state⟩ := cachedClient q.key s.state
          cases found with
          | some client => exact h t
          | none =>
              exact inFlight_setPhase h t' (.missed q) ⟨hasked t' q rfl, hok⟩ t
  | construct t' =>
      simp only [clients, Clients.step]
      cases hphase : s.phase t' with
      | idle => exact h t
      | built q candidate => exact h t
      | missed q =>
          have hq := h t'
          rw [hphase] at hq
          exact inFlight_setPhase h t' (.built q ⟨s.made, q.parts⟩) ⟨hq, rfl⟩ t
  | publish t' =>
      simp only [clients, Clients.step]
      cases s.phase t' with
      | idle => exact h t
      | missed q => exact h t
      | built q candidate => exact inFlight_setPhase h t' .idle trivial t

theorem builtFor_run {evs : List (ClientRec Rest)} {s : Clients Rest}
    (hr : (clients Rest).Run evs s) : BuiltFor evs s := by
  induction hr with
  | nil =>
      refine ⟨fun t => trivial, fun k client ⟨e, he, _⟩ => ?_⟩
      cases he
  | @snoc evs s i hr _ ih =>
      refine ⟨fun t => ?_, fun k client hc => ?_⟩
      · refine inFlight_step (fun t => inFlight_append (ih.phase t)) ?_ t
        rintro t q rfl
        exact ⟨_, List.mem_append_right _ (List.mem_singleton_self _), t, rfl⟩
      · obtain ⟨c, hrep, -⟩ := cache_run hr
        obtain ⟨c', hrep', hstep⟩ := clients_step hrep i
        rcases hstep.source (hrep'.cached_iff.mp hc) with
          hhas | ⟨t, q, hphase, hq⟩
        · obtain ⟨q, hasked, hq⟩ := ih.cached k client (hrep.cached_iff.mpr hhas)
          exact ⟨q, askedFor_append hasked, hq⟩
        · have hflight := ih.phase t
          rw [hphase] at hflight
          exact ⟨q, askedFor_append hflight.1.1, hq, hflight.2⟩

/-- A client is handed out to the call that was just looked up, or to the one
its thread had a candidate for. -/
theorem returned_call {s : Clients Rest} {i : ClientStep Rest} {t : Nat}
    {q : ClientRequest Rest} {client : Client Rest}
    (hret : .returned t q client ∈ ((clients Rest).step i s).trace) :
    (i = .lookup t q ∧ q.refusal = none) ∨
      ∃ candidate, s.phase t = .built q candidate := by
  cases i with
  | lookup t' q' =>
      simp only [clients, Clients.step] at hret
      cases hok : q'.refusal with
      | some e => simp [hok] at hret
      | none =>
          simp only [hok] at hret
          split at hret
          · obtain ⟨rfl, rfl, -⟩ : t = t' ∧ q = q' ∧ _ := by simpa using hret
            exact .inl ⟨rfl, hok⟩
          · cases hret
  | construct t' =>
      simp only [clients, Clients.step] at hret
      split at hret
      · cases hret
      · cases hret
  | publish t' =>
      simp only [clients, Clients.step] at hret
      split at hret
      · next q' candidate hphase =>
          obtain ⟨rfl, rfl, -⟩ : t = t' ∧ q = q' ∧ _ := by simpa using hret
          exact .inr ⟨candidate, hphase⟩
      · cases hret

/-- What a step hands out was built for a call with the same key. -/
theorem returned_built {evs : List (ClientRec Rest)} {s : Clients Rest}
    (hr : (clients Rest).Run evs s) {i : ClientStep Rest}
    (ha : (clients Rest).allowed s i) {t : Nat} {q : ClientRequest Rest}
    {client : Client Rest}
    (hret : .returned t q client ∈ ((clients Rest).step i s).trace) :
    (AskedFor (evs ++ [⟨s, i, (clients Rest).step i s⟩]) q ∧ q.refusal = none) ∧
      ∃ q', AskedFor (evs ++ [⟨s, i, (clients Rest).step i s⟩]) q' ∧
        q'.key = q.key ∧ client.parts = q'.parts := by
  refine ⟨?_, ?_⟩
  · rcases returned_call hret with ⟨rfl, hok⟩ | ⟨candidate, hphase⟩
    · exact ⟨⟨_, List.mem_append_right _ (List.mem_singleton_self _), t, rfl⟩, hok⟩
    · have hflight := (builtFor_run hr).phase t
      rw [hphase] at hflight
      exact ⟨askedFor_append hflight.1.1, hflight.1.2⟩
  · obtain ⟨c, hrep, -⟩ := cache_run hr
    obtain ⟨c', hrep', hstep⟩ := clients_step hrep i
    exact (builtFor_run (hr.snoc ha)).cached q.key client
      (hrep'.cached_iff.mpr (hstep.returned hret).2)

/-- In one environment, whatever was called before: a call is given the client
it would be given first thing in a new process, unless it and an earlier call
with the same key are confused, and then it may not be. -/
theorem client_as_fresh {sdk : Sdk Rest} (ht : SdkTexts sdk) :
    (∀ q q' : ClientRequest Rest, q.sdk = sdk → q'.sdk = sdk → q.key = q'.key →
      (q.parts = q'.parts ↔ ¬ Confused q q')) ∧
    ∀ evs s, (clients Rest).Run evs s → (∀ q, AskedFor evs q → q.sdk = sdk) →
      (∀ q q', AskedFor evs q → AskedFor evs q' → q.key = q'.key → ¬ Confused q q') →
      ∀ e ∈ evs, ∀ t q client, .returned t q client ∈ e.out.trace →
        q.fresh = some client.parts := by
  refine ⟨fun q q' hq hq' hkey => ?_, fun evs s hr hsdk hclear e he t q client hret => ?_⟩
  · exact parts_eq_iff (hq ▸ ht) (hq.trans hq'.symm) hkey
  · obtain ⟨before, after, rfl, hpre, ha, hout⟩ := hr.of_mem e he
    have hrec : e = ⟨e.pre, e.input, (clients Rest).step e.input e.pre⟩ := by
      rw [← hout]
    rw [hout] at hret
    obtain ⟨⟨hasked, hok⟩, q', hasked', hkey, hparts⟩ := returned_built hpre ha hret
    rw [← hrec] at hasked hasked'
    have hall : before ++ e :: after = before ++ [e] ++ after := by simp
    replace hasked : AskedFor (before ++ e :: after) q := hall ▸ askedFor_append hasked
    replace hasked' : AskedFor (before ++ e :: after) q' := hall ▸ askedFor_append hasked'
    have hq := hsdk q hasked
    have hq' := hsdk q' hasked'
    rw [ClientRequest.fresh_eq hok, hparts]
    refine congrArg some ((parts_eq_iff (hq ▸ ht) ?_ hkey.symm).mpr ?_)
    · rw [hq, hq']
    · exact hclear q q' hasked hasked' hkey.symm

end

namespace Bench

theorem nul_ascii_prod : (0 : UInt8) ∉ ascii "prod" := by decide

theorem nul_ascii_region : (0 : UInt8) ∉ ascii "eu-west-1" := by decide

theorem sdkTexts : SdkTexts sdk where
  env v := by
    simp only [sdk]
    split
    · exact nul_ascii_prod
    · simp
  configProfileName := nul_ascii_prod
  profileRegion _ := nul_ascii_region
  configRegion _ := nul_ascii_region
  endpoint _ _ := by simp [sdk]

theorem raceSteps_askedFor {q : ClientRequest Unit}
    (h : AskedFor ((clients Unit).records .empty raceSteps) q) :
    q = request none := by
  obtain ⟨e, he, t, hq⟩ := h
  have hmem := Machine.records_input he
  rw [hq] at hmem
  simp only [raceSteps, List.mem_cons, ClientStep.lookup.injEq, reduceCtorEq,
    false_or, List.not_mem_nil, or_false] at hmem
  rcases hmem with ⟨-, hq⟩ | ⟨-, hq⟩ | ⟨-, hq⟩
  · exact hq
  · exact hq
  · exact hq

/-- A provider without a profile, and then one with an empty profile. -/
def emptyProfileSteps : List (ClientStep Unit) :=
  [.lookup 0 (request none), .construct 0, .publish 0,
    .lookup 0 (request (some []))]

theorem emptyProfile_allowed :
    (clients Unit).AllowedAll Clients.empty emptyProfileSteps :=
  ⟨rfl, ⟨_, rfl⟩, ⟨_, _, rfl⟩, rfl, trivial⟩

end Bench

theorem client_as_fresh_race : (Bench.request none).fresh =
    some (⟨1, (Bench.request none).parts⟩ : Client Unit).parts := by
  refine (client_as_fresh Bench.sdkTexts).2 _ _
    (Machine.run_records Bench.race_allowed) (fun q hq => ?_)
    (fun q q' hq hq' _ hconf => hconf.provider ?_)
    ((clients Unit).recordAfter (Bench.raceSteps.take 6)
      (.lookup 2 (Bench.request none)))
    (List.mem_of_getLast? rfl) 2 _ _ (List.mem_singleton_self _)
  · rw [Bench.raceSteps_askedFor hq]
    rfl
  · rw [Bench.raceSteps_askedFor hq, Bench.raceSteps_askedFor hq']

theorem client_not_as_fresh :
    ¬ ∀ (sdk : Sdk Unit), SdkTexts sdk → ∀ evs s, (clients Unit).Run evs s →
      (∀ q, AskedFor evs q → q.sdk = sdk) →
      ∀ e ∈ evs, ∀ t q client, .returned t q client ∈ e.out.trace →
        q.fresh = some client.parts := by
  intro hall
  have hfresh := hall Bench.sdk Bench.sdkTexts _ _
    (Machine.run_records Bench.emptyProfile_allowed) (fun q hq => ?_)
    ((clients Unit).recordAfter
      [.lookup 0 (Bench.request none), .construct 0, .publish 0]
      (.lookup 0 (Bench.request (some [])))) (List.mem_of_getLast? rfl)
    0 (Bench.request (some [])) ⟨0, (Bench.request none).parts⟩
    (List.mem_singleton_self _)
  · have hne : (Bench.request (some [])).fresh ≠
        some (Bench.request none).parts := by
      decide +kernel
    exact hne hfresh
  · obtain ⟨e, he, t, hq⟩ := hq
    have hmem := Machine.records_input he
    rw [hq] at hmem
    simp only [Bench.emptyProfileSteps, List.mem_cons,
      ClientStep.lookup.injEq, reduceCtorEq, false_or, List.not_mem_nil,
      or_false] at hmem
    rcases hmem with ⟨-, rfl⟩ | ⟨-, rfl⟩
    · rfl
    · rfl

end AwsKms.Model
