import Mathlib.Data.List.Infix
import AwsKms.Spec.Cleanup

/-!
# The steps of a teardown

What each step of the cleanup returns, and what it asks, in terms of the
answers it was given. A check returns metadata exactly where the answers say
that the key is the target's (`leads_verify`), a step returns 0 exactly where
nothing failed (`leads_keyStep`, `leads_aliasStep`), and neither asks for
anything destructive before its own checks have returned (`asks_keyStep`,
`asks_aliasStep`). The targets have different ids, so that no key is handled
twice.
-/

namespace AwsKms.Model

open AwsKms.Lib AwsKms.Spec

theorem leads_awsTry {args : AwsCall} {opts : CleanupOpts} {t : Answers}
    {result : Except AwsCliError (Option AwsReply)} (hlive : opts.dryRun = false) :
    (awsTryAsync args opts).Leads t (.ret result) ↔
      ∃ r, t = [(args, r)] ∧ r.read args = .ok result := by
  unfold awsTryAsync
  rw [if_neg (by simp [hlive]), Prog.leads_bind]
  constructor
  · rintro ⟨t₁, t₂, r, rfl, h₁, h₂⟩
    obtain rfl := Prog.leads_call.mp h₁
    cases hr : r.read args with
    | error message =>
        rw [hr] at h₂
        cases (Prog.leads_throw.mp h₂).2
    | ok result' =>
        rw [hr] at h₂
        obtain ⟨rfl, ⟨⟩⟩ := Prog.leads_ret.mp h₂
        exact ⟨r, rfl, hr⟩
  · rintro ⟨r, rfl, hr⟩
    refine ⟨[(args, r)], [], r, rfl, Prog.leads_call.mpr rfl, ?_⟩
    rw [hr]
    exact Prog.leads_ret.mpr ⟨rfl, rfl⟩

theorem leads_awsTry_dry {args : AwsCall} {opts : CleanupOpts} {t : Answers}
    {result : Except AwsCliError (Option AwsReply)} (hdry : opts.dryRun = true) :
    (awsTryAsync args opts).Leads t (.ret result) ↔
      t = [] ∧ result = .ok none := by
  unfold awsTryAsync
  rw [if_pos hdry]
  refine Prog.leads_ret.trans (and_congr_right' ⟨?_, ?_⟩)
  · rintro ⟨⟩
    rfl
  · rintro rfl
    rfl

/-- A read-only command is run in a dry run too. -/
theorem leads_read {args : AwsCall} {opts : CleanupOpts} {t : Answers}
    {result : Except AwsCliError (Option AwsReply)} :
    (awsTryAsync args (readOnlyOptions opts)).Leads t (.ret result) ↔
      ∃ r, t = [(args, r)] ∧ r.read args = .ok result := leads_awsTry rfl

/-! ## What the checks return

A check is a fixed list of questions about one key. It returns the metadata
where every answer is as it should be, and throws at the first that is not. -/

theorem outsideSelection_eq_false {opts : CleanupOpts} {metadata : KeyMetadata} :
    outsideSelection opts metadata = false ↔
      ∃ arn, parseKeyArn metadata.arn = some arn ∧
        arn.account = opts.account ∧ arn.region = opts.region := by
  cases h : parseKeyArn metadata.arn <;> simp [outsideSelection, h]

theorem ownershipRefusal_eq_none {target : Target} {metadata : KeyMetadata}
    {tags : List Tag} : ownershipRefusal target metadata tags = none ↔
      (∀ kv ∈ target.expectedTags, tagValueOf tags kv.1 = some kv.2) ∧
        ((truthy target.keySpec).isSome → metadata.keySpec = target.keySpec) := by
  unfold ownershipRefusal
  cases hf : target.expectedTags.find? fun kv =>
      tagValueOf tags kv.1 ≠ some kv.2 with
  | some kv =>
      have hmem := List.mem_of_find?_eq_some hf
      have hne := List.find?_some hf
      simp only [reduceCtorEq, false_iff, not_and]
      intro hall
      exact absurd (hall kv hmem) (by simpa using hne)
  | none =>
      have hall : ∀ kv ∈ target.expectedTags, tagValueOf tags kv.1 = some kv.2 := by
        simpa using hf
      simp only [ite_eq_right_iff, reduceCtorEq, imp_false, not_and, not_not]
      exact ⟨fun h => ⟨hall, h⟩, fun h => h.2⟩

theorem leads_verifyMetadata {opts : CleanupOpts} {target : Target}
    {metadata : KeyMetadata} {t : Answers} {v : Option KeyMetadata} :
    (verifyMetadata target opts metadata).Leads t (.ret v) ↔
      v = some metadata ∧ ∃ r value, t = [(.listResourceTags metadata.keyId, r)] ∧
        Replied (.listResourceTags metadata.keyId) r value ∧
        Ours opts target metadata ((value.bind AwsReply.tags).getD []) := by
  unfold verifyMetadata
  cases hout : outsideSelection opts metadata with
  | true =>
      simp only [if_true]
      constructor
      · intro h
        cases (Prog.leads_throw.mp h).2
      · rintro ⟨-, r, value, -, -, hours⟩
        have hin := outsideSelection_eq_false.mpr hours.place
        rw [hout] at hin
        cases hin
  | false =>
      simp only [Bool.false_eq_true, if_false]
      rw [Prog.leads_bind]
      constructor
      · rintro ⟨t₁, t₂, result, rfl, h₁, h₂⟩
        obtain ⟨r, rfl, hr⟩ := leads_read.mp h₁
        cases result with
        | error error => cases (Prog.leads_throw.mp h₂).2
        | ok listed =>
            cases href : ownershipRefusal target metadata
                ((listed.bind AwsReply.tags).getD []) with
            | some message =>
                simp only [href] at h₂
                cases (Prog.leads_throw.mp h₂).2
            | none =>
                simp only [href] at h₂
                obtain ⟨rfl, ⟨⟩⟩ := Prog.leads_ret.mp h₂
                obtain ⟨htags, hspec⟩ := ownershipRefusal_eq_none.mp href
                exact ⟨rfl, r, listed, rfl, hr,
                  ⟨outsideSelection_eq_false.mp hout, htags, hspec⟩⟩
      · rintro ⟨rfl, r, value, rfl, hr, hours⟩
        refine ⟨_, [], _, rfl, leads_read.mpr ⟨r, rfl, hr⟩, ?_⟩
        have href := ownershipRefusal_eq_none.mpr ⟨hours.tags, hours.keySpec⟩
        simp only [href]
        exact Prog.leads_ret.mpr ⟨rfl, rfl⟩

/-- What `verifyOwnedTarget` returns is what the answers say. -/
theorem leads_verify {opts : CleanupOpts} {target : Target} {t : Answers}
    {v : Option KeyMetadata} :
    (verifyOwnedTarget target opts).Leads t (.ret v) ↔
      (v = none ∧ Gone target t) ∨
        ∃ metadata, v = some metadata ∧ Owned opts target metadata t := by
  unfold verifyOwnedTarget
  rw [Prog.leads_bind]
  constructor
  · rintro ⟨t₁, t₂, result, rfl, h₁, h₂⟩
    obtain ⟨r, rfl, hr⟩ := leads_read.mp h₁
    cases result with
    | error error =>
        by_cases hcode : error.errorCode = some "NotFoundException"
        · simp only [if_pos hcode] at h₂
          obtain ⟨rfl, ⟨⟩⟩ := Prog.leads_ret.mp h₂
          exact .inl ⟨rfl, r, rfl, error, hr, hcode⟩
        · simp only [if_neg hcode] at h₂
          cases (Prog.leads_throw.mp h₂).2
    | ok described =>
        cases hm : described.bind AwsReply.keyMetadata with
        | none =>
            simp only [hm] at h₂
            cases (Prog.leads_throw.mp h₂).2
        | some metadata =>
            simp only [hm] at h₂
            obtain ⟨rfl, r₂, value, rfl, hr₂, hours⟩ := leads_verifyMetadata.mp h₂
            exact .inr ⟨metadata, rfl, r, described, r₂, value, rfl, hr, hm, hr₂,
              hours⟩
  · rintro (⟨rfl, r, rfl, error, hr, hcode⟩ |
      ⟨metadata, rfl, r₁, v₁, r₂, v₂, rfl, hr₁, hm, hr₂, hours⟩)
    · refine ⟨_, [], _, rfl, leads_read.mpr ⟨r, rfl, hr⟩, ?_⟩
      simp only [if_pos hcode]
      exact Prog.leads_ret.mpr ⟨rfl, rfl⟩
    · refine ⟨[_], [_], _, rfl, leads_read.mpr ⟨r₁, rfl, hr₁⟩, ?_⟩
      simp only [hm]
      exact leads_verifyMetadata.mpr ⟨rfl, r₂, v₂, rfl, hr₂, hours⟩

theorem leads_describeAlias {opts : CleanupOpts} {aliasName : String}
    {t : Answers} {v : Option KeyMetadata} :
    (describeAliasAsync aliasName opts).Leads t (.ret v) ↔
      ResolvesTo aliasName t v := by
  unfold describeAliasAsync
  rw [Prog.leads_bind]
  constructor
  · rintro ⟨t₁, t₂, result, rfl, h₁, h₂⟩
    obtain ⟨r, rfl, hr⟩ := leads_read.mp h₁
    cases result with
    | error error =>
        by_cases hcode : error.errorCode = some "NotFoundException"
        · simp only [if_pos hcode] at h₂
          obtain ⟨rfl, ⟨⟩⟩ := Prog.leads_ret.mp h₂
          exact ⟨r, rfl, .inr ⟨rfl, error, hr, hcode⟩⟩
        · simp only [if_neg hcode] at h₂
          cases (Prog.leads_throw.mp h₂).2
    | ok value =>
        obtain ⟨rfl, ⟨⟩⟩ := Prog.leads_ret.mp h₂
        exact ⟨r, rfl, .inl ⟨value, hr, rfl⟩⟩
  · rintro ⟨r, rfl, ⟨value, hr, rfl⟩ | ⟨rfl, error, hr, hcode⟩⟩
    · exact ⟨_, [], _, rfl, leads_read.mpr ⟨r, rfl, hr⟩,
        Prog.leads_ret.mpr ⟨rfl, rfl⟩⟩
    · refine ⟨_, [], _, rfl, leads_read.mpr ⟨r, rfl, hr⟩, ?_⟩
      simp only [if_pos hcode]
      exact Prog.leads_ret.mpr ⟨rfl, rfl⟩

theorem owned_not_gone {opts : CleanupOpts} {target : Target}
    {metadata : KeyMetadata} {t more : Answers}
    (h : Owned opts target metadata t) : ¬ Gone target (t ++ more) := by
  obtain ⟨r₁, v₁, r₂, v₂, rfl, -⟩ := h
  rintro ⟨r, hr, -⟩
  simp at hr

theorem aliasFresh_of {opts : CleanupOpts} {aliasName : String} {target : Target}
    {metadata aliasTarget : KeyMetadata} {t₁ t₂ : Answers}
    (howned : Owned opts target metadata t₁)
    (hres : ResolvesTo aliasName t₂ (some aliasTarget))
    (harn : aliasTarget.arn = metadata.arn) :
    AliasFresh opts aliasName target (t₁ ++ t₂) :=
  ⟨metadata, aliasTarget, t₁, t₂, rfl, howned, hres, harn⟩

/-- With the alias fresh, the preflight keeps it. -/
theorem leads_preflight_fresh {opts : CleanupOpts} {target : Target}
    {aliasName : String} {t : Answers}
    (hal : truthy target.aliasName = some aliasName)
    (h : AliasFresh opts aliasName target t) :
    (preflightTarget opts target).Leads t (.ret (some ⟨target, some aliasName⟩)) := by
  obtain ⟨metadata, aliasTarget, t₁, t₂, rfl, howned, hres, harn⟩ := h.found
  unfold preflightTarget
  rw [Prog.leads_bind]
  refine ⟨t₁, t₂, some metadata, rfl, leads_verify.mpr (.inr ⟨_, rfl, howned⟩), ?_⟩
  simp only [hal]
  rw [Prog.leads_bind]
  refine ⟨t₂, [], some aliasTarget, (List.append_nil _).symm,
    leads_describeAlias.mpr hres, ?_⟩
  simp only [harn, ne_eq, not_true_eq_false, if_false]
  exact Prog.leads_ret.mpr ⟨rfl, rfl⟩

/-- What the preflight returns is what the answers say. -/
theorem leads_preflight {opts : CleanupOpts} {target : Target} {t : Answers}
    {v : Option TargetEntry} (h : (preflightTarget opts target).Leads t (.ret v)) :
    Passed opts target t ∧ (v = none ↔ Gone target t) ∧
      ∀ entry ∈ v, entry.target = target ∧ ∀ aliasName ∈ entry.aliasName,
        truthy target.aliasName = some aliasName ∧
          AliasFresh opts aliasName target t := by
  unfold preflightTarget at h
  rw [Prog.leads_bind] at h
  obtain ⟨t₁, t₂, verified, rfl, h₁, h₂⟩ := h
  rcases leads_verify.mp h₁ with ⟨rfl, hgone⟩ | ⟨metadata, rfl, howned⟩
  · obtain ⟨rfl, ⟨⟩⟩ := Prog.leads_ret.mp h₂
    rw [List.append_nil]
    exact ⟨.gone hgone, ⟨fun _ => hgone, fun _ => rfl⟩, by simp⟩
  have hnot : Gone target (t₁ ++ t₂) → v = none := fun h =>
    absurd h (owned_not_gone howned)
  cases hal : truthy target.aliasName with
  | none =>
      simp only [hal] at h₂
      obtain ⟨rfl, ⟨⟩⟩ := Prog.leads_ret.mp h₂
      refine ⟨?_, ⟨by simp, hnot⟩, by simp⟩
      rw [List.append_nil]
      exact .noAlias howned hal
  | some aliasName =>
      simp only [hal] at h₂
      rw [Prog.leads_bind] at h₂
      obtain ⟨t₃, t₄, aliasTarget, rfl, h₃, h₄⟩ := h₂
      have hres := leads_describeAlias.mp h₃
      cases aliasTarget with
      | none =>
          obtain ⟨rfl, ⟨⟩⟩ := Prog.leads_ret.mp h₄
          refine ⟨?_, ⟨by simp, hnot⟩, by simp⟩
          rw [List.append_nil]
          exact .aliasGone howned hal hres
      | some aliasTarget =>
          by_cases harn : aliasTarget.arn ≠ metadata.arn
          · simp only [if_pos harn] at h₄
            cases (Prog.leads_throw.mp h₄).2
          · simp only [if_neg harn] at h₄
            obtain ⟨rfl, ⟨⟩⟩ := Prog.leads_ret.mp h₄
            have hfresh := aliasFresh_of howned hres (not_not.mp harn)
            refine ⟨?_, ⟨by simp, hnot⟩, ?_⟩
            · rw [List.append_nil]
              exact .aliasOurs howned hal hres (not_not.mp harn)
            · rintro entry ⟨⟩
              refine ⟨rfl, ?_⟩
              rintro _ ⟨⟩
              rw [List.append_nil]
              exact ⟨rfl, hfresh⟩

/-- The handler of a step does not return 0. -/
theorem handler_ne_zero (_ : String) (t : Answers) :
    ¬ (return 1 : Script Nat).Leads t (.ret 0) := by
  intro h
  cases (Prog.leads_ret.mp h).2

theorem any_tails_isPrefixOf {part s : List Char} :
    s.tails.any (part.isPrefixOf ·) = true ↔ part <:+: s := by
  simp only [List.any_eq_true, List.mem_tails, List.isPrefixOf_iff_prefix]
  constructor
  · rintro ⟨rest, hsuffix, hprefix⟩
    exact hprefix.isInfix.trans hsuffix.isInfix
  · rintro ⟨before, after, rfl⟩
    exact ⟨part ++ after, ⟨before, (List.append_assoc ..).symm⟩, List.prefix_append ..⟩

theorem saysPending_iff {stderr : String} :
    saysPending stderr = true ↔ SaysPending stderr := by
  unfold saysPending SaysPending
  rw [← any_tails_isPrefixOf, ← any_tails_isPrefixOf]
  simp only [List.any_eq_true, Bool.or_eq_true, and_or_left, exists_or]

/-- The answers the script is content with are those of a scheduled key. -/
theorem scheduled_iff {args : AwsCall} {r : Exec} : Scheduled args r ↔
    ∃ result, r.read args = .ok result ∧ scheduleAccepted result = true := by
  constructor
  · rintro (hr | ⟨error, hr, hcode⟩ | ⟨hr, hcode, hpending⟩)
    · exact ⟨_, hr, rfl⟩
    · exact ⟨_, hr, by simp [scheduleAccepted, hcode]⟩
    · exact ⟨_, hr, by simp [scheduleAccepted, hcode, saysPending_iff.mpr hpending]⟩
  · rintro ⟨result, hr, hacc⟩
    cases result with
    | ok value => exact .done hr
    | error error =>
        simp only [scheduleAccepted, Bool.or_eq_true, Bool.and_eq_true,
          decide_eq_true_eq] at hacc
        rcases hacc with hcode | ⟨hcode, hpending⟩
        · exact .notThere ⟨error, hr, hcode⟩
        · exact .pending hr hcode (saysPending_iff.mp hpending)

theorem leads_schedule {opts : CleanupOpts} {keyId what : String} {t : Answers} :
    (scheduleDeletion keyId opts what).Leads t (.ret ()) ↔
      opts.dryRun = true ∧ t = [] ∨ opts.dryRun = false ∧ ∃ r,
        t = [(.scheduleKeyDeletion keyId opts.window, r)] ∧
        Scheduled (.scheduleKeyDeletion keyId opts.window) r := by
  unfold scheduleDeletion
  rw [Prog.leads_bind]
  cases hdry : opts.dryRun with
  | true =>
      simp only [leads_awsTry_dry hdry, true_and, reduceCtorEq, false_and, or_false]
      constructor
      · rintro ⟨t₁, t₂, result, rfl, ⟨rfl, rfl⟩, h₂⟩
        exact (Prog.leads_ret.mp h₂).1
      · rintro rfl
        exact ⟨[], [], _, rfl, ⟨rfl, rfl⟩, Prog.leads_ret.mpr ⟨rfl, rfl⟩⟩
  | false =>
      simp only [leads_awsTry hdry, reduceCtorEq, false_and, true_and, false_or]
      constructor
      · rintro ⟨t₁, t₂, result, rfl, ⟨r, rfl, hr⟩, h₂⟩
        cases result with
        | ok value =>
            obtain ⟨rfl, -⟩ := Prog.leads_ret.mp h₂
            exact ⟨r, rfl, .done hr⟩
        | error error =>
            by_cases hacc : scheduleAccepted (.error error)
            · simp only [if_pos hacc] at h₂
              obtain ⟨rfl, -⟩ := Prog.leads_ret.mp h₂
              exact ⟨r, rfl, scheduled_iff.mpr ⟨_, hr, hacc⟩⟩
            · simp only [if_neg hacc] at h₂
              cases (Prog.leads_throw.mp h₂).2
      · rintro ⟨r, rfl, hscheduled⟩
        obtain ⟨result, hr, hacc⟩ := scheduled_iff.mp hscheduled
        refine ⟨_, [], result, rfl, ⟨r, rfl, hr⟩, ?_⟩
        cases result with
        | ok value => exact Prog.leads_ret.mpr ⟨rfl, rfl⟩
        | error error =>
            simp only [if_pos hacc]
            exact Prog.leads_ret.mpr ⟨rfl, rfl⟩

/-- A key step returns 0 where nothing failed, and only there. -/
theorem leads_keyStep {opts : CleanupOpts} {target : Target} {t : Answers} :
    (scheduleKeyStep opts target).Leads t (.ret 0) ↔ KeyDone opts target t := by
  unfold scheduleKeyStep
  rw [Prog.leads_tryCatch handler_ne_zero, Prog.leads_bind]
  constructor
  · rintro ⟨t₁, t₂, verified, rfl, h₁, h₂⟩
    rcases leads_verify.mp h₁ with ⟨rfl, hgone⟩ | ⟨metadata, rfl, howned⟩
    · obtain ⟨rfl, -⟩ := Prog.leads_ret.mp h₂
      rw [List.append_nil]
      exact .gone hgone
    · simp only at h₂
      rw [Prog.leads_bind] at h₂
      obtain ⟨t₃, t₄, ⟨⟩, rfl, h₃, h₄⟩ := h₂
      obtain ⟨rfl, -⟩ := Prog.leads_ret.mp h₄
      rw [List.append_nil]
      rcases leads_schedule.mp h₃ with ⟨hdry, rfl⟩ | ⟨hlive, r, rfl, hscheduled⟩
      · rw [List.append_nil]
        exact .dryRun hdry ⟨metadata, howned⟩
      · exact .scheduled hlive ⟨metadata, howned⟩ hscheduled
  · intro h
    cases h with
    | gone hgone =>
        exact ⟨t, [], none, (List.append_nil t).symm,
          leads_verify.mpr (.inl ⟨rfl, hgone⟩), Prog.leads_ret.mpr ⟨rfl, rfl⟩⟩
    | dryRun hdry hfresh =>
        obtain ⟨metadata, howned⟩ := hfresh.found
        refine ⟨t, [], some metadata, (List.append_nil t).symm,
          leads_verify.mpr (.inr ⟨_, rfl, howned⟩), ?_⟩
        simp only
        rw [Prog.leads_bind]
        exact ⟨[], [], (), rfl, leads_schedule.mpr (.inl ⟨hdry, rfl⟩),
          Prog.leads_ret.mpr ⟨rfl, rfl⟩⟩
    | @scheduled answers r hlive hfresh hscheduled =>
        obtain ⟨metadata, howned⟩ := hfresh.found
        refine ⟨answers, _, some metadata, rfl,
          leads_verify.mpr (.inr ⟨_, rfl, howned⟩), ?_⟩
        simp only
        rw [Prog.leads_bind]
        exact ⟨_, [], (), (List.append_nil _).symm,
          leads_schedule.mpr (.inr ⟨hlive, r, rfl, hscheduled⟩),
          Prog.leads_ret.mpr ⟨rfl, rfl⟩⟩

theorem leads_deleteVerified {opts : CleanupOpts} {aliasName : String}
    {metadata aliasTarget : KeyMetadata} {t : Answers} :
    (deleteVerified opts aliasName (some metadata) (some aliasTarget)).Leads t
        (.ret 0) ↔
      aliasTarget.arn = metadata.arn ∧ (opts.dryRun = true ∧ t = [] ∨
        opts.dryRun = false ∧ ∃ r, t = [(.deleteAlias aliasName, r)] ∧
          ((∃ v, Replied (.deleteAlias aliasName) r v) ∨
            NotThere (.deleteAlias aliasName) r)) := by
  simp only [deleteVerified]
  by_cases harn : aliasTarget.arn ≠ metadata.arn
  · rw [if_pos harn]
    constructor
    · intro h
      cases (Prog.leads_throw.mp h).2
    · exact fun h => absurd h.1 harn
  rw [if_neg harn, Prog.leads_bind]
  cases hdry : opts.dryRun with
  | true =>
      simp only [leads_awsTry_dry hdry, not_not.mp harn, true_and, reduceCtorEq,
        false_and, or_false]
      constructor
      · rintro ⟨t₁, t₂, result, rfl, ⟨rfl, rfl⟩, h₂⟩
        exact (Prog.leads_ret.mp h₂).1
      · rintro rfl
        exact ⟨[], [], _, rfl, ⟨rfl, rfl⟩, Prog.leads_ret.mpr ⟨rfl, rfl⟩⟩
  | false =>
      simp only [leads_awsTry hdry, not_not.mp harn, true_and, reduceCtorEq,
        false_and, false_or]
      constructor
      · rintro ⟨t₁, t₂, result, rfl, ⟨r, rfl, hr⟩, h₂⟩
        cases result with
        | ok value =>
            obtain ⟨rfl, -⟩ := Prog.leads_ret.mp h₂
            exact ⟨r, rfl, .inl ⟨value, hr⟩⟩
        | error error =>
            by_cases hcode : error.errorCode ≠ some "NotFoundException"
            · simp only [if_pos hcode] at h₂
              cases (Prog.leads_throw.mp h₂).2
            · simp only [if_neg hcode] at h₂
              obtain ⟨rfl, -⟩ := Prog.leads_ret.mp h₂
              exact ⟨r, rfl, .inr ⟨error, hr, not_not.mp hcode⟩⟩
      · rintro ⟨r, rfl, ⟨value, hr⟩ | ⟨error, hr, hcode⟩⟩
        · exact ⟨_, [], _, rfl, ⟨r, rfl, hr⟩, Prog.leads_ret.mpr ⟨rfl, rfl⟩⟩
        · refine ⟨_, [], _, rfl, ⟨r, rfl, hr⟩, ?_⟩
          simp only [if_neg (not_not.mpr hcode)]
          exact Prog.leads_ret.mpr ⟨rfl, rfl⟩

/-- An alias step returns 0 where nothing failed, and only there. -/
theorem leads_aliasStep {opts : CleanupOpts} {aliasName : String} {target : Target}
    {t : Answers} : (deleteAliasStep opts (aliasName, target)).Leads t (.ret 0) ↔
      AliasDone opts aliasName target t := by
  unfold deleteAliasStep
  rw [Prog.leads_tryCatch handler_ne_zero, Prog.leads_bind]
  simp only [Prog.leads_bind, leads_verify, leads_describeAlias]
  constructor
  · rintro ⟨t₁, t₂, verified, rfl, h₁, t₃, t₄, aliasTarget, rfl, hres, h₄⟩
    rcases h₁ with ⟨rfl, hgone⟩ | ⟨metadata, rfl, howned⟩
    · obtain ⟨rfl, -⟩ := Prog.leads_ret.mp h₄
      rw [List.append_nil]
      exact .keyGone hgone hres
    cases aliasTarget with
    | none =>
        obtain ⟨rfl, -⟩ := Prog.leads_ret.mp h₄
        rw [List.append_nil]
        exact .aliasGone howned hres
    | some aliasTarget =>
        rw [← List.append_assoc]
        obtain ⟨harn, ⟨hdry, rfl⟩ | ⟨hlive, r, rfl, hr⟩⟩ :=
          leads_deleteVerified.mp h₄
        · rw [List.append_nil]
          exact .dryRun hdry (aliasFresh_of howned hres harn)
        · exact .deleted hlive (aliasFresh_of howned hres harn) hr
  · intro h
    cases h with
    | keyGone hgone hres =>
        exact ⟨_, _, none, rfl, .inl ⟨rfl, hgone⟩, _, [], _,
          (List.append_nil _).symm, hres, Prog.leads_ret.mpr ⟨rfl, rfl⟩⟩
    | @aliasGone _ _ metadata howned hres =>
        exact ⟨_, _, some metadata, rfl, .inr ⟨_, rfl, howned⟩, _, [], none,
          (List.append_nil _).symm, hres, Prog.leads_ret.mpr ⟨rfl, rfl⟩⟩
    | dryRun hdry hfresh =>
        obtain ⟨metadata, aliasTarget, t₁, t₂, rfl, howned, hres, harn⟩ := hfresh.found
        exact ⟨_, _, some metadata, rfl, .inr ⟨_, rfl, howned⟩, _, [],
          some aliasTarget, (List.append_nil _).symm, hres,
          leads_deleteVerified.mpr ⟨harn, .inl ⟨hdry, rfl⟩⟩⟩
    | @deleted _ r hlive hfresh hr =>
        obtain ⟨metadata, aliasTarget, t₁, t₂, rfl, howned, hres, harn⟩ := hfresh.found
        exact ⟨t₁, t₂ ++ _, some metadata, List.append_assoc .., .inr ⟨_, rfl, howned⟩,
          t₂, _, some aliasTarget, rfl, hres,
          leads_deleteVerified.mpr ⟨harn, .inr ⟨hlive, r, rfl, hr⟩⟩⟩

/-! ## What the steps ask

The question in the proof is what was known when a command was given. Along a
path of a program every question is preceded by those before it, so that a
destructive one has the checks behind it. -/

theorem asks_awsTry {args q : AwsCall} {opts : CleanupOpts} {t : Answers} :
    (awsTryAsync args opts).Asks t q ↔
      opts.dryRun = false ∧ t = [] ∧ q = args := by
  unfold awsTryAsync
  cases hdry : opts.dryRun with
  | true => simp
  | false =>
      simp only [Bool.false_eq_true, if_false, Prog.asks_bind, Prog.asks_call,
        true_and]
      refine or_iff_left ?_
      rintro ⟨t₁, t₂, r, rfl, -, h⟩
      cases hr : r.read args with
      | error message => simp [hr] at h
      | ok result => simp [hr] at h

theorem asks_verifyMetadata {q : AwsCall} {target : Target} {opts : CleanupOpts}
    {metadata : KeyMetadata} {t : Answers}
    (h : (verifyMetadata target opts metadata).Asks t q) :
    q = .listResourceTags metadata.keyId := by
  unfold verifyMetadata at h
  cases hout : outsideSelection opts metadata with
  | true => simp [hout] at h
  | false =>
      simp only [hout, Bool.false_eq_true, if_false, Prog.asks_bind, asks_awsTry]
        at h
      rcases h with ⟨-, -, rfl⟩ | ⟨t₁, t₂, result, rfl, -, h⟩
      · rfl
      · exfalso
        cases result with
        | error error => exact Prog.not_asks_throw h
        | ok listed =>
            cases href : ownershipRefusal target metadata
                ((listed.bind AwsReply.tags).getD []) <;> simp [href] at h

/-- `verifyOwnedTarget` describes the target, first and once, and reads its
tags. -/
theorem asks_verify {q : AwsCall} {target : Target} {opts : CleanupOpts}
    {t : Answers} (h : (verifyOwnedTarget target opts).Asks t q) :
    t = [] ∧ q = .describeKey target.id ∨
      t ≠ [] ∧ ∃ keyId, q = .listResourceTags keyId := by
  unfold verifyOwnedTarget at h
  rcases Prog.asks_bind.mp h with h | ⟨t₁, t₂, result, rfl, h₁, h₂⟩
  · exact .inl (asks_awsTry.mp h).2
  obtain ⟨r, rfl, hr⟩ := leads_read.mp h₁
  refine .inr ⟨by simp, ?_⟩
  cases result with
  | error error =>
      exfalso
      by_cases hcode : error.errorCode = some "NotFoundException"
      · simp [hcode] at h₂
      · simp [hcode] at h₂
  | ok described =>
      cases hm : described.bind AwsReply.keyMetadata with
      | none => simp [hm] at h₂
      | some metadata =>
          simp only [hm] at h₂
          exact ⟨_, asks_verifyMetadata h₂⟩

theorem asks_describeAlias {q : AwsCall} {aliasName : String} {opts : CleanupOpts}
    {t : Answers} (h : (describeAliasAsync aliasName opts).Asks t q) :
    q = .describeKey aliasName := by
  unfold describeAliasAsync at h
  rcases Prog.asks_bind.mp h with h | ⟨t₁, t₂, result, rfl, -, h₂⟩
  · exact (asks_awsTry.mp h).2.2
  exfalso
  cases result with
  | ok value => exact Prog.not_asks_ret h₂
  | error error =>
      by_cases hcode : error.errorCode = some "NotFoundException"
      · simp [hcode] at h₂
      · simp [hcode] at h₂

/-- What a key step asks: the recheck, and then, with the key fresh, for its
deletion. -/
theorem asks_keyStep {q : AwsCall} {target : Target} {opts : CleanupOpts}
    {t : Answers} (h : (scheduleKeyStep opts target).Asks t q) :
    (t = [] ∧ q = .describeKey target.id) ∨
      (t ≠ [] ∧ ∃ keyId, q = .listResourceTags keyId) ∨
      (t ≠ [] ∧ q = .scheduleKeyDeletion target.id opts.window ∧
        opts.dryRun = false ∧ KeyFresh opts target t) := by
  have h := (Prog.asks_tryCatch fun _ _ => Prog.not_asks_ret).mp h
  rcases Prog.asks_bind.mp h with h | ⟨t₁, t₂, verified, rfl, h₁, h₂⟩
  · exact (asks_verify h).imp_right .inl
  rcases leads_verify.mp h₁ with ⟨rfl, hgone⟩ | ⟨metadata, rfl, howned⟩
  · exact (Prog.not_asks_ret h₂).elim
  simp only at h₂
  rcases Prog.asks_bind.mp h₂ with h | ⟨t₃, t₄, ⟨⟩, rfl, -, h⟩
  · unfold scheduleDeletion at h
    rcases Prog.asks_bind.mp h with h | ⟨t₃, t₄, result, rfl, -, h⟩
    · obtain ⟨hlive, rfl, rfl⟩ := asks_awsTry.mp h
      rw [List.append_nil]
      refine .inr (.inr ⟨?_, rfl, hlive, ⟨metadata, howned⟩⟩)
      obtain ⟨r₁, v₁, r₂, v₂, rfl, -⟩ := howned
      simp
    · exfalso
      cases result with
      | ok value => exact Prog.not_asks_ret h
      | error error =>
          by_cases hacc : scheduleAccepted (.error error)
          · simp [hacc] at h
          · simp [hacc] at h
  · exact (Prog.not_asks_ret h).elim

/-- What an alias step asks: both rechecks, and then, with the alias fresh,
for its deletion. -/
theorem asks_aliasStep {q : AwsCall} {aliasName : String} {target : Target}
    {opts : CleanupOpts} {t : Answers}
    (h : (deleteAliasStep opts (aliasName, target)).Asks t q) :
    q.destroys = false ∨ q = .deleteAlias aliasName ∧ opts.dryRun = false ∧
      AliasFresh opts aliasName target t := by
  have h := (Prog.asks_tryCatch fun _ _ => Prog.not_asks_ret).mp h
  rcases Prog.asks_bind.mp h with h | ⟨t₁, t₂, verified, rfl, h₁, h₂⟩
  · rcases asks_verify h with ⟨-, rfl⟩ | ⟨-, keyId, rfl⟩ <;> exact .inl rfl
  rcases Prog.asks_bind.mp h₂ with h | ⟨t₃, t₄, aliasTarget, rfl, h₃, h₄⟩
  · rw [asks_describeAlias h]
    exact .inl rfl
  have hres := leads_describeAlias.mp h₃
  rcases leads_verify.mp h₁ with ⟨rfl, -⟩ | ⟨metadata, rfl, howned⟩
  · exact (Prog.not_asks_ret h₄).elim
  cases aliasTarget with
  | none => exact (Prog.not_asks_ret h₄).elim
  | some aliasTarget =>
      simp only [deleteVerified] at h₄
      by_cases harn : aliasTarget.arn ≠ metadata.arn
      · simp [harn] at h₄
      rw [if_neg harn] at h₄
      rcases Prog.asks_bind.mp h₄ with h | ⟨t₅, t₆, result, rfl, -, h⟩
      · obtain ⟨hlive, rfl, rfl⟩ := asks_awsTry.mp h
        rw [List.append_nil]
        exact .inr ⟨rfl, hlive, aliasFresh_of howned hres (not_not.mp harn)⟩
      · exfalso
        cases result with
        | ok value => exact Prog.not_asks_ret h
        | error error =>
            by_cases hcode : error.errorCode ≠ some "NotFoundException"
            · simp [hcode] at h
            · simp [not_not.mp hcode] at h

theorem asks_preflight {q : AwsCall} {target : Target} {opts : CleanupOpts}
    {t : Answers} (h : (preflightTarget opts target).Asks t q) :
    q.destroys = false := by
  rcases Prog.asks_bind.mp h with h | ⟨t₁, t₂, verified, rfl, -, h₂⟩
  · rcases asks_verify h with ⟨-, rfl⟩ | ⟨-, keyId, rfl⟩ <;> rfl
  cases verified with
  | none => exact (Prog.not_asks_ret h₂).elim
  | some metadata =>
      cases hal : truthy target.aliasName with
      | none => simp [hal] at h₂
      | some aliasName =>
          simp only [hal] at h₂
          rcases Prog.asks_bind.mp h₂ with h | ⟨t₃, t₄, aliasTarget, rfl, -, h⟩
          · rw [asks_describeAlias h]
            rfl
          · exfalso
            cases aliasTarget with
            | none => exact Prog.not_asks_ret h
            | some aliasTarget =>
                by_cases harn : aliasTarget.arn ≠ metadata.arn
                · simp [harn] at h
                · simp [not_not.mp harn] at h

theorem asks_sweepListed {q : AwsCall} {opts : CleanupOpts} {keys : List ListedKey}
    {t : Answers} (h : (sweepListed opts keys).Asks t q) : q.destroys = false := by
  induction keys generalizing t with
  | nil => exact (Prog.not_asks_ret h).elim
  | cons key rest ih =>
      rcases Prog.asks_bind.mp h with h | ⟨t₁, t₂, tags, rfl, -, h⟩
      · rw [(asks_awsTry.mp h).2.2]
        rfl
      · rcases Prog.asks_bind.mp h with h | ⟨t₃, t₄, found, rfl, -, h⟩
        · exact ih h
        · exact (Prog.not_asks_ret h).elim

theorem asks_sweepTagged {q : AwsCall} {opts : CleanupOpts} {t : Answers}
    (h : (sweepTagged opts).Asks t q) : q.destroys = false := by
  rcases Prog.asks_bind.mp h with h | ⟨t₁, t₂, result, rfl, -, h⟩
  · rw [(asks_awsTry.mp h).2.2]
    rfl
  cases result with
  | ok value => exact (Prog.not_asks_ret h).elim
  | error error =>
      rcases Prog.asks_bind.mp h with h | ⟨t₃, t₄, listed, rfl, -, h⟩
      · rw [(asks_awsTry.mp h).2.2]
        rfl
      · cases listed with
        | error error => exact (Prog.not_asks_throw h).elim
        | ok listed => exact asks_sweepListed h

theorem asks_collect {q : AwsCall} {manifest : Option Manifest}
    {opts : CleanupOpts} {t : Answers}
    (h : (collectTargets manifest opts).Asks t q) : q.destroys = false := by
  unfold collectTargets at h
  by_cases hsweep : opts.sweep = true
  · simp only [hsweep, if_true] at h
    rcases Prog.asks_bind.mp h with h | ⟨t₁, t₂, arns, rfl, -, h⟩
    · exact asks_sweepTagged h
    · exact (Prog.not_asks_ret h).elim
  · simp [hsweep] at h

/-- Targets are told apart by their ids. -/
def DistinctIds (targets : List Target) : Prop := (targets.map Target.id).Nodup

theorem addTarget_distinct {targets : List Target} {target : Target}
    (h : DistinctIds targets) : DistinctIds (addTarget targets target) := by
  unfold addTarget
  split
  · rename_i hnew
    unfold DistinctIds
    rw [List.map_append, List.nodup_append]
    refine ⟨h, by simp, ?_⟩
    intro id hid id' hid'
    obtain ⟨t, ht, rfl⟩ := List.mem_map.mp hid
    simp only [List.map_cons, List.map_nil, List.mem_singleton] at hid'
    subst hid'
    exact hnew.2 t ht
  · exact h

theorem foldl_addTarget_distinct {targets more : List Target}
    (h : DistinctIds targets) : DistinctIds (more.foldl addTarget targets) := by
  induction more generalizing targets with
  | nil => exact h
  | cons t more ih => exact ih (addTarget_distinct h)

theorem collect_distinct {manifest : Option Manifest} {opts : CleanupOpts}
    {t : Answers} {targets : List Target}
    (h : (collectTargets manifest opts).Leads t (.ret targets)) :
    DistinctIds targets := by
  unfold collectTargets at h
  have hempty : DistinctIds [] := List.nodup_nil
  by_cases hsweep : opts.sweep = true
  · simp only [hsweep, if_true] at h
    rw [Prog.leads_bind] at h
    obtain ⟨t₁, t₂, arns, rfl, -, h⟩ := h
    obtain ⟨-, ⟨⟩⟩ := Prog.leads_ret.mp h
    exact foldl_addTarget_distinct (foldl_addTarget_distinct hempty)
  · rw [if_neg hsweep] at h
    obtain ⟨-, ⟨⟩⟩ := Prog.leads_ret.mp h
    exact foldl_addTarget_distinct hempty

theorem addTarget_covers {targets : List Target} {target : Target} {id : String}
    (h : (∃ t ∈ targets, t.id = id) ∨ target.id = id ∧ id ≠ "") :
    ∃ t ∈ addTarget targets target, t.id = id := by
  unfold addTarget
  split
  · rcases h with ⟨t, ht, hid⟩ | ⟨hid, -⟩
    · exact ⟨t, List.mem_append_left _ ht, hid⟩
    · exact ⟨target, by simp, hid⟩
  · rename_i hold
    rcases h with h | ⟨rfl, hne⟩
    · exact h
    · by_contra hnone
      refine hold ⟨hne, fun t ht heq => hnone ⟨t, ht, heq⟩⟩

theorem foldl_addTarget_covers {targets more : List Target} {id : String}
    (h : (∃ t ∈ targets, t.id = id) ∨ ∃ t ∈ more, t.id = id ∧ id ≠ "") :
    ∃ t ∈ more.foldl addTarget targets, t.id = id := by
  induction more generalizing targets with
  | nil => exact h.resolve_right (by simp)
  | cons t more ih =>
      apply ih
      rcases h with h | ⟨t', ht', hid, hne⟩
      · exact .inl (addTarget_covers (.inl h))
      · rcases List.mem_cons.mp ht' with rfl | ht'
        · exact .inl (addTarget_covers (.inr ⟨hid, hne⟩))
        · exact .inr ⟨t', ht', hid, hne⟩

/-- Every key of the manifest is a target. -/
theorem collect_covers {manifest : Option Manifest} {opts : CleanupOpts}
    {t : Answers} {targets : List Target}
    (h : (collectTargets manifest opts).Leads t (.ret targets))
    {name : String} {key : ManifestKey} (hkey : (name, key) ∈ manifestKeys manifest)
    (hne : key.arn.getD "" ≠ "") : ∃ target ∈ targets, target.id = key.arn.getD "" := by
  have hbase : ∃ target ∈ ((manifestKeys manifest).map fun entry =>
      manifestTarget entry.1 entry.2).foldl addTarget [], target.id = key.arn.getD "" := by
    refine foldl_addTarget_covers (.inr ⟨manifestTarget name key, ?_, rfl, hne⟩)
    exact List.mem_map.mpr ⟨(name, key), hkey, rfl⟩
  unfold collectTargets at h
  by_cases hsweep : opts.sweep = true
  · simp only [hsweep, if_true] at h
    rw [Prog.leads_bind] at h
    obtain ⟨t₁, t₂, arns, rfl, -, h⟩ := h
    obtain ⟨-, ⟨⟩⟩ := Prog.leads_ret.mp h
    exact foldl_addTarget_covers (.inl hbase)
  · rw [if_neg hsweep] at h
    obtain ⟨-, ⟨⟩⟩ := Prog.leads_ret.mp h
    exact hbase

end AwsKms.Model
