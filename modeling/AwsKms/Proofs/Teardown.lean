import AwsKms.Proofs.TeardownSteps

/-!
# A teardown removes what is ours and nothing else

`Where` says what is known of a teardown at any moment, from what was seen of
it: which targets were collected, that the preflight has been through all of
them, and what the pool of the present phase has done. Every turn keeps it
(`Where.step`), and every destructive command a turn shows is justified by
what was seen before (`Where.justified`). A run that has come to its end has
rechecked every target once, and fails exactly where a step did
(`Where.complete`).
-/

namespace AwsKms.Model

open AwsKms.Lib AwsKms.Spec

/-- Nothing was seen of a later phase. -/
def Until (stage : Stage) (log : List CleanupEvent) : Prop :=
  ∀ e ∈ log, stageRank e.stage ≤ stageRank stage

/-- The preflight is over, and this is what it kept. -/
def Preflighted (opts : CleanupOpts) (targets : List Target)
    (entries : List TargetEntry) (log : List CleanupEvent) : Prop :=
  ∃ outs, Pool.Settled targets (preflightTarget opts) outs
    (stageLog .preflight log) ∧ entries = outs.filterMap id

/-- What holds of a teardown and of what was seen of it. -/
inductive Where (opts : CleanupOpts) (manifest : Option Manifest) :
    Teardown → List CleanupEvent → Prop where
  | collecting {p : Script (List Target)} {log : List CleanupEvent} :
      (collectTargets manifest opts).Leads (recordOf .collecting 0 log) p →
      Until .collecting log → (∀ e ∈ log, e.event.worker = 0) →
      Where opts manifest (.collecting p) log
  | preflight {targets : List Target} {pool : CleanupPool (Option TargetEntry)}
      {log : List CleanupEvent} : Collected opts manifest targets log →
      Until .preflight log →
      pool.Inv targets (preflightTarget opts) opts.concurrency
        (stageLog .preflight log) →
      Where opts manifest (.preflight targets pool) log
  | aliases {targets : List Target} {entries : List TargetEntry}
      {pool : CleanupPool Nat} {log : List CleanupEvent} :
      Collected opts manifest targets log → Until .aliases log →
      Preflighted opts targets entries log →
      pool.Inv (aliasEntries entries) (deleteAliasStep opts) opts.concurrency
        (stageLog .aliases log) →
      Where opts manifest (.aliases entries pool) log
  | keys {targets : List Target} {entries : List TargetEntry}
      {aliasOuts : List Nat} {pool : CleanupPool Nat} {log : List CleanupEvent} :
      Collected opts manifest targets log → Preflighted opts targets entries log →
      Pool.Settled (aliasEntries entries) (deleteAliasStep opts) aliasOuts
        (stageLog .aliases log) →
      pool.Inv (activeTargets entries) (scheduleKeyStep opts) opts.concurrency
        (stageLog .keys log) →
      Where opts manifest (.keys entries (failures aliasOuts) pool) log
  | ended {targets : List Target} {entries : List TargetEntry}
      {aliasOuts keyOuts : List Nat} {log : List CleanupEvent} :
      Collected opts manifest targets log → Preflighted opts targets entries log →
      Pool.Settled (aliasEntries entries) (deleteAliasStep opts) aliasOuts
        (stageLog .aliases log) →
      Pool.Settled (activeTargets entries) (scheduleKeyStep opts) keyOuts
        (stageLog .keys log) →
      Where opts manifest (.ended (cleanupResult (activeTargets entries).length
        (failures aliasOuts) (failures keyOuts))) log
  | nothing {log : List CleanupEvent} : Collected opts manifest [] log →
      Until .collecting log → Where opts manifest (.ended (.ok 0)) log
  | failed {message : String} {log : List CleanupEvent} :
      (collectTargets manifest opts).Leads (recordOf .collecting 0 log)
        (.throw message) →
      Until .collecting log → Where opts manifest (.ended (.error message)) log

theorem stageLog_append {stage : Stage} {log more : List CleanupEvent} :
    stageLog stage (log ++ more) = stageLog stage log ++ stageLog stage more :=
  List.filterMap_append

theorem stageLog_map_self {stage : Stage} {es : List (PoolEvent AwsCall Exec)} :
    stageLog stage (es.map (⟨stage, ·⟩)) = es := by
  simp [stageLog, List.filterMap_map]

theorem stageLog_map_ne {stage stage' : Stage} (h : stage' ≠ stage)
    {es : List (PoolEvent AwsCall Exec)} :
    stageLog stage (es.map (⟨stage', ·⟩)) = [] := by
  simp [stageLog, h]

/-- Nothing was seen of a phase after the last one. -/
theorem Until.none {stage later : Stage} {log : List CleanupEvent}
    (h : Until stage log) (hlt : stageRank stage < stageRank later) :
    stageLog later log = [] := by
  unfold stageLog
  refine List.filterMap_eq_nil_iff.mpr fun e he => ?_
  have hle := h e he
  rw [if_neg]
  rintro rfl
  omega

theorem Until.mono {stage later : Stage} {log : List CleanupEvent}
    (h : Until stage log) (hle : stageRank stage ≤ stageRank later) :
    Until later log := fun e he => Nat.le_trans (h e he) hle

theorem Until.append {stage : Stage} {log : List CleanupEvent}
    {es : List (PoolEvent AwsCall Exec)} (h : Until stage log) :
    Until stage (log ++ es.map (⟨stage, ·⟩)) := by
  intro e he
  rcases List.mem_append.mp he with he | he
  · exact h e he
  · obtain ⟨ev, -, rfl⟩ := List.mem_map.mp he
    exact Nat.le_refl _

/-- What is seen of one phase is nothing to another. -/
theorem stageLog_frame {stage stage' : Stage} (h : stage' ≠ stage)
    {log : List CleanupEvent} {es : List (PoolEvent AwsCall Exec)} :
    stageLog stage (log ++ es.map (⟨stage', ·⟩)) = stageLog stage log := by
  rw [stageLog_append, stageLog_map_ne h, List.append_nil]

theorem stageLog_extend {stage : Stage} {log : List CleanupEvent}
    {es : List (PoolEvent AwsCall Exec)} :
    stageLog stage (log ++ es.map (⟨stage, ·⟩)) = stageLog stage log ++ es := by
  rw [stageLog_append, stageLog_map_self]

theorem collected_frame {opts : CleanupOpts} {manifest : Option Manifest}
    {targets : List Target} {log : List CleanupEvent} {stage : Stage}
    {es : List (PoolEvent AwsCall Exec)} (h : Collected opts manifest targets log)
    (hne : stage ≠ .collecting) :
    Collected opts manifest targets (log ++ es.map (⟨stage, ·⟩)) := by
  rw [Collected, recordOf, stageLog_frame hne]
  exact h

theorem Preflighted.frame {opts : CleanupOpts} {targets : List Target}
    {entries : List TargetEntry} {log : List CleanupEvent} {stage : Stage}
    {es : List (PoolEvent AwsCall Exec)} (h : Preflighted opts targets entries log)
    (hne : stage ≠ .preflight) :
    Preflighted opts targets entries (log ++ es.map (⟨stage, ·⟩)) := by
  rw [Preflighted, stageLog_frame hne]
  exact h

/-- The log of a pool that has not started is empty, and its invariant holds. -/
theorem Until.start_inv {ι β : Type} {items : List ι}
    {fn : ι → Script β} {limit : Nat} {stage later : Stage}
    {log : List CleanupEvent} (h : Until stage log)
    (hlt : stageRank stage < stageRank later) :
    (mapLimit items limit : CleanupPool β).Inv items fn limit
      (stageLog later log) := by
  rw [h.none hlt]
  exact Pool.start_inv limit

/-- Every target was run to its end, and these are the results. -/
theorem Preflighted.ran {opts : CleanupOpts} {targets : List Target}
    {entries : List TargetEntry} {log : List CleanupEvent}
    (h : Preflighted opts targets entries log) {i : Nat} {target : Target}
    (hi : targets[i]? = some target) :
    ∃ v, (preflightTarget opts target).Leads (recordOf .preflight i log) (.ret v) ∧
      ∀ entry ∈ v, entry ∈ entries := by
  obtain ⟨outs, hs, rfl⟩ := h
  obtain ⟨w, v, hout, hwent⟩ := hs.ran i target hi
  refine ⟨v, hwent.leads, ?_⟩
  rintro entry rfl
  exact List.mem_filterMap.mpr ⟨_, List.mem_of_getElem? hout, rfl⟩

theorem Preflighted.passed {opts : CleanupOpts} {targets : List Target}
    {entries : List TargetEntry} {log : List CleanupEvent}
    (h : Preflighted opts targets entries log) : AllPassed opts targets log := by
  intro i target hi
  obtain ⟨v, hv, -⟩ := h.ran hi
  exact (leads_preflight hv).1

/-- Every result is one of a target's. -/
theorem Preflighted.entry {opts : CleanupOpts} {targets : List Target}
    {entries : List TargetEntry} {log : List CleanupEvent}
    (h : Preflighted opts targets entries log) {entry : TargetEntry}
    (he : entry ∈ entries) : ∃ i, targets[i]? = some entry.target ∧
      (preflightTarget opts entry.target).Leads (recordOf .preflight i log)
        (.ret (some entry)) := by
  obtain ⟨outs, hs, rfl⟩ := h
  obtain ⟨v, hv, hve⟩ := List.mem_filterMap.mp he
  obtain rfl : v = some entry := hve
  obtain ⟨i, hi⟩ := List.mem_iff_getElem?.mp hv
  have hlt : i < targets.length := by
    rw [← hs.length]
    exact (List.getElem?_eq_some_iff.mp hi).1
  obtain ⟨w, v, hout, hwent⟩ := hs.ran i _ (List.getElem?_eq_getElem hlt)
  obtain rfl := Option.some.inj (hout.symm.trans hi)
  have htarget := ((leads_preflight hwent.leads).2.2 entry rfl).1
  rw [htarget]
  exact ⟨i, List.getElem?_eq_getElem hlt, hwent.leads⟩

/-- The aliases to delete are those the preflight found fresh. -/
theorem Preflighted.mem_aliases {opts : CleanupOpts} {targets : List Target}
    {entries : List TargetEntry} {log : List CleanupEvent}
    (h : Preflighted opts targets entries log) {aliasName : String}
    {target : Target} : (aliasName, target) ∈ aliasEntries entries ↔
      ∃ i, targets[i]? = some target ∧ truthy target.aliasName = some aliasName ∧
        AliasFresh opts aliasName target (recordOf .preflight i log) := by
  unfold aliasEntries
  simp only [List.mem_filterMap, Option.map_eq_some_iff, Prod.mk.injEq]
  constructor
  · rintro ⟨entry, he, a, ha, rfl, rfl⟩
    obtain ⟨i, hi, hl⟩ := h.entry he
    have hal := ((leads_preflight hl).2.2 entry rfl).2 a ha
    exact ⟨i, hi, hal⟩
  · rintro ⟨i, hi, hal, hfresh⟩
    obtain ⟨v, hv, hmem⟩ := h.ran hi
    obtain ⟨⟩ := hv.det (leads_preflight_fresh hal hfresh)
    exact ⟨_, hmem _ rfl, aliasName, rfl, rfl, rfl⟩

/-- The targets of the key phase are those that existed. -/
theorem Preflighted.mem_active {opts : CleanupOpts} {targets : List Target}
    {entries : List TargetEntry} {log : List CleanupEvent}
    (h : Preflighted opts targets entries log) {target : Target} :
    target ∈ activeTargets entries ↔ ∃ i, targets[i]? = some target ∧
      ¬ Gone target (recordOf .preflight i log) := by
  constructor
  · intro ht
    obtain ⟨entry, he, rfl⟩ := List.mem_map.mp ht
    obtain ⟨i, hi, hl⟩ := h.entry he
    refine ⟨i, hi, fun hgone => ?_⟩
    cases (leads_preflight hl).2.1.mpr hgone
  · rintro ⟨i, hi, hgone⟩
    obtain ⟨v, hv, hmem⟩ := h.ran hi
    cases v with
    | none => exact absurd ((leads_preflight hv).2.1.mp rfl) hgone
    | some entry =>
        have htarget := ((leads_preflight hv).2.2 entry rfl).1
        exact List.mem_map.mpr ⟨entry, hmem _ rfl, htarget⟩

/-! ## Every step keeps it

A turn is one move of the collection or of a worker, or the step from one
phase to the next. The pool keeps its own invariant; what has to be seen here
is what a phase starts from. -/

theorem Where.step {opts : CleanupOpts} {manifest : Option Manifest}
    {s : Teardown} {log : List CleanupEvent} {turn : CleanupTurn}
    (h : Where opts manifest s log) (hok : (Teardown.step opts turn s).ok = true) :
    Where opts manifest (Teardown.step opts turn s).state
      (log ++ (Teardown.step opts turn s).trace) := by
  cases h with
  | @collecting p log hl hu hw =>
      cases turn with
      | worker w answer =>
          cases p with
          | ret targets => cases hok
          | throw message => cases hok
          | ask q k =>
              have hlog : (Teardown.step opts (.worker w answer)
                  (.collecting (.ask q k))).trace =
                [⟨0, 0, .asked q⟩, ⟨0, 0, .answered q answer⟩].map
                  (⟨.collecting, ·⟩) := rfl
              rw [hlog]
              refine .collecting ?_ hu.append ?_
              · rw [recordOf, stageLog_extend, Pool.answersOf_append]
                exact hl.snoc answer
              · intro e he
                rcases List.mem_append.mp he with he | he
                · exact hw e he
                · simp at he
                  rcases he with rfl | rfl <;> rfl
      | settle =>
          cases p with
          | ret targets =>
              by_cases hnil : targets = []
              · subst hnil
                simp only [Teardown.step, if_true, List.append_nil]
                exact .nothing hl hu
              · simp only [Teardown.step, if_neg hnil, List.append_nil]
                exact .preflight hl (hu.mono (by decide)) (hu.start_inv (by decide))
          | throw message =>
              simp only [Teardown.step, List.append_nil]
              exact .failed hl hu
          | ask q k => cases hok
  | @preflight targets pool log hc hu hI =>
      cases turn with
      | worker w answer =>
          have hm := Pool.turn_moved hok
          simp only [Teardown.step, inStage]
          refine .preflight (collected_frame hc (by decide)) hu.append ?_
          rw [stageLog_extend]
          exact hm.inv hI
      | settle =>
          simp only [Teardown.step] at hok ⊢
          split at hok <;> rename_i hdone
          · rw [if_pos hdone, List.append_nil]
            exact .aliases hc (hu.mono (by decide))
              ⟨_, hI.settled opts.concurrency_pos hdone, rfl⟩
              (hu.start_inv (by decide))
          · cases hok
  | @aliases targets entries pool log hc hu hp hI =>
      cases turn with
      | worker w answer =>
          have hm := Pool.turn_moved hok
          simp only [Teardown.step, inStage]
          refine .aliases (collected_frame hc (by decide)) hu.append (hp.frame (by decide)) ?_
          rw [stageLog_extend]
          exact hm.inv hI
      | settle =>
          simp only [Teardown.step] at hok ⊢
          split at hok <;> rename_i hdone
          · rw [if_pos hdone, List.append_nil]
            exact .keys hc hp (hI.settled opts.concurrency_pos hdone)
              (hu.start_inv (by decide))
          · cases hok
  | @keys targets entries aliasOuts pool log hc hp hs hI =>
      cases turn with
      | worker w answer =>
          have hm := Pool.turn_moved hok
          simp only [Teardown.step, inStage]
          refine .keys (collected_frame hc (by decide)) (hp.frame (by decide)) ?_ ?_
          · rw [stageLog_frame (by decide)]
            exact hs
          · rw [stageLog_extend]
            exact hm.inv hI
      | settle =>
          simp only [Teardown.step] at hok ⊢
          split at hok <;> rename_i hdone
          · rw [if_pos hdone, List.append_nil]
            exact .ended hc hp hs (hI.settled opts.concurrency_pos hdone)
          · cases hok
  | ended => cases turn <;> cases hok
  | nothing => cases turn <;> cases hok
  | failed => cases turn <;> cases hok

/-! ## Every destructive command is justified

A command belongs to the program of one entry, and that program has asked its
checks before. The answers it got are in the log, since a pool loses none and
gives none to another. -/

/-- The worker of a question is the worker of every event of its item. -/
theorem same_worker {stage : Stage} {log : List CleanupEvent}
    {ev : PoolEvent AwsCall Exec}
    (h : ∀ e' ∈ stageLog stage log, e'.index = ev.index → e'.worker = ev.worker) :
    ∀ e' ∈ log, e'.stage = stage → e'.event.index = ev.index →
      e'.event.worker = ev.worker := by
  intro e' he' hs hi
  refine h e'.event (List.mem_filterMap.mpr ⟨e', he', ?_⟩) hi
  rw [if_pos hs]

/-- What a turn shows is of the phase the teardown is in, and if a destructive
command is among it, it is the first. -/
theorem Where.phase {opts : CleanupOpts} {manifest : Option Manifest}
    {s : Teardown} {log : List CleanupEvent} {turn : CleanupTurn}
    (h : Where opts manifest s log) (hok : (Teardown.step opts turn s).ok = true) :
    ∃ stage, Until stage log ∧
      (∀ e ∈ (Teardown.step opts turn s).trace, e.stage = stage) ∧
      (stage = .collecting ∨ (Teardown.step opts turn s).trace.length ≤ 1) := by
  cases turn with
  | settle =>
      have hnil : (Teardown.step opts .settle s).trace = [] := by
        simp only [Teardown.step]
        repeat' split
        all_goals rfl
      rw [hnil]
      refine ⟨.keys, fun e _ => ?_, by simp, .inr (by simp)⟩
      cases e.stage <;> decide
  | worker w answer =>
      have hmap : ∀ {stage : Stage} {es : List (PoolEvent AwsCall Exec)},
          ∀ e ∈ es.map (⟨stage, ·⟩), CleanupEvent.stage e = stage := by
        intro stage es e he
        obtain ⟨ev, -, rfl⟩ := List.mem_map.mp he
        rfl
      cases h with
      | @collecting p log hl hu hw =>
          cases p with
          | ret targets => cases hok
          | throw message => cases hok
          | ask q k =>
              refine ⟨.collecting, hu, ?_, .inl rfl⟩
              simp [Teardown.step]
      | preflight hc hu hI =>
          refine ⟨.preflight, hu, hmap, .inr ?_⟩
          exact Nat.le_trans (Nat.le_of_eq (List.length_map _)) (Pool.turn_moved hok).single
      | aliases hc hu hp hI =>
          refine ⟨.aliases, hu, hmap, .inr ?_⟩
          exact Nat.le_trans (Nat.le_of_eq (List.length_map _)) (Pool.turn_moved hok).single
      | keys hc hp hs hI =>
          refine ⟨.keys, fun e _ => ?_, hmap, .inr ?_⟩
          · cases e.stage <;> decide
          · exact Nat.le_trans (Nat.le_of_eq (List.length_map _)) (Pool.turn_moved hok).single
      | ended => cases hok
      | nothing => cases hok
      | failed => cases hok

theorem Where.justified {opts : CleanupOpts} {manifest : Option Manifest}
    {s : Teardown} {log : List CleanupEvent} {turn : CleanupTurn}
    (h : Where opts manifest s log) (hok : (Teardown.step opts turn s).ok = true)
    {e : CleanupEvent} (he : e ∈ (Teardown.step opts turn s).trace) {q : AwsCall}
    (hq : e.event.did.question? = some q) (hd : q.destroys = true) :
    Justified opts manifest log e q := by
  cases turn with
  | settle =>
      have hnil : (Teardown.step opts .settle s).trace = [] := by
        simp only [Teardown.step]
        repeat' split
        all_goals rfl
      rw [hnil] at he
      cases he
  | worker w answer =>
      cases h with
      | @collecting p log hl hu hw =>
          cases p with
          | ret targets => cases hok
          | throw message => cases hok
          | ask q' k =>
              have hq' : q' = q := by
                simp only [Teardown.step, List.mem_cons, List.not_mem_nil,
                  or_false] at he
                rcases he with rfl | rfl
                · simpa [Did.question?] using hq
                · cases hq
              subst hq'
              rw [asks_collect ⟨k, hl⟩] at hd
              cases hd
      | @preflight targets pool log hc hu hI =>
          obtain ⟨ev, hev, rfl⟩ := List.mem_map.mp he
          obtain ⟨target, -, hasks, -⟩ := (Pool.turn_moved hok).asks hI hev hq
          rw [asks_preflight hasks] at hd
          cases hd
      | @aliases targets entries pool log hc hu hp hI =>
          obtain ⟨ev, hev, rfl⟩ := List.mem_map.mp he
          obtain ⟨⟨aliasName, target⟩, hitem, hasks, hworker⟩ :=
            (Pool.turn_moved hok).asks hI hev hq
          rcases asks_aliasStep hasks with hno | ⟨rfl, hlive, hfresh⟩
          · rw [hno] at hd
            cases hd
          obtain ⟨i, hi, hal, -⟩ := hp.mem_aliases.mp (List.mem_of_getElem? hitem)
          exact ⟨hlive, ⟨targets, hc, hp.passed,
            .aliasName (List.mem_of_getElem? hi) hal hfresh⟩, same_worker hworker⟩
      | @keys targets entries aliasOuts pool log hc hp hs hI =>
          obtain ⟨ev, hev, rfl⟩ := List.mem_map.mp he
          obtain ⟨target, hitem, hasks, hworker⟩ :=
            (Pool.turn_moved hok).asks hI hev hq
          rcases asks_keyStep hasks with ⟨-, rfl⟩ | ⟨-, keyId, rfl⟩ |
            ⟨-, rfl, hlive, hfresh⟩
          · cases hd
          · cases hd
          obtain ⟨i, hi, -⟩ := hp.mem_active.mp (List.mem_of_getElem? hitem)
          exact ⟨hlive, ⟨targets, hc, hp.passed,
            .key (List.mem_of_getElem? hi) hfresh⟩, same_worker hworker⟩
      | ended => cases hok
      | nothing => cases hok
      | failed => cases hok

theorem Where.allJustified {opts : CleanupOpts} {manifest : Option Manifest}
    {s : Teardown} {log : List CleanupEvent} {turn : CleanupTurn}
    (h : Where opts manifest s log) (hok : (Teardown.step opts turn s).ok = true)
    (hj : AllJustified opts manifest log) :
    AllJustified opts manifest (log ++ (Teardown.step opts turn s).trace) := by
  intro before e after hcut q hq hd
  rcases Machine.cut_append hcut with ⟨rest, hl⟩ | ⟨pre, rfl, htrace⟩
  · exact hj before e rest hl q hq hd
  have he : e ∈ (Teardown.step opts turn s).trace := by rw [htrace]; simp
  have hjust := h.justified hok he hq hd
  obtain ⟨stage, -, hstage, hlen⟩ := h.phase hok
  have hnil : pre = [] := by
    rcases hlen with rfl | hlen
    · -- a destructive command is none of the collecting phase
      obtain ⟨targets, -, -, hfresh⟩ := hjust.passed
      rw [hstage e he] at hfresh
      cases hfresh
    · rw [htrace] at hlen
      simp only [List.length_append, List.length_cons] at hlen
      exact List.length_eq_zero_iff.mp (by omega)
  rw [hnil, List.append_nil]
  exact hjust

theorem Where.inOrder {opts : CleanupOpts} {manifest : Option Manifest}
    {s : Teardown} {log : List CleanupEvent} {turn : CleanupTurn}
    (h : Where opts manifest s log) (hok : (Teardown.step opts turn s).ok = true)
    (ho : InOrder log) : InOrder (log ++ (Teardown.step opts turn s).trace) := by
  intro before e after hcut e' he'
  rcases Machine.cut_append hcut with ⟨rest, hl⟩ | ⟨pre, rfl, htrace⟩
  · exact ho before e rest hl e' he'
  obtain ⟨stage, hu, hstage, -⟩ := h.phase hok
  rw [hstage e (by rw [htrace]; simp)]
  rcases List.mem_append.mp he' with he' | he'
  · exact hu e' he'
  · have hs := hstage e' (by rw [htrace]; exact List.mem_append_left _ he')
    exact Nat.le_of_eq (congrArg stageRank hs)

/-! ## What a complete run has done

When the phases are over every entry has come to its end. The counts are then
counts of programs that ended one way or the other, and the run fails where
one of them did. -/

/-- The targets of the key phase are told apart by their ids. -/
theorem Preflighted.active_distinct {opts : CleanupOpts} {targets : List Target}
    {entries : List TargetEntry} {log : List CleanupEvent}
    (h : Preflighted opts targets entries log) (hd : DistinctIds targets) :
    DistinctIds (activeTargets entries) := by
  obtain ⟨outs, hs, rfl⟩ := h
  have hsub : (activeTargets (outs.filterMap id)).Sublist targets := by
    refine Pool.filterMap_sublist hs.length fun i target entry hi hentry => ?_
    obtain ⟨w, v, hout, hwent⟩ := hs.ran i target hi
    obtain rfl := Option.some.inj (hout.symm.trans hentry)
    exact ((leads_preflight hwent.leads).2.2 entry rfl).1
  exact hd.sublist (hsub.map Target.id)

theorem count_first {qs : List AwsCall} {q : AwsCall}
    (h : ∀ n q', qs[n]? = some q' → (n = 0 ↔ q' = q)) :
    qs.count q = if qs = [] then 0 else 1 := by
  cases qs with
  | nil => rfl
  | cons q' rest =>
      obtain rfl := (h 0 q' rfl).mp rfl
      have hrest : rest.count q' = 0 := by
        refine List.count_eq_zero.mpr fun hmem => ?_
        obtain ⟨n, hn⟩ := List.mem_iff_getElem?.mp hmem
        cases (h (n + 1) q' hn).mpr rfl
      simp [hrest]

/-- A key step asks for its target's description first, and never again. -/
theorem describe_first {opts : CleanupOpts} {target : Target} {i n : Nat}
    {log : List (PoolEvent AwsCall Exec)} {q : AwsCall}
    (h : Pool.Path log i (scheduleKeyStep opts target))
    (hq : (questionsOf i log)[n]? = some q) :
    n = 0 ↔ q = .describeKey target.id := by
  have hasks := asks_keyStep (h.asks hq)
  constructor
  · rintro rfl
    rcases hasks with ⟨-, rfl⟩ | ⟨hne, -⟩ | ⟨hne, -⟩
    · rfl
    · exact absurd (List.take_zero) hne
    · exact absurd (List.take_zero) hne
  · rintro rfl
    rcases hasks with ⟨hnil, -⟩ | ⟨-, keyId, hno⟩ | ⟨-, hno, -⟩
    · rcases List.take_eq_nil_iff.mp hnil with h0 | hempty
      · exact h0
      · have hlen := h.open_le
        have hlt := (List.getElem?_eq_some_iff.mp hq).1
        rw [hempty] at hlen
        simp only [List.length_nil] at hlen
        omega
    · cases hno
    · cases hno

/-- Who asks for a description in the key phase asks for that of its own
target. -/
theorem asker_id {opts : CleanupOpts} {target : Target} {id : String}
    {log : List (PoolEvent AwsCall Exec)} {e : PoolEvent AwsCall Exec}
    (he : e ∈ log) (hq : e.did.question? = some (.describeKey id))
    (hpath : Pool.Path log e.index (scheduleKeyStep opts target)) :
    target.id = id := by
  have hmem : AwsCall.describeKey id ∈ questionsOf e.index log :=
    List.mem_filterMap.mpr ⟨e, List.mem_filter.mpr ⟨he, by simp⟩, hq⟩
  obtain ⟨n, hn⟩ := List.mem_iff_getElem?.mp hmem
  rcases asks_keyStep (hpath.asks hn) with
    ⟨-, heq⟩ | ⟨-, keyId, heq⟩ | ⟨-, heq, -⟩
  · exact (AwsCall.describeKey.inj heq).symm
  · cases heq
  · cases heq

/-- The description of a key is asked for in the key phase as often as by the
step of its target: once it was begun, once. -/
theorem count_describe {opts : CleanupOpts} {active : List Target}
    {log : List (PoolEvent AwsCall Exec)} (hd : DistinctIds active)
    (hindices : ∀ e ∈ log, e.index < active.length)
    (hpath : ∀ i target, active[i]? = some target →
      Pool.Path log i (scheduleKeyStep opts target))
    {i : Nat} {target : Target} (hi : active[i]? = some target) :
    (log.filterMap fun e => e.did.question?).count (.describeKey target.id) =
      if questionsOf i log = [] then 0 else 1 := by
  rw [Pool.count_questions (i := i), count_first fun n q' hq => describe_first (hpath i target hi) hq]
  intro e he hq
  -- the item that asked has a target with this id, and there is one only
  have hlt := hindices e he
  have hother := List.getElem?_eq_getElem hlt
  have hid := asker_id he hq (hpath _ _ hother)
  obtain ⟨hlt', hget⟩ := List.getElem?_eq_some_iff.mp hi
  have hinj := List.pairwise_iff_getElem.mp hd
  by_contra hne
  simp only [List.length_map, List.getElem_map] at hinj
  rcases Nat.lt_or_gt_of_ne hne with h | h
  · exact hinj _ _ hlt hlt' h (by rw [hget]; exact hid)
  · exact hinj _ _ hlt' hlt h (by rw [hget]; exact hid.symm)

/-- A key step begins with the recheck. -/
theorem keyStep_begins {opts : CleanupOpts} {target : Target} :
    (scheduleKeyStep opts target).Asks [] (.describeKey target.id) := by
  unfold scheduleKeyStep verifyOwnedTarget
  refine (Prog.asks_tryCatch fun _ _ => Prog.not_asks_ret).mpr ?_
  refine Prog.asks_bind.mpr (.inl (Prog.asks_bind.mpr (.inl ?_)))
  exact asks_awsTry.mpr ⟨rfl, rfl, rfl⟩

/-- With the key fresh, a key step goes on to schedule its deletion. -/
theorem keyStep_schedules {opts : CleanupOpts} {target : Target} {t : Answers}
    (hlive : opts.dryRun = false) (h : KeyFresh opts target t) :
    (scheduleKeyStep opts target).Asks t
      (.scheduleKeyDeletion target.id opts.window) := by
  obtain ⟨metadata, howned⟩ := h.found
  unfold scheduleKeyStep scheduleDeletion
  refine (Prog.asks_tryCatch fun _ _ => Prog.not_asks_ret).mpr ?_
  refine Prog.asks_bind.mpr (.inr ⟨t, [], some metadata, (List.append_nil t).symm,
    leads_verify.mpr (.inr ⟨_, rfl, howned⟩), ?_⟩)
  refine Prog.asks_bind.mpr (.inl (Prog.asks_bind.mpr (.inl ?_)))
  exact asks_awsTry.mpr ⟨hlive, rfl, rfl⟩

theorem foldl_failures {results : List Nat} {total : Nat} :
    results.foldl (fun total failed => total + failed) total =
      total + failures results := by
  induction results generalizing total with
  | nil => rfl
  | cons b results ih =>
      rw [failures, List.foldl_cons, List.foldl_cons, ih, ih]
      omega

theorem failures_cons {b : Nat} {results : List Nat} :
    failures (b :: results) = b + failures results := by
  rw [failures, List.foldl_cons, Nat.zero_add, foldl_failures]

theorem failures_ne_zero {results : List Nat} :
    failures results ≠ 0 ↔ ∃ b ∈ results, b ≠ 0 := by
  induction results with
  | nil => simp [failures]
  | cons b results ih =>
      rw [failures_cons]
      simp only [List.mem_cons, exists_eq_or_imp, ← ih]
      omega

/-- Some item's step did not return 0. -/
theorem settled_failures {ι : Type} {items : List ι} {fn : ι → Script Nat}
    {outs : List Nat} {log : List (PoolEvent AwsCall Exec)}
    (h : Pool.Settled items fn outs log) : failures outs ≠ 0 ↔
      ∃ i item, items[i]? = some item ∧ ¬ (fn item).Leads (answersOf i log) (.ret 0) := by
  rw [failures_ne_zero]
  constructor
  · rintro ⟨b, hb, hpos⟩
    obtain ⟨i, hi⟩ := List.mem_iff_getElem?.mp hb
    have hlt : i < items.length := by
      rw [← h.length]
      exact (List.getElem?_eq_some_iff.mp hi).1
    have hitem := List.getElem?_eq_getElem hlt
    obtain ⟨w, b', hb', hwent⟩ := h.ran i _ hitem
    obtain rfl := Option.some.inj (hb'.symm.trans hi)
    refine ⟨i, _, hitem, fun h0 => ?_⟩
    obtain ⟨⟩ := hwent.leads.det h0
    exact hpos rfl
  · rintro ⟨i, item, hitem, hne⟩
    obtain ⟨w, b, hb, hwent⟩ := h.ran i item hitem
    refine ⟨b, List.mem_of_getElem? hb, ?_⟩
    rintro rfl
    exact hne hwent.leads

/-- What the key phase has done with a target, once it is over. -/
theorem key_complete {opts : CleanupOpts} {active : List Target} {outs : List Nat}
    {log : List CleanupEvent}
    (h : Pool.Settled active (scheduleKeyStep opts) outs (stageLog .keys log))
    (hd : DistinctIds active) {j : Nat} {target : Target}
    (hj : active[j]? = some target) :
    (commandsIn .keys log).count (.describeKey target.id) = 1 ∧
      (∃ r rest, recordOf .keys j log = (.describeKey target.id, r) :: rest) ∧
      ∀ answers more, recordOf .keys j log = answers ++ more →
        KeyFresh opts target answers → opts.dryRun = false →
        .scheduleKeyDeletion target.id opts.window ∈ commandsIn .keys log := by
  obtain ⟨w, b, -, hwent⟩ := h.ran j target hj
  have hquestions : questionsOf j (stageLog .keys log) =
      (recordOf .keys j log).map Prod.fst := by
    rw [hwent.questions, List.append_nil]
    rfl
  have hleads : (scheduleKeyStep opts target).Leads ([] ++ recordOf .keys j log)
      (.ret b) := hwent.leads
  have hbegins : ∃ r rest, recordOf .keys j log = (.describeKey target.id, r) :: rest :=
    keyStep_begins.next hleads (by simp)
  refine ⟨?_, hbegins, fun answers more hrec hfresh hlive => ?_⟩
  · obtain ⟨r, rest, hrec⟩ := hbegins
    rw [commandsIn, count_describe hd h.indices (fun i t hi => h.path hi) hj,
      if_neg (by simp [hquestions, hrec])]
  · rw [List.nil_append, hrec] at hleads
    obtain ⟨r, rest, rfl⟩ := (keyStep_schedules hlive hfresh).next hleads (by simp)
    have hmem : AwsCall.scheduleKeyDeletion target.id opts.window ∈
        questionsOf j (stageLog .keys log) := by
      rw [hquestions, hrec]
      simp
    obtain ⟨e, he, hq⟩ := List.mem_filterMap.mp hmem
    exact List.mem_filterMap.mpr ⟨e, (List.mem_filter.mp he).1, hq⟩

theorem cleanupResult_error {scheduled aliasFailures keyFailures : Nat} :
    (∃ message, cleanupResult scheduled aliasFailures keyFailures = .error message) ↔
      aliasFailures ≠ 0 ∨ keyFailures ≠ 0 := by
  unfold cleanupResult
  split <;> rename_i h
  · exact ⟨fun _ => h, fun _ => ⟨_, rfl⟩⟩
  · constructor
    · rintro ⟨_, ⟨⟩⟩
    · exact fun h' => absurd h' h

theorem Where.complete {opts : CleanupOpts} {manifest : Option Manifest}
    {result : Except String Nat} {log : List CleanupEvent} {targets : List Target}
    (h : Where opts manifest (.ended result) log)
    (hc : Collected opts manifest targets log) (hne : targets ≠ []) :
    Complete opts targets log result := by
  have hsame : ∀ targets', Collected opts manifest targets' log →
      targets' = targets := by
    intro targets' hc'
    obtain ⟨⟩ := Prog.Leads.det hc' hc
    rfl
  cases h with
  | @ended targets' entries aliasOuts keyOuts _ hc' hp ha hk =>
      obtain rfl := hsame targets' hc'
      refine ⟨fun i target hi hgone => ?_, aliasEntries entries,
        activeTargets entries, fun _ _ => hp.mem_aliases, fun _ => hp.mem_active, ?_⟩
      · obtain ⟨j, hj⟩ := List.mem_iff_getElem?.mp (hp.mem_active.mpr ⟨i, hi, hgone⟩)
        obtain ⟨hcount, ⟨r, rest, hrec⟩, hsched⟩ :=
          key_complete hk (hp.active_distinct (collect_distinct hc')) hj
        exact ⟨hcount, j, r, rest, hrec, hsched⟩
      · rw [cleanupResult_error, settled_failures ha, settled_failures hk]
        refine or_congr ?_ ?_
        · simp only [Prod.exists, leads_aliasStep]
          rfl
        · simp only [leads_keyStep]
          rfl
  | nothing hc' hu => exact absurd (hsame [] hc').symm hne
  | failed hl hu => cases Prog.Leads.det hl hc

/-- No description is asked for twice in the key phase. -/
theorem count_describe_le {opts : CleanupOpts} {active : List Target}
    {log : List (PoolEvent AwsCall Exec)} (hd : DistinctIds active)
    (hindices : ∀ e ∈ log, e.index < active.length)
    (hpath : ∀ i target, active[i]? = some target →
      Pool.Path log i (scheduleKeyStep opts target)) (id : String) :
    (log.filterMap fun e => e.did.question?).count (.describeKey id) ≤ 1 := by
  by_cases hmem : AwsCall.describeKey id ∈ log.filterMap fun e => e.did.question?
  · obtain ⟨e, he, hq⟩ := List.mem_filterMap.mp hmem
    have hi := List.getElem?_eq_getElem (hindices e he)
    have hid := asker_id he hq (hpath _ _ hi)
    rw [← hid, count_describe hd hindices hpath hi]
    split <;> omega
  · rw [List.count_eq_zero.mpr hmem]
    exact Nat.zero_le _

theorem Where.once {opts : CleanupOpts} {manifest : Option Manifest}
    {s : Teardown} {log : List CleanupEvent} (h : Where opts manifest s log)
    (id : String) : (commandsIn .keys log).count (.describeKey id) ≤ 1 := by
  have hearlier : ∀ {stage : Stage}, Until stage log →
      stageRank stage < stageRank .keys →
      (commandsIn .keys log).count (.describeKey id) ≤ 1 := by
    intro stage hu hlt
    rw [commandsIn, hu.none hlt]
    exact Nat.zero_le _
  cases h with
  | collecting hl hu hw => exact hearlier hu (by decide)
  | preflight hc hu hI => exact hearlier hu (by decide)
  | aliases hc hu hp hI => exact hearlier hu (by decide)
  | keys hc hp ha hI =>
      exact count_describe_le (hp.active_distinct (collect_distinct hc)) hI.indices
        (fun i target hi => hI.path hi) id
  | ended hc hp ha hk =>
      exact count_describe_le (hp.active_distinct (collect_distinct hc)) hk.indices
        (fun i target hi => hk.path hi) id
  | nothing hc hu => exact hearlier hu (by decide)
  | failed hl hu => exact hearlier hu (by decide)

/-- The steps of the last two phases catch whatever is thrown. -/
theorem keyStep_quiet {opts : CleanupOpts} {target : Target} {t : Answers}
    {e : String} : ¬ (scheduleKeyStep opts target).Leads t (.throw e) := by
  intro h
  obtain ⟨e', t', h⟩ := Prog.tryCatch_end h
  cases (Prog.leads_ret.mp h).2

theorem aliasStep_quiet {opts : CleanupOpts} {entry : AliasEntry} {t : Answers}
    {e : String} : ¬ (deleteAliasStep opts entry).Leads t (.throw e) := by
  intro h
  obtain ⟨e', t', h⟩ := Prog.tryCatch_end h
  cases (Prog.leads_ret.mp h).2

theorem not_rejected {ι β : Type} {items : List ι} {fn : ι → Script β}
    {limit : Nat} {pool : CleanupPool β} {log : List (PoolEvent AwsCall Exec)}
    (hI : pool.Inv items fn limit log)
    (hquiet : ∀ item t e, ¬ (fn item).Leads t (.throw e)) : pool.rejected = none := by
  cases hrej : pool.rejected with
  | none => rfl
  | some e =>
      obtain ⟨e', he'⟩ := hI.thrown.mpr (by rw [hrej]; rfl)
      obtain ⟨item, t, -, hl⟩ := hI.cause e' he'
      exact (hquiet item t e' hl).elim

theorem Where.goesOn {opts : CleanupOpts} {manifest : Option Manifest}
    {s : Teardown} {log : List CleanupEvent} (h : Where opts manifest s log)
    (hres : s.result = none) : ∃ turn : Exec → CleanupTurn,
      ∀ r, (Teardown.step opts (turn r) s).ok = true := by
  cases h with
  | @collecting p log hl hu hw =>
      cases p with
      | ret targets =>
          refine ⟨fun _ => .settle, fun r => ?_⟩
          simp only [Teardown.step]
          split <;> rfl
      | throw message => exact ⟨fun _ => .settle, fun r => rfl⟩
      | ask q k => exact ⟨fun r => .worker 0 r, fun r => rfl⟩
  | @preflight targets pool log hc hu hI =>
      have hrej : pool.rejected = none := Option.map_eq_none_iff.mp hres
      rcases hI.moves hrej with hdone | ⟨w, hw⟩
      · exact ⟨fun _ => .settle, fun r => by simp [Teardown.step, hdone]⟩
      · exact ⟨fun r => .worker w r, hw⟩
  | aliases hc hu hp hI =>
      rcases hI.moves (not_rejected hI fun _ _ _ => aliasStep_quiet) with
        hdone | ⟨w, hw⟩
      · exact ⟨fun _ => .settle, fun r => by simp [Teardown.step, hdone]⟩
      · exact ⟨fun r => .worker w r, hw⟩
  | keys hc hp ha hI =>
      rcases hI.moves (not_rejected hI fun _ _ _ => keyStep_quiet) with
        hdone | ⟨w, hw⟩
      · exact ⟨fun _ => .settle, fun r => by simp [Teardown.step, hdone]⟩
      · exact ⟨fun r => .worker w r, hw⟩
  | ended => cases hres
  | nothing => cases hres
  | failed => cases hres

theorem Where.bounded {opts : CleanupOpts} {manifest : Option Manifest}
    {s : Teardown} {log : List CleanupEvent} (h : Where opts manifest s log) :
    s.active ≤ opts.concurrency := by
  cases h with
  | preflight hc hu hI => exact hI.active_le
  | aliases hc hu hp hI => exact hI.active_le
  | keys hc hp ha hI => exact hI.active_le
  | collecting => exact Nat.zero_le _
  | ended => exact Nat.zero_le _
  | nothing => exact Nat.zero_le _
  | failed => exact Nat.zero_le _

/-- What holds after every turn of a teardown. -/
theorem Where.safe {opts : CleanupOpts} {manifest : Option Manifest}
    {s : Teardown} {log : List CleanupEvent} (h : Where opts manifest s log)
    (hj : AllJustified opts manifest log) (ho : InOrder log) :
    TeardownSafe opts manifest s log where
  covers _ hc _ _ hkey hne := collect_covers hc hkey hne
  justified := hj
  inOrder := ho
  bounded := h.bounded
  dryRun hdry e he q hq := by
    obtain ⟨before, after, hcut⟩ := List.append_of_mem he
    by_contra hd
    have hlive := (hj before e after hcut q hq (by simpa using hd)).live
    rw [hdry] at hlive
    cases hlive
  once _ _ target _ := h.once target.id
  complete targets result hc hne hs := by
    subst hs
    exact h.complete hc hne
  goesOn := h.goesOn

namespace TwoKeys

def runId : String := "local-0123456789abcdef01234567"

def keyId : String := "12345678-1234-1234-1234-123456789012"

def otherId : String := "87654321-1234-1234-1234-123456789012"

def arn (keyId : String) : String := "arn:aws:kms:eu-central-1:111122223333:key/" ++ keyId

def opts : CleanupOpts where
  account := "111122223333"
  region := "eu-central-1"
  manifestPath := "build/real-kms-keys.json"
  manifestExplicit := true
  window := 7
  concurrency := 2
  sweep := false
  dryRun := false
  window_range := by decide
  concurrency_pos := by decide

def manifestKey (keyId spec : String) : ManifestKey where
  aliasName := some (ALIAS_PREFIX ++ runId ++ "-test-" ++ spec)
  keyId := some keyId
  arn := some (arn keyId)
  keySpec := some spec
  spec := some spec
  role := some "test"
  expectedTags := expectedTags runId "test" spec

def manifest : Manifest where
  version := some 1
  account := some "111122223333"
  region := some "eu-central-1"
  runId := some runId
  roles := none
  keys := some [("test-RSA_2048", manifestKey keyId "RSA_2048"),
    ("test-ECC_NIST_P256", manifestKey otherId "ECC_NIST_P256")]

def noReply : AwsReply := ⟨none, none, none, none, none⟩

def described (keyId spec : String) : Exec :=
  .printed (some { noReply with keyMetadata := some ⟨some (arn keyId), keyId, some spec⟩ })

def tagged (spec : String) : Exec :=
  .printed (some { noReply with
    tags := some ((expectedTags runId "test" spec).map fun kv => ⟨kv.1, kv.2⟩) })

def empty : Exec := .printed none

def failing (code : String) : Exec :=
  .exited 254 ("An error occurred (" ++ code ++ ") when calling the operation")

/-- A worker's moves through one item, given the answers it gets, and on to the
end of the items. -/
def through (w : Nat) (answers : List Exec) : List CleanupTurn :=
  .worker w empty ::
    (answers.flatMap fun r => [.worker w empty, .worker w r]) ++
    [.worker w empty, .worker w empty]

/-- Two workers, move by move. -/
def inTurns (moves moves' : List CleanupTurn) : List CleanupTurn :=
  ((moves.zip moves').flatMap fun m => [m.1, m.2]) ++ [.settle]

/-- Both keys are there and ours all the time. The alias of the second is gone,
and KMS does not schedule it. -/
def turns : List CleanupTurn :=
  let ours := [described keyId "RSA_2048", tagged "RSA_2048"]
  let others := [described otherId "ECC_NIST_P256", tagged "ECC_NIST_P256"]
  .settle :: inTurns (through 0 (ours ++ [described keyId "RSA_2048"]))
      (through 1 (others ++ [failing "NotFoundException"])) ++
    through 0 (ours ++ [described keyId "RSA_2048", empty]) ++ [.settle] ++
    inTurns (through 0 (ours ++ [empty]))
      (through 1 (others ++ [failing "KMSInvalidStateException"]))

def file : ManifestFile := .parsed (some manifest)

end TwoKeys

instance (opts : CleanupOpts) (file : ManifestFile) (s : Teardown)
    (turn : CleanupTurn) : Decidable ((teardown opts file).allowed s turn) :=
  inferInstanceAs (Decidable ((Teardown.step opts turn s).ok = true))

end AwsKms.Model
