import AwsKms.Model.Teardown

/-!
# When a key may go

What the answers of the service must have said before a key of a test run, or
its alias, is touched. A step of the cleanup is known by the commands it ran
and what came back, in order, so each notion here is a property of such a
list.
-/

namespace AwsKms.Model

/-- A command that changes something. -/
def AwsCall.destroys : AwsCall → Bool
  | .deleteAlias _ => true
  | .scheduleKeyDeletion _ _ => true
  | _ => false

end AwsKms.Model

namespace AwsKms.Spec

open AwsKms.Lib AwsKms.Model

/-- The commands a step ran, with the answers. -/
abbrev Answers := List (AwsCall × Exec)

/-- The command printed `value`. -/
def Replied (args : AwsCall) (r : Exec) (value : Option AwsReply) : Prop :=
  r.read args = .ok (.ok value)

/-- The service does not know what was asked for. -/
def NotThere (args : AwsCall) (r : Exec) : Prop :=
  ∃ error, r.read args = .ok (.error error) ∧
    error.errorCode = some "NotFoundException"

/-- The service says that the key is to be deleted as it is. -/
def SaysPending (stderr : String) : Prop :=
  "is pending deletion".toList <:+: stderr.toList ∨
    "is pending replica deletion".toList <:+: stderr.toList

/-- The key is scheduled for deletion: it is now, it was before, or there is no
such key. -/
inductive Scheduled (args : AwsCall) (r : Exec) : Prop where
  | done {v : Option AwsReply} : Replied args r v → Scheduled args r
  | notThere : NotThere args r → Scheduled args r
  | pending {error : AwsCliError} : r.read args = .ok (.error error) →
      error.errorCode = some "KMSInvalidStateException" → SaysPending error.stderr →
      Scheduled args r

/-- A key is the one the target stands for. -/
structure Ours (opts : CleanupOpts) (target : Target) (metadata : KeyMetadata)
    (tags : List Tag) : Prop where
  place : ∃ arn, parseKeyArn metadata.arn = some arn ∧
    arn.account = opts.account ∧ arn.region = opts.region
  tags : ∀ kv ∈ target.expectedTags, tagValueOf tags kv.1 = some kv.2
  keySpec : (truthy target.keySpec).isSome → metadata.keySpec = target.keySpec

/-- The answers say that the target is there and ours. -/
def Owned (opts : CleanupOpts) (target : Target) (metadata : KeyMetadata)
    (answers : Answers) : Prop :=
  ∃ r₁ v₁ r₂ v₂,
    answers = [(.describeKey target.id, r₁),
      (.listResourceTags metadata.keyId, r₂)] ∧
    Replied (.describeKey target.id) r₁ v₁ ∧
    v₁.bind AwsReply.keyMetadata = some metadata ∧
    Replied (.listResourceTags metadata.keyId) r₂ v₂ ∧
    Ours opts target metadata ((v₂.bind AwsReply.tags).getD [])

/-- The answer says that the target does not exist. -/
def Gone (target : Target) (answers : Answers) : Prop :=
  ∃ r, answers = [(.describeKey target.id, r)] ∧
    NotThere (.describeKey target.id) r

/-- The answers say what the alias resolves to. -/
def ResolvesTo (aliasName : String) (answers : Answers)
    (metadata : Option KeyMetadata) : Prop :=
  ∃ r, answers = [(.describeKey aliasName, r)] ∧
    ((∃ v, Replied (.describeKey aliasName) r v ∧
        v.bind AwsReply.keyMetadata = metadata) ∨
      metadata = none ∧ NotThere (.describeKey aliasName) r)

/-- The target passed the preflight. -/
inductive Passed (opts : CleanupOpts) (target : Target) : Answers → Prop where
  | gone {answers : Answers} : Gone target answers → Passed opts target answers
  | noAlias {metadata : KeyMetadata} {answers : Answers} :
      Owned opts target metadata answers → truthy target.aliasName = none →
      Passed opts target answers
  | aliasGone {metadata : KeyMetadata} {aliasName : String}
      {answers more : Answers} : Owned opts target metadata answers →
      truthy target.aliasName = some aliasName →
      ResolvesTo aliasName more none → Passed opts target (answers ++ more)
  | aliasOurs {metadata aliasTarget : KeyMetadata} {aliasName : String}
      {answers more : Answers} : Owned opts target metadata answers →
      truthy target.aliasName = some aliasName →
      ResolvesTo aliasName more (some aliasTarget) →
      aliasTarget.arn = metadata.arn → Passed opts target (answers ++ more)

/-- What must have been found right before an alias is deleted. -/
structure AliasFresh (opts : CleanupOpts) (aliasName : String) (target : Target)
    (answers : Answers) : Prop where
  found : ∃ metadata aliasTarget before more,
    answers = before ++ more ∧ Owned opts target metadata before ∧
      ResolvesTo aliasName more (some aliasTarget) ∧
      aliasTarget.arn = metadata.arn

/-- What must have been found right before a key is scheduled for deletion. -/
structure KeyFresh (opts : CleanupOpts) (target : Target) (answers : Answers) :
    Prop where
  found : ∃ metadata, Owned opts target metadata answers

/-- The answers of an alias step in which nothing failed. -/
inductive AliasDone (opts : CleanupOpts) (aliasName : String) (target : Target) :
    Answers → Prop where
  | keyGone {answers more : Answers} {metadata : Option KeyMetadata} :
      Gone target answers → ResolvesTo aliasName more metadata →
      AliasDone opts aliasName target (answers ++ more)
  | aliasGone {answers more : Answers} {metadata : KeyMetadata} :
      Owned opts target metadata answers → ResolvesTo aliasName more none →
      AliasDone opts aliasName target (answers ++ more)
  | dryRun {answers : Answers} : opts.dryRun = true →
      AliasFresh opts aliasName target answers →
      AliasDone opts aliasName target answers
  | deleted {answers : Answers} {r : Exec} : opts.dryRun = false →
      AliasFresh opts aliasName target answers →
      (∃ v, Replied (.deleteAlias aliasName) r v) ∨
        NotThere (.deleteAlias aliasName) r →
      AliasDone opts aliasName target (answers ++ [(.deleteAlias aliasName, r)])

/-- The answers of a key step in which nothing failed. -/
inductive KeyDone (opts : CleanupOpts) (target : Target) : Answers → Prop where
  | gone {answers : Answers} : Gone target answers → KeyDone opts target answers
  | dryRun {answers : Answers} : opts.dryRun = true →
      KeyFresh opts target answers → KeyDone opts target answers
  | scheduled {answers : Answers} {r : Exec} : opts.dryRun = false →
      KeyFresh opts target answers →
      Scheduled (.scheduleKeyDeletion target.id opts.window) r →
      KeyDone opts target
        (answers ++ [(.scheduleKeyDeletion target.id opts.window, r)])

/-- What was seen of a phase. -/
def stageLog (stage : Stage) (log : List CleanupEvent) :
    List (PoolEvent AwsCall Exec) :=
  log.filterMap fun e => if e.stage = stage then some e.event else none

/-- The commands run for one item in a phase, with the answers. -/
def recordOf (stage : Stage) (i : Nat) (log : List CleanupEvent) : Answers :=
  answersOf i (stageLog stage log)

/-- The commands run in a phase. -/
def commandsIn (stage : Stage) (log : List CleanupEvent) : List AwsCall :=
  (stageLog stage log).filterMap fun e => e.did.question?

/-- The order of the phases. -/
def stageRank : Stage → Nat
  | .collecting => 0
  | .preflight => 1
  | .aliases => 2
  | .keys => 3

/-- The targets the run collected: from the manifest, and from the sweep if
there was one. -/
def Collected (opts : CleanupOpts) (manifest : Option Manifest)
    (targets : List Target) (log : List CleanupEvent) : Prop :=
  (collectTargets manifest opts).Leads (recordOf .collecting 0 log) (.ret targets)

/-- The fresh checks a destructive command needs, for a target of the run. -/
inductive Fresh (opts : CleanupOpts) (targets : List Target)
    (log : List CleanupEvent) (i : Nat) : Stage → AwsCall → Prop where
  | aliasName {target : Target} {aliasName : String} : target ∈ targets →
      truthy target.aliasName = some aliasName →
      AliasFresh opts aliasName target (recordOf .aliases i log) →
      Fresh opts targets log i .aliases (.deleteAlias aliasName)
  | key {target : Target} : target ∈ targets →
      KeyFresh opts target (recordOf .keys i log) →
      Fresh opts targets log i .keys (.scheduleKeyDeletion target.id opts.window)

/-- Every target passed the preflight. -/
def AllPassed (opts : CleanupOpts) (targets : List Target)
    (log : List CleanupEvent) : Prop :=
  ∀ i target, targets[i]? = some target →
    Passed opts target (recordOf .preflight i log)

/-- What must have happened before a destructive command `q` is run. -/
structure Justified (opts : CleanupOpts) (manifest : Option Manifest)
    (before : List CleanupEvent) (e : CleanupEvent) (q : AwsCall) : Prop where
  live : opts.dryRun = false
  passed : ∃ targets, Collected opts manifest targets before ∧
    AllPassed opts targets before ∧
    Fresh opts targets before e.event.index e.stage q
  /-- the checks are the same worker's -/
  worker : ∀ e' ∈ before, e'.stage = e.stage →
    e'.event.index = e.event.index → e'.event.worker = e.event.worker

/-- Every destructive command of a log is justified by what stands before it. -/
def AllJustified (opts : CleanupOpts) (manifest : Option Manifest)
    (log : List CleanupEvent) : Prop :=
  ∀ before e after, log = before ++ e :: after → ∀ q,
    e.event.did.question? = some q → q.destroys = true →
    Justified opts manifest before e q

/-- The phases follow each other. -/
def InOrder (log : List CleanupEvent) : Prop :=
  ∀ before e after, log = before ++ e :: after →
    ∀ e' ∈ before, stageRank e'.stage ≤ stageRank e.stage

/-- What a teardown that went through all of its phases has done. -/
structure Complete (opts : CleanupOpts) (targets : List Target)
    (log : List CleanupEvent) (result : Except String Nat) : Prop where
  /-- a target that existed in the preflight is rechecked once, and scheduled
  if the recheck succeeds -/
  keys : ∀ i target, targets[i]? = some target →
    ¬ Gone target (recordOf .preflight i log) →
    (commandsIn .keys log).count (.describeKey target.id) = 1 ∧
      ∃ j r rest, recordOf .keys j log = (.describeKey target.id, r) :: rest ∧
        ∀ answers more, recordOf .keys j log = answers ++ more →
          KeyFresh opts target answers → opts.dryRun = false →
          .scheduleKeyDeletion target.id opts.window ∈ commandsIn .keys log
  /-- the run fails exactly where a step has failed -/
  failed : ∃ (aliases : List AliasEntry) (active : List Target),
    (∀ aliasName target, (aliasName, target) ∈ aliases ↔
      ∃ i, targets[i]? = some target ∧ truthy target.aliasName = some aliasName ∧
        AliasFresh opts aliasName target (recordOf .preflight i log)) ∧
    (∀ target, target ∈ active ↔ ∃ i, targets[i]? = some target ∧
      ¬ Gone target (recordOf .preflight i log)) ∧
    ((∃ message, result = .error message) ↔
      (∃ i aliasName target, aliases[i]? = some (aliasName, target) ∧
        ¬ AliasDone opts aliasName target (recordOf .aliases i log)) ∨
      ∃ i target, active[i]? = some target ∧
        ¬ KeyDone opts target (recordOf .keys i log))

/-- A teardown is safe, as far as it went. -/
structure TeardownSafe (opts : CleanupOpts) (manifest : Option Manifest)
    (s : Teardown) (log : List CleanupEvent) : Prop where
  /-- every key of the manifest is a target -/
  covers : ∀ targets, Collected opts manifest targets log →
    ∀ name key, (name, key) ∈ manifestKeys manifest → key.arn.getD "" ≠ "" →
      ∃ target ∈ targets, target.id = key.arn.getD ""
  justified : AllJustified opts manifest log
  inOrder : InOrder log
  bounded : s.active ≤ opts.concurrency
  dryRun : opts.dryRun = true → ∀ e ∈ log, ∀ q,
    e.event.did.question? = some q → q.destroys = false
  /-- no target is rechecked twice -/
  once : ∀ targets, Collected opts manifest targets log → ∀ target ∈ targets,
    (commandsIn .keys log).count (.describeKey target.id) ≤ 1
  complete : ∀ targets result, Collected opts manifest targets log →
    targets ≠ [] → s = .ended result → Complete opts targets log result
  /-- a teardown that has not ended can go on, whatever the answers are -/
  goesOn : s.result = none → ∃ turn : Exec → CleanupTurn,
    ∀ r, (Teardown.step opts (turn r) s).ok = true

end AwsKms.Spec
