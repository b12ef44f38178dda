import AwsKms.Lib.Pool
import AwsKms.Lib.Run
import AwsKms.Model.Checker

/-!
# The removal of the test keys

`scripts/real-kms-keys.mjs teardown` and `reap` remove the keys a test run has
left in KMS: a preflight over every target, then the aliases, then the keys,
each phase a pool of workers (`mapLimit`). A command of the `aws` CLI
(`aws-cli.mjs`) is a question to the service, and the answer may be anything,
at any time. What a reply has beyond the members read here, and what is only
printed, is left out, as are `--region` and `--profile`, which every command
of a run has alike.
-/

namespace AwsKms.Model

open AwsKms.Lib

/-- The commands of the script that are run here, with their arguments. -/
inductive AwsCall where
  | getResources
  | listKeys
  | describeKey (keyId : String)
  | listResourceTags (keyId : String)
  | deleteAlias (aliasName : String)
  | scheduleKeyDeletion (keyId : String) (window : Nat)
  deriving DecidableEq, Repr

/-- `TAGS`. -/
def TAGS.owner : String := "awskms-provider-test"
def TAGS.run : String := "awskms-run"
def TAGS.role : String := "awskms-role"
def TAGS.spec : String := "awskms-spec"

def OWNER_VALUE : String := "1"

/-- The arguments of the command. -/
def AwsCall.args : AwsCall → List String
  | .getResources =>
      ["resourcegroupstaggingapi", "get-resources", "--tag-filters",
        "Key=" ++ TAGS.owner ++ ",Values=" ++ OWNER_VALUE,
        "--resource-type-filters", "kms:key"]
  | .listKeys => ["kms", "list-keys"]
  | .describeKey keyId => ["kms", "describe-key", "--key-id", keyId]
  | .listResourceTags keyId => ["kms", "list-resource-tags", "--key-id", keyId]
  | .deleteAlias aliasName => ["kms", "delete-alias", "--alias-name", aliasName]
  | .scheduleKeyDeletion keyId window =>
      ["kms", "schedule-key-deletion", "--key-id", keyId,
        "--pending-window-in-days", toString window]

/-- What callers read of an `AwsCliError`. -/
structure AwsCliError where
  message : String
  errorCode : Option String
  stderr : String
  deriving DecidableEq

structure KeyMetadata where
  arn : Option String
  keyId : String
  keySpec : Option String
  deriving DecidableEq

structure Tag where
  tagKey : String
  tagValue : String
  deriving DecidableEq

structure ListedKey where
  keyId : String
  keyArn : Option String
  deriving DecidableEq

/-- The members of a reply that are read. -/
structure AwsReply where
  error : Option AwsCliError
  keyMetadata : Option KeyMetadata
  tags : Option (List Tag)
  resourceTagMappingList : Option (List String)
  keys : Option (List ListedKey)
  deriving DecidableEq

/-- How a run of the CLI ends: with what it printed, with an exit code, or
without either (it did not start, or what it printed is no JSON). -/
inductive Exec where
  | printed (value : Option AwsReply)
  | exited (code : Nat) (stderr : String)
  | broken (message : String)
  deriving DecidableEq

/-- `/An error occurred \(([A-Za-z0-9_.]+)\)/`, its first match's group. -/
def errorCodeOf (stderr : String) : Option String :=
  stderr.toList.tails.findSome? fun s => do
    let rest ← skipText "An error occurred (".toList s
    let code := rest.takeWhile fun c => c.isAlphanum || c = '_' || c = '.'
    if code ≠ [] ∧ (rest.drop code.length).head? = some ')' then
      some (String.ofList code)
    else none

/-- `new AwsCliError({ argv, code, stderr, errorCode })`. -/
def AwsCliError.ofExit (args : AwsCall) (code : Nat) (stderr : String) :
    AwsCliError :=
  let text := String.ofList (trim stderr.toList)
  ⟨"aws " ++ " ".intercalate (args.args ++ ["--output", "json"]) ++
      " failed (exit " ++ toString code ++ "): " ++
      (if text = "" then "(no stderr)" else text),
    errorCodeOf stderr, stderr⟩

/-- What `parseArgs` leaves in `opts`, with what it checks, and the account
`main` puts there. -/
structure CleanupOpts where
  account : String
  region : String
  manifestPath : String
  manifestExplicit : Bool
  window : Nat
  concurrency : Nat
  sweep : Bool
  dryRun : Bool
  window_range : 7 ≤ window ∧ window ≤ 30
  concurrency_pos : 0 < concurrency

def readOnlyOptions (opts : CleanupOpts) : CleanupOpts :=
  { opts with dryRun := false }

/-- What `awsAsync` makes of a run of the CLI: an exception, or what the
command printed or the error it is recognised by. -/
def Exec.read (args : AwsCall) :
    Exec → Except String (Except AwsCliError (Option AwsReply))
  | .broken message => .error message
  | .exited code stderr => .ok (.error (.ofExit args code stderr))
  | .printed value =>
      match value.bind AwsReply.error with
      | some error => .ok (.error error)
      | none => .ok (.ok value)

/-- A program of the script: it throws a message. -/
abbrev Script := Prog AwsCall Exec String

/-- `awsTryAsync(args, opts)`, and `awsTry`, which blocks instead. -/
def awsTryAsync (args : AwsCall) (opts : CleanupOpts) :
    Script (Except AwsCliError (Option AwsReply)) :=
  if opts.dryRun then return .ok none
  else do
    match (← Prog.call args).read args with
    | .error message => throw message
    | .ok result => return result

structure KeyArn where
  region : String
  account : String
  keyId : String
  deriving DecidableEq

/-- `([^:]+):`. -/
def arnField (s : List Char) : Option (List Char × List Char) :=
  let field := s.takeWhile (· ≠ ':')
  if field = [] then none
  else (skipText [':'] (s.drop field.length)).map (field, ·)

/-- `/^arn:[^:]+:kms:([^:]+):(\d{12}):key\/(.+)$/`. -/
def parseKeyArn (arn : Option String) : Option KeyArn := do
  let s ← skipText "arn:".toList (arn.getD "").toList
  let (_, s) ← arnField s
  let s ← skipText "kms:".toList s
  let (region, s) ← arnField s
  let (account, s) ← arnField s
  let keyId ← skipText "key/".toList s
  if account.length = 12 ∧ account.all Char.isDigit ∧ keyId ≠ [] ∧
      keyId.all fun c => !isLineTerminator c then
    some ⟨String.ofList region, String.ofList account, String.ofList keyId⟩
  else none

/-- A key of the manifest, with what is read of it. -/
structure ManifestKey where
  aliasName : Option String
  keyId : Option String
  arn : Option String
  keySpec : Option String
  spec : Option String
  role : Option String
  expectedTags : List (String × String)
  deriving DecidableEq

structure Manifest where
  version : Option Nat
  account : Option String
  region : Option String
  runId : Option String
  roles : Option (List String)
  keys : Option (List (String × ManifestKey))
  deriving DecidableEq

def MANIFEST_VERSION : Nat := 1

def ALIAS_PREFIX : String := "alias/awskms-"

/-- `ROLES` of `test/inventory.mjs`. -/
def ROLES : List String := ["test", "other"]

def expectedTags (runId role spec : String) : List (String × String) :=
  [(TAGS.owner, OWNER_VALUE), (TAGS.run, runId), (TAGS.role, role),
    (TAGS.spec, spec)]

/-- `[0-9]+-`. -/
def skipNumber (s : List Char) : Option (List Char) :=
  let digits := s.takeWhile Char.isDigit
  if digits = [] then none else skipText ['-'] (s.drop digits.length)

/-- `/^(?:gh-[0-9]+-[0-9]+-|local-)[a-f0-9]{24}$/`. -/
def isRunId (runId : String) : Bool :=
  let github := (skipText "gh-".toList runId.toList).bind skipNumber >>= skipNumber
  let tail := github <|> skipText "local-".toList runId.toList
  tail.any fun s => s.length = 24 ∧
    s.all fun c => c.isDigit || ('a' ≤ c && c ≤ 'f')

def validateManifestKey (roles : List String) (runId : String)
    (opts : CleanupOpts) (name : String) (key : ManifestKey) :
    Except String Unit :=
  let arn := parseKeyArn key.arn
  if arn.all fun a => a.account ≠ opts.account ∨ a.region ≠ opts.region then
    .error ("manifest key " ++ name ++
      " has an ARN outside the selected account/region")
  else if key.keyId ≠ arn.map KeyArn.keyId ∨ key.role = none ∨ key.spec = none then
    .error ("manifest key " ++ name ++ " has inconsistent identity fields")
  else if ¬ roles.contains (key.role.getD "") then
    .error ("manifest key " ++ name ++ " has role " ++ key.role.getD "" ++
      " outside manifest roles")
  else if ¬ key.aliasName.any fun a =>
      (ALIAS_PREFIX ++ runId ++ "-").toList.isPrefixOf a.toList then
    .error ("manifest key " ++ name ++ " has an alias outside this run's namespace")
  else if key.expectedTags ≠
      expectedTags runId (key.role.getD "") (key.spec.getD "") then
    .error ("manifest key " ++ name ++ " has unexpected ownership tags")
  else .ok ()

def validateManifest (manifest : Option Manifest) (opts : CleanupOpts) :
    Except String Unit :=
  match manifest with
  | none => .error ("manifest version must be " ++ toString MANIFEST_VERSION)
  | some manifest =>
      let roles := manifest.roles.getD ROLES
      let runId := manifest.runId.getD ""
      if manifest.version ≠ some MANIFEST_VERSION then
        .error ("manifest version must be " ++ toString MANIFEST_VERSION)
      else if manifest.account ≠ some opts.account then
        .error ("manifest account " ++ manifest.account.getD "(missing)" ++
          " does not match caller account " ++ opts.account)
      else if manifest.region ≠ some opts.region then
        .error ("manifest region " ++ manifest.region.getD "(missing)" ++
          " does not match " ++ opts.region)
      else if ¬ isRunId runId then .error "manifest has an invalid runId"
      else
        match manifest.keys with
        | none => .error "manifest keys must be an object"
        | some keys =>
            if roles = [] ∨ ¬ roles.Nodup ∨ ¬ roles.all ROLES.contains then
              .error ("manifest roles must contain unique values from " ++
                ", ".intercalate ROLES)
            else keys.forM fun (name, key) =>
              validateManifestKey roles runId opts name key

/-- The file `--manifest` names. -/
inductive ManifestFile where
  | missing
  | unparsable (message : String)
  | parsed (manifest : Option Manifest)

def readManifest (opts : CleanupOpts) (file : ManifestFile) (optional : Bool) :
    Except String (Option Manifest) :=
  match file with
  | .missing =>
      if optional then .ok none
      else .error ("manifest not found: " ++ opts.manifestPath)
  | .unparsable message =>
      .error ("cannot parse manifest " ++ opts.manifestPath ++ ": " ++ message)
  | .parsed manifest =>
      match validateManifest manifest opts with
      | .error e => .error e
      | .ok () => .ok manifest

/-! ## The targets

Keys come from the manifest and from a sweep over everything that has our tag.
They are collected by their id before anything is done, and who names a key
first decides what is expected of it. -/

structure Target where
  id : String
  why : String
  aliasName : Option String
  keySpec : Option String
  expectedTags : List (String × String)
  deriving DecidableEq

/-- The swept keys of a list: those whose tags can be read and say so. -/
def sweepListed (opts : CleanupOpts) : List ListedKey → Script (List String)
  | [] => return []
  | key :: rest => do
      let tags ← awsTryAsync (.listResourceTags key.keyId) (readOnlyOptions opts)
      let owned := match tags with
        | .error _ => false
        | .ok value => ((value.bind AwsReply.tags).getD []).any fun tag =>
            tag.tagKey = TAGS.owner && tag.tagValue = OWNER_VALUE
      let found ← sweepListed opts rest
      return if owned then key.keyArn.getD key.keyId :: found else found

def sweepTagged (opts : CleanupOpts) : Script (List String) := do
  match ← awsTryAsync .getResources (readOnlyOptions opts) with
  | .ok value => return (value.bind AwsReply.resourceTagMappingList).getD []
  | .error _ =>
      match ← awsTryAsync .listKeys (readOnlyOptions opts) with
      | .error error => throw error.message
      | .ok listed => sweepListed opts ((listed.bind AwsReply.keys).getD [])

/-- `add(target)`; the map keeps its keys in the order they came. -/
def addTarget (targets : List Target) (target : Target) : List Target :=
  if target.id ≠ "" ∧ ∀ t ∈ targets, t.id ≠ target.id then targets ++ [target]
  else targets

def manifestTarget (name : String) (key : ManifestKey) : Target :=
  { id := key.arn.getD ""
    why := "manifest:" ++ name
    aliasName := key.aliasName
    keySpec := key.keySpec <|> key.spec
    expectedTags := key.expectedTags }

def sweptTarget (arn : String) : Target :=
  { id := arn
    why := "tag-sweep"
    aliasName := none
    keySpec := none
    expectedTags := [(TAGS.owner, OWNER_VALUE)] }

def manifestKeys (manifest : Option Manifest) : List (String × ManifestKey) :=
  (manifest.bind Manifest.keys).getD []

def collectTargets (manifest : Option Manifest) (opts : CleanupOpts) :
    Script (List Target) := do
  let targets := ((manifestKeys manifest).map fun entry =>
    manifestTarget entry.1 entry.2).foldl addTarget []
  if opts.sweep then
    return ((← sweepTagged opts).map sweptTarget).foldl addTarget targets
  else return targets

/-- A string that is there and not empty. -/
def truthy (s : Option String) : Option String := s.filter (· ≠ "")

/-- `Object.fromEntries`: of two entries for one key the later one counts. -/
def tagValueOf (tags : List Tag) (key : String) : Option String :=
  (tags.reverse.find? fun tag => tag.tagKey = key).map Tag.tagValue

/-- `${value}` of what may be missing. -/
def shown (value : Option String) : String := value.getD "undefined"

/-- The ARN is not one of the account and the region. -/
def outsideSelection (opts : CleanupOpts) (metadata : KeyMetadata) : Bool :=
  (parseKeyArn metadata.arn).all fun arn =>
    arn.account ≠ opts.account ∨ arn.region ≠ opts.region

/-- Why the key is not taken for the target's: a tag, or its key spec. -/
def ownershipRefusal (target : Target) (metadata : KeyMetadata)
    (tags : List Tag) : Option String :=
  match target.expectedTags.find? fun kv => tagValueOf tags kv.1 ≠ some kv.2 with
  | some (key, value) =>
      some ("refusing to modify " ++ shown metadata.arn ++ ": ownership tag " ++
        key ++ " must be " ++ value)
  | none =>
      if (truthy target.keySpec).isSome ∧ metadata.keySpec ≠ target.keySpec then
        some ("refusing to modify " ++ shown metadata.arn ++ ": expected " ++
          shown target.keySpec ++ ", got " ++ shown metadata.keySpec)
      else none

/-- The second half of `verifyOwnedTarget`, for the metadata it was given. -/
def verifyMetadata (target : Target) (opts : CleanupOpts)
    (metadata : KeyMetadata) : Script (Option KeyMetadata) := do
  if outsideSelection opts metadata then
    throw (target.why ++ " resolves outside the selected account/region")
  else
    match ← awsTryAsync (.listResourceTags metadata.keyId)
        (readOnlyOptions opts) with
    | .error error => throw error.message
    | .ok listed =>
        match ownershipRefusal target metadata
            ((listed.bind AwsReply.tags).getD []) with
        | some message => throw message
        | none => return some metadata

/-- `verifyOwnedTarget`: the metadata, or `none` where the key does not
exist. -/
def verifyOwnedTarget (target : Target) (opts : CleanupOpts) :
    Script (Option KeyMetadata) := do
  match ← awsTryAsync (.describeKey target.id) (readOnlyOptions opts) with
  | .error error =>
      if error.errorCode = some "NotFoundException" then return none
      else throw error.message
  | .ok described =>
      match described.bind AwsReply.keyMetadata with
      | none => throw (target.why ++ " resolves outside the selected account/region")
      | some metadata => verifyMetadata target opts metadata

def describeAliasAsync (aliasName : String) (opts : CleanupOpts) :
    Script (Option KeyMetadata) := do
  match ← awsTryAsync (.describeKey aliasName) (readOnlyOptions opts) with
  | .ok value => return value.bind AwsReply.keyMetadata
  | .error error =>
      if error.errorCode = some "NotFoundException" then return none
      else throw error.message

/-- `/is (?!not )pending (deletion|replica deletion)/`: what follows `is ` is
`pending`, so it is not `not `. -/
def saysPending (stderr : String) : Bool :=
  stderr.toList.tails.any fun s =>
    "is pending deletion".toList.isPrefixOf s ||
      "is pending replica deletion".toList.isPrefixOf s

/-- The answers with which `scheduleDeletion` is content. -/
def scheduleAccepted (result : Except AwsCliError (Option AwsReply)) : Bool :=
  match result with
  | .ok _ => true
  | .error error => error.errorCode = some "NotFoundException" ||
      error.errorCode = some "KMSInvalidStateException" && saysPending error.stderr

def scheduleDeletion (keyId : String) (opts : CleanupOpts) (what : String) :
    Script Unit := do
  match ← awsTryAsync (.scheduleKeyDeletion keyId opts.window) opts with
  | .ok _ => return ()
  | .error error =>
      if scheduleAccepted (.error error) then return ()
      else throw (what ++ ": " ++ error.message)

/-- What the preflight keeps of a target that exists. -/
structure TargetEntry where
  target : Target
  aliasName : Option String
  deriving DecidableEq

/-- The preflight of one target. -/
def preflightTarget (opts : CleanupOpts) (target : Target) :
    Script (Option TargetEntry) := do
  match ← verifyOwnedTarget target opts with
  | none => return none
  | some metadata =>
      match truthy target.aliasName with
      | none => return some ⟨target, none⟩
      | some aliasName =>
          match ← describeAliasAsync aliasName opts with
          | none => return some ⟨target, none⟩
          | some aliasTarget =>
              if aliasTarget.arn ≠ metadata.arn then
                throw ("refusing to delete " ++ aliasName ++ ": it targets " ++
                  shown aliasTarget.arn ++ ", not " ++ shown metadata.arn)
              else return some ⟨target, some aliasName⟩

/-- An alias and the target it belongs to. -/
abbrev AliasEntry := String × Target

/-- What the alias phase does with an alias once both checks have returned. -/
def deleteVerified (opts : CleanupOpts) (aliasName : String) :
    Option KeyMetadata → Option KeyMetadata → Script Nat
  | some metadata, some aliasTarget =>
      if aliasTarget.arn ≠ metadata.arn then
        throw ("refusing to delete " ++ aliasName ++ ": it now targets " ++
          shown aliasTarget.arn ++ ", not " ++ shown metadata.arn)
      else do
        match ← awsTryAsync (.deleteAlias aliasName) opts with
        | .ok _ => return 0
        | .error error =>
            if error.errorCode ≠ some "NotFoundException" then
              throw error.message
            else return 0
  | _, _ => return 0

/-- The alias phase for one alias: 1 where something failed. -/
def deleteAliasStep (opts : CleanupOpts) : AliasEntry → Script Nat
  | (aliasName, target) =>
      tryCatch (do
        let verified ← verifyOwnedTarget target opts
        let aliasTarget ← describeAliasAsync aliasName opts
        deleteVerified opts aliasName verified aliasTarget)
      fun _ => return 1

/-- The key phase for one target: 1 where something failed. -/
def scheduleKeyStep (opts : CleanupOpts) (target : Target) : Script Nat :=
  tryCatch (do
    match ← verifyOwnedTarget target opts with
    | none => return 0
    | some _ =>
        scheduleDeletion target.id opts target.why
        return 0)
  fun _ => return 1

/-! ## The phases

Three pools one after the other, the last two over what the preflight has
left. A preflight that throws ends the run before anything is removed; a
step that fails in one of the two phases after it is counted, and the others
go on. -/

inductive Stage where
  | collecting
  | preflight
  | aliases
  | keys
  deriving DecidableEq, Repr

structure CleanupEvent where
  stage : Stage
  event : PoolEvent AwsCall Exec

abbrev CleanupPool := Pool AwsCall Exec String

/-- Where a teardown is. -/
inductive Teardown where
  | collecting (p : Script (List Target))
  | preflight (targets : List Target) (pool : CleanupPool (Option TargetEntry))
  | aliases (entries : List TargetEntry) (pool : CleanupPool Nat)
  | keys (entries : List TargetEntry) (aliasFailures : Nat)
      (pool : CleanupPool Nat)
  | ended (result : Except String Nat)

/-- One move: of a worker, with the answer that is there for it, or of
`teardown` itself, which goes on when a phase is over. -/
inductive CleanupTurn where
  | worker (w : Nat) (answer : Exec)
  | settle

/-- `activeEntries.map(({ target }) => target)`. -/
def activeTargets (entries : List TargetEntry) : List Target :=
  entries.map TargetEntry.target

/-- `activeEntries.filter(({ alias }) => alias != null)`. -/
def aliasEntries (entries : List TargetEntry) : List AliasEntry :=
  entries.filterMap fun entry => entry.aliasName.map (·, entry.target)

/-- `mapLimit(items, limit, fn)`, before its workers have moved. -/
def mapLimit {ι β : Type} (items : List ι) (limit : Nat) : CleanupPool β :=
  Pool.start items.length limit

def inStage {β : Type} (stage : Stage) (wrap : CleanupPool β → Teardown)
    (out : Out (CleanupPool β) (PoolEvent AwsCall Exec)) :
    Out Teardown CleanupEvent :=
  ⟨out.ok, wrap out.state, out.trace.map (⟨stage, ·⟩)⟩

/-- `results.reduce((total, failed) => total + failed, 0)`. -/
def failures (results : List Nat) : Nat :=
  results.foldl (fun total failed => total + failed) 0

def cleanupResult (scheduled aliasFailures keyFailures : Nat) :
    Except String Nat :=
  if aliasFailures ≠ 0 ∨ keyFailures ≠ 0 then
    .error ("cleanup completed with " ++ toString aliasFailures ++
      " alias deletion failure(s) and " ++ toString keyFailures ++
      " owned key scheduling failure(s)")
  else .ok scheduled

namespace Teardown

def step (opts : CleanupOpts) : CleanupTurn → Act Teardown CleanupEvent
  | .worker w answer => fun s =>
      match s with
      | .collecting (.ask q k) =>
          ⟨true, .collecting (k answer),
            [⟨.collecting, ⟨0, 0, .asked q⟩⟩,
              ⟨.collecting, ⟨0, 0, .answered q answer⟩⟩]⟩
      | .preflight targets pool =>
          inStage .preflight (.preflight targets)
            (Pool.turn targets (preflightTarget opts) w answer pool)
      | .aliases entries pool =>
          inStage .aliases (.aliases entries)
            (Pool.turn (aliasEntries entries) (deleteAliasStep opts) w answer pool)
      | .keys entries aliasFailures pool =>
          inStage .keys (.keys entries aliasFailures)
            (Pool.turn (activeTargets entries) (scheduleKeyStep opts) w answer pool)
      | _ => ⟨false, s, []⟩
  | .settle => fun s =>
      match s with
      | .collecting (.throw message) => ⟨true, .ended (.error message), []⟩
      | .collecting (.ret targets) =>
          if targets = [] then ⟨true, .ended (.ok 0), []⟩
          else
            ⟨true, .preflight targets (mapLimit targets opts.concurrency), []⟩
      | .preflight _ pool =>
          if pool.done then
            let entries := pool.outputs.filterMap id
            ⟨true, .aliases entries
              (mapLimit (aliasEntries entries) opts.concurrency), []⟩
          else ⟨false, s, []⟩
      | .aliases entries pool =>
          if pool.done then
            ⟨true, .keys entries (failures pool.outputs)
              (mapLimit (activeTargets entries) opts.concurrency), []⟩
          else ⟨false, s, []⟩
      | .keys entries aliasFailures pool =>
          if pool.done then
            ⟨true, .ended (cleanupResult (activeTargets entries).length
              aliasFailures (failures pool.outputs)), []⟩
          else ⟨false, s, []⟩
      | _ => ⟨false, s, []⟩

/-- How `teardown` has ended. A preflight that was rejected ends it while its
other workers go on. -/
def result : Teardown → Option (Except String Nat)
  | .ended result => some result
  | .preflight _ pool => pool.rejected.map .error
  | _ => none

/-- The workers that run an item. -/
def active : Teardown → Nat
  | .preflight _ pool => (pool.workers.filter Worker.active).length
  | .aliases _ pool => (pool.workers.filter Worker.active).length
  | .keys _ _ pool => (pool.workers.filter Worker.active).length
  | _ => 0

end Teardown

/-- The manifest `teardown` works with. A sweep does without a default one
that cannot be used. -/
def usableManifest (opts : CleanupOpts) (file : ManifestFile) :
    Except String (Option Manifest) :=
  match readManifest opts file (opts.sweep && !opts.manifestExplicit) with
  | .ok manifest => .ok manifest
  | .error e =>
      if !opts.sweep || opts.manifestExplicit then .error e else .ok none

/-- `teardown(opts)` over a manifest file. -/
def teardown (opts : CleanupOpts) (file : ManifestFile) :
    Machine Teardown CleanupTurn CleanupEvent where
  start :=
    match usableManifest opts file with
    | .error e => .ended (.error e)
    | .ok manifest => .collecting (collectTargets manifest opts)
  allowed s turn := (Teardown.step opts turn s).ok = true
  step := Teardown.step opts

end AwsKms.Model
