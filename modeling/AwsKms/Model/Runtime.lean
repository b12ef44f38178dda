import AwsKms.Lib.Fs
import AwsKms.Lib.Rely

/-!
# The private files of a process

The module and the configuration file that OpenSSL is to load may have to be
written to disk first (`npm/core/index.js`). Every isolate of a process loads
this code for itself, and all of them are to come to the same directory
(`privateTempDirectory`) and to the same files in it (`writePrivateFile`),
with nothing between them but the file system.

An isolate is a thread of a `Crowd`; its questions are the calls of `node:fs`
it makes, one by one. `readFileSync` on a descriptor is one of them,
`writeFileSync` is one per byte. The loops of the code are cut where they go
round: `Phase` says where an isolate is between two rounds, and between two
calls of the functions that are modelled here. `dev` and `ino` are one number.
Each isolate has its own environment, so that each has its own `tmpdir()`, and
its own copy of the bytes a file is to have.
-/

namespace AwsKms.Model

open AwsKms.Lib

/-- What is read of an error: `code` and `cause`. -/
inductive JsError where
  | sys (code : String)
  | awskms (code message : String) (cause : Option JsError)

namespace JsError

def code : JsError → String
  | .sys code => code
  | .awskms code _ _ => code

def cause : JsError → Option JsError
  | .sys _ => none
  | .awskms _ _ cause => cause

end JsError

/-- `awskmsError('ERR_AWSKMS_TEMP_INTEGRITY', message, cause)` -/
def tempIntegrity (message : String) (cause : Option JsError := none) : JsError :=
  .awskms "ERR_AWSKMS_TEMP_INTEGRITY" message cause

/-! ## What a process is, and what its isolates keep

Everything of the operating system and of Node that the code asks for goes
through here. What an isolate sees without a call (its temporary directory,
its user, its platform) is its `Process`; what it keeps between two calls is
its module-level state. -/

/-- A process as one of its isolates sees it: `tmpdir` is what `tmpdir()` reads
from the environment of that isolate. `files` are the private files, each with
its bytes and its final mode: the mode a file has while it is being written is
not one of them, nor is the name of a publication. -/
structure Process where
  tmpdir : FilePath
  uid : Option Nat
  O_NOFOLLOW : Bool
  processIdentity : String
  sha256 : List UInt8 → String
  files : String → Option (List UInt8 × Nat)
  not_pending : ∀ name bytes mode, files name = some (bytes, mode) →
    mode ≠ 0o600 &&& 0o777
  not_publication : files ".publish" = none

namespace Process

def directoryPrefix (p : Process) : String := "runtime-" ++ p.processIdentity ++ "-"

def rendezvousName (p : Process) : String := "process-" ++ p.processIdentity ++ ".path"

def uidMatches (p : Process) (stat : Stat) : Bool :=
  match p.uid with
  | none => true
  | some uid => stat.uid = uid

end Process

/-- A path as the messages show it. -/
def pathText (path : FilePath) : String := "/" ++ "/".intercalate path

/-- `node:path`'s `basename`. -/
def basename (name : String) : String :=
  String.ofList ((name.toList.reverse.dropWhile (· = '/')).takeWhile (· ≠ '/')).reverse

/-- `Buffer.from(text, 'utf8')` -/
def utf8 (text : String) : List UInt8 := text.toUTF8.data.toList

/-- `bytes.toString('utf8')`. Bytes that are no UTF-8 come out with a
replacement character in them; no name that is looked for has one. -/
def utf8Text (bytes : List UInt8) : String :=
  (String.fromUTF8? ⟨bytes.toArray⟩).getD "\ufffd"

/-- `stat.mode & 0o777` -/
def permissions (stat : Stat) : Nat := stat.mode &&& 0o777

/-- A path and the inode that was there. -/
structure Place where
  path : FilePath
  ino : Nat
  deriving DecidableEq

structure Marker where
  path : FilePath
  ino : Nat
  bytes : List UInt8
  digest : String
  deriving DecidableEq

structure TempDirectory where
  path : FilePath
  ino : Nat
  root : Place
  marker : Marker
  deriving DecidableEq

structure PrivateFile where
  path : FilePath
  ino : Nat
  mode : Nat
  bytes : List UInt8
  digest : String
  deriving DecidableEq

/-- What an isolate keeps: `tempDirectory`, and the files it has been given. -/
structure Isolate where
  tempDirectory : Option TempDirectory
  files : List PrivateFile

/-- The functions the rest of the module calls. -/
inductive ApiCall where
  | privateTempDirectory
  | writePrivateFile (name : String)
  | validatePrivateFile (index : Nat)

/-- How such a call ends. -/
inductive Outcome where
  | directory (path : FilePath)
  | file (file : PrivateFile)
  | valid (file : PrivateFile)
  | failed (error : JsError)

inductive Ask where
  | fs (call : FsCall)
  /-- `performance.now()` -/
  | now
  /-- The last call has ended so; which one comes next? -/
  | next (last : Option Outcome)

structure Answer where
  fs : FsAnswer := {}
  time : Nat := 0
  call : ApiCall := .privateTempDirectory

abbrev Js (α : Type) := Prog Ask Answer JsError α

def sys (call : FsCall) : Js FsAnswer := do
  let r ← Prog.call (.fs call)
  match r.fs.error with
  | some code => throw (.sys code)
  | none => return r.fs

/-- `try { statement } catch (cause) { throw … }` -/
def wrapping {α : Type} (message : String) (statement : Js α) : Js α :=
  statement.handle fun cause => .throw (tempIntegrity message cause)

/-- `if (value !== undefined) { … }` -/
def ifDefined {α : Type} (value : Option α) (statement : α → Js Unit) : Js Unit :=
  match value with
  | some a => statement a
  | none => return ()

def lstatSync (path : FilePath) : Js Stat := do return (← sys (.lstat path)).stat

def fstatSync (fd : Nat) : Js Stat := do return (← sys (.fstat fd)).stat

def readFileSync (fd : Nat) : Js (List UInt8) := do return (← sys (.read fd)).bytes

def writeFileSync (fd : Nat) : List UInt8 → Js Unit
  | [] => return ()
  | byte :: rest => do
      let _ ← sys (.write fd byte)
      writeFileSync fd rest

def performanceNow : Js Nat := do return (← Prog.call .now).time

/-! ## The rendezvous

All isolates find the directory through one file, in a place that each of them
can name. Who publishes it has the directory made and the file written under
another name before it links it there; one that comes second takes back what
it made and reads. -/

variable (p : Process)

def assertPrivateDirectory (path : FilePath) (expected : Option Nat := none) :
    Js Stat := do
  let stat ← wrapping ("Private runtime directory disappeared: " ++ pathText path)
    (lstatSync path)
  if stat.kind ≠ .directory ∨ stat.kind = .symlink ∨ p.uidMatches stat = false ∨
      permissions stat ≠ 0o700 ∨ (∃ ino ∈ expected, stat.ino ≠ ino) then
    throw (tempIntegrity
      ("Private runtime directory changed or has unsafe permissions: " ++ pathText path))
  return stat

/-- The first `try` of `rendezvousRoot`: is the directory made here? -/
def createRoot (path : FilePath) : Js Bool :=
  Prog.handle (do let _ ← sys (.mkdir path 0o700); return true) fun cause => do
    if cause.code ≠ "EEXIST" then
      throw (tempIntegrity
        ("Could not create the private aws-kms rendezvous directory: " ++ pathText path) cause)
    return false

def rendezvousRoot : Js Place := do
  let some uid := p.uid
    | throw (tempIntegrity "The aws-kms runtime package requires a POSIX user identity.")
  let path := p.tmpdir ++ ["keyobject-aws-kms-" ++ toString uid]
  let created ← createRoot path
  if created then
    let _ ← sys (.chmod path 0o700)
  let stat ← assertPrivateDirectory p path
  return ⟨path, stat.ino⟩

/-- What `noFollowRead` returns. -/
structure Snapshot where
  stat : Stat
  bytes : List UInt8

def noFollowRead (path : FilePath) : Js Snapshot := do
  if p.O_NOFOLLOW = false then
    throw (tempIntegrity
      "This platform cannot inspect private runtime files without following symbolic links.")
  let fd := (← sys (.openRead path)).fd
  Prog.ensure (do
      let stat ← fstatSync fd
      let bytes ← readFileSync fd
      return ⟨stat, bytes⟩)
    (sys (.close fd))

/-- `/^[A-Za-z0-9]{6}$/u` on what follows the prefix. -/
def temporarySuffix (name : String) : Bool :=
  let suffix := name.toList.drop p.directoryPrefix.length
  suffix.length = 6 ∧ suffix.all Char.isAlphanum

def readRendezvous (root : Place) (markerPath : FilePath) : Js TempDirectory := do
  let marker ← wrapping
    ("Could not read the aws-kms process rendezvous: " ++ pathText markerPath)
    (noFollowRead p markerPath)
  let name := utf8Text marker.bytes
  if marker.stat.kind ≠ .file ∨ p.uidMatches marker.stat = false ∨
      permissions marker.stat ≠ 0o400 ∨ name ≠ basename name ∨
      p.directoryPrefix.toList.isPrefixOf name.toList = false ∨
      temporarySuffix p name = false then
    throw (tempIntegrity
      ("The aws-kms process rendezvous is malformed or unsafe: " ++ pathText markerPath))
  let path := root.path ++ [name]
  let stat ← assertPrivateDirectory p path
  return ⟨path, stat.ino, root,
    ⟨markerPath, marker.stat.ino, marker.bytes, p.sha256 marker.bytes⟩⟩

/-- The variables of `publishRendezvous`. -/
structure Publishing where
  candidate : Option FilePath := none
  publication : Option FilePath := none
  fd : Option Nat := none
  published : Bool := false

/-- A statement of a `try` block: where it throws, the variables are what they
are at that point. -/
def under {V α : Type} (v : V) (statement : Js α) :
    Prog Ask Answer (JsError × V) α :=
  statement.handle fun cause => .throw (cause, v)

/-- The `try` block. -/
def publishRendezvousTry (root : Place) (markerPath : FilePath) :
    Prog Ask Answer (JsError × Publishing) TempDirectory := do
  let v : Publishing := {}
  let candidate := (← under v (sys (.mkdtemp root.path p.directoryPrefix))).path
  let v := { v with candidate := some candidate }
  let _ ← under v (sys (.chmod candidate 0o700))
  let _ ← under v (assertPrivateDirectory p candidate)
  let publication := candidate ++ [".publish"]
  let v := { v with publication := some publication }
  let fd := (← under v (sys (.openNew publication 0o600))).fd
  let v := { v with fd := some fd }
  under v (writeFileSync fd (utf8 (candidate.getLast?.getD "")))
  let _ ← under v (sys (.fchmod fd 0o400))
  let _ ← under v (sys (.fsync fd))
  let _ ← under v (sys (.close fd))
  let v := { v with fd := none }
  let _ ← under v (sys (.link publication markerPath))
  let v := { v with published := true }
  Prog.ignore (sys (.unlink publication))
  let v := { v with publication := none }
  under v (readRendezvous p root markerPath)

/-- The `catch` block. -/
def publishRendezvousCatch (root : Place) (markerPath : FilePath) (cause : JsError)
    (v : Publishing) : Js TempDirectory := do
  ifDefined v.fd fun fd => Prog.ignore (sys (.close fd))
  ifDefined (if v.published then none else v.publication) fun publication =>
    Prog.ignore (sys (.unlink publication))
  ifDefined (if v.published then none else v.candidate) fun candidate =>
    Prog.ignore (sys (.rmdir candidate))
  if cause.code = "EEXIST" then
    readRendezvous p root markerPath
  else
    throw (tempIntegrity "Could not publish a private aws-kms process directory." cause)

def publishRendezvous (root : Place) (markerPath : FilePath) : Js TempDirectory :=
  (publishRendezvousTry p root markerPath).handle fun (cause, v) =>
    publishRendezvousCatch p root markerPath cause v

def validateTempDirectory (tempDirectory : TempDirectory) : Js FilePath := do
  let _ ← assertPrivateDirectory p tempDirectory.root.path (some tempDirectory.root.ino)
  let marker ← wrapping
    ("The aws-kms process rendezvous disappeared: " ++ pathText tempDirectory.marker.path)
    (noFollowRead p tempDirectory.marker.path)
  if marker.stat.kind ≠ .file ∨ p.uidMatches marker.stat = false ∨
      marker.stat.ino ≠ tempDirectory.marker.ino ∨ permissions marker.stat ≠ 0o400 ∨
      marker.bytes.length ≠ tempDirectory.marker.bytes.length ∨
      p.sha256 marker.bytes ≠ tempDirectory.marker.digest ∨
      utf8Text marker.bytes ≠ tempDirectory.path.getLast?.getD "" then
    throw (tempIntegrity
      ("The aws-kms process rendezvous changed: " ++ pathText tempDirectory.marker.path))
  let _ ← assertPrivateDirectory p tempDirectory.path (some tempDirectory.ino)
  return tempDirectory.path

/-- The call returns the directory; what it leaves in `tempDirectory` is there
whether it returns or throws. -/
def privateTempDirectory (cached : Option TempDirectory) :
    Prog Ask Answer (JsError × Option TempDirectory) (FilePath × TempDirectory) := do
  if let some tempDirectory := cached then
    let path ← under cached (validateTempDirectory p tempDirectory)
    return (path, tempDirectory)
  let root ← under cached (rendezvousRoot p)
  let markerPath := root.path ++ [p.rendezvousName]
  let tempDirectory ← under cached ((readRendezvous p root markerPath).handle fun cause => do
    if cause.cause.map JsError.code ≠ some "ENOENT" then throw cause
    publishRendezvous p root markerPath)
  let path ← under (some tempDirectory) (validateTempDirectory p tempDirectory)
  return (path, tempDirectory)

/-- `actual` is what `noFollowRead` returned, where it was called already. -/
def validatePrivateFile (tempDirectory : TempDirectory) (file : PrivateFile)
    (actual : Option Snapshot := none) : Js Unit := do
  let _ ← validateTempDirectory p tempDirectory
  let actual ← match actual with
    | some actual => pure actual
    | none =>
        wrapping ("Private runtime file disappeared: " ++ pathText file.path)
          (noFollowRead p file.path)
  if actual.stat.kind ≠ .file ∨ actual.stat.nlink ≠ 1 ∨ p.uidMatches actual.stat = false ∨
      actual.stat.ino ≠ file.ino ∨ permissions actual.stat ≠ file.mode ∨
      actual.bytes.length ≠ file.bytes.length ∨ p.sha256 actual.bytes ≠ file.digest then
    throw (tempIntegrity
      ("Private runtime file changed after creation: " ++ pathText file.path))

def privateFileSnapshot (tempDirectory : TempDirectory) (path : FilePath)
    (bytes : List UInt8) (finalMode : Nat) : Js PrivateFile := do
  let actual ← wrapping ("Private runtime file disappeared: " ++ pathText path)
    (noFollowRead p path)
  let file : PrivateFile := ⟨path, actual.stat.ino, finalMode, bytes, p.sha256 bytes⟩
  validatePrivateFile p tempDirectory file (some actual)
  return file

def publicationTimeout : Nat := 5000

/-- The variables of `writePrivateFile` while it is looping. -/
structure Job where
  path : FilePath
  bytes : List UInt8
  finalMode : Nat
  deadline : Nat

/-- How a round of `awaitPrivateFile` ends, where it does not throw. -/
inductive Awaited where
  /-- `return undefined`: nothing is there. -/
  | vanished
  /-- The file is still being written: wait, and look again. -/
  | pending
  | published (file : PrivateFile)

/-- `lstatSync`, and nothing where nothing is. -/
def inspect (path : FilePath) : Js (Option Stat) :=
  Prog.handle (do return some (← lstatSync path)) fun cause => do
    if cause.code ≠ "ENOENT" then
      throw (tempIntegrity ("Could not inspect private runtime file " ++ pathText path) cause)
    return none

/-- One round of the loop of `awaitPrivateFile`. -/
def awaitPrivateFile (tempDirectory : TempDirectory) (job : Job) : Js Awaited := do
  if ¬ (← performanceNow) < job.deadline then
    throw (tempIntegrity
      ("Timed out waiting for private runtime file " ++ pathText job.path))
  match ← inspect job.path with
  | none => return .vanished
  | some stat =>
      if stat.kind = .file ∧ stat.kind ≠ .symlink ∧ p.uidMatches stat = true ∧
          stat.nlink = 1 ∧ permissions stat = 0o600 then
        return .pending
      return .published (← privateFileSnapshot p tempDirectory job.path job.bytes job.finalMode)

/-- The variables of the second half of `writePrivateFile`. -/
structure Writing where
  fd : Option Nat
  published : Bool := false

/-- The `try` block behind the loop. -/
def writePrivateFileTry (job : Job) (fd : Nat) :
    Prog Ask Answer (JsError × Writing) Unit := do
  let v : Writing := { fd := some fd }
  under v (writeFileSync fd job.bytes)
  let _ ← under v (sys (.fsync fd))
  let _ ← under v (sys (.fchmod fd job.finalMode))
  let v := { v with published := true }
  let _ ← under v (sys (.fsync fd))
  let _ ← under v (sys (.close fd))

/-- The `catch` block behind the loop. -/
def writePrivateFileCatch (job : Job) (cause : JsError) (v : Writing) : Js Unit := do
  ifDefined v.fd fun fd => Prog.ignore (sys (.close fd))
  ifDefined (if v.published then none else some job.path) fun path =>
    Prog.ignore (sys (.unlink path))
  throw (tempIntegrity ("Could not create private runtime file " ++ pathText job.path) cause)

/-- What comes after the loop has got a descriptor. -/
def writePrivateFileNew (tempDirectory : TempDirectory) (job : Job) (fd : Nat) :
    Js PrivateFile := do
  (writePrivateFileTry job fd).handle fun (cause, v) => writePrivateFileCatch job cause v
  privateFileSnapshot p tempDirectory job.path job.bytes job.finalMode

/-! ## An isolate

The loops of the source are cut at the places where they go round, so that
between two rounds an isolate is idle, about to open a file or waiting for
one. What it does next is one program. -/

/-- Where an isolate is between two rounds, or between two calls. -/
inductive Phase where
  | idle (isolate : Isolate) (last : Option Outcome)
  | opening (isolate : Isolate) (tempDirectory : TempDirectory) (job : Job)
  | awaiting (isolate : Isolate) (tempDirectory : TempDirectory) (job : Job)

/-- A call of the isolate ends. -/
def Isolate.ends (isolate : Isolate) : Except JsError PrivateFile → Phase
  | .ok file => .idle { isolate with files := isolate.files ++ [file] } (some (.file file))
  | .error cause => .idle isolate (some (.failed cause))

/-- What `writePrivateFile` does before its loop. -/
def writePrivateFileStart (tempDirectory : FilePath) (name : String)
    (bytes : List UInt8) (finalMode : Nat) : Js Job := do
  if p.O_NOFOLLOW = false then
    throw (tempIntegrity
      "This platform cannot create private runtime files without following symbolic links.")
  let deadline := (← performanceNow) + publicationTimeout
  return ⟨tempDirectory ++ [name], bytes, finalMode, deadline⟩

/-- An isolate between two calls. -/
def idlePhase (isolate : Isolate) (last : Option Outcome) :
    Prog Ask Answer Empty Phase := do
  match (← Prog.call (.next last)).call with
  | .privateTempDirectory =>
      match ← (privateTempDirectory p isolate.tempDirectory).attempt with
      | .ok (path, tempDirectory) =>
          return .idle { isolate with tempDirectory := tempDirectory } (some (.directory path))
      | .error (cause, tempDirectory) =>
          return .idle { isolate with tempDirectory := tempDirectory } (some (.failed cause))
  | .writePrivateFile name =>
      match p.files name with
      | none => return .idle isolate none
      | some (bytes, finalMode) =>
          match ← (privateTempDirectory p isolate.tempDirectory).attempt with
          | .error (cause, tempDirectory) =>
              return .idle { isolate with tempDirectory := tempDirectory } (some (.failed cause))
          | .ok (path, tempDirectory) =>
              let isolate := { isolate with tempDirectory := tempDirectory }
              match ← (writePrivateFileStart p path name bytes finalMode).attempt with
              | .error cause => return .idle isolate (some (.failed cause))
              | .ok job => return .opening isolate tempDirectory job
  | .validatePrivateFile index =>
      match isolate.tempDirectory, isolate.files[index]? with
      | some tempDirectory, some file =>
          match ← (validatePrivateFile p tempDirectory file).attempt with
          | .error cause => return .idle isolate (some (.failed cause))
          | .ok _ => return .idle isolate (some (.valid file))
      | _, _ => return .idle isolate none

/-- A round of `while (fd === undefined)`. -/
def openingPhase (isolate : Isolate) (tempDirectory : TempDirectory) (job : Job) :
    Prog Ask Answer Empty Phase := do
  match ← (sys (.openNew job.path 0o600)).attempt with
  | .ok opened =>
      return isolate.ends (← (writePrivateFileNew p tempDirectory job opened.fd).attempt)
  | .error cause =>
      if cause.code = "EEXIST" then
        return .awaiting isolate tempDirectory job
      return isolate.ends (.error (tempIntegrity
        ("Could not create private runtime file " ++ pathText job.path) cause))

def awaitingPhase (isolate : Isolate) (tempDirectory : TempDirectory) (job : Job) :
    Prog Ask Answer Empty Phase := do
  match ← (awaitPrivateFile p tempDirectory job).attempt with
  | .ok .vanished => return .opening isolate tempDirectory job
  | .ok .pending => return .awaiting isolate tempDirectory job
  | .ok (.published file) => return isolate.ends (.ok file)
  | .error cause => return isolate.ends (.error cause)

def Phase.run : Phase → Prog Ask Answer Empty Phase
  | .idle isolate last => idlePhase p isolate last
  | .opening isolate tempDirectory job => openingPhase p isolate tempDirectory job
  | .awaiting isolate tempDirectory job => awaitingPhase p isolate tempDirectory job

/-- What a turn is told from outside. -/
structure Choice where
  fate : Fate
  time : Nat := 0
  call : ApiCall := .privateTempDirectory

/-- An isolate asks. -/
def Process.answer (f : Choice) (s : Fs) : Ask → Answer × Fs
  | .fs call =>
      ({ fs := (s.serve (p.uid.getD 0) f.fate call).1 }, (s.serve (p.uid.getD 0) f.fate call).2)
  | .now => ({ time := f.time }, s)
  | .next _ => ({ call := f.call }, s)

def Ask.closes : Ask → Bool
  | .fs (.close _) => true
  | _ => false

/-- Any number of isolates of a process, each as it sees the process, on the
file system they find. Any call may fail but `close`: the `catch` blocks close a
descriptor whose `close` has failed once more, and by then the number may be
that of another isolate's file. -/
def isolates {ι : Type} (seen : ι → Process) (fs : Fs) :
    Crowd ι Ask Answer Choice Fs Empty Phase where
  serve i f q s := (seen i).answer f s q
  legal _ f q s := s.Offers f.fate ∧ (q.closes = true → f.fate.error = none)
  body i phase := phase.run (seen i)
  world := fs
  block _ := .idle ⟨none, []⟩ none

instance {ι : Type} (seen : ι → Process) (fs : Fs) (i : ι) (f : Choice) (q : Ask) (w : Fs) :
    Decidable ((isolates seen fs).legal i f q w) :=
  inferInstanceAs (Decidable (w.Offers f.fate ∧ (q.closes = true → f.fate.error = none)))

end AwsKms.Model
