import AwsKms.Model.Runtime

/-!
# One directory, and complete files

What the private files of a process are for, said of the file system and of
what its isolates have been told. The marker names the directory (`Named`),
and what it names is there for good: the marker itself, the directory, and
each private file in it from the moment it has its final mode (`Fixed`).

`Ledger` is what a run is remembered by: who made each name and who opened
each descriptor, which no file system says, and what each call has returned.
An outcome is `BornOut` when the file system shows it.
-/

namespace AwsKms.Spec

open AwsKms.Lib AwsKms.Model

structure Ledger (ι : Type) where
  maker : FilePath → Option ι
  opener : Nat → Option ι
  told : List (ι × Outcome)

/-- The name a call that succeeds has made. -/
def madeBy (call : FsCall) (r : FsAnswer) : Option FilePath :=
  match call with
  | .mkdir path _ | .openNew path _ | .link _ path => some path
  | .mkdtemp _ _ => some r.path
  | _ => none

/-- The descriptor a call that succeeds has opened. -/
def openedBy (call : FsCall) (r : FsAnswer) : Option Nat :=
  match call with
  | .openNew _ _ | .openRead _ => some r.fd
  | _ => none

/-- `i` is the one from now on, if there is anything to be had. -/
def claim {ι κ : Type} [DecidableEq κ] (who : κ → Option ι) (i : ι) :
    Option κ → κ → Option ι
  | none => who
  | some key => Function.update who key (some i)

variable {ι : Type}

def Ledger.start : Ledger ι := ⟨fun _ => none, fun _ => none, []⟩

def Ledger.note (L : Ledger ι) : ι × Ask × Answer → Ledger ι
  | (i, .fs call, r) =>
      match r.fs.error with
      | some _ => L
      | none => { L with
          maker := claim L.maker i (madeBy call r.fs)
          opener := claim L.opener i (openedBy call r.fs) }
  | (i, .next (some last), _) => { L with told := L.told ++ [(i, last)] }
  | (_, _, _) => L

abbrev IsolateState (ι : Type) := Crowded ι Ask Answer Empty Phase Fs

abbrev IsolateRec (ι : Type) := Rec (IsolateState ι) (ι × Choice) (ι × Ask × Answer)

/-- A run of the isolates of a process, from the file system they find. -/
abbrev IsolateRun [DecidableEq ι] (seen : ι → Process) (fs : Fs)
    (evs : List (IsolateRec ι)) (s : IsolateState ι) : Prop :=
  Machine.Run (isolates seen fs).machine evs s

/-- What a run is remembered by. -/
def ledger (log : List (ι × Ask × Answer)) : Ledger ι := log.foldl Ledger.note Ledger.start

/-- A call of isolate `i` has ended so. -/
def Returned (log : List (ι × Ask × Answer)) (i : ι) (o : Outcome) : Prop :=
  ∃ r, (i, .next (some o), r) ∈ log

/-- The file system, and how it came to be so. -/
abbrev View (ι : Type) := Scene Fs (Ledger ι)

variable (p : Process)

def rootPath : FilePath :=
  p.tmpdir ++ ["keyobject-aws-kms-" ++ toString (p.uid.getD 0)]

def markerPath : FilePath := rootPath p ++ [p.rendezvousName]

/-- The path of a runtime directory. -/
def dirPath (d : String) : FilePath := rootPath p ++ [d]

/-- A name `mkdtemp` may have made. -/
def Temporary (d : String) : Prop := ∃ pick, d = p.directoryPrefix ++ pick

/-- The marker is there, and names this directory. -/
def Named (fs : Fs) (d : String) : Prop :=
  ∃ m, fs.get (markerPath p) = some m ∧ (fs.nodes m).bytes = utf8 d

/-- The place of a private file. -/
def PrivatePath (path : FilePath) : Prop :=
  ∃ d name bytes mode, path = dirPath p d ++ [name] ∧ p.files name = some (bytes, mode)

/-- What is there for good: the marker, the directory it names, and each
private file there that has its final mode. -/
def Fixed (fs : Fs) (path : FilePath) (ino : Nat) : Prop :=
  fs.get path = some ino ∧
    (path = markerPath p ∨ ∃ d, Named p fs d ∧
      (path = dirPath p d ∨ ∃ name bytes,
        path = dirPath p d ++ [name] ∧
          p.files name = some (bytes, (fs.nodes ino).mode)))

/-- A complete marker: a file nobody may write, and the name of a private
directory that is there. -/
structure MarkerComplete (fs : Fs) (m : Nat) : Prop where
  kind : (fs.nodes m).kind = .file
  mode : (fs.nodes m).mode = 0o400
  names : ∃ d dir, (fs.nodes m).bytes = utf8 d ∧ Temporary p d ∧
    fs.get (dirPath p d) = some dir ∧ (fs.nodes dir).kind = .directory ∧
      (fs.nodes dir).mode = 0o700

/-- The file is published: it is in the directory of the process, regular, with
its final mode and exactly the bytes that were to be in it. -/
structure FilePublished (fs : Fs) (file : PrivateFile) : Prop where
  place : ∃ d name, Named p fs d ∧ file.path = dirPath p d ++ [name] ∧
    p.files name = some (file.bytes, file.mode)
  there : fs.get file.path = some file.ino
  kind : (fs.nodes file.ino).kind = .file
  mode : (fs.nodes file.ino).mode = file.mode
  bytes : (fs.nodes file.ino).bytes = file.bytes

/-- The file system bears out what a call has returned. -/
def BornOut (fs : Fs) : Outcome → Prop
  | .directory path => ∃ d, Named p fs d ∧ path = dirPath p d
  | .file file | .valid file => FilePublished p fs file
  | .failed _ => True

/-- A private file is being written, or is there for good: there is nothing in
between. -/
def FileUnderway (fs : Fs) (n : Nat) (bytes : List UInt8) (mode : Nat) : Prop :=
  (fs.nodes n).kind = .file ∧
    ((fs.nodes n).mode = 0o600 ∨ (fs.nodes n).mode = mode ∧ (fs.nodes n).bytes = bytes)

/-- Every name is in a directory that is there. -/
def Rooted (fs : Fs) : Prop :=
  ∀ path n, fs.get path = some n →
    ∃ dir, fs.get path.dropLast = some dir ∧ (fs.nodes dir).kind = .directory

/-- A file system on which a process may start: no marker of its own is
there. -/
structure Startable (fs : Fs) : Prop where
  rooted : Rooted fs
  unmarked : fs.get (markerPath p) = none

end AwsKms.Spec
