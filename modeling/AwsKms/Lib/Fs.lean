import Mathlib.Logic.Function.Basic
import Mathlib.Data.List.Basic

/-!
# A file system, one call at a time

Names lead to inodes, inodes are files, directories or symbolic links, and a
descriptor is an inode a process has open. A name is removed and its inode
lives on for as long as another name or a descriptor has it; then its number
may be given to a new file. Every call is one step that succeeds or leaves
everything as it was; only a `close` that fails has released its descriptor all
the same. Any call may fail for a reason of its own, as may be decided from
outside (`Fate`), which also picks what POSIX leaves open: the inode and the
descriptor a new file gets, and the letters of `mkdtemp`.

Writes append one byte at a time, so that a writer may be stopped between any
two bytes. Names are components, one list of them a path, and paths are
resolved already. The umask leaves the owner's bits alone.
-/

namespace AwsKms.Lib

abbrev FilePath := List String

inductive Kind where
  | file
  | directory
  | symlink
  deriving DecidableEq, Repr

structure Node where
  kind : Kind
  mode : Nat
  uid : Nat
  bytes : List UInt8
  deriving DecidableEq

/-- Names, inodes, and the descriptors of one process. -/
structure Fs where
  entries : List (FilePath × Nat)
  nodes : Nat → Node
  fds : List (Nat × Nat)

structure Stat where
  kind : Kind
  mode : Nat
  uid : Nat
  nlink : Nat
  ino : Nat
  deriving DecidableEq

inductive FsCall where
  | mkdir (path : FilePath) (mode : Nat)
  | mkdtemp (dir : FilePath) (template : String)
  | chmod (path : FilePath) (mode : Nat)
  | lstat (path : FilePath)
  /-- `O_RDONLY | O_NOFOLLOW` -/
  | openRead (path : FilePath)
  /-- `O_WRONLY | O_CREAT | O_EXCL | O_NOFOLLOW` -/
  | openNew (path : FilePath) (mode : Nat)
  | fstat (fd : Nat)
  | read (fd : Nat)
  | write (fd : Nat) (byte : UInt8)
  | fchmod (fd : Nat) (mode : Nat)
  | fsync (fd : Nat)
  | close (fd : Nat)
  | link (existing : FilePath) (path : FilePath)
  | unlink (path : FilePath)
  | rmdir (path : FilePath)
  deriving DecidableEq

/-- What a call hands back; a call that has no use for a field leaves it at
its default. -/
structure FsAnswer where
  error : Option String := none
  fd : Nat := 0
  stat : Stat := ⟨.file, 0, 0, 0, 0⟩
  bytes : List UInt8 := []
  path : FilePath := []
  deriving DecidableEq

/-- What is decided from outside: whether the call fails, and what POSIX
leaves open. -/
structure Fate where
  error : Option String := none
  pick : String := "aaaaaa"
  ino : Nat
  fd : Nat
  deriving DecidableEq

namespace Fs

variable {s : Fs}

def get (s : Fs) (p : FilePath) : Option Nat := s.entries.lookup p

def opened (s : Fs) (fd : Nat) : Option Nat := s.fds.lookup fd

/-- How many names an inode has. -/
def nlink (s : Fs) (ino : Nat) : Nat := (s.entries.filter (·.2 = ino)).length

def stat (s : Fs) (ino : Nat) : Stat :=
  ⟨(s.nodes ino).kind, (s.nodes ino).mode, (s.nodes ino).uid, s.nlink ino, ino⟩

def enter (s : Fs) (p : FilePath) (ino : Nat) : Fs :=
  { s with entries := (p, ino) :: s.entries }

def remove (s : Fs) (p : FilePath) : Fs :=
  { s with entries := s.entries.filter (·.1 ≠ p) }

def setNode (s : Fs) (ino : Nat) (v : Node) : Fs :=
  { s with nodes := Function.update s.nodes ino v }

def hold (s : Fs) (fd ino : Nat) : Fs := { s with fds := (fd, ino) :: s.fds }

def release (s : Fs) (fd : Nat) : Fs :=
  { s with fds := s.fds.filter (·.1 ≠ fd) }

/-- A new file or directory. -/
def create (s : Fs) (p : FilePath) (ino : Nat) (v : Node) : Fs :=
  (s.setNode ino v).enter p ino

section Lookup

variable {α : Type} [BEq α] [LawfulBEq α] [DecidableEq α] {l : List (α × Nat)} {a b : α}
  {v : Nat}

theorem lookup_cons_if :
    ((a, v) :: l).lookup b = if b = a then some v else l.lookup b := by
  rw [List.lookup_cons]
  split <;> simp_all

theorem lookup_filter_ne :
    (l.filter (·.1 ≠ a)).lookup b = if b = a then none else l.lookup b := by
  induction l with
  | nil => simp
  | cons e l ih =>
      obtain ⟨k, v⟩ := e
      by_cases hk : k = a
      · rw [List.filter_cons_of_neg (by simpa using hk), ih, lookup_cons_if, hk]
        split <;> rfl
      · rw [List.filter_cons_of_pos (by simpa using hk), lookup_cons_if,
          lookup_cons_if, ih]
        by_cases hb : b = k
        · rw [if_pos hb, if_pos hb, if_neg (hb ▸ hk)]
        · rw [if_neg hb, if_neg hb]

omit [DecidableEq α] in
theorem mem_of_lookup (h : l.lookup a = some v) : (a, v) ∈ l := by
  obtain ⟨l₁, l₂, rfl, -⟩ := List.lookup_eq_some_iff.mp h
  simp

end Lookup

@[simp] theorem get_enter {p q : FilePath} {ino : Nat} :
    (s.enter p ino).get q = if q = p then some ino else s.get q := lookup_cons_if

@[simp] theorem nodes_enter {p : FilePath} {ino : Nat} :
    (s.enter p ino).nodes = s.nodes := rfl

@[simp] theorem opened_enter {p : FilePath} {ino fd : Nat} :
    (s.enter p ino).opened fd = s.opened fd := rfl

@[simp] theorem get_remove {p q : FilePath} :
    (s.remove p).get q = if q = p then none else s.get q := lookup_filter_ne

@[simp] theorem nodes_remove {p : FilePath} : (s.remove p).nodes = s.nodes := rfl

@[simp] theorem opened_remove {p : FilePath} {fd : Nat} :
    (s.remove p).opened fd = s.opened fd := rfl

@[simp] theorem get_setNode {p : FilePath} {ino : Nat} {v : Node} :
    (s.setNode ino v).get p = s.get p := rfl

@[simp] theorem nodes_setNode {ino : Nat} {v : Node} :
    (s.setNode ino v).nodes = Function.update s.nodes ino v := rfl

@[simp] theorem opened_setNode {ino fd : Nat} {v : Node} :
    (s.setNode ino v).opened fd = s.opened fd := rfl

@[simp] theorem get_hold {p : FilePath} {fd ino : Nat} :
    (s.hold fd ino).get p = s.get p := rfl

@[simp] theorem nodes_hold {fd ino : Nat} : (s.hold fd ino).nodes = s.nodes := rfl

@[simp] theorem opened_hold {fd fd' ino : Nat} :
    (s.hold fd ino).opened fd' = if fd' = fd then some ino else s.opened fd' :=
  lookup_cons_if

@[simp] theorem get_release {p : FilePath} {fd : Nat} :
    (s.release fd).get p = s.get p := rfl

@[simp] theorem nodes_release {fd : Nat} : (s.release fd).nodes = s.nodes := rfl

@[simp] theorem opened_release {fd fd' : Nat} :
    (s.release fd).opened fd' = if fd' = fd then none else s.opened fd' :=
  lookup_filter_ne

/-- Why there is no place for a new name. -/
def noPlace (s : Fs) (p : FilePath) : Option String :=
  match s.get p, s.get p.dropLast with
  | some _, _ => some "EEXIST"
  | none, none => some "ENOENT"
  | none, some dir =>
      if (s.nodes dir).kind = .directory then none else some "ENOTDIR"

/-- Why a name cannot be used, when `unfit` says why its inode cannot. -/
def noUse (s : Fs) (p : FilePath) (unfit : Kind → Option String) : Option String :=
  match s.get p with
  | none => some "ENOENT"
  | some ino => unfit (s.nodes ino).kind

def noFd (s : Fs) (fd : Nat) : Option String :=
  match s.opened fd with
  | none => some "EBADF"
  | some _ => none

/-- The name a `mkdtemp` makes. -/
def tempName (template : String) (f : Fate) : String := template ++ f.pick

/-- Why the call fails whatever else happens. -/
def refusal (f : Fate) (s : Fs) : FsCall → Option String
  | .mkdir p _ | .openNew p _ => s.noPlace p
  | .mkdtemp dir template => s.noPlace (dir ++ [tempName template f])
  | .chmod p _ | .lstat p => s.noUse p fun _ => none
  | .openRead p => s.noUse p fun kind => if kind = .symlink then some "ELOOP" else none
  | .fstat fd | .write fd _ | .fchmod fd _ | .fsync fd | .close fd => s.noFd fd
  | .read fd =>
      match s.opened fd with
      | none => some "EBADF"
      | some ino =>
          if (s.nodes ino).kind = .directory then some "EISDIR" else none
  | .link existing p =>
      (s.noUse existing fun kind =>
        if kind = .directory then some "EPERM" else none).or (s.noPlace p)
  | .unlink p => s.noUse p fun kind => if kind = .directory then some "EISDIR" else none
  | .rmdir p =>
      (s.noUse p fun kind => if kind = .directory then none else some "ENOTDIR").or
        (if s.entries.any (fun e => e.1.dropLast = p) then some "ENOTEMPTY" else none)

/-- The inode of a name or a descriptor, changed. -/
def modify (s : Fs) (ino : Option Nat) (change : Node → Node) : Fs :=
  match ino with
  | none => s
  | some ino => s.setNode ino (change (s.nodes ino))

/-- What a call that succeeds does, and what it answers. -/
def perform (uid : Nat) (f : Fate) (s : Fs) : FsCall → FsAnswer × Fs
  | .mkdir p mode => ({}, s.create p f.ino ⟨.directory, mode, uid, []⟩)
  | .mkdtemp dir template =>
      ({ path := dir ++ [tempName template f] },
        s.create (dir ++ [tempName template f]) f.ino ⟨.directory, 0o700, uid, []⟩)
  | .chmod p mode => ({}, s.modify (s.get p) fun v => { v with mode := mode })
  | .lstat p => ({ stat := s.stat ((s.get p).getD 0) }, s)
  | .openRead p => ({ fd := f.fd }, s.hold f.fd ((s.get p).getD 0))
  | .openNew p mode =>
      ({ fd := f.fd }, (s.create p f.ino ⟨.file, mode, uid, []⟩).hold f.fd f.ino)
  | .fstat fd => ({ stat := s.stat ((s.opened fd).getD 0) }, s)
  | .read fd => ({ bytes := (s.nodes ((s.opened fd).getD 0)).bytes }, s)
  | .write fd byte =>
      ({}, s.modify (s.opened fd) fun v => { v with bytes := v.bytes ++ [byte] })
  | .fchmod fd mode => ({}, s.modify (s.opened fd) fun v => { v with mode := mode })
  | .fsync _ => ({}, s)
  | .close fd => ({}, s.release fd)
  | .link existing p => ({}, s.enter p ((s.get existing).getD 0))
  | .unlink p | .rmdir p => ({}, s.remove p)

/-- What a call that fails does: the number of a descriptor is free for the next
file whether its `close` fails or not. -/
def abandon (s : Fs) : FsCall → Fs
  | .close fd => s.release fd
  | _ => s

/-- One call. -/
def serve (uid : Nat) (f : Fate) (q : FsCall) (s : Fs) : FsAnswer × Fs :=
  match f.error.or (s.refusal f q) with
  | some code => ({ error := some code }, s.abandon q)
  | none => s.perform uid f q

/-- The choices a file system may make: an inode and a descriptor nobody has,
and six letters or digits. -/
structure Offers (s : Fs) (f : Fate) : Prop where
  entry : ∀ e ∈ s.entries, e.2 ≠ f.ino
  held : ∀ e ∈ s.fds, e.2 ≠ f.ino
  fd : ∀ e ∈ s.fds, e.1 ≠ f.fd
  pick : f.pick.toList.length = 6 ∧ ∀ c ∈ f.pick.toList, c.isAlphanum = true

instance (s : Fs) (f : Fate) : Decidable (s.Offers f) :=
  decidable_of_iff (s.entries.all (·.2 != f.ino) ∧ s.fds.all (·.2 != f.ino) ∧
      s.fds.all (·.1 != f.fd) ∧ f.pick.toList.length = 6 ∧
      f.pick.toList.all Char.isAlphanum)
    (by
      simp only [List.all_eq_true, bne_iff_ne]
      exact ⟨fun ⟨h₁, h₂, h₃, h₄⟩ => ⟨h₁, h₂, h₃, h₄⟩,
        fun h => ⟨h.entry, h.held, h.fd, h.pick⟩⟩)

theorem Offers.get_ne {f : Fate} (h : s.Offers f) {p : FilePath} {n : Nat}
    (hp : s.get p = some n) : n ≠ f.ino := h.entry _ (mem_of_lookup hp)

theorem Offers.opened_ne {f : Fate} (h : s.Offers f) {fd n : Nat}
    (hp : s.opened fd = some n) : n ≠ f.ino := h.held _ (mem_of_lookup hp)

theorem Offers.fd_ne {f : Fate} (h : s.Offers f) {fd n : Nat}
    (hp : s.opened fd = some n) : fd ≠ f.fd := h.fd _ (mem_of_lookup hp)

/-- There is a place where nothing is, in a directory that is there. -/
theorem noPlace_eq_none {p : FilePath} : s.noPlace p = none ↔
    s.get p = none ∧
      ∃ dir, s.get p.dropLast = some dir ∧ (s.nodes dir).kind = .directory := by
  unfold noPlace
  split <;> simp_all

theorem noUse_eq_none {p : FilePath} {unfit : Kind → Option String} :
    s.noUse p unfit = none ↔ ∃ ino, s.get p = some ino ∧
      unfit (s.nodes ino).kind = none := by
  unfold noUse
  split <;> simp_all

theorem release_of_not_opened {fd : Nat} (h : s.opened fd = none) : s.release fd = s := by
  have hfds : s.fds.filter (·.1 ≠ fd) = s.fds := by
    refine List.filter_eq_self.mpr fun e he => decide_eq_true fun heq => ?_
    simpa [heq] using List.lookup_eq_none_iff.mp h e he
  unfold release
  rw [hfds]

/-- A `close` that is refused had nothing to release. -/
theorem abandon_of_refused {f : Fate} {q : FsCall} {code : String}
    (h : s.refusal f q = some code) : s.abandon q = s := by
  cases q with
  | close fd =>
      refine release_of_not_opened ?_
      change s.noFd fd = some code at h
      unfold noFd at h
      split at h
      · assumption
      · cases h
  | _ => rfl

/-- Where no `close` fails of its own, a call fails and has done nothing, or it
does what it says. -/
theorem serve_cases (uid : Nat) {f : Fate} {q : FsCall} (s : Fs)
    (hclose : ∀ fd, q = .close fd → f.error = none) :
    (∃ code, s.serve uid f q = ({ error := some code }, s)) ∨
      s.refusal f q = none ∧ s.serve uid f q = s.perform uid f q ∧
        (s.perform uid f q).1.error = none := by
  unfold serve
  cases h : f.error.or (s.refusal f q) with
  | some code =>
      refine .inl ⟨code, congrArg (_, ·) ?_⟩
      cases hf : f.error with
      | none =>
          rw [hf, Option.none_or] at h
          exact abandon_of_refused h
      | some e =>
          cases q with
          | close fd => exact absurd (hf.symm.trans (hclose fd rfl)) (by simp)
          | _ => rfl
  | none =>
      refine .inr ⟨(Option.or_eq_none_iff.mp h).2, rfl, ?_⟩
      cases q <;> rfl

end Fs

end AwsKms.Lib
