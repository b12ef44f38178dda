import AwsKms.Spec.Rendezvous

/-!
# What one call may do to the private files of a process

`Shared` holds of the file system whenever no call is under way, whatever the
isolates are in the middle of, and `May` is what a call of one of them may do
to the others: it removes only what it has made itself, writes only to that,
and nothing that is there for good. What is made, linked, removed, written or
opened is one lemma each: under which conditions it keeps both.

An isolate relies on little of this at a time. `Own` says that a name is its
own and what its inode holds, `Holding` that a descriptor is, and neither is
disturbed by the others.
-/

namespace AwsKms.Spec

open AwsKms.Lib AwsKms.Model

variable {p : Process}

theorem dirPath_inj {d e : String} : dirPath p d = dirPath p e ↔ d = e := by
  simp [dirPath]

theorem dropLast_dirPath {d : String} : (dirPath p d).dropLast = rootPath p := by
  simp [dirPath]

theorem length_dirPath {d : String} : (dirPath p d).length = (rootPath p).length + 1 := by
  simp [dirPath]

theorem markerPath_eq : markerPath p = dirPath p p.rendezvousName := rfl

theorem Temporary.ne_rendezvous {d : String} (h : Temporary p d) :
    d ≠ p.rendezvousName := by
  obtain ⟨pick, rfl⟩ := h
  intro heq
  have hhead := congrArg (fun s => s.toList.head?) heq
  simp [Process.directoryPrefix, Process.rendezvousName] at hhead

theorem Temporary.ne_marker {d : String} (h : Temporary p d) :
    dirPath p d ≠ markerPath p := fun heq => h.ne_rendezvous (dirPath_inj.mp heq)

theorem PrivatePath.length {path : FilePath} (h : PrivatePath p path) :
    path.length = (rootPath p).length + 2 := by
  obtain ⟨d, name, -, -, rfl, -⟩ := h
  simp [length_dirPath]

theorem not_private_dirPath {d : String} : ¬ PrivatePath p (dirPath p d) := by
  intro h
  have hlen := h.length
  rw [length_dirPath] at hlen
  omega

theorem not_private_publish {d : String} :
    ¬ PrivatePath p (dirPath p d ++ [".publish"]) := by
  rintro ⟨e, name, bytes, mode, heq, hfile⟩
  obtain ⟨-, hname⟩ := List.append_inj' heq rfl
  obtain rfl := (List.cons.inj hname).1
  rw [p.not_publication] at hfile
  cases hfile

theorem inDir_ne_dirPath {d e name : String} : dirPath p d ++ [name] ≠ dirPath p e := by
  intro h
  have hlen := congrArg List.length h
  simp [length_dirPath] at hlen

theorem utf8_inj {d e : String} (h : utf8 d = utf8 e) : d = e := by
  have harr : d.toUTF8.data = e.toUTF8.data := Array.toList_inj.mp h
  have hbytes : d.toByteArray = e.toByteArray := by
    rw [← String.toUTF8_eq_toByteArray, ← String.toUTF8_eq_toByteArray]
    exact ByteArray.ext harr
  exact String.toByteArray_inj.mp hbytes

theorem Named.det {fs : Fs} {d e : String} (h : Named p fs d) (h' : Named p fs e) :
    d = e := by
  obtain ⟨m, hm, hb⟩ := h
  obtain ⟨m', hm', hb'⟩ := h'
  obtain rfl := Option.some.inj (hm.symm.trans hm')
  exact utf8_inj (hb.symm.trans hb')

theorem Fixed.marker {fs : Fs} {m : Nat} (h : fs.get (markerPath p) = some m) :
    Fixed p fs (markerPath p) m := ⟨h, .inl rfl⟩

/-- What is there for good is left as it is. -/
def Leaves (p : Process) (fs fs' : Fs) : Prop :=
  ∀ path n, Fixed p fs path n → fs'.get path = some n ∧ fs'.nodes n = fs.nodes n

theorem Leaves.named {fs fs' : Fs} (h : Leaves p fs fs') {d : String}
    (hd : Named p fs d) : Named p fs' d := by
  obtain ⟨m, hm, hb⟩ := hd
  obtain ⟨hm', hv⟩ := h _ _ (.marker hm)
  exact ⟨m, hm', hv ▸ hb⟩

theorem Leaves.fixed {fs fs' : Fs} (h : Leaves p fs fs') {path : FilePath} {n : Nat}
    (hf : Fixed p fs path n) : Fixed p fs' path n := by
  obtain ⟨hget, hv⟩ := h _ _ hf
  refine ⟨hget, hf.2.imp_right ?_⟩
  rintro ⟨d, hd, hpath⟩
  exact ⟨d, h.named hd, by rwa [hv]⟩

theorem FilePublished.fixed {fs : Fs} {file : PrivateFile} (h : FilePublished p fs file) :
    Fixed p fs file.path file.ino := by
  obtain ⟨d, name, hd, hpath, hfile⟩ := h.place
  exact ⟨h.there, .inr ⟨d, hd, .inr ⟨name, file.bytes, hpath, by rw [h.mode, hfile]⟩⟩⟩

theorem Leaves.bornOut {fs fs' : Fs} (h : Leaves p fs fs') {o : Outcome}
    (ho : BornOut p fs o) : BornOut p fs' o := by
  have hfile : ∀ file, FilePublished p fs file → FilePublished p fs' file := by
    intro file hf
    obtain ⟨hget, hv⟩ := h _ _ hf.fixed
    obtain ⟨d, name, hd, hrest⟩ := hf.place
    exact ⟨⟨d, name, h.named hd, hrest⟩, hget, hv ▸ hf.kind, hv ▸ hf.mode, hv ▸ hf.bytes⟩
  cases o with
  | directory path =>
      obtain ⟨d, hd, hpath⟩ := ho
      exact ⟨d, h.named hd, hpath⟩
  | file file => exact hfile file ho
  | valid file => exact hfile file ho
  | failed error => trivial

theorem MarkerComplete.leaves {fs fs' : Fs} {m : Nat} (h : Leaves p fs fs')
    (hget : fs.get (markerPath p) = some m) (hm : MarkerComplete p fs m) :
    MarkerComplete p fs' m := by
  obtain ⟨-, hv⟩ := h _ _ (.marker hget)
  obtain ⟨d, dir, hbytes, htemp, hdir, hkind, hmode⟩ := hm.names
  obtain ⟨hdir', hvd⟩ := h _ dir ⟨hdir, .inr ⟨d, ⟨m, hget, hbytes⟩, .inl rfl⟩⟩
  exact ⟨hv ▸ hm.kind, hv ▸ hm.mode,
    ⟨d, dir, hv ▸ hbytes, htemp, hdir', hvd ▸ hkind, hvd ▸ hmode⟩⟩

end AwsKms.Spec

namespace AwsKms.Model

open AwsKms.Lib AwsKms.Spec

variable {ι : Type} {p : Process}

/-- What holds whenever no call is under way. -/
structure Shared (p : Process) (s : View ι) : Prop where
  rooted : Rooted s.world
  maker : ∀ path q n, s.world.get path = some n → s.world.get q = some n →
    s.past.maker path = s.past.maker q
  marker : ∀ m, s.world.get (markerPath p) = some m → MarkerComplete p s.world m
  files : ∀ d name bytes mode n, Named p s.world d → p.files name = some (bytes, mode) →
    s.world.get (dirPath p d ++ [name]) = some n → FileUnderway s.world n bytes mode
  told : ∀ i o, (i, o) ∈ s.past.told → BornOut p s.world o

/-- What a call of isolate `j` may do. -/
structure May (p : Process) (j : ι) (s s' : View ι) : Prop where
  /-- Only what it has made itself is removed, and a private file with its
  only name. -/
  kept : ∀ path n, s.world.get path = some n → s'.world.get path = some n ∨
    s'.world.get path = none ∧ s.past.maker path = some j ∧
      (PrivatePath p path →
        (∀ q, s'.world.get q ≠ some n) ∧ s'.world.nodes n = s.world.nodes n)
  maker : ∀ path, s'.past.maker path = s.past.maker path ∨
    s.world.get path = none ∧ s'.past.maker path = some j
  /-- Names are made in a directory of its own, or in the one the marker
  names. -/
  made : ∀ path n, s.world.get path = none → s'.world.get path = some n →
    s'.past.maker path = some j ∧ ∀ d, path.dropLast = dirPath p d →
      s.past.maker (dirPath p d) = some j ∨ Named p s.world d
  unlinked : ∀ fd n, s.world.opened fd = some n → (∀ q, s.world.get q ≠ some n) →
    (∀ q, s'.world.get q ≠ some n) ∧ s'.world.nodes n = s.world.nodes n
  node : ∀ path n, s.world.get path = some n → s.past.maker path ≠ some j →
    s'.world.nodes n = s.world.nodes n
  fixed : Leaves p s.world s'.world
  named : ∀ d, Named p s'.world d →
    Named p s.world d ∨ s.past.maker (dirPath p d) = some j
  fds : ∀ fd n, s.world.opened fd = some n → s.past.opener fd ≠ some j →
    s'.world.opened fd = some n ∧ s'.past.opener fd = s.past.opener fd

/-- The pact of the isolates of a process. -/
def isolatePact (p : Process) (ι : Type) : Pact ι Ask Answer Fs (Ledger ι) where
  note := Ledger.note
  past := Ledger.start
  inv := Shared p
  guar := May p

variable {s s' : View ι} {i j : ι}

/-! ## What an isolate relies on

Between two calls of an isolate the others may make any number of theirs. What
they are allowed leaves these few facts alone, and a proof about one isolate
uses no others. -/

/-- The name is `i`'s own and the only one of its inode, which holds `v`. -/
structure Own (i : ι) (path : FilePath) (n : Nat) (v : Node) (s : View ι) : Prop where
  there : s.world.get path = some n
  maker : s.past.maker path = some i
  only : ∀ q, s.world.get q = some n → q = path
  node : s.world.nodes n = v

/-- The descriptor is `i`'s own. -/
structure Holding (i : ι) (fd n : Nat) (s : View ι) : Prop where
  opened : s.world.opened fd = some n
  opener : s.past.opener fd = some i

theorem Own.undisturbed {path : FilePath} {n : Nat} {v : Node} :
    (isolatePact p ι).Undisturbed i (Own i path n v) := by
  intro j hj s s' hs hg hs' h
  have hne : s.past.maker path ≠ some j := by
    rw [h.maker]
    exact fun heq => hj (Option.some.inj heq).symm
  have hthere : s'.world.get path = some n := by
    rcases hg.kept path n h.there with hget | ⟨-, hmaker, -⟩
    · exact hget
    · exact (hne hmaker).elim
  have hmaker : s'.past.maker path = some i := by
    rcases hg.maker path with heq | ⟨hnone, -⟩
    · exact heq.trans h.maker
    · rw [h.there] at hnone
      cases hnone
  refine ⟨hthere, hmaker, fun q hq => ?_, (hg.node path n h.there hne).trans h.node⟩
  cases hold : s.world.get q with
  | none =>
      have hnew := (hg.made q n hold hq).1
      rw [← hs'.maker path q n hthere hq, hmaker] at hnew
      exact (hj (Option.some.inj hnew).symm).elim
  | some n' =>
      rcases hg.kept q n' hold with hget | ⟨hget, -⟩
      · obtain rfl := Option.some.inj (hget.symm.trans hq)
        exact h.only q hold
      · rw [hget] at hq
        cases hq

theorem Holding.undisturbed {fd n : Nat} :
    (isolatePact p ι).Undisturbed i (Holding i fd n) := by
  intro j hj s s' hs hg hs' h
  have hne : s.past.opener fd ≠ some j := by
    rw [h.opener]
    exact fun heq => hj (Option.some.inj heq).symm
  obtain ⟨hopen, hopener⟩ := hg.fds fd n h.opened hne
  exact ⟨hopen, hopener.trans h.opener⟩

/-- A directory of `i`'s own that the marker does not name, with nothing in it
but what `i` has made. -/
structure Candidate (p : Process) (i : ι) (d : String) (s : View ι) : Prop where
  temporary : Temporary p d
  unnamed : ¬ Named p s.world d
  own : ∃ n uid, Own i (dirPath p d) n ⟨.directory, 0o700, uid, []⟩ s
  inside : ∀ q n, s.world.get q = some n → q.dropLast = dirPath p d →
    q = dirPath p d ++ [".publish"] ∧ s.past.maker q = some i

theorem Candidate.undisturbed {d : String} :
    (isolatePact p ι).Undisturbed i (Candidate p i d) := by
  intro j hj s s' hs hg hs' h
  obtain ⟨n, uid, hown⟩ := h.own
  have hne : s.past.maker (dirPath p d) ≠ some j := by
    rw [hown.maker]
    exact fun heq => hj (Option.some.inj heq).symm
  refine ⟨h.temporary, fun hnamed => ?_,
    ⟨n, uid, Own.undisturbed j hj s s' hs hg hs' hown⟩, fun q m hq hdrop => ?_⟩
  · rcases hg.named d hnamed with hold | hmaker
    · exact h.unnamed hold
    · exact hne hmaker
  · cases hold : s.world.get q with
    | none =>
        rcases (hg.made q m hold hq).2 d hdrop with hmaker | hnamed
        · exact (hne hmaker).elim
        · exact (h.unnamed hnamed).elim
    | some m' =>
        obtain ⟨hpath, hmaker⟩ := h.inside q m' hold hdrop
        refine ⟨hpath, ?_⟩
        rcases hg.maker q with heq | ⟨hnone, -⟩
        · exact heq.trans hmaker
        · rw [hold] at hnone
          cases hnone

theorem named_lasting {d : String} :
    (isolatePact p ι).Lasting fun s => Named p s.world d :=
  fun _ _ _ _ hg _ h => hg.fixed.named h

theorem bornOut_lasting {o : Outcome} :
    (isolatePact p ι).Lasting fun s => BornOut p s.world o :=
  fun _ _ _ _ hg _ h => hg.fixed.bornOut h

/-! ## What a call does

The calls of the file system move an inode or a name each. For every kind of
move there is one lemma with what it needs, so that a proof about a routine is
about what the routine knows when it calls. -/

/-- A call of isolate `j` that does what it may, and names no directory. -/
def Moves (p : Process) (j : ι) (s s' : View ι) : Prop :=
  Shared p s' ∧ May p j s s' ∧ ∀ d, Named p s'.world d → Named p s.world d

/-- The marker is where it was. -/
theorem named_iff {fs fs' : Fs} {d : String}
    (hget : fs'.get (markerPath p) = fs.get (markerPath p))
    (hnodes : ∀ m, fs.get (markerPath p) = some m → fs'.nodes m = fs.nodes m) :
    Named p fs' d ↔ Named p fs d := by
  constructor
  · rintro ⟨m, hm, hb⟩
    rw [hget] at hm
    exact ⟨m, hm, hnodes m hm ▸ hb⟩
  · rintro ⟨m, hm, hb⟩
    exact ⟨m, hget.trans hm, (hnodes m hm).symm ▸ hb⟩

/-- A call that changes no name, no inode and no descriptor that is open. -/
theorem Shared.looks (hs : Shared p s) (hget : s'.world.get = s.world.get)
    (hnodes : s'.world.nodes = s.world.nodes) (hmaker : s'.past.maker = s.past.maker)
    (hfds : ∀ fd n, s.world.opened fd = some n → s.past.opener fd ≠ some j →
      s'.world.opened fd = some n ∧ s'.past.opener fd = s.past.opener fd)
    (htold : ∀ i o, (i, o) ∈ s'.past.told →
      (i, o) ∈ s.past.told ∨ BornOut p s.world o) :
    Moves p j s s' := by
  have hleaves : Leaves p s.world s'.world := by
    intro path n h
    exact ⟨hget ▸ h.1, by rw [hnodes]⟩
  have hnamed : ∀ d, Named p s'.world d ↔ Named p s.world d :=
    fun d => named_iff (by rw [hget]) fun m _ => by rw [hnodes]
  refine ⟨⟨?_, ?_, ?_, ?_, ?_⟩, ⟨?_, ?_, ?_, ?_, ?_, hleaves, ?_, hfds⟩,
    fun d => (hnamed d).mp⟩
  · intro path n h
    rw [hget] at h ⊢
    obtain ⟨dir, hdir, hkind⟩ := hs.rooted path n h
    exact ⟨dir, hdir, by rw [hnodes, hkind]⟩
  · intro path q n h hq
    rw [hget] at h hq
    rw [hmaker]
    exact hs.maker path q n h hq
  · intro m hm
    rw [hget] at hm
    exact (hs.marker m hm).leaves hleaves hm
  · intro d name bytes mode n hd hfile h
    rw [hget] at h
    have hold := hs.files d name bytes mode n ((hnamed d).mp hd) hfile h
    unfold FileUnderway at hold ⊢
    rwa [hnodes]
  · intro i o ho
    rcases htold i o ho with hold | hborn
    · exact hleaves.bornOut (hs.told i o hold)
    · exact hleaves.bornOut hborn
  · intro path n h
    exact .inl (by rw [hget, h])
  · exact fun path => .inl (by rw [hmaker])
  · intro path n hnone h
    rw [hget, hnone] at h
    cases h
  · intro fd n _ hfree
    exact ⟨fun q => by rw [hget]; exact hfree q, by rw [hnodes]⟩
  · intro path n _ _
    rw [hnodes]
  · exact fun d h => .inl ((hnamed d).mp h)

/-- A call that makes a new file or directory. -/
theorem Shared.creates (hs : Shared p s) {path : FilePath} {n : Nat} {v : Node}
    (hplace : s.world.noPlace path = none)
    (hnames : ∀ q m, s.world.get q = some m → m ≠ n)
    (hheld : ∀ fd m, s.world.opened fd = some m → m ≠ n)
    (hget : ∀ q, s'.world.get q = if q = path then some n else s.world.get q)
    (hnodes : s'.world.nodes = Function.update s.world.nodes n v)
    (hfds : ∀ fd m, s.world.opened fd = some m →
      s'.world.opened fd = some m ∧ s'.past.opener fd = s.past.opener fd)
    (hmaker : s'.past.maker = Function.update s.past.maker path (some j))
    (htold : s'.past.told = s.past.told) (hmark : path ≠ markerPath p)
    (hdir : ∀ d, path.dropLast = dirPath p d →
      s.past.maker (dirPath p d) = some j ∨ Named p s.world d)
    (hfile : PrivatePath p path → v.kind = .file ∧ v.mode = 0o600) :
    Moves p j s s' := by
  obtain ⟨hnone, dir, hdirget, hdirkind⟩ := Fs.noPlace_eq_none.mp hplace
  have hold : ∀ q m, s.world.get q = some m →
      s'.world.get q = some m ∧ s'.world.nodes m = s.world.nodes m := by
    intro q m hq
    have hne : q ≠ path := fun heq => by rw [heq, hnone] at hq; cases hq
    rw [hget, if_neg hne, hnodes, Function.update_of_ne (hnames q m hq)]
    exact ⟨hq, rfl⟩
  have hnew : ∀ q m, s'.world.get q = some m →
      q = path ∧ m = n ∨ q ≠ path ∧ s.world.get q = some m := by
    intro q m hq
    rw [hget] at hq
    by_cases heq : q = path
    · rw [if_pos heq] at hq
      exact .inl ⟨heq, (Option.some.inj hq).symm⟩
    · rw [if_neg heq] at hq
      exact .inr ⟨heq, hq⟩
  have hleaves : Leaves p s.world s'.world := fun q m h => hold q m h.1
  have hnamed : ∀ d, Named p s'.world d ↔ Named p s.world d := by
    intro d
    refine named_iff ?_ fun m hm => (hold _ m hm).2
    rw [hget, if_neg (Ne.symm hmark)]
  have hnode : s'.world.nodes n = v := by rw [hnodes, Function.update_self]
  have hmakerne : ∀ q, q ≠ path → s'.past.maker q = s.past.maker q := by
    intro q hq
    rw [hmaker, Function.update_of_ne hq]
  refine ⟨⟨?_, ?_, ?_, ?_, ?_⟩, ⟨?_, ?_, ?_, ?_, ?_, hleaves, ?_, ?_⟩,
    fun d => (hnamed d).mp⟩
  · intro q m hq
    have hup : ∃ up, s.world.get q.dropLast = some up ∧
        (s.world.nodes up).kind = .directory := by
      rcases hnew q m hq with ⟨rfl, -⟩ | ⟨-, hq⟩
      · exact ⟨dir, hdirget, hdirkind⟩
      · exact hs.rooted q m hq
    obtain ⟨up, hup, hkind⟩ := hup
    obtain ⟨hup', hv⟩ := hold _ up hup
    exact ⟨up, hup', hv ▸ hkind⟩
  · intro q r m hq hr
    rcases hnew q m hq with ⟨rfl, rfl⟩ | ⟨hqne, hq⟩ <;>
      rcases hnew r _ hr with ⟨rfl, hm⟩ | ⟨hrne, hr⟩
    · rfl
    · exact (hnames r _ hr rfl).elim
    · exact (hnames q m hq hm).elim
    · rw [hmakerne q hqne, hmakerne r hrne]
      exact hs.maker q r m hq hr
  · intro m hm
    rcases hnew _ m hm with ⟨heq, -⟩ | ⟨-, hm⟩
    · exact (hmark heq.symm).elim
    · exact (hs.marker m hm).leaves hleaves hm
  · intro d name bytes mode m hd hbytes hm
    rcases hnew _ m hm with ⟨heq, rfl⟩ | ⟨-, hm⟩
    · have hv := hfile ⟨d, name, bytes, mode, heq.symm, hbytes⟩
      exact ⟨by rw [hnode, hv.1], .inl (by rw [hnode, hv.2])⟩
    · have hf := hs.files d name bytes mode m ((hnamed d).mp hd) hbytes hm
      unfold FileUnderway at hf ⊢
      rwa [(hold _ m hm).2]
  · intro i o ho
    rw [htold] at ho
    exact hleaves.bornOut (hs.told i o ho)
  · exact fun q m hq => .inl (hold q m hq).1
  · intro q
    by_cases heq : q = path
    · refine .inr ⟨heq ▸ hnone, ?_⟩
      rw [heq, hmaker, Function.update_self]
    · exact .inl (hmakerne q heq)
  · intro q m hqnone hq
    rcases hnew q m hq with ⟨rfl, -⟩ | ⟨-, hq⟩
    · exact ⟨by rw [hmaker, Function.update_self], hdir⟩
    · rw [hqnone] at hq
      cases hq
  · intro fd m hfd hfree
    refine ⟨fun q hq => ?_, ?_⟩
    · rcases hnew q m hq with ⟨-, rfl⟩ | ⟨-, hq⟩
      · exact hheld fd _ hfd rfl
      · exact hfree q hq
    · rw [hnodes, Function.update_of_ne (hheld fd m hfd)]
  · exact fun q m hq _ => (hold q m hq).2
  · exact fun d h => .inl ((hnamed d).mp h)
  · exact fun fd m h _ => hfds fd m h

/-- The marker is linked to a publication of `j`'s own, and names `j`'s
candidate. -/
theorem Shared.links (hs : Shared p s) {d : String} {n uid : Nat}
    (hc : Candidate p j d s)
    (hown : Own j (dirPath p d ++ [".publish"]) n ⟨.file, 0o400, uid, utf8 d⟩ s)
    (hplace : s.world.noPlace (markerPath p) = none)
    (hworld : s'.world = s.world.enter (markerPath p) n)
    (hpast : s'.past = { s.past with
      maker := Function.update s.past.maker (markerPath p) (some j) }) :
    Shared p s' ∧ May p j s s' := by
  obtain ⟨hnone, root, hroot, hrootkind⟩ := Fs.noPlace_eq_none.mp hplace
  have hget : ∀ q, s'.world.get q = if q = markerPath p then some n else s.world.get q := by
    intro q
    rw [hworld, Fs.get_enter]
  have hnodes : s'.world.nodes = s.world.nodes := by rw [hworld, Fs.nodes_enter]
  have hopened : ∀ fd, s'.world.opened fd = s.world.opened fd := by
    intro fd
    rw [hworld, Fs.opened_enter]
  have hold : ∀ q m, s.world.get q = some m → s'.world.get q = some m := by
    intro q m hq
    have hne : q ≠ markerPath p := fun heq => by rw [heq, hnone] at hq; cases hq
    rw [hget, if_neg hne, hq]
  have hnew : ∀ q m, s'.world.get q = some m →
      q = markerPath p ∧ m = n ∨ q ≠ markerPath p ∧ s.world.get q = some m := by
    intro q m hq
    rw [hget] at hq
    by_cases heq : q = markerPath p
    · rw [if_pos heq] at hq
      exact .inl ⟨heq, (Option.some.inj hq).symm⟩
    · rw [if_neg heq] at hq
      exact .inr ⟨heq, hq⟩
  have hunmarked : ∀ e, ¬ Named p s.world e := by
    rintro e ⟨m, hm, -⟩
    rw [hnone] at hm
    cases hm
  have hleaves : Leaves p s.world s'.world :=
    fun q m h => ⟨hold q m h.1, by rw [hnodes]⟩
  have hnamed : ∀ e, Named p s'.world e → e = d := by
    rintro e ⟨m, hm, hb⟩
    rcases hnew _ m hm with ⟨-, rfl⟩ | ⟨hne, -⟩
    · rw [hnodes, hown.node] at hb
      exact (utf8_inj hb).symm
    · exact (hne rfl).elim
  have hmaker : ∀ q, q ≠ markerPath p → s'.past.maker q = s.past.maker q := by
    intro q hq
    rw [hpast]
    exact Function.update_of_ne hq _ _
  have hmarker : s'.past.maker (markerPath p) = some j := by
    rw [hpast]
    exact Function.update_self ..
  obtain ⟨dir, dirUid, hdir⟩ := hc.own
  refine ⟨⟨?_, ?_, ?_, ?_, ?_⟩, ⟨?_, ?_, ?_, ?_, ?_, hleaves, ?_, ?_⟩⟩
  · intro q m hq
    rw [hnodes]
    rcases hnew q m hq with ⟨rfl, -⟩ | ⟨-, hq⟩
    · exact ⟨root, hold _ _ hroot, hrootkind⟩
    · obtain ⟨up, hup, hkind⟩ := hs.rooted q m hq
      exact ⟨up, hold _ _ hup, hkind⟩
  · intro q r m hq hr
    have hpub : ∀ q m, s.world.get q = some m → m = n → s.past.maker q = some j := by
      intro q m hq hm
      rw [hown.only q (hm ▸ hq), hown.maker]
    rcases hnew q m hq with ⟨rfl, rfl⟩ | ⟨hqne, hq⟩ <;>
      rcases hnew r _ hr with ⟨rfl, hm⟩ | ⟨hrne, hr⟩
    · rfl
    · rw [hmarker, hmaker r hrne, hpub r _ hr rfl]
    · rw [hmarker, hmaker q hqne, hpub q m hq hm]
    · rw [hmaker q hqne, hmaker r hrne]
      exact hs.maker q r m hq hr
  · intro m hm
    rcases hnew _ m hm with ⟨-, rfl⟩ | ⟨hne, -⟩
    · refine ⟨?_, ?_, ⟨d, dir, ?_, hc.temporary, hold _ _ hdir.there, ?_, ?_⟩⟩ <;>
        rw [hnodes]
      · rw [hown.node]
      · rw [hown.node]
      · rw [hown.node]
      · rw [hdir.node]
      · rw [hdir.node]
    · exact (hne rfl).elim
  · intro e name bytes mode m he hfile hm
    obtain rfl := hnamed e he
    rcases hnew _ m hm with ⟨heq, -⟩ | ⟨-, hm⟩
    · exact (inDir_ne_dirPath heq).elim
    · obtain ⟨heq, -⟩ := hc.inside _ m hm (by simp)
      refine (not_private_publish (p := p) (d := e) ?_).elim
      exact heq ▸ ⟨e, name, bytes, mode, rfl, hfile⟩
  · intro i o ho
    have htold : s'.past.told = s.past.told := by rw [hpast]
    rw [htold] at ho
    exact hleaves.bornOut (hs.told i o ho)
  · exact fun q m hq => .inl (hold q m hq)
  · intro q
    by_cases heq : q = markerPath p
    · exact .inr (heq ▸ ⟨hnone, hmarker⟩)
    · exact .inl (hmaker q heq)
  · intro q m hqnone hq
    rcases hnew q m hq with ⟨rfl, -⟩ | ⟨-, hq⟩
    · refine ⟨hmarker, fun e he => ?_⟩
      have hlen := congrArg List.length he
      simp [markerPath, length_dirPath] at hlen
    · rw [hqnone] at hq
      cases hq
  · intro fd m hfd hfree
    refine ⟨fun q hq => ?_, by rw [hnodes]⟩
    rcases hnew q m hq with ⟨-, rfl⟩ | ⟨-, hq⟩
    · exact hfree _ hown.there
    · exact hfree q hq
  · intro q m _ _
    rw [hnodes]
  · intro e he
    obtain rfl := hnamed e he
    exact .inr hdir.maker
  · intro fd m hfd _
    exact ⟨(hopened fd).trans hfd, by rw [hpast]⟩

/-- A call that removes a name `j` has made and that is not there for good. -/
theorem Shared.removes (hs : Shared p s) {path : FilePath} {n : Nat}
    (hpath : s.world.get path = some n) (hmaker : s.past.maker path = some j)
    (hempty : ∀ q m, s.world.get q = some m → q.dropLast ≠ path ∨ q = path)
    (hloose : ¬ Fixed p s.world path n)
    (honly : PrivatePath p path → ∀ q, s.world.get q = some n → q = path)
    (hworld : s'.world = s.world.remove path) (hpast : s'.past = s.past) :
    Moves p j s s' := by
  have hget : ∀ q, s'.world.get q = if q = path then none else s.world.get q := by
    intro q
    rw [hworld, Fs.get_remove]
  have hnodes : s'.world.nodes = s.world.nodes := by rw [hworld, Fs.nodes_remove]
  have hnew : ∀ q m, s'.world.get q = some m → q ≠ path ∧ s.world.get q = some m := by
    intro q m hq
    rw [hget] at hq
    by_cases heq : q = path
    · rw [if_pos heq] at hq
      cases hq
    · rw [if_neg heq] at hq
      exact ⟨heq, hq⟩
  have hold : ∀ q m, s.world.get q = some m → q ≠ path → s'.world.get q = some m := by
    intro q m hq hne
    rw [hget, if_neg hne, hq]
  have hleaves : Leaves p s.world s'.world := by
    intro q m h
    refine ⟨hold q m h.1 fun heq => hloose ?_, by rw [hnodes]⟩
    subst heq
    obtain rfl := Option.some.inj (h.1.symm.trans hpath)
    exact h
  have hnamed : ∀ d, Named p s'.world d ↔ Named p s.world d := by
    refine fun d => named_iff ?_ fun m _ => by rw [hnodes]
    rw [hget]
    split
    · next heq => exact (hloose (heq ▸ .marker (heq ▸ hpath))).elim
    · rfl
  refine ⟨⟨?_, ?_, ?_, ?_, ?_⟩, ⟨?_, ?_, ?_, ?_, ?_, hleaves, ?_, ?_⟩,
    fun d => (hnamed d).mp⟩
  · intro q m hq
    obtain ⟨hne, hq⟩ := hnew q m hq
    obtain ⟨up, hup, hkind⟩ := hs.rooted q m hq
    rw [hnodes]
    refine ⟨up, hold _ _ hup ?_, hkind⟩
    rcases hempty q m hq with hdrop | heq
    · exact hdrop
    · exact (hne heq).elim
  · intro q r m hq hr
    rw [hpast]
    exact hs.maker q r m (hnew q m hq).2 (hnew r m hr).2
  · intro m hm
    have hm := (hnew _ m hm).2
    exact (hs.marker m hm).leaves hleaves hm
  · intro d name bytes mode m hd hfile hm
    have hf := hs.files d name bytes mode m ((hnamed d).mp hd) hfile (hnew _ m hm).2
    unfold FileUnderway at hf ⊢
    rwa [hnodes]
  · intro i o ho
    rw [hpast] at ho
    exact hleaves.bornOut (hs.told i o ho)
  · intro q m hq
    by_cases heq : q = path
    · subst heq
      obtain rfl := Option.some.inj (hq.symm.trans hpath)
      refine .inr ⟨by rw [hget, if_pos rfl], hmaker, fun hprivate =>
        ⟨fun r hr => ?_, by rw [hnodes]⟩⟩
      obtain ⟨hne, hr⟩ := hnew r m hr
      exact hne (honly hprivate r hr)
    · exact .inl (hold q m hq heq)
  · exact fun q => .inl (by rw [hpast])
  · intro q m hnone hq
    rw [(hnew q m hq).2] at hnone
    cases hnone
  · intro fd m _ hfree
    exact ⟨fun q hq => hfree q (hnew q m hq).2, by rw [hnodes]⟩
  · intro q m _ _
    rw [hnodes]
  · exact fun d h => .inl ((hnamed d).mp h)
  · intro fd m hfd _
    rw [hpast, hworld, Fs.opened_remove]
    exact ⟨hfd, rfl⟩

/-- A call that changes an inode of `j`'s own that is not there for good. -/
theorem Shared.changes (hs : Shared p s) {path : FilePath} {n : Nat} {v w : Node}
    (hown : Own j path n v s) (hkind : w.kind = v.kind)
    (hloose : ¬ Fixed p s.world path n)
    (hfile : ∀ d name bytes mode, path = dirPath p d ++ [name] →
      p.files name = some (bytes, mode) → v.kind = .file →
        w.mode = 0o600 ∨ w.mode = mode ∧ w.bytes = bytes)
    (hworld : s'.world = s.world.setNode n w) (hpast : s'.past = s.past) :
    Moves p j s s' := by
  have hget : ∀ q, s'.world.get q = s.world.get q := by
    intro q
    rw [hworld, Fs.get_setNode]
  have hnode : s'.world.nodes n = w := by
    rw [hworld, Fs.nodes_setNode, Function.update_self]
  have hne : ∀ m, m ≠ n → s'.world.nodes m = s.world.nodes m := by
    intro m hm
    rw [hworld, Fs.nodes_setNode, Function.update_of_ne hm]
  have hkinds : ∀ m, (s'.world.nodes m).kind = (s.world.nodes m).kind := by
    intro m
    by_cases hm : m = n
    · rw [hm, hnode, hkind, hown.node]
    · rw [hne m hm]
  have hleaves : Leaves p s.world s'.world := by
    intro q m h
    refine ⟨(hget q).trans h.1, hne m fun heq => hloose ?_⟩
    subst heq
    exact hown.only q h.1 ▸ h
  have hnamed : ∀ d, Named p s'.world d ↔ Named p s.world d := by
    refine fun d => named_iff (hget _) fun m hm => ?_
    exact (hleaves _ m (.marker hm)).2
  refine ⟨⟨?_, ?_, ?_, ?_, ?_⟩, ⟨?_, ?_, ?_, ?_, ?_, hleaves, ?_, ?_⟩,
    fun d => (hnamed d).mp⟩
  · intro q m hq
    rw [hget] at hq
    obtain ⟨up, hup, hupkind⟩ := hs.rooted q m hq
    exact ⟨up, (hget _).trans hup, (hkinds up).trans hupkind⟩
  · intro q r m hq hr
    rw [hget] at hq hr
    rw [hpast]
    exact hs.maker q r m hq hr
  · intro m hm
    rw [hget] at hm
    exact (hs.marker m hm).leaves hleaves hm
  · intro d name bytes mode m hd hbytes hm
    rw [hget] at hm
    have hf := hs.files d name bytes mode m ((hnamed d).mp hd) hbytes hm
    by_cases heq : m = n
    · subst heq
      refine ⟨(hkinds m).trans hf.1, ?_⟩
      rw [hnode]
      have hfk := hf.1
      rw [hown.node] at hfk
      exact hfile d name bytes mode (hown.only _ hm).symm hbytes hfk
    · unfold FileUnderway at hf ⊢
      rwa [hne m heq]
  · intro i o ho
    rw [hpast] at ho
    exact hleaves.bornOut (hs.told i o ho)
  · exact fun q m hq => .inl ((hget q).trans hq)
  · exact fun q => .inl (by rw [hpast])
  · intro q m hnone hq
    rw [hget, hnone] at hq
    cases hq
  · intro fd m _ hfree
    refine ⟨fun q => by rw [hget]; exact hfree q, hne m fun heq => ?_⟩
    exact hfree path (heq ▸ hown.there)
  · intro q m hq hmaker
    refine hne m fun heq => hmaker ?_
    rw [hown.only q (heq ▸ hq), hown.maker]
  · exact fun d h => .inl ((hnamed d).mp h)
  · intro fd m hfd _
    rw [hpast, hworld, Fs.opened_setNode]
    exact ⟨hfd, rfl⟩

end AwsKms.Model
