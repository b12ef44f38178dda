import AwsKms.Proofs.Rendezvous

/-!
# Private files are published complete, and once

A file of the process is being written for as long as its mode is 0600, and is
there for good from then on. The invariant says that there is nothing in
between, so a `stat` with the final mode is all that a reader needs: what it
has opened is published, and the bytes are the bytes.

With this the triple of every block of an isolate follows, and `isolates_keep`
puts them together: in any run of any number of isolates the invariant holds,
and every call does only what it may.
-/

namespace AwsKms.Model

open AwsKms.Lib AwsKms.Spec

variable {ι E α : Type} {p : Process} {fs₀ : Fs} {i : ι}

/-- The file a job is about: in the directory the marker names, with the bytes
and the mode the process has for its name. -/
def JobAt (p : Process) (job : Job) (s : View ι) : Prop :=
  ∃ d name, (job.path = dirPath p d ++ [name] ∧
    p.files name = some (job.bytes, job.finalMode)) ∧ Named p s.world d

theorem JobAt.persists {job : Job} : Persists p fun s : View ι => JobAt p job s := by
  rintro j s s' _ hg _ ⟨d, name, hjob, hd⟩
  exact ⟨d, name, hjob, hg.fixed.named hd⟩

theorem inDir_inj {d e name name' : String}
    (h : dirPath p d ++ [name] = dirPath p e ++ [name']) : d = e ∧ name = name' := by
  obtain ⟨hdir, hname⟩ := List.append_inj' h rfl
  exact ⟨dirPath_inj.mp hdir, (List.cons.inj hname).1⟩

/-- A private file that is there for good has its final mode. -/
theorem fixed_mode {fs : Fs} {d name : String} {bytes : List UInt8} {mode n : Nat}
    (hfile : p.files name = some (bytes, mode))
    (h : Fixed p fs (dirPath p d ++ [name]) n) : (fs.nodes n).mode = mode := by
  rcases h.2 with heq | ⟨e, -, heq | ⟨name', bytes', heq, hfile'⟩⟩
  · exact (inDir_ne_dirPath heq).elim
  · exact (inDir_ne_dirPath heq).elim
  · obtain ⟨-, rfl⟩ := inDir_inj heq
    exact (Prod.mk.inj (Option.some.inj (hfile'.symm.trans hfile))).2

/-- A private file that is there for good is published. -/
theorem Shared.published {s : View ι} (hs : Shared p s) {file : PrivateFile}
    {d name : String} (hd : Named p s.world d) (hpath : file.path = dirPath p d ++ [name])
    (hfile : p.files name = some (file.bytes, file.mode))
    (h : Fixed p s.world file.path file.ino) : FilePublished p s.world file := by
  rw [hpath] at h
  have hmode := fixed_mode hfile h
  obtain ⟨hkind, hstate⟩ := hs.files d name file.bytes file.mode file.ino hd hfile h.1
  have hbytes := hstate.resolve_left fun hpending => pending_ne hfile (hmode ▸ hpending)
  exact ⟨⟨d, name, hd, hpath, hfile⟩, hpath ▸ h.1, hkind, hmode, hbytes.2⟩

theorem safe_validateSnapshot {td : TempDirectory} {file : PrivateFile} {actual : Snapshot}
    {A : View ι → Prop} (hA : Persists p A) :
    IsolateSafe p fs₀ i (validatePrivateFile p td file (some actual))
      (fun s => Found p td s ∧ A s)
      (fun _ s => permissions actual.stat = file.mode ∧ A s) fun _ _ => True := by
  unfold validatePrivateFile
  refine ((safe_validateTempDirectory.frame hA).post (fun _ _ _ h => h.2)
    fun _ _ _ _ => trivial).bind fun _ => ?_
  change IsolateSafe p fs₀ i (ite _ _ _) _ _ _
  split
  · exact Safe.throw fun _ _ _ => trivial
  · next h =>
      simp only [not_or, ne_eq, Decidable.not_not] at h
      exact Safe.ret fun _ _ ha => ⟨h.2.2.2.2.1, ha⟩

theorem safe_privateFileSnapshot {td : TempDirectory} {job : Job} :
    IsolateSafe p fs₀ i (privateFileSnapshot p td job.path job.bytes job.finalMode)
      (fun s => Found p td s ∧ JobAt p job s)
      (fun file s => FilePublished p s.world file) fun _ _ => True := by
  refine (Safe.exists fun d => Safe.exists fun name => Safe.given fun hjob => ?_).pre
    (A := fun s => ∃ d name, (job.path = dirPath p d ++ [name] ∧
      p.files name = some (job.bytes, job.finalMode)) ∧ Found p td s ∧ Named p s.world d)
    fun s _ ⟨htd, d, name, hjob, hd⟩ => ⟨d, name, hjob, htd, hd⟩
  obtain ⟨hpath, hfile⟩ := hjob
  unfold privateFileSnapshot
  have hread : IsolateSafe p fs₀ i (noFollowRead p job.path)
      (fun s => Found p td s ∧ Named p s.world d)
      (fun snapshot s => Found p td s ∧ Saw p job.path snapshot s ∧ Named p s.world d)
      fun _ _ => True := by
    refine ((safe_noFollowRead.frame (Found.persists.and named_lasting)).pre
      fun s _ h => ⟨?_, h⟩).post (fun _ _ _ h => ⟨h.2.1, h.1, h.2.2⟩) fun _ _ _ _ => trivial
    exact .inr ⟨d, name, job.bytes, job.finalMode, hpath, hfile, h.2⟩
  refine (safe_wrapping hread).bind fun actual => ?_
  refine (safe_validateSnapshot (Saw.persists.and named_lasting)).bind fun _ =>
    Safe.ret fun s hs h => ?_
  obtain ⟨hmode, hsaw, hd⟩ := h
  exact hs.published hd hpath hfile (hsaw.stated.file d name _ _ hpath hfile hmode)

theorem safe_validatePrivateFile {td : TempDirectory} {file : PrivateFile} :
    IsolateSafe p fs₀ i (validatePrivateFile p td file)
      (fun s => Found p td s ∧ FilePublished p s.world file)
      (fun _ _ => True) fun _ _ => True := by
  have hpublished : Persists p fun s : View ι => FilePublished p s.world file :=
    bornOut_lasting (o := .file file)
  unfold validatePrivateFile
  refine ((safe_validateTempDirectory.frame hpublished).post (fun _ _ _ h => h.2)
    fun _ _ _ _ => trivial).bind fun _ => ?_
  refine ((safe_wrapping safe_noFollowRead).pre fun s _ h => ?_).bind fun actual => ?_
  · obtain ⟨d, name, hd, hpath, hfile⟩ := h.place
    exact .inr ⟨d, name, file.bytes, file.mode, hpath, hfile, hd⟩
  · dsimp only
    split
    · exact Safe.throw fun _ _ _ => trivial
    · exact Safe.ret fun _ _ _ => trivial

/-! ## Writing a file

From the exclusive open to the `fchmod` nobody but the writer changes the
file, and nobody takes it for published. After a failure the writer goes on to
take back what it has made. -/

/-- What `writePrivateFile` has to clean up when a statement throws. -/
structure Unwritten (i : ι) (path : FilePath) (v : Writing) (s : View ι) : Prop where
  fd : ∀ fd, v.fd = some fd → ∃ n, Holding i fd n s
  draft : v.published = false →
    ∃ n uid bytes, Own i path n ⟨.file, 0o600, uid, bytes⟩ s

theorem Draft.unwritten {fd : Nat} {path : FilePath} {bytes : List UInt8} {s : View ι}
    (h : Draft i fd path 0o600 bytes s) : Unwritten i path ⟨some fd, false⟩ s := by
  obtain ⟨n, uid, hfd, hown⟩ := h
  refine ⟨fun fd' h => ?_, fun _ => ⟨n, uid, bytes, hown⟩⟩
  obtain rfl := Option.some.inj h
  exact ⟨n, hfd⟩

theorem Holding.unwritten {fd n : Nat} {path : FilePath} {s : View ι}
    (h : Holding i fd n s) : Unwritten i path ⟨some fd, true⟩ s := by
  refine ⟨fun fd' heq => ?_, fun hv => by cases hv⟩
  obtain rfl := Option.some.inj heq
  exact ⟨n, h⟩

section Writing

variable {job : Job} {d name : String} (hpath : job.path = dirPath p d ++ [name])
  (hfile : p.files name = some (job.bytes, job.finalMode))

include hpath hfile

theorem not_fixed_pending {fs : Fs} {n : Nat} (h : (fs.nodes n).mode = 0o600) :
    ¬ Fixed p fs job.path n := by
  intro hfixed
  rw [hpath] at hfixed
  exact pending_ne hfile ((fixed_mode hfile hfixed).symm.trans h)

/-- A call that adds to the file, or gives it its final mode when the bytes are
in it. -/
theorem safe_editPrivate {call : FsCall} {fd mode : Nat} {bytes bytes' : List UInt8}
    {g : Node → Node}
    (hperform : ∀ (s : Fs) f,
      (s.perform (p.uid.getD 0) f call).2 = s.modify (s.opened fd) g)
    (hquiet : ∀ r, madeBy call r = none ∧ openedBy call r = none)
    (hg : ∀ uid, g ⟨.file, 0o600, uid, bytes⟩ = ⟨.file, mode, uid, bytes'⟩)
    (hstate : mode = 0o600 ∨ mode = job.finalMode ∧ bytes' = job.bytes) :
    IsolateSafe p fs₀ i (sys call) (Draft i fd job.path 0o600 bytes)
      (fun _ => Draft i fd job.path mode bytes')
      fun _ => Draft i fd job.path 0o600 bytes := by
  refine ((safe_edit trivial_untouched hperform hquiet hg
    (fun _ _ => not_fixed_pending hpath hfile) (fun e name' b m heq hb => ?_)
    fun _ _ _ _ _ _ => trivial).pre fun _ _ h => ⟨h, trivial⟩).post
      (fun _ _ _ h => h.1) fun _ _ _ h => h.1
  rw [hpath] at heq
  obtain ⟨-, rfl⟩ := inDir_inj heq
  obtain ⟨rfl, rfl⟩ := Prod.mk.inj (Option.some.inj (hb.symm.trans hfile))
  exact hstate

theorem safe_writePrivateFileTry {fd : Nat} :
    IsolateSafe p fs₀ i (writePrivateFileTry job fd) (Draft i fd job.path 0o600 [])
      (fun _ _ => True) fun e s => Unwritten i job.path e.2 s := by
  unfold writePrivateFileTry
  dsimp only
  have hwrite : IsolateSafe p fs₀ i (writeFileSync fd job.bytes)
      (Draft i fd job.path 0o600 []) (fun _ => Draft i fd job.path 0o600 job.bytes)
      fun _ s => ∃ written, Draft i fd job.path 0o600 written s := by
    have hstep : ∀ written byte, IsolateSafe p fs₀ i (sys (.write fd byte))
        (Draft i fd job.path 0o600 written)
        (fun _ => Draft i fd job.path 0o600 (written ++ [byte]))
        fun _ => Draft i fd job.path 0o600 written := fun written byte =>
      safe_editPrivate hpath hfile (g := fun v => { v with bytes := v.bytes ++ [byte] })
        (fun _ _ => rfl) (fun _ => ⟨rfl, rfl⟩) (fun _ => rfl) (.inl rfl)
    have h := safe_writeFileSync hstep job.bytes []
    rwa [List.nil_append] at h
  refine (safe_under hwrite fun _ _ h => h.elim fun _ h => h.unwritten).bind fun _ => ?_
  refine (safe_under (safe_fsync Draft.untouched) fun _ _ h => h.unwritten).bind fun _ => ?_
  have hfchmod : IsolateSafe p fs₀ i (sys (.fchmod fd job.finalMode))
      (Draft i fd job.path 0o600 job.bytes)
      (fun _ => Draft i fd job.path job.finalMode job.bytes)
      fun _ => Draft i fd job.path 0o600 job.bytes :=
    safe_editPrivate hpath hfile (g := fun v => { v with mode := job.finalMode })
      (fun _ _ => rfl) (fun _ => ⟨rfl, rfl⟩) (fun _ => rfl) (.inr ⟨rfl, rfl⟩)
  refine (safe_under hfchmod fun _ _ h => h.unwritten).bind fun _ => ?_
  have hheld : ∀ s, Draft i fd job.path job.finalMode job.bytes s →
      Unwritten i job.path ⟨some fd, true⟩ s := by
    rintro s ⟨n, uid, hfd, -⟩
    exact hfd.unwritten
  refine (safe_under (safe_fsync Draft.untouched) fun _ s h => hheld s h).bind fun _ => ?_
  have hclose : IsolateSafe p fs₀ i (sys (.close fd))
      (Draft i fd job.path job.finalMode job.bytes) (fun _ _ => True)
      fun _ s => ∃ n, Holding i fd n s := by
    refine (Safe.exists fun n => (safe_close (n := n) trivial_untouched
      fun _ _ => trivial).post (fun _ _ _ h => h) fun _ _ _ h => ⟨n, h.1⟩).pre ?_
    rintro s - ⟨n, uid, hfd, -⟩
    exact ⟨n, hfd, trivial⟩
  exact (safe_under hclose fun _ _ h => h.elim fun _ h => h.unwritten).bind fun _ =>
    Safe.ret fun _ _ _ => trivial

theorem safe_unlinkDraft :
    IsolateSafe p fs₀ i (sys (.unlink job.path))
      (fun s => ∃ n uid bytes, Own i job.path n ⟨.file, 0o600, uid, bytes⟩ s)
      (fun _ _ => True) fun _ _ => True := by
  refine safe_remove trivial_untouched (fun _ _ => trivial) (fun _ _ => rfl)
    (fun _ => ⟨rfl, rfl⟩) (fun _ _ hs href => unlink_childless hs href)
    (fun s f _ h _ => ?_) fun _ _ _ => trivial
  obtain ⟨n, uid, bytes, hown⟩ := h
  refine ⟨n, hown.there, hown.maker, ?_, fun _ => hown.only⟩
  exact not_fixed_pending hpath hfile (by rw [hown.node])

theorem safe_writePrivateFileCatch {cause : JsError} {v : Writing} {Ret : Unit → View ι → Prop} :
    IsolateSafe p fs₀ i (writePrivateFileCatch job cause v) (Unwritten i job.path v) Ret
      fun _ _ => True := by
  let Kept (s : View ι) : Prop := v.published = false →
    ∃ n uid bytes, Own i job.path n ⟨.file, 0o600, uid, bytes⟩ s
  have hKept : Untouched p i Kept := by
    intro j hj s s' hs hg hs' h hv
    obtain ⟨n, uid, bytes, hown⟩ := h hv
    exact ⟨n, uid, bytes, Own.undisturbed j hj s s' hs hg hs' hown⟩
  have hclose : ∀ fd, v.fd = some fd → IsolateSafe p fs₀ i
      (Prog.ignore (sys (.close fd)) : Js Unit) (Unwritten i job.path v)
      (fun _ => Kept) fun _ _ => True := by
    intro fd hfd
    refine Safe.ignore ((Safe.exists fun n => (safe_close (n := n) hKept ?_).post
      (fun _ _ _ h => h) fun _ _ _ h => h.2).pre fun s _ h => ?_)
    · intro s h hv
      obtain ⟨n, uid, bytes, hown⟩ := h hv
      exact ⟨n, uid, bytes, hown.there, hown.maker, hown.only, hown.node⟩
    · obtain ⟨n, hn⟩ := h.fd fd hfd
      exact ⟨n, hn, h.draft⟩
  unfold writePrivateFileCatch
  refine (safe_ifDefined hclose fun _ _ _ h => h.draft).bind fun _ => ?_
  refine (safe_ifDefined (B := fun _ => True) (fun path h => ?_)
    fun _ _ _ _ => trivial).bind fun _ => Safe.throw fun _ _ _ => trivial
  obtain ⟨hv, heq⟩ := of_unpublished h
  obtain rfl := Option.some.inj heq
  exact Safe.ignore ((safe_unlinkDraft hpath hfile).pre fun _ _ h => h hv)

omit hfile in
theorem safe_openPrivate :
    IsolateSafe p fs₀ i (sys (.openNew job.path 0o600)) (fun s => Named p s.world d)
      (fun r s => Draft i r.fd job.path 0o600 [] s ∧ Named p s.world d)
      fun _ s => Named p s.world d := by
  refine safe_openNew named_lasting.undisturbed ?_ (fun s h e he => ?_)
    fun s f _ h _ _ hmade => hmade.2.1.fixed.named h
  · rw [hpath]
    exact inDir_ne_dirPath
  · rw [hpath, List.dropLast_concat, dirPath_inj] at he
    exact .inr (he ▸ h)

theorem safe_writePrivateFileNew {td : TempDirectory} {fd : Nat} :
    IsolateSafe p fs₀ i (writePrivateFileNew p td job fd)
      (fun s => Draft i fd job.path 0o600 [] s ∧ Found p td s ∧ Named p s.world d)
      (fun file s => FilePublished p s.world file) fun _ _ => True := by
  unfold writePrivateFileNew
  have hboth : IsolateSafe p fs₀ i ((writePrivateFileTry job fd).handle fun e =>
      writePrivateFileCatch job e.1 e.2) (Draft i fd job.path 0o600 []) (fun _ _ => True)
      fun _ _ => True :=
    (safe_writePrivateFileTry hpath hfile).handle
      fun _ => safe_writePrivateFileCatch hpath hfile
  refine ((hboth.frame (Found.persists.and named_lasting)).post (fun _ _ _ h => h.2)
    fun _ _ _ _ => trivial).bind fun _ => ?_
  exact safe_privateFileSnapshot.pre fun _ _ h => ⟨h.1, d, name, ⟨hpath, hfile⟩, h.2⟩

end Writing

/-! ## An isolate

What an isolate knows between two rounds is little: the directory it came to,
and the files it has found published. Both are there for good, so that it
knows them still after any number of calls of the others. -/

theorem safe_now {A : View ι → Prop} (hA : Untouched p i A) :
    IsolateSafe p fs₀ i performanceNow A (fun _ => A) fun _ => A := by
  have hcall : IsolateSafe p fs₀ i (Prog.call .now : Js Answer) A (fun _ => A)
      fun _ => A := Safe.call (fun _ _ hs h _ => ⟨hs, hs.stays, h⟩) fun _ => hA
  exact hcall.bind fun _ => Safe.ret fun _ _ h => h

/-- What an isolate keeps is true. -/
structure Knows (p : Process) (isolate : Isolate) (s : View ι) : Prop where
  cached : Cached p isolate.tempDirectory s
  files : ∀ file ∈ isolate.files, FilePublished p s.world file

theorem Knows.persists {isolate : Isolate} : Persists p fun s : View ι => Knows p isolate s := by
  intro j s s' hs hg hs' h
  refine ⟨Cached.persists j s s' hs hg hs' h.cached, fun file hmem => ?_⟩
  exact hg.fixed.bornOut (o := .file file) (h.files file hmem)

/-- What is known where a block begins. -/
def PhaseKnows (p : Process) (phase : Phase) (s : View ι) : Prop :=
  match phase with
  | .idle isolate last => Knows p isolate s ∧ ∀ o, last = some o → BornOut p s.world o
  | .opening isolate td job | .awaiting isolate td job =>
      Knows p isolate s ∧ Found p td s ∧ JobAt p job s

theorem PhaseKnows.persists {phase : Phase} :
    Persists p fun s : View ι => PhaseKnows p phase s := by
  intro j s s' hs hg hs' h
  cases phase with
  | idle isolate last =>
      exact ⟨Knows.persists j s s' hs hg hs' h.1, fun o ho => hg.fixed.bornOut (h.2 o ho)⟩
  | opening isolate td job =>
      exact ⟨Knows.persists j s s' hs hg hs' h.1, Found.persists j s s' hs hg hs' h.2.1,
        JobAt.persists j s s' hs hg hs' h.2.2⟩
  | awaiting isolate td job =>
      exact ⟨Knows.persists j s s' hs hg hs' h.1, Found.persists j s s' hs hg hs' h.2.1,
        JobAt.persists j s s' hs hg hs' h.2.2⟩

theorem Knows.failed {isolate : Isolate} {cause : JsError} {s : View ι}
    (h : Knows p isolate s) : PhaseKnows p (.idle isolate (some (.failed cause))) s := by
  refine ⟨h, fun o ho => ?_⟩
  obtain rfl := Option.some.inj ho
  trivial

theorem Knows.ends {isolate : Isolate} {result : Except JsError PrivateFile} {s : View ι}
    (h : Knows p isolate s)
    (hfile : ∀ file, result = .ok file → FilePublished p s.world file) :
    PhaseKnows p (isolate.ends result) s := by
  cases result with
  | error cause => exact h.failed
  | ok file =>
      refine ⟨⟨h.cached, fun file' hmem => ?_⟩, fun o ho => ?_⟩
      · rcases List.mem_append.mp hmem with hold | hnew
        · exact h.files file' hold
        · exact List.mem_singleton.mp hnew ▸ hfile file rfl
      · obtain rfl := Option.some.inj ho
        exact hfile file rfl

variable {isolate : Isolate} {td : TempDirectory} {job : Job}

/-- A block that is about a file, for each place the file may have. -/
theorem safe_job {prog : Prog Ask Answer E α} {A : View ι → Prop} {Ret : α → View ι → Prop}
    {Thr : E → View ι → Prop}
    (h : ∀ d name, job.path = dirPath p d ++ [name] →
      p.files name = some (job.bytes, job.finalMode) →
        IsolateSafe p fs₀ i prog (fun s => Named p s.world d ∧ A s) Ret Thr) :
    IsolateSafe p fs₀ i prog (fun s => A s ∧ JobAt p job s) Ret Thr := by
  refine (Safe.exists fun d => Safe.exists fun name => Safe.given fun hjob => ?_).pre
    (A := fun s => ∃ d name, (job.path = dirPath p d ++ [name] ∧
      p.files name = some (job.bytes, job.finalMode)) ∧ Named p s.world d ∧ A s)
    fun s _ ⟨ha, d, name, hjob, hd⟩ => ⟨d, name, hjob, hd, ha⟩
  exact h d name hjob.1 hjob.2

theorem safe_opening :
    IsolateSafe p fs₀ i (openingPhase p isolate td job)
      (PhaseKnows p (.opening isolate td job)) (PhaseKnows p) fun _ _ => True := by
  refine (safe_job (A := fun s => Knows p isolate s ∧ Found p td s)
    fun d name hpath hfile => ?_).pre fun s _ h => ⟨⟨h.1, h.2.1⟩, h.2.2⟩
  unfold openingPhase
  refine Safe.bind ((safe_openPrivate hpath).frame
    (Knows.persists.and Found.persists)).attempt fun opened => ?_
  cases opened with
  | ok opened =>
      have hnew : IsolateSafe p fs₀ i (writePrivateFileNew p td job opened.fd)
          (fun s => (Draft i opened.fd job.path 0o600 [] s ∧ Named p s.world d) ∧
            Knows p isolate s ∧ Found p td s)
          (fun file s => FilePublished p s.world file ∧ Knows p isolate s)
          fun _ s => True ∧ Knows p isolate s :=
        ((safe_writePrivateFileNew hpath hfile).frame Knows.persists).pre
          fun s _ h => ⟨⟨h.1.1, h.2.2, h.1.2⟩, h.2.1⟩
      refine Safe.bind hnew.attempt fun result => Safe.ret fun s _ h => ?_
      cases result with
      | ok file =>
          refine h.2.ends fun file' heq => ?_
          cases heq
          exact h.1
      | error cause => exact h.2.ends fun file heq => by cases heq
  | error cause =>
      dsimp only
      split
      · exact Safe.ret fun s _ h => ⟨h.2.1, h.2.2, d, name, ⟨hpath, hfile⟩, h.1⟩
      · exact Safe.ret fun s _ h => h.2.1.ends fun file heq => by cases heq

/-- What a round of waiting leads to. -/
def AwaitedKnows (p : Process) (result : Awaited) (s : View ι) : Prop :=
  ∀ file, result = .published file → FilePublished p s.world file

theorem safe_awaitPrivateFile :
    IsolateSafe p fs₀ i (awaitPrivateFile p td job)
      (fun s => Found p td s ∧ JobAt p job s) (AwaitedKnows p) fun _ _ => True := by
  have hpre : Untouched p i fun s => Found p td s ∧ JobAt p job s :=
    (Found.persists.and JobAt.persists).undisturbed
  have hinspect : IsolateSafe p fs₀ i (inspect job.path)
      (fun s => Found p td s ∧ JobAt p job s)
      (fun _ s => Found p td s ∧ JobAt p job s) fun _ _ => True := by
    refine Safe.handle ((safe_lstat hpre).bind fun _ => Safe.ret fun _ _ h => h)
      fun cause => ?_
    split
    · exact Safe.throw fun _ _ _ => trivial
    · exact Safe.ret fun _ _ h => h
  unfold awaitPrivateFile
  refine ((safe_now hpre).post (fun _ _ _ h => h) fun _ _ _ _ => trivial).bind fun now => ?_
  split
  · exact Safe.throw fun _ _ _ => trivial
  · refine hinspect.bind fun stat => ?_
    cases stat with
    | none => exact Safe.ret fun _ _ _ _ h => by cases h
    | some stat =>
        dsimp only
        split
        · exact Safe.ret fun _ _ _ _ h => by cases h
        · refine safe_privateFileSnapshot.bind fun file => Safe.ret fun s _ h file' heq => ?_
          cases heq
          exact h

theorem safe_awaiting :
    IsolateSafe p fs₀ i (awaitingPhase p isolate td job)
      (PhaseKnows p (.awaiting isolate td job)) (PhaseKnows p) fun _ _ => True := by
  unfold awaitingPhase
  have hkeep : Persists p fun s : View ι =>
      Knows p isolate s ∧ Found p td s ∧ JobAt p job s :=
    Knows.persists.and (Found.persists.and JobAt.persists)
  refine Safe.bind ((safe_awaitPrivateFile.frame hkeep).pre
    fun _ _ h => ⟨h.2, h⟩).attempt fun result => ?_
  cases result with
  | error cause => exact Safe.ret fun s _ h => h.2.1.ends fun file heq => by cases heq
  | ok awaited =>
      cases awaited with
      | vanished => exact Safe.ret fun _ _ h => h.2
      | pending => exact Safe.ret fun _ _ h => h.2
      | published file =>
          refine Safe.ret fun s _ h => h.2.1.ends fun file' heq => ?_
          cases heq
          exact h.1 file rfl

theorem safe_next {last : Option Outcome} :
    IsolateSafe p fs₀ i (Prog.call (.next last) : Prog Ask Answer Empty Answer)
      (PhaseKnows p (.idle isolate last)) (fun _ s => Knows p isolate s)
      fun _ _ => True := by
  refine Safe.call (fun s f hs h _ => ?_) fun _ => Knows.persists.undisturbed
  cases last with
  | none => exact ⟨hs, hs.stays, h.1⟩
  | some last =>
      have hmade : Moves p i s
          ⟨s.world, { s.past with told := s.past.told ++ [(i, last)] }⟩ := by
        refine hs.looks rfl rfl rfl (fun _ _ hfd _ => ⟨hfd, rfl⟩) fun j o ho => ?_
        rcases List.mem_append.mp ho with hold | hnew
        · exact .inl hold
        · obtain ⟨rfl, rfl⟩ := Prod.mk.inj (List.mem_singleton.mp hnew)
          exact .inr (h.2 _ rfl)
      refine ⟨hmade.1, hmade.2.1, fun td htd => ?_, h.1.files⟩
      obtain ⟨hmark, hnames⟩ := h.1.cached td htd
      exact ⟨hmark, hnames⟩

theorem safe_writeStart {path : FilePath} {name : String} {bytes : List UInt8} {mode : Nat}
    (hfile : p.files name = some (bytes, mode)) :
    IsolateSafe p fs₀ i (writePrivateFileStart p path name bytes mode)
      (fun s => (Found p td s ∧ path = td.path) ∧ Knows p isolate s)
      (fun job s => Knows p isolate s ∧ Found p td s ∧ JobAt p job s)
      fun _ s => Knows p isolate s := by
  have hpre : Untouched p i fun s => (Found p td s ∧ path = td.path) ∧ Knows p isolate s := by
    intro j hj s s' hs hg hs' h
    exact ⟨⟨Found.persists j s s' hs hg hs' h.1.1, h.1.2⟩,
      Knows.persists j s s' hs hg hs' h.2⟩
  unfold writePrivateFileStart
  split
  · exact Safe.throw fun _ _ h => h.2
  · refine ((safe_now hpre).post (fun _ _ _ h => h) fun _ _ _ h => h.2).bind
      fun now => Safe.ret fun s _ h => ⟨h.2, h.1.1, ?_⟩
    obtain ⟨d, hd, hpath⟩ := h.1.1.names
    exact ⟨d, name, ⟨by rw [h.1.2, hpath], hfile⟩, hd⟩

theorem safe_idle {last : Option Outcome} :
    IsolateSafe p fs₀ i (idlePhase p isolate last)
      (PhaseKnows p (.idle isolate last)) (PhaseKnows p) fun _ _ => True := by
  unfold idlePhase
  refine safe_next.bind fun answer => ?_
  have htemp : IsolateSafe p fs₀ i (privateTempDirectory p isolate.tempDirectory)
      (Knows p isolate) (fun r s => (Found p r.2 s ∧ r.1 = r.2.path) ∧ Knows p isolate s)
      fun e s => Cached p e.2 s ∧ Knows p isolate s :=
    (safe_privateTempDirectory.frame Knows.persists).pre fun _ _ h => ⟨h.cached, h⟩
  have hcache : ∀ (s : View ι) (td : Option TempDirectory), Knows p isolate s →
      Cached p td s → Knows p { isolate with tempDirectory := td } s :=
    fun _ _ h htd => ⟨htd, h.files⟩
  cases answer.call with
  | privateTempDirectory =>
      dsimp only
      refine Safe.bind htemp.attempt fun result => ?_
      cases result with
      | ok r =>
          refine Safe.ret fun s _ h => ⟨hcache s _ h.2 ?_, fun o ho => ?_⟩
          · rintro td ⟨⟩
            exact h.1.1
          · obtain rfl := Option.some.inj ho
            obtain ⟨d, hd, hpath⟩ := h.1.1.names
            exact ⟨d, hd, h.1.2.trans hpath⟩
      | error e => exact Safe.ret fun s _ h => (hcache s _ h.2 h.1).failed
  | writePrivateFile name =>
      dsimp only
      cases hfile : p.files name with
      | none => exact Safe.ret fun s _ h => ⟨h, fun _ ho => by cases ho⟩
      | some file =>
          refine Safe.bind htemp.attempt fun result => ?_
          cases result with
          | error e => exact Safe.ret fun s _ h => (hcache s _ h.2 h.1).failed
          | ok r =>
              have hstart : IsolateSafe p fs₀ i
                  (writePrivateFileStart p r.1 name file.1 file.2)
                  (fun s => (Found p r.2 s ∧ r.1 = r.2.path) ∧ Knows p isolate s)
                  (fun job s => Knows p { isolate with tempDirectory := some r.2 } s ∧
                    Found p r.2 s ∧ JobAt p job s)
                  fun _ s => Knows p { isolate with tempDirectory := some r.2 } s := by
                refine (safe_writeStart hfile).pre fun s _ h => ⟨h.1, hcache s _ h.2 ?_⟩
                rintro td ⟨⟩
                exact h.1.1
              refine Safe.bind hstart.attempt fun job => ?_
              cases job with
              | error cause => exact Safe.ret fun s _ h => Knows.failed h
              | ok job => exact Safe.ret fun s _ h => h
  | validatePrivateFile index =>
      dsimp only
      cases htd : isolate.tempDirectory with
      | none => exact Safe.ret fun s _ h => ⟨h, fun _ ho => by cases ho⟩
      | some td =>
          cases hindex : isolate.files[index]? with
          | none => exact Safe.ret fun s _ h => ⟨h, fun _ ho => by cases ho⟩
          | some file =>
              have hkeep : Persists p fun s : View ι =>
                  FilePublished p s.world file ∧ Knows p isolate s :=
                Pact.Lasting.and (bornOut_lasting (o := .file file)) Knows.persists
              have hvalid : IsolateSafe p fs₀ i (validatePrivateFile p td file)
                  (Knows p isolate)
                  (fun _ s => True ∧ FilePublished p s.world file ∧ Knows p isolate s)
                  fun _ s => True ∧ FilePublished p s.world file ∧ Knows p isolate s := by
                refine (safe_validatePrivateFile.frame hkeep).pre fun s _ h => ?_
                have hfile := h.files file (List.mem_of_getElem? hindex)
                exact ⟨⟨h.cached td htd, hfile⟩, hfile, h⟩
              refine Safe.bind hvalid.attempt fun result => ?_
              cases result with
              | error cause => exact Safe.ret fun s _ h => h.2.2.failed
              | ok _ =>
                  refine Safe.ret fun s _ h => ⟨h.2.2, fun o ho => ?_⟩
                  obtain rfl := Option.some.inj ho
                  exact h.2.1

theorem isolates_keep [DecidableEq ι] (hfs : Startable p fs₀) :
    Keeps (isolatePact p ι) (isolates (fun _ : ι => p) fs₀) fun _ => PhaseKnows p where
  undisturbed _ _ := PhaseKnows.persists.undisturbed
  body i phase := by
    cases phase with
    | idle isolate last => exact safe_idle
    | opening isolate td job => exact safe_opening
    | awaiting isolate td job => exact safe_awaiting
  inv := by
    refine ⟨hfs.rooted, fun _ _ _ _ _ => rfl, fun m hm => ?_, ?_, ?_⟩
    · rw [show (isolates (fun _ : ι => p) fs₀).world = fs₀ from rfl, hfs.unmarked] at hm
      cases hm
    · rintro d name bytes mode n ⟨m, hm, -⟩
      rw [show (isolates (fun _ : ι => p) fs₀).world = fs₀ from rfl, hfs.unmarked] at hm
      cases hm
    · intro i o h
      cases h
  start _ := by
    refine ⟨⟨fun _ h => ?_, fun _ h => ?_⟩, fun _ h => ?_⟩ <;> cases h

end AwsKms.Model
