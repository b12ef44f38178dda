import AwsKms.Proofs.PrivateFiles

/-!
# What the isolates of a process can count on

The results about whole runs, for any number of isolates in any order of their
calls, any of which but `close` may fail, when all of them see the same process
(one `tmpdir()`, one list of files): the isolates that get a directory get the same
one (`directories_agree`), what is published is complete (`published_complete`)
and there for good (`published_for_good`), nobody removes or changes anything
but what it has made and not published (`only_own_unpublished`), and a file
that a call has returned is the file that was to be there
(`reported_files_published`).
-/

namespace AwsKms.Model

open AwsKms.Lib AwsKms.Spec

variable {ι : Type} {p : Process} {seen : ι → Process} {fs₀ : Fs}

theorem told_of_reported {log : List (ι × Ask × Answer)} {i : ι} {o : Outcome}
    (h : Returned log i o) : (i, o) ∈ (ledger log).told := by
  obtain ⟨r, hmem⟩ := h
  have hgrow : ∀ (L : Ledger ι) e, ∀ x ∈ L.told, x ∈ (L.note e).told := by
    rintro L ⟨j, q, r⟩ x hx
    cases q with
    | fs call =>
        unfold Ledger.note
        dsimp only
        split <;> exact hx
    | now => exact hx
    | next last =>
        cases last with
        | none => exact hx
        | some last => exact List.mem_append_left _ hx
  have hfold : ∀ (more : List (ι × Ask × Answer)) (L : Ledger ι), ∀ x ∈ L.told,
      x ∈ (more.foldl Ledger.note L).told := by
    intro more
    induction more with
    | nil => exact fun _ _ hx => hx
    | cons e more ih => exact fun L x hx => ih _ x (hgrow L e x hx)
  obtain ⟨before, after, rfl⟩ := List.append_of_mem hmem
  rw [ledger, List.foldl_append, List.foldl_cons]
  exact hfold _ _ _ (List.mem_append_right _ List.mem_cons_self)

/-- What the reports of a log say, where they say something. -/
def reportsOf {α : Type} (read : Outcome → Option α) (log : List (ι × Ask × Answer)) :
    List (ι × α) :=
  log.filterMap fun e =>
    match e.2.1 with
    | .next (some last) => (read last).map (e.1, ·)
    | _ => none

theorem reported_of_mem {α : Type} {read : Outcome → Option α} {f : α → Outcome}
    {log : List (ι × Ask × Answer)} {i : ι} {a : α}
    (hread : ∀ o, read o = some a → o = f a) (h : (i, a) ∈ reportsOf read log) :
    Returned log i (f a) := by
  obtain ⟨⟨j, q, r⟩, hmem, heq⟩ := List.mem_filterMap.mp h
  cases q with
  | fs call => cases heq
  | now => cases heq
  | next last =>
      cases last with
      | none => cases heq
      | some last =>
          obtain ⟨b, hb, hpair⟩ := Option.map_eq_some_iff.mp heq
          obtain ⟨rfl, rfl⟩ := Prod.mk.inj hpair
          exact ⟨r, hread last hb ▸ hmem⟩

def directoryOf : Outcome → Option FilePath
  | .directory path => some path
  | _ => none

def fileOf : Outcome → Option PrivateFile
  | .file file => some file
  | _ => none

theorem directoryOf_eq {path : FilePath} (o : Outcome) (h : directoryOf o = some path) :
    o = .directory path := by
  cases o <;> cases h
  rfl

theorem fileOf_eq {file : PrivateFile} (o : Outcome) (h : fileOf o = some file) :
    o = .file file := by
  cases o <;> cases h
  rfl

namespace Race

def process : Process where
  tmpdir := ["tmp"]
  uid := some 501
  O_NOFOLLOW := true
  processIdentity := "7-ab"
  sha256 _ := ""
  files name := if name = "awskms.cnf" then some ([1, 2], 0o400) else none
  not_pending name bytes mode h := by
    split at h
    · cases h
      decide
    · cases h
  not_publication := by decide

def disk : Fs :=
  ⟨[([], 1), (["tmp"], 2)], fun _ => ⟨.directory, 0o755, 0, []⟩, []⟩

theorem fresh : Startable process disk := by
  refine ⟨fun path n h => ?_, by decide +kernel⟩
  have hmem := Fs.mem_of_lookup h
  simp only [disk, List.mem_cons, Prod.mk.injEq, List.not_mem_nil, or_false] at hmem
  rcases hmem with ⟨rfl, rfl⟩ | ⟨rfl, rfl⟩
  · exact ⟨1, by decide, rfl⟩
  · exact ⟨1, by decide, rfl⟩

/-- Turn `n` is isolate `i`'s. -/
def turn (n i : Nat) : Nat × Choice :=
  (i, { fate := { pick := if i = 0 then "aaaaaa" else "bbbbbb", ino := 100 + n, fd := 10 + n }
        call := if n < 80 then .privateTempDirectory else .writePrivateFile "awskms.cnf" })

/-- Isolate 1 publishes its directory while isolate 0 is about to. -/
def schedule : List Nat :=
  List.replicate 30 0 ++ List.replicate 35 1 ++ List.replicate 50 0 ++ List.replicate 18 1

def inputs : List (Nat × Choice) := schedule.zipIdx.map fun x => turn x.2 x.1

abbrev machine := (isolates (fun _ : Nat => process) disk).machine

/-- Up to the publication, and from there on. -/
def early : List (Nat × Choice) := inputs.take 62

def late : List (Nat × Choice) := inputs.drop 62

abbrev linked : IsolateState Nat := machine.drive machine.start early

abbrev settled : IsolateState Nat := machine.drive linked late

set_option maxRecDepth 100000 in
theorem run_early : IsolateRun (fun _ => process) disk (machine.records machine.start early) linked :=
  Machine.run_records (by decide +kernel)

set_option maxRecDepth 100000 in
theorem run_late : IsolateRun (fun _ => process) disk
    (machine.records machine.start early ++ machine.records linked late) settled :=
  run_early.extend (by decide +kernel)

/-- What isolate 1 has published. -/
def published : FilePath := ["tmp", "keyobject-aws-kms-501", "runtime-7-ab-bbbbbb"]

/-- What isolate 0 has not. -/
def lost : FilePath :=
  ["tmp", "keyobject-aws-kms-501", "runtime-7-ab-aaaaaa", ".publish"]

def config : PrivateFile := ⟨published ++ ["awskms.cnf"], 191, 0o400, [1, 2], ""⟩

end Race

variable [DecidableEq ι]

/-- What holds after a run. -/
theorem run_shared (hfs : Startable p fs₀) {evs : List (IsolateRec ι)} {s : IsolateState ι}
    (hr : IsolateRun (fun _ => p) fs₀ evs s) :
    Shared p ⟨s.world, ledger (Machine.effects evs)⟩ :=
  ((isolates_keep hfs).run hr).1

/-- The isolates that get a directory get the same one, and it is a private
directory that the marker names. -/
theorem directories_agree (hseen : ∀ i, seen i = p) (hfs : Startable p fs₀)
    {evs : List (IsolateRec ι)} {s : IsolateState ι} (hr : IsolateRun seen fs₀ evs s) {i j : ι} {path path' : FilePath}
    (hi : Returned (Machine.effects evs) i (.directory path))
    (hj : Returned (Machine.effects evs) j (.directory path')) :
    path = path' ∧ ∃ d n, path = dirPath p d ∧ Named p s.world d ∧
      s.world.get path = some n ∧ (s.world.nodes n).kind = .directory ∧
        (s.world.nodes n).mode = 0o700 := by
  obtain rfl : seen = fun _ => p := funext hseen
  have hs := run_shared hfs hr
  obtain ⟨d, hd, rfl⟩ := hs.told i _ (told_of_reported hi)
  obtain ⟨e, he, rfl⟩ := hs.told j _ (told_of_reported hj)
  obtain rfl := hd.det he
  refine ⟨rfl, ?_⟩
  obtain ⟨m, hm, hbytes⟩ := hd
  obtain ⟨e, n, hbytes', -, hget, hkind, hmode⟩ := (hs.marker m hm).names
  obtain rfl := utf8_inj (hbytes'.symm.trans hbytes)
  exact ⟨e, n, rfl, he, hget, hkind, hmode⟩

set_option maxRecDepth 100000 in
theorem directories_agree_race : Race.published = Race.published ∧
    ∃ d n, Race.published = dirPath Race.process d ∧
      Named Race.process Race.settled.world d ∧
      Race.settled.world.get Race.published = some n ∧
      (Race.settled.world.nodes n).kind = .directory ∧
      (Race.settled.world.nodes n).mode = 0o700 :=
  directories_agree (fun _ => rfl) Race.fresh Race.run_late (i := 0) (j := 1)
    (reported_of_mem directoryOf_eq (by decide +kernel))
    (reported_of_mem directoryOf_eq (by decide +kernel))

/-- In no state of a run is the marker anything but complete, and no private
file that has its final mode is anything but complete. -/
theorem published_complete (hseen : ∀ i, seen i = p) (hfs : Startable p fs₀)
    {evs : List (IsolateRec ι)} {s : IsolateState ι} (hr : IsolateRun seen fs₀ evs s) :
    (∀ m, s.world.get (markerPath p) = some m → MarkerComplete p s.world m) ∧
      ∀ d name bytes mode n, Named p s.world d → p.files name = some (bytes, mode) →
        s.world.get (dirPath p d ++ [name]) = some n →
          FileUnderway s.world n bytes mode := by
  obtain rfl : seen = fun _ => p := funext hseen
  exact ⟨(run_shared hfs hr).marker, (run_shared hfs hr).files⟩

theorem published_complete_race :
    (∀ m, Race.linked.world.get (markerPath Race.process) = some m →
      MarkerComplete Race.process Race.linked.world m) ∧
    ∀ d name bytes mode n, Named Race.process Race.linked.world d →
      Race.process.files name = some (bytes, mode) →
        Race.linked.world.get (dirPath Race.process d ++ [name]) = some n →
          FileUnderway Race.linked.world n bytes mode :=
  published_complete (fun _ => rfl) Race.fresh Race.run_early

/-- What is published stays, inode, mode and bytes. -/
theorem published_for_good (hseen : ∀ i, seen i = p) (hfs : Startable p fs₀)
    {before after : List (IsolateRec ι)} {s t : IsolateState ι}
    (hs : IsolateRun seen fs₀ before s) (ht : IsolateRun seen fs₀ (before ++ after) t)
    {path : FilePath} {n : Nat} (h : Fixed p s.world path n) :
    Fixed p t.world path n ∧ t.world.nodes n = s.world.nodes n := by
  obtain rfl : seen = fun _ => p := funext hseen
  have hlasting : (isolatePact p ι).Lasting fun v =>
      Fixed p v.world path n ∧ v.world.nodes n = s.world.nodes n :=
    fun _ _ _ _ hg _ hv =>
      ⟨hg.fixed.fixed hv.1, (hg.fixed path n hv.1).2.trans hv.2⟩
  exact (isolates_keep hfs).lasts hlasting hs ht ⟨h, rfl⟩

set_option maxRecDepth 100000 in
theorem published_for_good_race :
    Fixed Race.process Race.settled.world (markerPath Race.process) 138 ∧
      Race.settled.world.nodes 138 = Race.linked.world.nodes 138 :=
  published_for_good (fun _ => rfl) Race.fresh Race.run_early Race.run_late ⟨by decide +kernel, .inl rfl⟩

/-- Whatever one call removes or changes was made by the isolate that calls,
and is not published; and no call puts anything in its place. -/
theorem only_own_unpublished (hseen : ∀ i, seen i = p) (hfs : Startable p fs₀)
    {before after : List (IsolateRec ι)} {e : IsolateRec ι} {s : IsolateState ι}
    (hr : IsolateRun seen fs₀ (before ++ e :: after) s) {path : FilePath} {n : Nat}
    (hget : e.pre.world.get path = some n)
    (hchange : e.out.state.world.get path ≠ some n ∨
      e.out.state.world.nodes n ≠ e.pre.world.nodes n) :
    (ledger (Machine.effects before)).maker path = some e.input.1 ∧
      ¬ Fixed p e.pre.world path n ∧
        (e.out.state.world.get path = some n ∨ e.out.state.world.get path = none) := by
  obtain rfl : seen = fun _ => p := funext hseen
  rcases (isolates_keep hfs).moves hr with ⟨-, hsame⟩ | hg
  · rw [hsame] at hchange
    rcases hchange with h | h
    · exact (h hget).elim
    · exact (h rfl).elim
  · have hloose : ¬ Fixed p e.pre.world path n := by
      intro hfixed
      obtain ⟨hget', hnode⟩ := hg.fixed path n hfixed
      rcases hchange with h | h
      · exact h hget'
      · exact h hnode
    rcases hg.kept path n hget with hget' | ⟨hgone, hmaker, -⟩
    · refine ⟨?_, hloose, .inl hget'⟩
      have hnode := hchange.resolve_left fun h => h hget'
      exact Decidable.not_not.mp fun hne => hnode (hg.node path n hget hne)
    · exact ⟨hmaker, hloose, .inr hgone⟩

set_option maxRecDepth 100000 in
/-- Isolate 0 has lost the race and removes its own publication. -/
theorem only_own_unpublished_race :
    (ledger (Machine.effects (Race.machine.records Race.machine.start
        (Race.inputs.take 68)))).maker Race.lost = some 0 ∧
    ¬ Fixed Race.process (Race.machine.drive Race.machine.start (Race.inputs.take 68)).world
      Race.lost 109 ∧
    ((Race.machine.recordAfter (Race.inputs.take 68) (Race.turn 68 0)).out.state.world.get
        Race.lost = some 109 ∨
      (Race.machine.recordAfter (Race.inputs.take 68) (Race.turn 68 0)).out.state.world.get
        Race.lost = none) := by
  have ha : Race.machine.AllowedAll Race.machine.start
      (Race.inputs.take 68 ++ [Race.turn 68 0]) := by decide +kernel
  exact only_own_unpublished (fun _ => rfl) Race.fresh (Machine.run_recordAfter ha) (by decide +kernel)
    (.inl (by decide +kernel))

/-- A file that a call has returned, or found valid, is the file that was to be
there. -/
theorem reported_files_published (hseen : ∀ i, seen i = p) (hfs : Startable p fs₀)
    {evs : List (IsolateRec ι)} {s : IsolateState ι} (hr : IsolateRun seen fs₀ evs s)
    {i : ι} {file : PrivateFile}
    (h : Returned (Machine.effects evs) i (.file file) ∨
      Returned (Machine.effects evs) i (.valid file)) :
    FilePublished p s.world file := by
  obtain rfl : seen = fun _ => p := funext hseen
  have hs := run_shared hfs hr
  rcases h with h | h
  · exact hs.told i _ (told_of_reported h)
  · exact hs.told i _ (told_of_reported h)

set_option maxRecDepth 100000 in
theorem reported_files_published_race :
    FilePublished Race.process Race.settled.world Race.config :=
  reported_files_published (fun _ => rfl) Race.fresh Race.run_late (i := 0)
    (.inl (reported_of_mem fileOf_eq (by decide +kernel)))

end AwsKms.Model
