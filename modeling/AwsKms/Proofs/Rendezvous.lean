import AwsKms.Proofs.RendezvousSteps

/-!
# The isolates of a process agree on a directory
-/

namespace AwsKms.Model

open AwsKms.Lib AwsKms.Spec

variable {ι E α : Type} {p : Process} {fs₀ : Fs} {i : ι}

/-- The triple of a program of isolate `i` of the process. -/
abbrev IsolateSafe (p : Process) (fs₀ : Fs) (i : ι) (prog : Prog Ask Answer E α)
    (A : View ι → Prop) (Ret : α → View ι → Prop) (Thr : E → View ι → Prop) : Prop :=
  Safe (isolatePact p ι) (isolates (fun _ : ι => p) fs₀) i prog A Ret Thr

/-- No other isolate makes `A` false. -/
abbrev Untouched (p : Process) (i : ι) (A : View ι → Prop) : Prop :=
  (isolatePact p ι).Undisturbed i A

/-- No isolate makes `A` false. -/
abbrev Persists (p : Process) (A : View ι → Prop) : Prop := (isolatePact p ι).Lasting A

/-- What a call that succeeds leaves. -/
def called (p : Process) (i : ι) (f : Fate) (call : FsCall) (s : View ι) : View ι :=
  ⟨(s.world.perform (p.uid.getD 0) f call).2,
    { s.past with
      maker := claim s.past.maker i
        (madeBy call (s.world.perform (p.uid.getD 0) f call).1)
      opener := claim s.past.opener i
        (openedBy call (s.world.perform (p.uid.getD 0) f call).1) }⟩

/-- What is known of a call that has failed or succeeded. -/
def Called (Ret : FsAnswer → View ι → Prop) (Thr : View ι → Prop) (r : Answer) :
    View ι → Prop :=
  match r.fs.error with
  | some _ => Thr
  | none => Ret r.fs

theorem note_failed {L : Ledger ι} {call : FsCall} {r : Answer} {code : String}
    (h : r.fs.error = some code) : L.note (i, .fs call, r) = L := by
  simp [Ledger.note, h]

theorem note_done {L : Ledger ι} {call : FsCall} {r : Answer} (h : r.fs.error = none) :
    L.note (i, .fs call, r) = { L with
      maker := claim L.maker i (madeBy call r.fs)
      opener := claim L.opener i (openedBy call r.fs) } := by
  simp [Ledger.note, h]

theorem after_fs {s : View ι} {f : Choice} {call : FsCall} :
    (isolatePact p ι).after (isolates (fun _ : ι => p) fs₀) i f (.fs call) s =
      ⟨(s.world.serve (p.uid.getD 0) f.fate call).2, s.past.note (i, .fs call,
        { fs := (s.world.serve (p.uid.getD 0) f.fate call).1 })⟩ := rfl

/-- Nothing has happened. -/
theorem Shared.stays {s : View ι} (hs : Shared p s) : May p i s s :=
  (hs.looks rfl rfl rfl (fun _ _ h _ => ⟨h, rfl⟩) fun _ _ h => .inl h).2.1

theorem safe_sys {call : FsCall} {A Thr : View ι → Prop} {Ret : FsAnswer → View ι → Prop}
    (hfail : ∀ s, Shared p s → A s → Thr s)
    (hdone : ∀ s f, Shared p s → A s → s.world.Offers f → s.world.refusal f call = none →
      Shared p (called p i f call s) ∧ May p i s (called p i f call s) ∧
        Ret (s.world.perform (p.uid.getD 0) f call).1 (called p i f call s))
    (hT : Untouched p i Thr) (hR : ∀ r, Untouched p i (Ret r)) :
    IsolateSafe p fs₀ i (sys call) A Ret fun _ => Thr := by
  have hcall : IsolateSafe p fs₀ i (Prog.call (.fs call) : Js Answer) A (Called Ret Thr)
      fun _ => Thr := by
    refine Safe.call ?_ ?_
    · intro s f hs ha hf
      have hans : ((isolates (fun _ : ι => p) fs₀).serve i f (.fs call) s.world).1 =
          { fs := (s.world.serve (p.uid.getD 0) f.fate call).1 } := rfl
      rw [hans, after_fs]
      have hclose : ∀ fd, call = .close fd → f.fate.error = none := by
        rintro fd rfl
        exact hf.2 rfl
      rcases s.world.serve_cases (p.uid.getD 0) hclose with
        ⟨code, hserve⟩ | ⟨hok, hserve, herr⟩
      · rw [hserve, note_failed rfl]
        exact ⟨hs, hs.stays, hfail s hs ha⟩
      · rw [hserve, note_done herr]
        unfold Called
        rw [herr]
        exact hdone s f.fate hs ha hf.1 hok
    · intro r
      unfold Called
      cases r.fs.error with
      | some code => exact hT
      | none => exact hR r.fs
  refine hcall.bind fun r => ?_
  unfold Called
  cases r.fs.error with
  | some code => exact Safe.throw fun _ _ h => h
  | none => exact Safe.ret fun _ _ h => h

/-- A call that only looks. -/
theorem safe_look {call : FsCall} {A : View ι → Prop} {K : FsAnswer → View ι → Prop}
    (hA : Untouched p i A)
    (hlook : ∀ (s : Fs) f, (s.perform (p.uid.getD 0) f call).2 = s)
    (hquiet : ∀ r, madeBy call r = none ∧ openedBy call r = none)
    (hK : ∀ s f, Shared p s → A s → s.world.refusal f call = none →
      K (s.world.perform (p.uid.getD 0) f call).1 s)
    (hKA : ∀ r, Untouched p i (K r)) :
    IsolateSafe p fs₀ i (sys call) A (fun r s => A s ∧ K r s) fun _ => A := by
  refine safe_sys (fun _ _ h => h) (fun s f hs ha _ href => ?_) hA fun r => hA.and (hKA r)
  have hsame : called p i f call s = s := by
    unfold called
    rw [hlook, (hquiet _).1, (hquiet _).2]
    rfl
  rw [hsame]
  exact ⟨hs, hs.stays, ha, hK s f hs ha href⟩

theorem safe_lstat {A : View ι → Prop} {path : FilePath} (hA : Untouched p i A) :
    IsolateSafe p fs₀ i (lstatSync path) A (fun _ => A) fun _ => A := by
  have hsys : IsolateSafe p fs₀ i (sys (.lstat path)) A (fun _ s => A s ∧ True) fun _ => A :=
    safe_look hA (fun _ _ => rfl) (fun _ => ⟨rfl, rfl⟩) (fun _ _ _ _ _ => trivial)
      fun _ _ _ _ _ _ _ _ h => h
  exact hsys.bind fun _ => Safe.ret fun _ _ h => h.1

theorem safe_fsync {A : View ι → Prop} {fd : Nat} (hA : Untouched p i A) :
    IsolateSafe p fs₀ i (sys (.fsync fd)) A (fun _ => A) fun _ => A := by
  have hsys : IsolateSafe p fs₀ i (sys (.fsync fd)) A (fun _ s => A s ∧ True) fun _ => A :=
    safe_look hA (fun _ _ => rfl) (fun _ => ⟨rfl, rfl⟩) (fun _ _ _ _ _ => trivial)
      fun _ _ _ _ _ _ _ _ h => h
  exact hsys.post (fun _ _ _ h => h.1) fun _ _ _ h => h

theorem safe_wrapping {message : String} {statement : Js α} {A Thr : View ι → Prop}
    {Ret : α → View ι → Prop}
    (h : IsolateSafe p fs₀ i statement A Ret fun _ => Thr) :
    IsolateSafe p fs₀ i (wrapping message statement) A Ret fun _ => Thr :=
  h.handle fun _ => Safe.throw fun _ _ h => h

theorem safe_ifDefined {value : Option α} {statement : α → Js Unit} {A B : View ι → Prop}
    {Thr : JsError → View ι → Prop}
    (hsome : ∀ a, value = some a →
      IsolateSafe p fs₀ i (statement a) A (fun _ => B) Thr)
    (hnone : value = none → ∀ s, Shared p s → A s → B s) :
    IsolateSafe p fs₀ i (ifDefined value statement) A (fun _ => B) Thr := by
  cases value with
  | none => exact Safe.ret fun s hs h => hnone rfl s hs h
  | some a => exact hsome a rfl

theorem safe_under {V : Type} {v : V} {statement : Js α} {A Thr : View ι → Prop}
    {Ret : α → View ι → Prop} {Thr' : JsError × V → View ι → Prop}
    (h : IsolateSafe p fs₀ i statement A Ret fun _ => Thr)
    (hT : ∀ cause s, Thr s → Thr' (cause, v) s) :
    IsolateSafe p fs₀ i (under v statement) A Ret Thr' :=
  h.handle fun cause => Safe.throw fun s _ h => hT cause s h

theorem safe_assertPrivateDirectory {A : View ι → Prop} {path : FilePath}
    {expected : Option Nat} (hA : Untouched p i A) :
    IsolateSafe p fs₀ i (assertPrivateDirectory p path expected) A (fun _ => A)
      fun _ => A := by
  unfold assertPrivateDirectory
  refine (safe_wrapping (safe_lstat hA)).bind fun stat => ?_
  split
  · exact Safe.throw fun _ _ h => h
  · exact Safe.ret fun _ _ h => h

theorem trivial_untouched : Untouched p i fun _ : View ι => True :=
  fun _ _ _ _ _ _ _ h => h

/-- A new name is its maker's own. -/
theorem own_create {s : View ι} {f : Fate} {path : FilePath} {v : Node}
    {opener : Nat → Option ι} {fs : Fs} (hf : s.world.Offers f)
    (hget : ∀ q, fs.get q = if q = path then some f.ino else s.world.get q)
    (hnodes : fs.nodes = Function.update s.world.nodes f.ino v) :
    Own i path f.ino v
      ⟨fs, ⟨Function.update s.past.maker path (some i), opener, s.past.told⟩⟩ where
  there := by rw [hget, if_pos rfl]
  maker := Function.update_self ..
  only q hq := by
    rw [hget] at hq
    split at hq
    · assumption
    · exact (hf.get_ne hq rfl).elim
  node := by rw [hnodes, Function.update_self]

theorem get_create {fs : Fs} {path : FilePath} {n : Nat} {v : Node} (q : FilePath) :
    (fs.create path n v).get q = if q = path then some n else fs.get q := by
  rw [Fs.create, Fs.get_enter, Fs.get_setNode]

theorem nodes_create {fs : Fs} {path : FilePath} {n : Nat} {v : Node} :
    (fs.create path n v).nodes = Function.update fs.nodes n v := rfl

theorem safe_mkdir_root :
    IsolateSafe p fs₀ i (sys (.mkdir (rootPath p) 0o700)) (fun _ => True)
      (fun _ s => ∃ n uid, Own i (rootPath p) n ⟨.directory, 0o700, uid, []⟩ s)
      fun _ _ => True := by
  refine safe_sys (fun _ _ _ => trivial) (fun s f hs _ hf href => ?_) trivial_untouched ?_
  · have hshort : ∀ q : FilePath, (rootPath p).length < q.length → rootPath p ≠ q := by
      rintro q hlt rfl
      omega
    have hmade : Moves p i s (called p i f (.mkdir (rootPath p) 0o700) s) :=
      hs.creates href (fun _ _ => hf.get_ne) (fun _ _ => hf.opened_ne) get_create
        nodes_create (fun _ _ h => ⟨h, rfl⟩) rfl rfl
      (hshort _ (by rw [markerPath_eq, length_dirPath]; omega)) ?_ ?_
    · exact ⟨hmade.1, hmade.2.1, f.ino, p.uid.getD 0, own_create hf get_create nodes_create⟩
    · intro d hd
      have hlen := congrArg List.length hd
      rw [length_dirPath, List.length_dropLast] at hlen
      omega
    · intro h
      have hlen := h.length
      omega
  · rintro r j hj s s' hs hg hs' ⟨n, uid, h⟩
    exact ⟨n, uid, Own.undisturbed j hj s s' hs hg hs' h⟩

/-- `chmod` to the mode a name already has. -/
theorem safe_chmod {A : View ι → Prop} {path : FilePath} {mode : Nat}
    (hA : Untouched p i A)
    (hmode : ∀ s, A s → ∀ n, s.world.get path = some n → (s.world.nodes n).mode = mode) :
    IsolateSafe p fs₀ i (sys (.chmod path mode)) A (fun _ => A) fun _ => A := by
  refine safe_sys (fun _ _ h => h) (fun s f hs ha _ _ => ?_) hA fun _ => hA
  have hsame : called p i f (.chmod path mode) s = s := by
    have hworld : s.world.modify (s.world.get path) (fun v => { v with mode := mode }) =
        s.world := by
      cases hget : s.world.get path with
      | none => rfl
      | some n =>
          change s.world.setNode n { s.world.nodes n with mode := mode } = s.world
          rw [← hmode s ha n hget, Fs.setNode, Function.update_eq_self]
    unfold called
    exact congrArg (Scene.mk · s.past) hworld
  rw [hsame]
  exact ⟨hs, hs.stays, ha⟩

/-- The root has just been made, and is still as it was made. -/
def RootMade (p : Process) (i : ι) (s : View ι) : Prop :=
  ∃ n uid, Own i (rootPath p) n ⟨.directory, 0o700, uid, []⟩ s

theorem RootMade.untouched : Untouched p i (RootMade p i) := by
  rintro j hj s s' hs hg hs' ⟨n, uid, h⟩
  exact ⟨n, uid, Own.undisturbed j hj s s' hs hg hs' h⟩

theorem safe_createRoot :
    IsolateSafe p fs₀ i (createRoot (rootPath p)) (fun _ => True)
      (fun created s => created = true → RootMade p i s) fun _ _ => True := by
  refine Safe.handle (safe_mkdir_root.bind fun _ => Safe.ret fun _ _ h _ => h)
    fun cause => ?_
  split
  · exact Safe.throw fun _ _ _ => trivial
  · exact Safe.ret fun _ _ _ h => absurd h (by simp)

theorem safe_rendezvousRoot :
    IsolateSafe p fs₀ i (rendezvousRoot p) (fun _ => True)
      (fun root _ => root.path = rootPath p) fun _ _ => True := by
  unfold rendezvousRoot
  cases huid : p.uid with
  | none => exact Safe.throw fun _ _ _ => trivial
  | some uid =>
      have hroot : p.tmpdir ++ ["keyobject-aws-kms-" ++ toString uid] = rootPath p := by
        rw [rootPath, huid, Option.getD_some]
      simp only [hroot]
      refine safe_createRoot.bind fun created => ?_
      cases created with
      | false =>
          refine ((safe_assertPrivateDirectory trivial_untouched).pre fun _ _ _ => trivial).bind
            fun _ => Safe.ret fun _ _ _ => rfl
      | true =>
          have hchmod : IsolateSafe p fs₀ i (sys (.chmod (rootPath p) 0o700)) (RootMade p i)
              (fun _ => RootMade p i) fun _ => RootMade p i := by
            refine safe_chmod RootMade.untouched ?_
            rintro s ⟨n, uid, h⟩ m hm
            obtain rfl := Option.some.inj (hm.symm.trans h.there)
            rw [h.node]
          refine ((hchmod.pre fun _ _ h => h rfl).post (fun _ _ _ _ => trivial)
            fun _ _ _ _ => trivial).bind fun _ => ?_
          exact (safe_assertPrivateDirectory trivial_untouched).bind
            fun _ => Safe.ret fun _ _ _ => rfl

/-! ## Reading

A reader opens without following links, looks at what it has opened, and reads
through the descriptor. Whatever a name stands for by then, the descriptor
stands for one inode, and an inode that is published does not change. -/

/-- The marker, or a private file in the directory it names. -/
def Readable (p : Process) (path : FilePath) (s : View ι) : Prop :=
  path = markerPath p ∨ ∃ d name bytes mode, path = dirPath p d ++ [name] ∧
    p.files name = some (bytes, mode) ∧ Named p s.world d

/-- `i` has opened what was there. A file that has gone since was not
published, and nobody will make it so. -/
structure Sighted (p : Process) (i : ι) (fd : Nat) (path : FilePath) (n : Nat)
    (s : View ι) : Prop where
  holding : Holding i fd n s
  readable : Readable p path s
  seen : s.world.get path = some n ∨
    path ≠ markerPath p ∧ (∀ q, s.world.get q ≠ some n) ∧ (s.world.nodes n).mode = 0o600

/-- What a `stat` with the right mode says. -/
structure Stated (p : Process) (path : FilePath) (stat : Stat) (s : View ι) : Prop where
  marker : path = markerPath p → s.world.get path = some stat.ino
  file : ∀ d name bytes mode, path = dirPath p d ++ [name] →
    p.files name = some (bytes, mode) → permissions stat = mode →
      Fixed p s.world path stat.ino

/-- What a snapshot says. -/
structure Saw (p : Process) (path : FilePath) (snapshot : Snapshot) (s : View ι) :
    Prop where
  stated : Stated p path snapshot.stat s
  bytes : path = markerPath p → (s.world.nodes snapshot.stat.ino).bytes = snapshot.bytes

theorem Readable.persists {path : FilePath} :
    Persists p fun s : View ι => Readable p path s := by
  intro j s s' _ hg _ h
  refine h.imp_right ?_
  rintro ⟨d, name, bytes, mode, hpath, hfile, hd⟩
  exact ⟨d, name, bytes, mode, hpath, hfile, hg.fixed.named hd⟩

theorem Stated.persists {path : FilePath} {stat : Stat} :
    Persists p fun s : View ι => Stated p path stat s := by
  intro j s s' _ hg _ h
  refine ⟨fun hmark => ?_, fun d name bytes mode hpath hfile hmode => ?_⟩
  · have hget := h.marker hmark
    rw [hmark] at hget ⊢
    exact (hg.fixed _ _ (.marker hget)).1
  · exact hg.fixed.fixed (h.file d name bytes mode hpath hfile hmode)

theorem Saw.persists {path : FilePath} {snapshot : Snapshot} :
    Persists p fun s : View ι => Saw p path snapshot s := by
  intro j s s' hs hg hs' h
  refine ⟨Stated.persists j s s' hs hg hs' h.stated, fun hmark => ?_⟩
  have hget := h.stated.marker hmark
  rw [hmark] at hget
  rw [(hg.fixed _ _ (.marker hget)).2]
  exact h.bytes hmark

/-- The mode a private file has while it is written is not its final mode. -/
theorem pending_ne {name : String} {bytes : List UInt8} {mode : Nat}
    (h : p.files name = some (bytes, mode)) : mode ≠ 0o600 := by
  have hne := p.not_pending name bytes mode h
  have hmask : 0o600 &&& 0o777 = 0o600 := by decide
  rwa [hmask] at hne

/-- A private file in the directory of the process: it is being written, or
there for good and complete. -/
theorem Shared.file {s : View ι} (hs : Shared p s) {d name : String} {bytes : List UInt8}
    {mode n : Nat} (hd : Named p s.world d) (hfile : p.files name = some (bytes, mode))
    (hget : s.world.get (dirPath p d ++ [name]) = some n) :
    (s.world.nodes n).mode = 0o600 ∨ Fixed p s.world (dirPath p d ++ [name]) n := by
  rcases (hs.files d name bytes mode n hd hfile hget).2 with hmode | ⟨hmode, -⟩
  · exact .inl hmode
  · exact .inr ⟨hget, .inr ⟨d, hd, .inr ⟨name, bytes, rfl, by rw [hmode, hfile]⟩⟩⟩

theorem Sighted.untouched {fd n : Nat} {path : FilePath} :
    Untouched p i (Sighted p i fd path n) := by
  intro j hj s s' hs hg hs' h
  refine ⟨Holding.undisturbed j hj s s' hs hg hs' h.holding,
    Readable.persists j s s' hs hg hs' h.readable, ?_⟩
  rcases h.seen with hget | ⟨hne, hfree, hmode⟩
  · by_cases hmark : path = markerPath p
    · rw [hmark] at hget ⊢
      exact .inl (hg.fixed _ _ (.marker hget)).1
    · obtain ⟨d, name, bytes, mode, hpath, hfile, hd⟩ := h.readable.resolve_left hmark
      have hstate := hs.file hd hfile (hpath ▸ hget)
      rw [← hpath] at hstate
      rcases hg.kept path n hget with hget' | ⟨hgone, -, hrest⟩
      · exact .inl hget'
      · obtain ⟨hfree, hnode⟩ := hrest ⟨d, name, bytes, mode, hpath, hfile⟩
        rcases hstate with hmode | hfixed
        · exact .inr ⟨hmark, hfree, by rw [hnode, hmode]⟩
        · rw [(hg.fixed _ _ hfixed).1] at hgone
          cases hgone
  · obtain ⟨hfree', hnode⟩ := hg.unlinked fd n h.holding.opened hfree
    exact .inr ⟨hne, hfree', by rw [hnode, hmode]⟩

theorem Sighted.stated {s : View ι} (hs : Shared p s) {fd n : Nat} {path : FilePath}
    (h : Sighted p i fd path n s) : Stated p path (s.world.stat n) s := by
  refine ⟨fun hmark => ?_, fun d name bytes mode hpath hfile hmode => ?_⟩
  · rcases h.seen with hget | ⟨hne, -⟩
    · exact hget
    · exact (hne hmark).elim
  · have hnot : (s.world.nodes n).mode ≠ 0o600 := by
      intro heq
      refine p.not_pending name bytes mode hfile ?_
      rw [← hmode, permissions, Fs.stat, heq]
    have hget := h.seen.resolve_right fun hgone => hnot hgone.2.2
    have hd : Named p s.world d := by
      rcases h.readable with hmark | ⟨e, name', -, -, hpath', -, he⟩
      · exact (inDir_ne_dirPath (hpath.symm.trans hmark)).elim
      · obtain ⟨hdir, -⟩ := List.append_inj' (hpath.symm.trans hpath') rfl
        rwa [dirPath_inj.mp hdir]
    rw [hpath] at hget ⊢
    exact (hs.file hd hfile hget).resolve_left hnot

theorem safe_openRead {path : FilePath} :
    IsolateSafe p fs₀ i (sys (.openRead path)) (Readable p path)
      (fun r s => ∃ n, Sighted p i r.fd path n s) fun _ _ => True := by
  refine safe_sys (fun _ _ _ => trivial) (fun s f hs ha hf href => ?_) trivial_untouched ?_
  · have huse : s.world.noUse path
        (fun kind => if kind = .symlink then some "ELOOP" else none) = none := href
    obtain ⟨n, hget, -⟩ := Fs.noUse_eq_none.mp huse
    have hmade : Moves p i s (called p i f (.openRead path) s) := by
      refine hs.looks rfl rfl rfl (fun fd m hfd _ => ?_) fun _ _ h => .inl h
      have hne := hf.fd_ne hfd
      refine ⟨Fs.opened_hold.trans ((if_neg hne).trans hfd), ?_⟩
      exact Function.update_of_ne hne _ _
    refine ⟨hmade.1, hmade.2.1, n, ⟨?_, ?_⟩, ha, .inl hget⟩
    · change (s.world.hold f.fd ((s.world.get path).getD 0)).opened f.fd = some n
      rw [Fs.opened_hold, if_pos rfl, hget, Option.getD_some]
    · exact Function.update_self ..
  · rintro r j hj s s' hs hg hs' ⟨n, h⟩
    exact ⟨n, Sighted.untouched j hj s s' hs hg hs' h⟩

theorem safe_fstat {fd n : Nat} {path : FilePath} :
    IsolateSafe p fs₀ i (fstatSync fd) (Sighted p i fd path n)
      (fun stat s => Sighted p i fd path n s ∧ stat.ino = n ∧ Stated p path stat s)
      fun _ => Sighted p i fd path n := by
  have hsys : IsolateSafe p fs₀ i (sys (.fstat fd)) (Sighted p i fd path n)
      (fun r s => Sighted p i fd path n s ∧ r.stat.ino = n ∧ Stated p path r.stat s)
      fun _ => Sighted p i fd path n := by
    refine safe_look Sighted.untouched (fun _ _ => rfl) (fun _ => ⟨rfl, rfl⟩)
      (fun s f hs ha _ => ?_) fun r => ?_
    · have hstat : (s.world.perform (p.uid.getD 0) f (.fstat fd)).1.stat = s.world.stat n := by
        change s.world.stat ((s.world.opened fd).getD 0) = _
        rw [ha.holding.opened, Option.getD_some]
      rw [hstat]
      exact ⟨rfl, ha.stated hs⟩
    · intro j hj s s' hs hg hs' h
      exact ⟨h.1, Stated.persists j s s' hs hg hs' h.2⟩
  exact hsys.bind fun _ => Safe.ret fun _ _ h => h

theorem safe_read {fd n : Nat} {path : FilePath} {stat : Stat} :
    IsolateSafe p fs₀ i (readFileSync fd)
      (fun s => Sighted p i fd path n s ∧ stat.ino = n ∧ Stated p path stat s)
      (fun bytes s => Sighted p i fd path n s ∧ Saw p path ⟨stat, bytes⟩ s)
      fun _ => Sighted p i fd path n := by
  have hpre : Untouched p i fun s => Sighted p i fd path n s ∧ stat.ino = n ∧
      Stated p path stat s := by
    refine Sighted.untouched.and fun j hj s s' hs hg hs' h => ?_
    exact ⟨h.1, Stated.persists j s s' hs hg hs' h.2⟩
  have hsys : IsolateSafe p fs₀ i (sys (.read fd))
      (fun s => Sighted p i fd path n s ∧ stat.ino = n ∧ Stated p path stat s)
      (fun r s => (Sighted p i fd path n s ∧ stat.ino = n ∧ Stated p path stat s) ∧
        Saw p path ⟨stat, r.bytes⟩ s)
      fun _ s => Sighted p i fd path n s ∧ stat.ino = n ∧ Stated p path stat s := by
    refine safe_look hpre (fun _ _ => rfl) (fun _ => ⟨rfl, rfl⟩)
      (fun s f hs ha _ => ⟨ha.2.2, fun _ => ?_⟩) fun r => Saw.persists.undisturbed
    change _ = (s.world.nodes ((s.world.opened fd).getD 0)).bytes
    rw [ha.1.holding.opened, Option.getD_some, ha.2.1]
  have hread : IsolateSafe p fs₀ i (sys (.read fd))
      (fun s => Sighted p i fd path n s ∧ stat.ino = n ∧ Stated p path stat s)
      (fun r s => Sighted p i fd path n s ∧ Saw p path ⟨stat, r.bytes⟩ s)
      fun _ => Sighted p i fd path n :=
    hsys.post (fun _ _ _ h => ⟨h.1.1, h.2⟩) fun _ _ _ h => h.1
  exact hread.bind fun _ => Safe.ret fun _ _ h => h

/-- Closing a descriptor of its own. -/
theorem safe_close {fd n : Nat} {A : View ι → Prop} (hA : Untouched p i A)
    (hrelease : ∀ s : View ι, A s → A ⟨s.world.release fd, s.past⟩) :
    IsolateSafe p fs₀ i (sys (.close fd)) (fun s => Holding i fd n s ∧ A s) (fun _ => A)
      fun _ s => Holding i fd n s ∧ A s := by
  refine safe_sys (fun _ _ h => h) (fun s f hs ha hf href => ?_)
    (Holding.undisturbed.and hA) fun _ => hA
  have hmade : Moves p i s (called p i f (.close fd) s) := by
    refine hs.looks rfl rfl rfl (fun fd' m hfd hopener => ?_) fun _ _ h => .inl h
    have hne : fd' ≠ fd := by
      rintro rfl
      exact hopener ha.1.opener
    exact ⟨Fs.opened_release.trans ((if_neg hne).trans hfd), rfl⟩
  exact ⟨hmade.1, hmade.2.1, hrelease s ha.2⟩

theorem safe_noFollowRead {path : FilePath} :
    IsolateSafe p fs₀ i (noFollowRead p path) (Readable p path) (Saw p path)
      fun _ _ => True := by
  unfold noFollowRead
  split
  · exact Safe.throw fun _ _ _ => trivial
  · refine safe_openRead.bind fun r => Safe.exists fun n => ?_
    have hboth : IsolateSafe p fs₀ i (do
        let stat ← fstatSync r.fd
        let bytes ← readFileSync r.fd
        return (⟨stat, bytes⟩ : Snapshot)) (Sighted p i r.fd path n)
        (fun snapshot s => Sighted p i r.fd path n s ∧ Saw p path snapshot s)
        fun _ => Sighted p i r.fd path n := by
      refine safe_fstat.bind fun stat => ?_
      exact safe_read.bind fun bytes => Safe.ret fun _ _ h => h
    refine hboth.ensure (fun snapshot => ?_) fun _ => ?_
    · refine ((safe_close (n := n) Saw.persists.undisturbed ?_).pre
        fun _ _ h => ⟨h.1.holding, h.2⟩).post (fun _ _ _ h => h) fun _ _ _ _ => trivial
      exact fun s h => ⟨⟨h.stated.marker, h.stated.file⟩, h.bytes⟩
    · refine ((safe_close (n := n) trivial_untouched fun _ _ => trivial).pre
        fun _ _ h => ⟨h.holding, trivial⟩).post (fun _ _ _ h => h) fun _ _ _ _ => trivial

theorem utf8Text_utf8 {d : String} : utf8Text (utf8 d) = d := by
  have hbytes : (⟨(utf8 d).toArray⟩ : ByteArray) = d.toByteArray := by
    rw [utf8, Array.toArray_toList, String.toUTF8_eq_toByteArray]
  rw [utf8Text, hbytes, String.fromUTF8?, dif_pos d.isValidUTF8]
  rfl

/-- What a `TempDirectory` says: the marker names its directory. -/
structure Found (p : Process) (td : TempDirectory) (s : View ι) : Prop where
  marker : td.marker.path = markerPath p
  names : ∃ d, Named p s.world d ∧ td.path = dirPath p d

theorem Found.persists {td : TempDirectory} : Persists p fun s : View ι => Found p td s := by
  rintro j s s' _ hg _ ⟨hmark, d, hd, hpath⟩
  exact ⟨hmark, d, hg.fixed.named hd, hpath⟩

/-- The text of a marker that has been read is what it names. -/
theorem Saw.named {s : View ι} (hs : Shared p s) {snapshot : Snapshot}
    (h : Saw p (markerPath p) snapshot s) : Named p s.world (utf8Text snapshot.bytes) := by
  have hget := h.stated.marker rfl
  obtain ⟨d, -, hbytes, -⟩ := (hs.marker _ hget).names
  have hsnap : snapshot.bytes = utf8 d := (h.bytes rfl).symm.trans hbytes
  rw [hsnap, utf8Text_utf8]
  exact ⟨_, hget, hbytes⟩

theorem safe_readRendezvous {root : Place} (hroot : root.path = rootPath p) :
    IsolateSafe p fs₀ i (readRendezvous p root (markerPath p)) (fun _ => True)
      (fun td s => Found p td s) fun _ _ => True := by
  unfold readRendezvous
  refine ((safe_wrapping safe_noFollowRead).pre fun _ _ _ => .inl rfl).bind fun marker => ?_
  simp only
  split
  · exact Safe.throw fun _ _ _ => trivial
  · refine ((safe_assertPrivateDirectory Saw.persists.undisturbed).post (fun _ _ _ h => h)
      fun _ _ _ _ => trivial).bind fun stat => Safe.ret fun s hs h => ?_
    refine ⟨rfl, utf8Text marker.bytes, h.named hs, ?_⟩
    rw [hroot]
    rfl

theorem safe_validateTempDirectory {td : TempDirectory} :
    IsolateSafe p fs₀ i (validateTempDirectory p td) (Found p td)
      (fun path s => Found p td s ∧ path = td.path) fun _ => Found p td := by
  have hfound : Untouched p i fun s => Found p td s := Found.persists.undisturbed
  unfold validateTempDirectory
  refine (safe_assertPrivateDirectory hfound).bind fun _ => ?_
  have hread : IsolateSafe p fs₀ i (noFollowRead p td.marker.path) (Found p td)
      (fun _ => Found p td) fun _ => Found p td := by
    refine ((safe_noFollowRead.frame Found.persists).pre fun s _ h => ⟨?_, h⟩).post
      (fun _ _ _ h => h.2) fun _ _ _ h => h.2
    exact .inl h.marker
  refine (safe_wrapping hread).bind fun marker => ?_
  split
  · exact Safe.throw fun _ _ h => h
  · refine (safe_assertPrivateDirectory hfound).bind fun _ => ?_
    exact Safe.ret fun _ _ h => ⟨h, rfl⟩

/-! ## Publishing a directory

The candidate is the isolate's own until the link is made. Each step on the
way leaves a draft that is further along, or fails, and then the catch block
takes back what it can; nobody else has a name for it. -/

/-- The path of a publication. -/
abbrev publishPath (p : Process) (d : String) : FilePath := dirPath p d ++ [".publish"]

theorem not_fixed_publish {fs : Fs} {d : String} {n : Nat} :
    ¬ Fixed p fs (publishPath p d) n := by
  rintro ⟨-, heq | ⟨e, -, heq | ⟨name, bytes, heq, hfile⟩⟩⟩
  · exact inDir_ne_dirPath heq
  · exact inDir_ne_dirPath heq
  · exact not_private_publish ⟨e, name, bytes, _, heq, hfile⟩

theorem Candidate.not_fixed {d : String} {s : View ι} (h : Candidate p i d s) {n : Nat} :
    ¬ Fixed p s.world (dirPath p d) n := by
  rintro ⟨-, heq | ⟨e, he, heq | ⟨name, bytes, heq, -⟩⟩⟩
  · exact h.temporary.ne_marker heq
  · exact h.unnamed (dirPath_inj.mp heq ▸ he)
  · exact inDir_ne_dirPath heq.symm

/-- A candidate stays one where its directory is left alone, and what is in it
is `i`'s own. -/
theorem Candidate.stays {d : String} {s s' : View ι} (h : Candidate p i d s)
    (hname : ∀ e, Named p s'.world e → Named p s.world e)
    (hget : s'.world.get (dirPath p d) = s.world.get (dirPath p d))
    (hmaker : s'.past.maker (dirPath p d) = s.past.maker (dirPath p d))
    (honly : ∀ n, s.world.get (dirPath p d) = some n →
      (∀ q, s'.world.get q = some n → s.world.get q = some n) ∧
        s'.world.nodes n = s.world.nodes n)
    (hinside : ∀ q n, s'.world.get q = some n → q.dropLast = dirPath p d →
      q = publishPath p d ∧ s'.past.maker q = some i) : Candidate p i d s' := by
  obtain ⟨n, uid, hown⟩ := h.own
  obtain ⟨hq, hnode⟩ := honly n hown.there
  exact ⟨h.temporary, fun hd => h.unnamed (hname d hd),
    ⟨n, uid, hget.trans hown.there, hmaker.trans hown.maker, fun q h => hown.only q (hq q h),
      hnode.trans hown.node⟩, hinside⟩

theorem safe_mkdtemp :
    IsolateSafe p fs₀ i (sys (.mkdtemp (rootPath p) p.directoryPrefix)) (fun _ => True)
      (fun r s => ∃ d, r.path = dirPath p d ∧ Candidate p i d s) fun _ _ => True := by
  refine safe_sys (fun _ _ _ => trivial) (fun s f hs _ hf href => ?_) trivial_untouched ?_
  · let d := Fs.tempName p.directoryPrefix f
    have htemp : Temporary p d := ⟨f.pick, rfl⟩
    have hplace : s.world.noPlace (dirPath p d) = none := href
    have hnone := (Fs.noPlace_eq_none.mp hplace).1
    have hmade : Moves p i s
        (called p i f (.mkdtemp (rootPath p) p.directoryPrefix) s) := by
      refine hs.creates hplace (fun _ _ => hf.get_ne) (fun _ _ => hf.opened_ne) get_create
        nodes_create (fun _ _ h => ⟨h, rfl⟩) rfl rfl htemp.ne_marker (fun e he => ?_)
        fun h => (not_private_dirPath h).elim
      have hlen := congrArg List.length he
      rw [dropLast_dirPath, length_dirPath] at hlen
      omega
    refine ⟨hmade.1, hmade.2.1, d, rfl, htemp, fun hd => ?_,
      ⟨f.ino, p.uid.getD 0, own_create hf get_create nodes_create⟩, fun q n hq hdrop => ?_⟩
    · obtain ⟨m, hm, hbytes⟩ := hmade.2.2 d hd
      obtain ⟨e, dir, he, -, hdir, -⟩ := (hs.marker m hm).names
      rw [utf8_inj (he.symm.trans hbytes), hnone] at hdir
      cases hdir
    · have hne : q ≠ dirPath p d := by
        rintro rfl
        have hlen := congrArg List.length hdrop
        rw [dropLast_dirPath, length_dirPath] at hlen
        omega
      have hold : s.world.get q = some n := (if_neg hne).symm.trans ((get_create q).symm.trans hq)
      obtain ⟨dir, hdir, -⟩ := hs.rooted q n hold
      rw [hdrop, hnone] at hdir
      cases hdir
  · rintro r j hj s s' hs hg hs' ⟨d, hr, h⟩
    exact ⟨d, hr, Candidate.undisturbed j hj s s' hs hg hs' h⟩

/-- A file of `i`'s own, open and being written. -/
structure Draft (i : ι) (fd : Nat) (path : FilePath) (mode : Nat) (bytes : List UInt8)
    (s : View ι) : Prop where
  open_own : ∃ n uid, Holding i fd n s ∧ Own i path n ⟨.file, mode, uid, bytes⟩ s

theorem Draft.untouched {fd : Nat} {path : FilePath} {mode : Nat} {bytes : List UInt8} :
    Untouched p i (Draft i fd path mode bytes) := by
  rintro j hj s s' hs hg hs' ⟨n, uid, hfd, hown⟩
  exact ⟨n, uid, Holding.undisturbed j hj s s' hs hg hs' hfd,
    Own.undisturbed j hj s s' hs hg hs' hown⟩

/-- A new file, where there is a place for one. -/
theorem safe_openNew {path : FilePath} {A : View ι → Prop} (hA : Untouched p i A)
    (hmark : path ≠ markerPath p)
    (hdir : ∀ s, A s → ∀ d, path.dropLast = dirPath p d →
      s.past.maker (dirPath p d) = some i ∨ Named p s.world d)
    (hkeep : ∀ s f, Shared p s → A s → s.world.Offers f →
      s.world.noPlace path = none →
        Moves p i s (called p i f (.openNew path 0o600) s) →
          A (called p i f (.openNew path 0o600) s)) :
    IsolateSafe p fs₀ i (sys (.openNew path 0o600)) A
      (fun r s => Draft i r.fd path 0o600 [] s ∧ A s) fun _ => A := by
  refine safe_sys (fun _ _ h => h) (fun s f hs ha hf href => ?_) hA
    fun _ => Draft.untouched.and hA
  have hmade : Moves p i s (called p i f (.openNew path 0o600) s) := by
    refine hs.creates href (fun _ _ => hf.get_ne) (fun _ _ => hf.opened_ne) get_create
      rfl (fun fd m hfd => ?_) rfl rfl hmark (hdir s ha) fun _ => ⟨rfl, rfl⟩
    have hne := hf.fd_ne hfd
    exact ⟨Fs.opened_hold.trans ((if_neg hne).trans hfd), Function.update_of_ne hne _ _⟩
  refine ⟨hmade.1, hmade.2.1, ⟨f.ino, p.uid.getD 0, ⟨?_, Function.update_self ..⟩, ?_⟩,
    hkeep s f hs ha hf href hmade⟩
  · exact Fs.opened_hold.trans (if_pos rfl)
  · exact own_create hf get_create rfl

theorem safe_openPublication {d : String} :
    IsolateSafe p fs₀ i (sys (.openNew (publishPath p d) 0o600)) (Candidate p i d)
      (fun r s => Draft i r.fd (publishPath p d) 0o600 [] s ∧ Candidate p i d s)
      fun _ => Candidate p i d := by
  refine safe_openNew Candidate.undisturbed inDir_ne_dirPath (fun s h e he => ?_)
    fun s f hs h hf hplace hmade => ?_
  · rw [List.dropLast_concat, dirPath_inj] at he
    obtain ⟨n, uid, hown⟩ := h.own
    exact .inl (he ▸ hown.maker)
  · have hne : dirPath p d ≠ publishPath p d := inDir_ne_dirPath.symm
    have hget : ∀ q, (called p i f (.openNew (publishPath p d) 0o600) s).world.get q =
        if q = publishPath p d then some f.ino else s.world.get q := get_create
    have hmaker : ∀ q, q ≠ publishPath p d →
        (called p i f (.openNew (publishPath p d) 0o600) s).past.maker q =
          s.past.maker q := fun q hq => Function.update_of_ne hq _ _
    refine h.stays hmade.2.2 (by rw [hget, if_neg hne]) (hmaker _ hne) (fun n hn => ?_)
      fun q n hq hdrop => ?_
    · refine ⟨fun q hq => ?_, Function.update_of_ne (hf.get_ne hn) _ _⟩
      rw [hget] at hq
      split at hq
      · exact (hf.get_ne hn (Option.some.inj hq).symm).elim
      · exact hq
    · by_cases hpub : q = publishPath p d
      · subst hpub
        exact ⟨rfl, Function.update_self ..⟩
      · rw [hget, if_neg hpub] at hq
        obtain ⟨heq, -⟩ := h.inside q n hq hdrop
        exact (hpub heq).elim

/-- A call that changes what is in a draft, or its mode. -/
theorem safe_edit {call : FsCall} {fd mode mode' : Nat} {path : FilePath}
    {bytes bytes' : List UInt8} {g : Node → Node} {A : View ι → Prop}
    (hA : Untouched p i A)
    (hperform : ∀ (s : Fs) f,
      (s.perform (p.uid.getD 0) f call).2 = s.modify (s.opened fd) g)
    (hquiet : ∀ r, madeBy call r = none ∧ openedBy call r = none)
    (hg : ∀ uid, g ⟨.file, mode, uid, bytes⟩ = ⟨.file, mode', uid, bytes'⟩)
    (hloose : ∀ (s : View ι) n, (s.world.nodes n).mode = mode → ¬ Fixed p s.world path n)
    (hfile : ∀ d name b m, path = dirPath p d ++ [name] → p.files name = some (b, m) →
      mode' = 0o600 ∨ mode' = m ∧ bytes' = b)
    (hkeep : ∀ (s : View ι) n v, A s → s.world.get path = some n →
      Moves p i s ⟨s.world.setNode n v, s.past⟩ → A ⟨s.world.setNode n v, s.past⟩) :
    IsolateSafe p fs₀ i (sys call) (fun s => Draft i fd path mode bytes s ∧ A s)
      (fun _ s => Draft i fd path mode' bytes' s ∧ A s)
      fun _ s => Draft i fd path mode bytes s ∧ A s := by
  refine safe_sys (fun _ _ h => h) (fun s f hs ha _ _ => ?_) (Draft.untouched.and hA)
    fun _ => Draft.untouched.and hA
  obtain ⟨⟨n, uid, hfd, hown⟩, ha⟩ := ha
  have hcalled : called p i f call s =
      ⟨s.world.setNode n ⟨.file, mode', uid, bytes'⟩, s.past⟩ := by
    unfold called
    rw [hperform, (hquiet _).1, (hquiet _).2, hfd.opened]
    change (⟨s.world.setNode n (g (s.world.nodes n)), s.past⟩ : View ι) = _
    rw [hown.node, hg]
  rw [hcalled]
  have hmade : Moves p i s ⟨s.world.setNode n ⟨.file, mode', uid, bytes'⟩, s.past⟩ :=
    hs.changes (w := ⟨.file, mode', uid, bytes'⟩) hown rfl
      (hloose s n (by rw [hown.node]))
      (fun d name b m hpath hb _ => hfile d name b m hpath hb) rfl rfl
  refine ⟨hmade.1, hmade.2.1, ⟨n, uid, ⟨hfd.opened, hfd.opener⟩, ?_⟩,
    hkeep s n _ ha hown.there hmade⟩
  exact ⟨hown.there, hown.maker, hown.only, Function.update_self ..⟩

/-- Byte after byte. -/
theorem safe_writeFileSync {fd : Nat} {D : List UInt8 → View ι → Prop}
    (hstep : ∀ written byte, IsolateSafe p fs₀ i (sys (.write fd byte)) (D written)
      (fun _ => D (written ++ [byte])) fun _ => D written) (bytes written : List UInt8) :
    IsolateSafe p fs₀ i (writeFileSync fd bytes) (D written)
      (fun _ => D (written ++ bytes)) fun _ s => ∃ written, D written s := by
  induction bytes generalizing written with
  | nil =>
      rw [List.append_nil]
      exact Safe.ret fun _ _ h => h
  | cons byte rest ih =>
      refine ((hstep written byte).post (fun _ _ _ h => h)
        fun _ _ _ h => ⟨written, h⟩).bind fun _ => ?_
      have hrest := ih (written ++ [byte])
      rwa [List.append_assoc] at hrest

/-- A publication of a candidate, being written. -/
def CandidateDraft (p : Process) (i : ι) (fd : Nat) (d : String) (mode : Nat)
    (bytes : List UInt8) (s : View ι) : Prop :=
  Draft i fd (publishPath p d) mode bytes s ∧ Candidate p i d s

/-- A candidate stays one while its publication is written. -/
theorem Candidate.setNode {d : String} {s : View ι} {n : Nat} {v : Node}
    (h : Candidate p i d s) (hn : s.world.get (publishPath p d) = some n)
    (hmade : Moves p i s ⟨s.world.setNode n v, s.past⟩) :
    Candidate p i d ⟨s.world.setNode n v, s.past⟩ := by
  obtain ⟨dir, uid, hown⟩ := h.own
  refine h.stays hmade.2.2 rfl rfl (fun m hm => ⟨fun _ hq => hq, ?_⟩) h.inside
  refine Function.update_of_ne ?_ _ _
  rintro rfl
  obtain rfl := Option.some.inj (hm.symm.trans hown.there)
  exact inDir_ne_dirPath (hown.only _ hn)

theorem safe_editPublication {call : FsCall} {fd mode mode' : Nat} {d : String}
    {bytes bytes' : List UInt8} {g : Node → Node}
    (hperform : ∀ (s : Fs) f,
      (s.perform (p.uid.getD 0) f call).2 = s.modify (s.opened fd) g)
    (hquiet : ∀ r, madeBy call r = none ∧ openedBy call r = none)
    (hg : ∀ uid, g ⟨.file, mode, uid, bytes⟩ = ⟨.file, mode', uid, bytes'⟩) :
    IsolateSafe p fs₀ i (sys call) (CandidateDraft p i fd d mode bytes)
      (fun _ => CandidateDraft p i fd d mode' bytes')
      fun _ => CandidateDraft p i fd d mode bytes := by
  refine safe_edit Candidate.undisturbed hperform hquiet hg
    (fun _ _ _ => not_fixed_publish) (fun e name b m hpath hb => ?_)
    fun s n v ha hn hmade => ha.setNode hn hmade
  exact (not_private_publish ⟨e, name, b, m, hpath, hb⟩).elim

/-- The publication is complete and closed. -/
def ReadyToLink (p : Process) (i : ι) (d : String) (s : View ι) : Prop :=
  Candidate p i d s ∧
    ∃ n uid, Own i (publishPath p d) n ⟨.file, 0o400, uid, utf8 d⟩ s

theorem ReadyToLink.untouched {d : String} : Untouched p i (ReadyToLink p i d) := by
  rintro j hj s s' hs hg hs' ⟨hc, n, uid, hown⟩
  exact ⟨Candidate.undisturbed j hj s s' hs hg hs' hc, n, uid,
    Own.undisturbed j hj s s' hs hg hs' hown⟩

theorem Candidate.release {d : String} {s : View ι} {fd : Nat} (h : Candidate p i d s) :
    Candidate p i d ⟨s.world.release fd, s.past⟩ := by
  obtain ⟨n, uid, hown⟩ := h.own
  exact ⟨h.temporary, h.unnamed,
    ⟨n, uid, hown.there, hown.maker, hown.only, hown.node⟩, h.inside⟩

theorem safe_closePublication {fd : Nat} {d : String} :
    IsolateSafe p fs₀ i (sys (.close fd)) (CandidateDraft p i fd d 0o400 (utf8 d))
      (fun _ => ReadyToLink p i d) fun _ s => ∃ n, Holding i fd n s ∧ Candidate p i d s := by
  refine (Safe.exists fun n => ((safe_close (n := n) ReadyToLink.untouched ?_).post
    (fun _ _ _ h => h) fun _ _ _ h => ⟨n, h.1, h.2.1⟩)).pre ?_
  · rintro s ⟨hc, m, uid, hown⟩
    exact ⟨hc.release, m, uid, ⟨hown.there, hown.maker, hown.only, hown.node⟩⟩
  · rintro s - ⟨⟨n, uid, hfd, hown⟩, hc⟩
    exact ⟨n, hfd, hc, n, uid, hown⟩

/-- The marker names `i`'s directory, whose publication is still there. -/
def Linked (p : Process) (i : ι) (d : String) (s : View ι) : Prop :=
  Named p s.world d ∧ ∃ n, s.world.get (publishPath p d) = some n ∧
    s.past.maker (publishPath p d) = some i

theorem Linked.untouched {d : String} : Untouched p i (Linked p i d) := by
  rintro j hj s s' hs hg hs' ⟨hd, n, hget, hmaker⟩
  have hne : s.past.maker (publishPath p d) ≠ some j := by
    rw [hmaker]
    exact fun heq => hj (Option.some.inj heq).symm
  refine ⟨hg.fixed.named hd, n, ?_, ?_⟩
  · rcases hg.kept _ _ hget with hget' | ⟨-, hmade, -⟩
    · exact hget'
    · exact (hne hmade).elim
  · rcases hg.maker (publishPath p d) with heq | ⟨hnone, -⟩
    · exact heq.trans hmaker
    · rw [hget] at hnone
      cases hnone

/-- `link(2)` is the publication. -/
theorem safe_link {d : String} :
    IsolateSafe p fs₀ i (sys (.link (publishPath p d) (markerPath p))) (ReadyToLink p i d)
      (fun _ => Linked p i d) fun _ => Candidate p i d := by
  refine safe_sys (fun _ _ h => h.1) (fun s f hs ha _ href => ?_) Candidate.undisturbed
    fun _ => Linked.untouched
  obtain ⟨hc, n, uid, hown⟩ := ha
  have hplace : s.world.noPlace (markerPath p) = none := (Option.or_eq_none_iff.mp href).2
  have hworld : (called p i f (.link (publishPath p d) (markerPath p)) s).world =
      s.world.enter (markerPath p) n := by
    change s.world.enter (markerPath p) ((s.world.get (publishPath p d)).getD 0) = _
    rw [hown.there, Option.getD_some]
  have hmade := hs.links hc hown hplace hworld rfl
  have hne : publishPath p d ≠ markerPath p := inDir_ne_dirPath
  refine ⟨hmade.1, hmade.2, ⟨n, ?_, ?_⟩, n, ?_, ?_⟩
  · rw [hworld, Fs.get_enter, if_pos rfl]
  · rw [hworld, Fs.nodes_enter, hown.node]
  · rw [hworld, Fs.get_enter, if_neg hne]
    exact hown.there
  · exact (Function.update_of_ne hne _ _).trans hown.maker

/-- What can be removed: a name of `i`'s own with nothing under it, that is not
there for good. -/
structure Removable (p : Process) (i : ι) (path : FilePath) (n : Nat) (s : View ι) :
    Prop where
  there : s.world.get path = some n
  maker : s.past.maker path = some i
  loose : ¬ Fixed p s.world path n
  only : PrivatePath p path → ∀ q, s.world.get q = some n → q = path

theorem safe_remove {call : FsCall} {path : FilePath} {A B : View ι → Prop}
    (hB : Untouched p i B) (hAB : ∀ s, A s → B s)
    (hperform : ∀ (s : Fs) f, (s.perform (p.uid.getD 0) f call).2 = s.remove path)
    (hquiet : ∀ r, madeBy call r = none ∧ openedBy call r = none)
    (hempty : ∀ (s : View ι) f, Shared p s → s.world.refusal f call = none →
      ∀ q m, s.world.get q = some m → q.dropLast ≠ path ∨ q = path)
    (hpre : ∀ s f, Shared p s → A s → s.world.refusal f call = none →
      ∃ n, Removable p i path n s)
    (hkeep : ∀ s, A s → Moves p i s ⟨s.world.remove path, s.past⟩ →
      B ⟨s.world.remove path, s.past⟩) :
    IsolateSafe p fs₀ i (sys call) A (fun _ => B) fun _ => B := by
  refine safe_sys (fun s _ ha => hAB s ha) (fun s f hs ha _ href => ?_) hB fun _ => hB
  obtain ⟨n, hn⟩ := hpre s f hs ha href
  have hcalled : called p i f call s = ⟨s.world.remove path, s.past⟩ := by
    unfold called
    rw [hperform, (hquiet _).1, (hquiet _).2]
    rfl
  rw [hcalled]
  have hmade : Moves p i s ⟨s.world.remove path, s.past⟩ :=
    hs.removes hn.there hn.maker (hempty s f hs href) hn.loose hn.only rfl rfl
  exact ⟨hmade.1, hmade.2.1, hkeep s ha hmade⟩

/-- There is nothing under what is no directory. -/
theorem unlink_childless {s : View ι} (hs : Shared p s) {f : Fate} {path : FilePath}
    (href : s.world.refusal f (.unlink path) = none) :
    ∀ q m, s.world.get q = some m → q.dropLast ≠ path ∨ q = path := by
  have huse : s.world.noUse path
      (fun kind => if kind = .directory then some "EISDIR" else none) = none := href
  obtain ⟨n, hget, hkind⟩ := Fs.noUse_eq_none.mp huse
  intro q m hq
  refine .inl fun hdrop => ?_
  obtain ⟨dir, hdir, hdirkind⟩ := hs.rooted q m hq
  rw [hdrop, hget] at hdir
  obtain rfl := Option.some.inj hdir
  rw [if_pos hdirkind] at hkind
  cases hkind

theorem rmdir_childless {s : Fs} {f : Fate} {path : FilePath}
    (href : s.refusal f (.rmdir path) = none) :
    ∀ q m, s.get q = some m → q.dropLast ≠ path ∨ q = path := by
  have hany : (if s.entries.any (fun e => e.1.dropLast = path) then some "ENOTEMPTY"
      else none) = none := (Option.or_eq_none_iff.mp href).2
  intro q m hq
  refine .inl fun hdrop => ?_
  have hmem := Fs.mem_of_lookup hq
  have hsome : s.entries.any (fun e => e.1.dropLast = path) = true :=
    List.any_eq_true.mpr ⟨_, hmem, by simpa using hdrop⟩
  rw [if_pos hsome] at hany
  cases hany

/-- A candidate stays one when its publication goes. -/
theorem Candidate.remove {d : String} {s : View ι} (h : Candidate p i d s)
    (hmade : Moves p i s ⟨s.world.remove (publishPath p d), s.past⟩) :
    Candidate p i d ⟨s.world.remove (publishPath p d), s.past⟩ := by
  have hold : ∀ q n, (s.world.remove (publishPath p d)).get q = some n →
      s.world.get q = some n := by
    intro q n hq
    rw [Fs.get_remove] at hq
    split at hq
    · cases hq
    · exact hq
  refine h.stays hmade.2.2 ?_ rfl (fun n _ => ⟨fun q => hold q n, rfl⟩)
    fun q n hq => h.inside q n (hold q n hq)
  have hne : dirPath p d ≠ publishPath p d := inDir_ne_dirPath.symm
  exact Fs.get_remove.trans (if_neg hne)

theorem safe_unlinkPublication {d : String} :
    IsolateSafe p fs₀ i (sys (.unlink (publishPath p d))) (Candidate p i d)
      (fun _ => Candidate p i d) fun _ => Candidate p i d := by
  refine safe_remove Candidate.undisturbed (fun _ h => h) (fun _ _ => rfl)
    (fun _ => ⟨rfl, rfl⟩) (fun _ _ hs href => unlink_childless hs href)
    (fun s f _ h href => ?_) fun s h hmade => h.remove hmade
  have huse : s.world.noUse (publishPath p d)
      (fun kind => if kind = .directory then some "EISDIR" else none) = none := href
  obtain ⟨n, hget, -⟩ := Fs.noUse_eq_none.mp huse
  exact ⟨n, hget, (h.inside _ n hget List.dropLast_concat).2, not_fixed_publish,
    fun h => (not_private_publish h).elim⟩

theorem safe_unlinkLinked {d : String} :
    IsolateSafe p fs₀ i (sys (.unlink (publishPath p d))) (Linked p i d)
      (fun _ s => Named p s.world d) fun _ s => Named p s.world d := by
  refine safe_remove named_lasting.undisturbed (fun _ h => h.1) (fun _ _ => rfl)
    (fun _ => ⟨rfl, rfl⟩) (fun _ _ hs href => unlink_childless hs href)
    (fun s f _ h _ => ?_) fun s h hmade => hmade.2.1.fixed.named h.1
  obtain ⟨-, n, hget, hmaker⟩ := h
  exact ⟨n, hget, hmaker, not_fixed_publish, fun h => (not_private_publish h).elim⟩

theorem safe_rmdirCandidate {d : String} :
    IsolateSafe p fs₀ i (sys (.rmdir (dirPath p d))) (Candidate p i d)
      (fun _ _ => True) fun _ _ => True := by
  refine safe_remove trivial_untouched (fun _ _ => trivial) (fun _ _ => rfl)
    (fun _ => ⟨rfl, rfl⟩) (fun _ _ _ href => rmdir_childless href)
    (fun s f _ h _ => ?_) fun _ _ _ => trivial
  obtain ⟨n, uid, hown⟩ := h.own
  exact ⟨n, hown.there, hown.maker, h.not_fixed, fun h => (not_private_dirPath h).elim⟩

/-- What `publishRendezvous` has to clean up when a statement throws. -/
structure Unfinished (p : Process) (i : ι) (v : Publishing) (s : View ι) : Prop where
  fd : ∀ fd, v.fd = some fd → ∃ n, Holding i fd n s
  candidate : v.published = false → ∀ c, v.candidate = some c →
    ∃ d, c = dirPath p d ∧ Candidate p i d s
  publication : v.published = false → ∀ pub, v.publication = some pub →
    ∃ d, v.candidate = some (dirPath p d) ∧ pub = publishPath p d

theorem Unfinished.start {s : View ι} : Unfinished p i {} s where
  fd _ h := by cases h
  candidate _ _ h := by cases h
  publication _ _ h := by cases h

theorem Unfinished.of_candidate {d : String} {s : View ι} {publication : Option FilePath}
    (h : Candidate p i d s) (hpub : ∀ pub, publication = some pub → pub = publishPath p d) :
    Unfinished p i ⟨some (dirPath p d), publication, none, false⟩ s where
  fd _ h := by cases h
  candidate _ c hc := ⟨d, (Option.some.inj hc).symm, h⟩
  publication _ pub h := ⟨d, rfl, hpub pub h⟩

theorem Unfinished.of_holding {d : String} {s : View ι} {fd n : Nat}
    (hfd : Holding i fd n s) (h : Candidate p i d s) :
    Unfinished p i ⟨some (dirPath p d), some (publishPath p d), some fd, false⟩ s where
  fd fd' h := by
    obtain rfl := Option.some.inj h
    exact ⟨n, hfd⟩
  candidate _ c hc := ⟨d, (Option.some.inj hc).symm, h⟩
  publication _ pub h := ⟨d, rfl, (Option.some.inj h).symm⟩

theorem Unfinished.of_published {s : View ι} {candidate publication : Option FilePath} :
    Unfinished p i ⟨candidate, publication, none, true⟩ s where
  fd _ h := by cases h
  candidate h := by cases h
  publication h := by cases h

theorem CandidateDraft.unfinished {d : String} {s : View ι} {fd mode : Nat}
    {bytes : List UInt8} (h : CandidateDraft p i fd d mode bytes s) :
    Unfinished p i ⟨some (dirPath p d), some (publishPath p d), some fd, false⟩ s := by
  obtain ⟨⟨n, uid, hfd, -⟩, hc⟩ := h
  exact .of_holding hfd hc

theorem safe_publishRendezvousTry {root : Place} (hroot : root.path = rootPath p) :
    IsolateSafe p fs₀ i (publishRendezvousTry p root (markerPath p)) (fun _ => True)
      (fun td s => Found p td s) fun e s => Unfinished p i e.2 s := by
  unfold publishRendezvousTry
  rw [hroot]
  dsimp only
  refine (safe_under safe_mkdtemp fun _ _ _ => Unfinished.start).bind fun made => ?_
  refine Safe.exists fun d => Safe.given fun hmade => ?_
  simp only [hmade]
  have hleft : ∀ (cause : JsError) (s : View ι), Candidate p i d s →
      Unfinished p i ⟨some (dirPath p d), none, none, false⟩ s :=
    fun _ _ h => .of_candidate h fun _ h => by cases h
  have hchmod : IsolateSafe p fs₀ i (sys (.chmod (dirPath p d) 0o700)) (Candidate p i d)
      (fun _ => Candidate p i d) fun _ => Candidate p i d := by
    refine safe_chmod Candidate.undisturbed fun s h n hn => ?_
    obtain ⟨m, uid, hown⟩ := h.own
    obtain rfl := Option.some.inj (hn.symm.trans hown.there)
    rw [hown.node]
  refine (safe_under hchmod hleft).bind fun _ => ?_
  refine (safe_under (safe_assertPrivateDirectory Candidate.undisturbed) hleft).bind fun _ => ?_
  refine (safe_under safe_openPublication fun _ _ h =>
    .of_candidate h fun _ h => (Option.some.inj h).symm).bind fun opened => ?_
  have hbytes : utf8 ((dirPath p d).getLast?.getD "") = utf8 d := by
    simp [dirPath]
  rw [hbytes]
  have hwrite : IsolateSafe p fs₀ i (writeFileSync opened.fd (utf8 d))
      (CandidateDraft p i opened.fd d 0o600 [])
      (fun _ => CandidateDraft p i opened.fd d 0o600 (utf8 d))
      fun _ s => ∃ written, CandidateDraft p i opened.fd d 0o600 written s := by
    have hstep : ∀ written byte, IsolateSafe p fs₀ i (sys (.write opened.fd byte))
        (CandidateDraft p i opened.fd d 0o600 written)
        (fun _ => CandidateDraft p i opened.fd d 0o600 (written ++ [byte]))
        fun _ => CandidateDraft p i opened.fd d 0o600 written := fun written byte =>
      safe_editPublication (g := fun v => { v with bytes := v.bytes ++ [byte] })
        (fun _ _ => rfl) (fun _ => ⟨rfl, rfl⟩) fun _ => rfl
    have h := safe_writeFileSync hstep (utf8 d) []
    rwa [List.nil_append] at h
  refine (safe_under hwrite fun _ _ h =>
    h.elim fun _ h => h.unfinished).bind fun _ => ?_
  have hfchmod : IsolateSafe p fs₀ i (sys (.fchmod opened.fd 0o400))
      (CandidateDraft p i opened.fd d 0o600 (utf8 d))
      (fun _ => CandidateDraft p i opened.fd d 0o400 (utf8 d))
      fun _ => CandidateDraft p i opened.fd d 0o600 (utf8 d) :=
    safe_editPublication (g := fun v => { v with mode := 0o400 }) (fun _ _ => rfl) (fun _ => ⟨rfl, rfl⟩) fun _ => rfl
  refine (safe_under hfchmod fun _ _ h => h.unfinished).bind fun _ => ?_
  refine (safe_under (safe_fsync (Draft.untouched.and Candidate.undisturbed))
    fun _ _ h => CandidateDraft.unfinished h).bind fun _ => ?_
  refine (safe_under safe_closePublication fun _ _ h =>
    h.elim fun _ h => .of_holding h.1 h.2).bind fun _ => ?_
  refine (safe_under safe_link fun _ _ h =>
    .of_candidate h fun _ h => (Option.some.inj h).symm).bind fun _ => ?_
  refine (Safe.ignore safe_unlinkLinked).bind fun _ => ?_
  exact safe_under ((safe_readRendezvous hroot).pre fun _ _ _ => trivial)
    fun _ _ _ => .of_published

/-- What there is to remove. -/
structure Leftover (p : Process) (i : ι) (v : Publishing) (s : View ι) : Prop where
  candidate : v.published = false → ∀ c, v.candidate = some c →
    ∃ d, c = dirPath p d ∧ Candidate p i d s
  publication : v.published = false → ∀ pub, v.publication = some pub →
    ∃ d, v.candidate = some (dirPath p d) ∧ pub = publishPath p d

theorem Leftover.untouched {v : Publishing} : Untouched p i (Leftover p i v) := by
  intro j hj s s' hs hg hs' h
  refine ⟨fun hpub c hc => ?_, h.publication⟩
  obtain ⟨d, hd, hcand⟩ := h.candidate hpub c hc
  exact ⟨d, hd, Candidate.undisturbed j hj s s' hs hg hs' hcand⟩

theorem safe_closeLeftover {v : Publishing} {fd : Nat} (hfd : v.fd = some fd) :
    IsolateSafe p fs₀ i (Prog.ignore (sys (.close fd)) : Js Unit) (Unfinished p i v)
      (fun _ => Leftover p i v) fun _ _ => True := by
  refine Safe.ignore ((Safe.exists fun n => (safe_close (n := n) Leftover.untouched ?_).post
    (fun _ _ _ h => h) fun _ _ _ h => h.2).pre ?_)
  · intro s h
    refine ⟨fun hpub c hc => ?_, h.publication⟩
    obtain ⟨d, hd, hcand⟩ := h.candidate hpub c hc
    exact ⟨d, hd, hcand.release⟩
  · intro s _ h
    obtain ⟨n, hn⟩ := h.fd fd hfd
    exact ⟨n, hn, h.candidate, h.publication⟩

theorem safe_unlinkLeftover {v : Publishing} {pub : FilePath} (hv : v.published = false)
    (hpub : v.publication = some pub) :
    IsolateSafe p fs₀ i (Prog.ignore (sys (.unlink pub)) : Js Unit) (Leftover p i v)
      (fun _ => Leftover p i v) fun _ _ => True := by
  have hunlink : IsolateSafe p fs₀ i (sys (.unlink pub))
      (fun s => ∃ d, (v.candidate = some (dirPath p d) ∧ pub = publishPath p d) ∧
        Candidate p i d s) (fun _ => Leftover p i v) fun _ => Leftover p i v := by
    refine Safe.exists fun d => Safe.given fun hd => ?_
    have hleft : ∀ s, Candidate p i d s → Leftover p i v s := by
      intro s hcand
      refine ⟨fun _ c hc => ⟨d, Option.some.inj (hc.symm.trans hd.1), hcand⟩,
        fun _ pub' hpub' => ⟨d, hd.1, ?_⟩⟩
      exact (Option.some.inj (hpub'.symm.trans hpub)).trans hd.2
    rw [hd.2]
    exact safe_unlinkPublication.post (fun _ s _ h => hleft s h) fun _ s _ h => hleft s h
  refine Safe.ignore (hunlink.pre fun s _ h => ?_)
  obtain ⟨d, hc, heq⟩ := h.publication hv pub hpub
  obtain ⟨e, he, hcand⟩ := h.candidate hv _ hc
  exact ⟨d, ⟨hc, heq⟩, dirPath_inj.mp he ▸ hcand⟩

theorem safe_rmdirLeftover {v : Publishing} {c : FilePath} (hv : v.published = false)
    (hc : v.candidate = some c) :
    IsolateSafe p fs₀ i (Prog.ignore (sys (.rmdir c)) : Js Unit) (Leftover p i v)
      (fun _ _ => True) fun _ _ => True := by
  have hrmdir : IsolateSafe p fs₀ i (sys (.rmdir c))
      (fun s => ∃ d, c = dirPath p d ∧ Candidate p i d s) (fun _ _ => True)
      fun _ _ => True := by
    refine Safe.exists fun d => Safe.given fun hd => ?_
    rw [hd]
    exact safe_rmdirCandidate
  exact Safe.ignore (hrmdir.pre fun s _ h => h.candidate hv c hc)

theorem of_unpublished {published : Bool} {value : Option FilePath} {path : FilePath}
    (h : (if published then none else value) = some path) :
    published = false ∧ value = some path := by
  split at h
  · cases h
  · next hv => exact ⟨by simpa using hv, h⟩

theorem safe_publishRendezvousCatch {root : Place} (hroot : root.path = rootPath p)
    {cause : JsError} {v : Publishing} :
    IsolateSafe p fs₀ i (publishRendezvousCatch p root (markerPath p) cause v)
      (Unfinished p i v) (fun td s => Found p td s) fun _ _ => True := by
  unfold publishRendezvousCatch
  refine (safe_ifDefined (fun fd hfd => safe_closeLeftover hfd)
    fun _ _ _ h => ⟨h.candidate, h.publication⟩).bind fun _ => ?_
  refine (safe_ifDefined (fun pub h => ?_) fun _ _ _ h => h).bind fun _ => ?_
  · obtain ⟨hv, hpub⟩ := of_unpublished h
    exact safe_unlinkLeftover hv hpub
  refine (safe_ifDefined (fun c h => ?_) fun _ _ _ _ => trivial).bind fun _ => ?_
  · obtain ⟨hv, hc⟩ := of_unpublished h
    exact safe_rmdirLeftover hv hc
  split
  · exact safe_readRendezvous hroot
  · exact Safe.throw fun _ _ _ => trivial

theorem safe_publishRendezvous {root : Place} (hroot : root.path = rootPath p) :
    IsolateSafe p fs₀ i (publishRendezvous p root (markerPath p)) (fun _ => True)
      (fun td s => Found p td s) fun _ _ => True :=
  (safe_publishRendezvousTry hroot).handle fun _ => safe_publishRendezvousCatch hroot

/-- What an isolate has cached is what the marker names. -/
def Cached (p : Process) (cached : Option TempDirectory) (s : View ι) : Prop :=
  ∀ td, cached = some td → Found p td s

theorem Cached.persists {cached : Option TempDirectory} :
    Persists p fun s : View ι => Cached p cached s :=
  fun j s s' hs hg hs' h td htd => Found.persists j s s' hs hg hs' (h td htd)

theorem safe_privateTempDirectory {cached : Option TempDirectory} :
    IsolateSafe p fs₀ i (privateTempDirectory p cached) (Cached p cached)
      (fun r s => Found p r.2 s ∧ r.1 = r.2.path) fun e s => Cached p e.2 s := by
  unfold privateTempDirectory
  cases cached with
  | some td =>
      refine (safe_under (safe_validateTempDirectory.pre fun _ _ h => h td rfl)
        fun cause s h => ?_).bind fun path => Safe.ret fun _ _ h => h
      rintro _ ⟨⟩
      exact h
  | none =>
      have hnone : ∀ (cause : JsError) (s : View ι), True → Cached p none s :=
        fun _ _ _ _ h => by cases h
      refine (safe_under (safe_rendezvousRoot.pre fun _ _ _ => trivial) hnone).bind
        fun root => ?_
      refine (Safe.given (A := fun _ => True) fun hroot => ?_).pre fun _ _ h => ⟨h, trivial⟩
      have hmark : root.path ++ [p.rendezvousName] = markerPath p := by
        rw [hroot]
        rfl
      simp only [hmark]
      have hfind : IsolateSafe p fs₀ i ((readRendezvous p root (markerPath p)).handle
          fun cause => do
            if cause.cause.map JsError.code ≠ some "ENOENT" then throw cause
            publishRendezvous p root (markerPath p)) (fun _ => True)
          (fun td s => Found p td s) fun _ _ => True := by
        refine (safe_readRendezvous hroot).handle fun cause => ?_
        split
        · exact Safe.throw fun _ _ _ => trivial
        · exact safe_publishRendezvous hroot
      refine (safe_under hfind hnone).bind fun td => ?_
      refine (safe_under safe_validateTempDirectory fun cause s h => ?_).bind
        fun path => Safe.ret fun _ _ h => h
      rintro _ ⟨⟩
      exact h

end AwsKms.Model
