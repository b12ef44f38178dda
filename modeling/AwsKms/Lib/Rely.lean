import Mathlib.Logic.Function.Basic
import AwsKms.Lib.Prog
import AwsKms.Lib.Run

/-!
# Programs beside each other

Any number of threads share one world. Each runs a program of questions, the
world answers one question at a time, and the turns come in any order. A
program that loops is cut into blocks: it returns the name of the block that
comes next, so that a thread runs for as long as it is given turns.

What a thread may rely on while the others run, and what it must guarantee to
them, is one relation between two scenes. `Safe` is the triple of a program
under it: every question keeps the invariant and the guarantee, and what is
known after the answer is `Undisturbed`, so that it is still known at the
next question whatever the others did in between. The rules for `ret`,
`throw`, a question, a sequence and a handler are those of the sequential
triple. Soundness (`safe_run`) is once and for all: in every run of the crowd
the invariant holds, and every single turn is one of the guaranteed moves.
-/

namespace AwsKms.Lib

/-- The world as it is, and what is remembered of how it came to be so. -/
structure Scene (W G : Type) where
  world : W
  past : G

/-- Threads that share a world: how it answers (`F` is what it may choose),
what each thread does in each of its blocks, and where everybody starts. -/
structure Crowd (ι Q R F W E B : Type) where
  serve : ι → F → Q → W → R × W
  legal : ι → F → Q → W → Prop
  body : ι → B → Prog Q R E B
  world : W
  block : ι → B

/-- The world and where each thread is. -/
structure Crowded (ι Q R E B W : Type) where
  world : W
  thread : ι → Prog Q R E B

namespace Crowd

variable {ι Q R F W E B G α β : Type} [DecidableEq ι]

/-- One turn of thread `i`. A thread at the end of a block goes on with the
next one, and one that has thrown is over. -/
def turn (C : Crowd ι Q R F W E B) (i : ι) (f : F) :
    Act (Crowded ι Q R E B W) (ι × Q × R) := fun s =>
  match s.thread i with
  | .ret b =>
      ⟨true, { s with thread := Function.update s.thread i (C.body i b) }, []⟩
  | .throw _ => ⟨true, s, []⟩
  | .ask q k =>
      ⟨true, ⟨(C.serve i f q s.world).2,
          Function.update s.thread i (k (C.serve i f q s.world).1)⟩,
        [(i, q, (C.serve i f q s.world).1)]⟩

/-- What the world may choose at a turn. -/
def mayTurn (C : Crowd ι Q R F W E B) (s : Crowded ι Q R E B W) (i : ι) (f : F) :
    Prop :=
  ∀ q k, s.thread i = .ask q k → C.legal i f q s.world

/-- The threads and their world as a machine; an input is whose turn it is and
what the world chooses. -/
def machine (C : Crowd ι Q R F W E B) :
    Machine (Crowded ι Q R E B W) (ι × F) (ι × Q × R) where
  start := ⟨C.world, fun i => .ret (C.block i)⟩
  allowed s input := C.mayTurn s input.1 input.2
  step input := C.turn input.1 input.2

instance (C : Crowd ι Q R F W E B) (s : Crowded ι Q R E B W) (i : ι) (f : F)
    [∀ q w, Decidable (C.legal i f q w)] : Decidable (C.mayTurn s i f) :=
  match h : s.thread i with
  | .ask q k => decidable_of_iff (C.legal i f q s.world)
      ⟨fun hl q' k' heq => by cases h.symm.trans heq; exact hl, fun hl => hl q k h⟩
  | .ret b => .isTrue fun q k heq => by cases h.symm.trans heq
  | .throw e => .isTrue fun q k heq => by cases h.symm.trans heq

instance (C : Crowd ι Q R F W E B) [∀ i f q w, Decidable (C.legal i f q w)]
    (s : Crowded ι Q R E B W) (input : ι × F) : Decidable (C.machine.allowed s input) :=
  inferInstanceAs (Decidable (C.mayTurn s input.1 input.2))

end Crowd

/-- What a proof about a crowd fixes: how the past is remembered, what holds
of every scene, and which moves each thread may make. -/
structure Pact (ι Q R W G : Type) where
  note : G → ι × Q × R → G
  past : G
  inv : Scene W G → Prop
  guar : ι → Scene W G → Scene W G → Prop

section Triple

variable {ι Q R F W E E' B G α β : Type}

/-- The scene after one answered question. -/
def Pact.after (P : Pact ι Q R W G) (C : Crowd ι Q R F W E' B) (i : ι) (f : F)
    (q : Q) (s : Scene W G) : Scene W G :=
  ⟨(C.serve i f q s.world).2, P.note s.past (i, q, (C.serve i f q s.world).1)⟩

/-- No move of another thread makes `A` false. -/
def Pact.Undisturbed (P : Pact ι Q R W G) (i : ι) (A : Scene W G → Prop) : Prop :=
  ∀ j, j ≠ i → ∀ s s', P.inv s → P.guar j s s' → P.inv s' → A s → A s'

/-- No move of any thread makes `A` false. -/
def Pact.Lasting (P : Pact ι Q R W G) (A : Scene W G → Prop) : Prop :=
  ∀ j s s', P.inv s → P.guar j s s' → P.inv s' → A s → A s'

variable (P : Pact ι Q R W G) (C : Crowd ι Q R F W E' B)

/-- Run by thread `i` from a scene where `A` holds, among threads that keep
the pact, the program keeps it too; `Ret` holds where it returns and `Thr`
where it throws. -/
def Safe (i : ι) : Prog Q R E α → (Scene W G → Prop) →
    (α → Scene W G → Prop) → (E → Scene W G → Prop) → Prop
  | .ret a, A, Ret, _ => ∀ s, P.inv s → A s → Ret a s
  | .throw e, A, _, Thr => ∀ s, P.inv s → A s → Thr e s
  | .ask q k, A, Ret, Thr => ∀ s f, P.inv s → A s → C.legal i f q s.world →
      P.inv (P.after C i f q s) ∧ P.guar i s (P.after C i f q s) ∧
        ∃ A', P.Undisturbed i A' ∧ A' (P.after C i f q s) ∧
          Safe i (k (C.serve i f q s.world).1) A' Ret Thr

variable {P C} {i : ι} {A A' : Scene W G → Prop} {Ret Ret' : α → Scene W G → Prop}
  {Thr Thr' : E → Scene W G → Prop}

theorem Safe.pre {p : Prog Q R E α} (h : Safe P C i p A Ret Thr)
    (hA : ∀ s, P.inv s → A' s → A s) : Safe P C i p A' Ret Thr := by
  cases p with
  | ret a => exact fun s hs ha => h s hs (hA s hs ha)
  | throw e => exact fun s hs ha => h s hs (hA s hs ha)
  | ask q k => exact fun s f hs ha hf => h s f hs (hA s hs ha) hf

theorem Safe.post {p : Prog Q R E α} (h : Safe P C i p A Ret Thr)
    (hR : ∀ a s, P.inv s → Ret a s → Ret' a s)
    (hT : ∀ e s, P.inv s → Thr e s → Thr' e s) : Safe P C i p A Ret' Thr' := by
  induction p generalizing A with
  | ret a => exact fun s hs ha => hR a s hs (h s hs ha)
  | throw e => exact fun s hs ha => hT e s hs (h s hs ha)
  | ask q k ih =>
      intro s f hs ha hf
      obtain ⟨hi, hg, A', hu, ha', hk⟩ := h s f hs ha hf
      exact ⟨hi, hg, A', hu, ha', ih _ hk⟩

theorem Safe.ret {a : α} (h : ∀ s, P.inv s → A s → Ret a s) :
    Safe P C i (pure a : Prog Q R E α) A Ret Thr := h

theorem Safe.throw {e : E} (h : ∀ s, P.inv s → A s → Thr e s) :
    Safe P C i (MonadExcept.throw e : Prog Q R E α) A Ret Thr := h

/-- One question: it keeps the pact, and what is known of its answer stays
known. -/
theorem Safe.call {q : Q} {Ret : R → Scene W G → Prop}
    (h : ∀ s f, P.inv s → A s → C.legal i f q s.world →
      P.inv (P.after C i f q s) ∧ P.guar i s (P.after C i f q s) ∧
        Ret (C.serve i f q s.world).1 (P.after C i f q s))
    (hu : ∀ r, P.Undisturbed i (Ret r)) :
    Safe P C i (Prog.call q : Prog Q R E R) A Ret Thr := by
  intro s f hs ha hf
  obtain ⟨hi, hg, hr⟩ := h s f hs ha hf
  exact ⟨hi, hg, _, hu _, hr, fun _ _ h => h⟩

theorem Safe.bind {p : Prog Q R E α} {k : α → Prog Q R E β}
    {End : β → Scene W G → Prop} (h : Safe P C i p A Ret Thr)
    (hk : ∀ a, Safe P C i (k a) (Ret a) End Thr) :
    Safe P C i (p >>= k) A End Thr := by
  change Safe P C i (p.bind k) A End Thr
  induction p generalizing A with
  | ret a => exact (hk a).pre h
  | throw e => exact h
  | ask q k' ih =>
      intro s f hs ha hf
      obtain ⟨hi, hg, A', hu, ha', hrest⟩ := h s f hs ha hf
      exact ⟨hi, hg, A', hu, ha', ih _ hrest⟩

theorem Safe.handle {E₂ : Type} {p : Prog Q R E α} {handler : E → Prog Q R E₂ α}
    {Thr' : E₂ → Scene W G → Prop} (h : Safe P C i p A Ret Thr)
    (hh : ∀ e, Safe P C i (handler e) (Thr e) Ret Thr') :
    Safe P C i (p.handle handler) A Ret Thr' := by
  induction p generalizing A with
  | ret a => exact h
  | throw e => exact (hh e).pre h
  | ask q k ih =>
      intro s f hs ha hf
      obtain ⟨hi, hg, A', hu, ha', hrest⟩ := h s f hs ha hf
      exact ⟨hi, hg, A', hu, ha', ih _ hrest⟩

/-- What is known of either end of a program. -/
def EitherEnd (Ret : α → Scene W G → Prop) (Thr : E → Scene W G → Prop) :
    Except E α → Scene W G → Prop
  | .ok a => Ret a
  | .error e => Thr e

theorem Safe.attempt {E₂ : Type} {p : Prog Q R E α} {Thr' : E₂ → Scene W G → Prop}
    (h : Safe P C i p A Ret Thr) :
    Safe P C i (p.attempt : Prog Q R E₂ (Except E α)) A (EitherEnd Ret Thr) Thr' := by
  have hok : Safe P C i (p >>= fun a => .ret (.ok a)) A (EitherEnd Ret Thr) Thr :=
    h.bind fun a => Safe.ret fun _ _ ha => ha
  exact hok.handle fun e => Safe.ret fun _ _ he => he

/-- Both ways out lead through the last part. -/
theorem Safe.ensure {p : Prog Q R E α} {last : Prog Q R E β}
    {End : α → Scene W G → Prop} {Thr' : E → Scene W G → Prop}
    (h : Safe P C i p A Ret Thr)
    (hok : ∀ a, Safe P C i last (Ret a) (fun _ => End a) Thr')
    (herr : ∀ e, Safe P C i last (Thr e) (fun _ => Thr' e) Thr') :
    Safe P C i (p.ensure last) A End Thr' := by
  have htry : Safe P C i (p.attempt : Prog Q R E (Except E α)) A (EitherEnd Ret Thr) Thr' :=
    h.attempt
  refine htry.bind fun x => ?_
  cases x with
  | ok a => exact (hok a).bind fun _ => Safe.ret fun _ _ ha => ha
  | error e => exact (herr e).bind fun _ => Safe.throw fun _ _ he => he

theorem Safe.ignore {E₂ : Type} {p : Prog Q R E α} {End : Scene W G → Prop}
    {Thr' : E₂ → Scene W G → Prop} (h : Safe P C i p A (fun _ => End) fun _ => End) :
    Safe P C i (p.ignore : Prog Q R E₂ Unit) A (fun _ => End) Thr' := by
  have hok : Safe P C i (p >>= fun _ => .ret ()) A (fun _ => End) fun _ => End :=
    h.bind fun _ => Safe.ret fun _ _ ha => ha
  exact hok.handle fun _ => Safe.ret fun _ _ ha => ha

/-- A program that is safe whatever it is about. -/
theorem Safe.exists {κ : Type} {p : Prog Q R E α} {A : κ → Scene W G → Prop}
    (h : ∀ x, Safe P C i p (A x) Ret Thr) :
    Safe P C i p (fun s => ∃ x, A x s) Ret Thr := by
  cases p with
  | ret a => exact fun s hs ⟨x, ha⟩ => h x s hs ha
  | throw e => exact fun s hs ⟨x, ha⟩ => h x s hs ha
  | ask q k => exact fun s f hs ⟨x, ha⟩ hf => h x s f hs ha hf

/-- What is known of no scene in particular. -/
theorem Safe.given {φ : Prop} {p : Prog Q R E α} (h : φ → Safe P C i p A Ret Thr) :
    Safe P C i p (fun s => φ ∧ A s) Ret Thr := by
  cases p with
  | ret a => exact fun s hs ⟨hφ, ha⟩ => h hφ s hs ha
  | throw e => exact fun s hs ⟨hφ, ha⟩ => h hφ s hs ha
  | ask q k => exact fun s f hs ⟨hφ, ha⟩ hf => h hφ s f hs ha hf

/-- What no move of anybody makes false need not be carried through a
program. -/
theorem Safe.frame {p : Prog Q R E α} {K : Scene W G → Prop} (hK : P.Lasting K)
    (h : Safe P C i p A Ret Thr) :
    Safe P C i p (fun s => A s ∧ K s) (fun a s => Ret a s ∧ K s)
      (fun e s => Thr e s ∧ K s) := by
  induction p generalizing A with
  | ret a => exact fun s hs ha => ⟨h s hs ha.1, ha.2⟩
  | throw e => exact fun s hs ha => ⟨h s hs ha.1, ha.2⟩
  | ask q k ih =>
      intro s f hs ha hf
      obtain ⟨hi, hg, A', hu, ha', hrest⟩ := h s f hs ha.1 hf
      refine ⟨hi, hg, fun s => A' s ∧ K s, ?_, ⟨ha', hK i s _ hs hg hi ha.2⟩, ih _ hrest⟩
      exact fun j hj s s' hs hg hs' h => ⟨hu j hj s s' hs hg hs' h.1, hK j s s' hs hg hs' h.2⟩

theorem Pact.Lasting.undisturbed (h : P.Lasting A) : P.Undisturbed i A :=
  fun j _ => h j

theorem Pact.Undisturbed.and (h : P.Undisturbed i A) (h' : P.Undisturbed i A') :
    P.Undisturbed i fun s => A s ∧ A' s :=
  fun j hj s s' hs hg hs' ha =>
    ⟨h j hj s s' hs hg hs' ha.1, h' j hj s s' hs hg hs' ha.2⟩

theorem Pact.Lasting.and (h : P.Lasting A) (h' : P.Lasting A') :
    P.Lasting fun s => A s ∧ A' s :=
  fun j s s' hs hg hs' ha => ⟨h j s s' hs hg hs' ha.1, h' j s s' hs hg hs' ha.2⟩

end Triple

section Soundness

variable {ι Q R F W E B G : Type} [DecidableEq ι] {P : Pact ι Q R W G}
  {C : Crowd ι Q R F W E B}

/-- Every block of a thread keeps the pact, from what is known where the block
begins. -/
structure Keeps (P : Pact ι Q R W G) (C : Crowd ι Q R F W E B)
    (known : ι → B → Scene W G → Prop) : Prop where
  undisturbed : ∀ i b, P.Undisturbed i (known i b)
  body : ∀ i b, Safe P C i (C.body i b) (known i b) (known i) fun _ _ => True
  inv : P.inv ⟨C.world, P.past⟩
  start : ∀ i, known i (C.block i) ⟨C.world, P.past⟩

/-- Where a thread is in a run: it knows something that is true and that the
others leave true, and it is safe from there. -/
def Stands (P : Pact ι Q R W G) (C : Crowd ι Q R F W E B)
    (known : ι → B → Scene W G → Prop) (s : Scene W G) (i : ι) (p : Prog Q R E B) :
    Prop :=
  ∃ A, P.Undisturbed i A ∧ A s ∧ Safe P C i p A (known i) fun _ _ => True

/-- The scene a run has come to. -/
def Pact.scene (P : Pact ι Q R W G) (world : W) (log : List (ι × Q × R)) : Scene W G :=
  ⟨world, log.foldl P.note P.past⟩

omit [DecidableEq ι] in
theorem Pact.scene_snoc (world : W) {world' : W} {log : List (ι × Q × R)} {i : ι} {q : Q} {r : R} :
    P.scene world' (log ++ [(i, q, r)]) =
      ⟨world', P.note (P.scene world log).past (i, q, r)⟩ := by
  simp [Pact.scene]

/-- One turn of the crowd, from a state in which every thread stands safely:
it is a move of the pact, and every thread still does. -/
theorem Keeps.turn {known : ι → B → Scene W G → Prop} (h : Keeps P C known)
    {s : Crowded ι Q R E B W} {log : List (ι × Q × R)} {i : ι} {f : F}
    (hinv : P.inv (P.scene s.world log))
    (hst : ∀ j, Stands P C known (P.scene s.world log) j (s.thread j))
    (hf : C.mayTurn s i f) :
    P.inv (P.scene (C.turn i f s).state.world (log ++ (C.turn i f s).trace)) ∧
      (∀ j, Stands P C known
        (P.scene (C.turn i f s).state.world (log ++ (C.turn i f s).trace)) j
        ((C.turn i f s).state.thread j)) ∧
      ((C.turn i f s).trace = [] ∧ (C.turn i f s).state.world = s.world ∨
        P.guar i (P.scene s.world log)
          (P.scene (C.turn i f s).state.world (log ++ (C.turn i f s).trace))) := by
  cases hp : s.thread i with
  | throw e =>
      have hturn : C.turn i f s = ⟨true, s, []⟩ := by simp [Crowd.turn, hp]
      rw [hturn, List.append_nil]
      exact ⟨hinv, hst, .inl ⟨rfl, rfl⟩⟩
  | ret b =>
      have hturn : C.turn i f s =
          ⟨true, { s with thread := Function.update s.thread i (C.body i b) }, []⟩ := by
        simp [Crowd.turn, hp]
      rw [hturn, List.append_nil]
      refine ⟨hinv, fun j => ?_, .inl ⟨rfl, rfl⟩⟩
      dsimp only
      by_cases hj : j = i
      · subst hj
        obtain ⟨A, hu, ha, hsafe⟩ := hst j
        rw [hp] at hsafe
        rw [Function.update_self]
        exact ⟨known j b, h.undisturbed j b, hsafe _ hinv ha, h.body j b⟩
      · simpa [Function.update_of_ne hj] using hst j
  | ask q k =>
      have hturn : C.turn i f s = ⟨true, ⟨(C.serve i f q s.world).2,
          Function.update s.thread i (k (C.serve i f q s.world).1)⟩,
          [(i, q, (C.serve i f q s.world).1)]⟩ := by
        simp [Crowd.turn, hp]
      rw [hturn]
      obtain ⟨A, hu, ha, hsafe⟩ := hst i
      rw [hp] at hsafe
      obtain ⟨hi, hg, A', hu', ha', hk⟩ := hsafe _ f hinv ha (hf q k hp)
      have hscene : P.scene (C.serve i f q s.world).2
          (log ++ [(i, q, (C.serve i f q s.world).1)]) =
            P.after C i f q (P.scene s.world log) := P.scene_snoc s.world
      refine ⟨hscene ▸ hi, fun j => ?_, .inr (hscene ▸ hg)⟩
      dsimp only
      rw [hscene]
      by_cases hj : j = i
      · subst hj
        simpa using ⟨A', hu', ha', hk⟩
      · obtain ⟨Aj, huj, haj, hsafej⟩ := hst j
        rw [Function.update_of_ne hj]
        exact ⟨Aj, huj, huj i (Ne.symm hj) _ _ hinv hg hi haj, hsafej⟩

/-- In every run of a crowd that keeps its pact the invariant holds, and every
thread stands safely. -/
theorem Keeps.run {known : ι → B → Scene W G → Prop} (h : Keeps P C known)
    {evs : List (Rec (Crowded ι Q R E B W) (ι × F) (ι × Q × R))}
    {s : Crowded ι Q R E B W} (hr : Machine.Run C.machine evs s) :
    P.inv (P.scene s.world (Machine.effects evs)) ∧
      ∀ j, Stands P C known (P.scene s.world (Machine.effects evs)) j (s.thread j) :=
  hr.invEffects (M := C.machine)
    (I := fun (s : Crowded ι Q R E B W) (log : List (ι × Q × R)) =>
      P.inv (P.scene s.world log) ∧
        ∀ j, Stands P C known (P.scene s.world log) j (s.thread j))
    ⟨h.inv, fun i => ⟨known i (C.block i), h.undisturbed i _, h.start i,
      fun _ _ hk => hk⟩⟩
    fun _ _ _ hI hf => ⟨(h.turn hI.1 hI.2 hf).1, (h.turn hI.1 hI.2 hf).2.1⟩

/-- Every turn of a run that asks something is a move of the pact. -/
theorem Keeps.moves {known : ι → B → Scene W G → Prop} (h : Keeps P C known)
    {before after : List (Rec (Crowded ι Q R E B W) (ι × F) (ι × Q × R))}
    {e : Rec (Crowded ι Q R E B W) (ι × F) (ι × Q × R)} {s : Crowded ι Q R E B W}
    (hr : Machine.Run C.machine (before ++ e :: after) s) :
    e.out.trace = [] ∧ e.out.state.world = e.pre.world ∨
      P.guar e.input.1 (P.scene e.pre.world (Machine.effects before))
        (P.scene e.out.state.world (Machine.effects before ++ e.out.trace)) := by
  obtain ⟨hpre, hf, hout⟩ := hr.at_split
  obtain ⟨hinv, hst⟩ := h.run hpre
  rw [hout]
  exact (h.turn hinv hst hf).2.2

/-- What no move makes false is true from then on. -/
theorem Keeps.lasts {known : ι → B → Scene W G → Prop} (h : Keeps P C known)
    {A : Scene W G → Prop} (hA : P.Lasting A)
    {before after : List (Rec (Crowded ι Q R E B W) (ι × F) (ι × Q × R))}
    {s t : Crowded ι Q R E B W} (hb : Machine.Run C.machine before s)
    (hr : Machine.Run C.machine (before ++ after) t)
    (ha : A (P.scene s.world (Machine.effects before))) :
    A (P.scene t.world (Machine.effects (before ++ after))) := by
  induction after using List.reverseRecOn generalizing t with
  | nil =>
      rw [List.append_nil] at hr ⊢
      exact hb.det hr ▸ ha
  | append_singleton after e ih =>
      rw [← List.append_assoc] at hr ⊢
      have hr : Machine.Run C.machine (before ++ after ++ e :: []) t := hr
      obtain ⟨hpre, hf, hout⟩ := hr.at_split
      have hmid := ih hpre
      have hend : t = e.out.state := hr.det hr.through
      have heff : Machine.effects (before ++ after ++ [e]) =
          Machine.effects (before ++ after) ++ e.out.trace := by
        simp [Machine.effects]
      rw [hend, heff]
      obtain ⟨hinv, -⟩ := h.run hpre
      obtain ⟨hinv', -⟩ := h.run hr.through
      rw [heff] at hinv'
      rcases h.moves hr with ⟨htrace, hworld⟩ | hg
      · rw [htrace, hworld, List.append_nil]
        exact hmid
      · exact hA _ _ _ hinv hg hinv' hmid

end Soundness

end AwsKms.Lib
