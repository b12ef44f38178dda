import Mathlib.Logic.Equiv.Basic
import AwsKms.Model.Threads
import AwsKms.Proofs.Bench
import AwsKms.Proofs.Refcount
import AwsKms.Proofs.Twin

/-!
# A copied context is the context

Two runs of the provider are compared that start from one state, or from
states that only some contexts tell apart. `Similar` says how they may differ:
contexts may have changed places, a copy may stand for what it was made from,
some contexts may be anything at all, and reference counts may differ, which
nothing reads. One case per call shows that calls which stay away from the
hidden contexts cannot tell such states apart.

With a context and its copy exchanged and nothing hidden, this says that the
copy does what its source would do; with one of them hidden, that what is done
to it is not seen by the other.
-/

namespace AwsKms.Model

open AwsKms.Lib

variable {Alg Key : Type} {h : Host Alg Key} {env : Env Alg Key}

/-- A key without its count. -/
def uncountedKey (k : AwskmsKey Key) : AwskmsKey Key :=
  { k with refcnt := 0, freed := false }

theorem SameKey.symm {k k' : AwskmsKey Key} (hk : SameKey k k') : SameKey k' k :=
  ⟨hk.uri.symm, hk.pub.symm, hk.fips.symm⟩

theorem SameKey.uncounted {k k' : AwskmsKey Key} (hk : SameKey k k') :
    uncountedKey k = uncountedKey k' := by
  rw [uncountedKey, uncountedKey, hk.uri, hk.pub, hk.fips]

theorem sigCall_uncounted (keys : Keys Key) (sc : SigCall) :
    sigCall h env (fun r => uncountedKey (keys r)) sc = sigCall h env keys sc := by
  cases sc with
  | setCtxParams params => rfl
  | getCtxParams wanted => rfl
  | signInit provkey params => rfl
  | sign buf tbs => rfl
  | verifyInit provkey params => rfl
  | verify sig tbs => rfl
  | digestSignInit mdname provkey params => rfl
  | digestSignUpdate data => rfl
  | digestSignFinal buf => rfl
  | digestVerifyInit mdname provkey params => rfl
  | digestVerifyUpdate data => rfl
  | digestVerifyFinal sig => rfl
  | oneshotInit mdname provkey params => rfl
  | oneshotSign buf tbs => rfl
  | oneshotVerify sig tbs => rfl

/-- Memories that differ in counts. -/
def SameKeys (keys keys' : Keys Key) : Prop := ∀ r, SameKey (keys r) (keys' r)

variable (h env) in
theorem sigCall_sameKeys {keys keys' : Keys Key} (hk : SameKeys keys keys')
    (sc : SigCall) : sigCall h env keys sc = sigCall h env keys' sc := by
  rw [← sigCall_uncounted keys, ← sigCall_uncounted keys',
    funext fun r => (hk r).uncounted]

variable (h env) in
theorem keymgmtDup_sameKey {k k' : AwskmsKey Key} (hk : SameKey k k')
    (selection : Selection) :
    awskmsKeymgmtDup h env k selection = awskmsKeymgmtDup h env k' selection := by
  have huncounted : ∀ k : AwskmsKey Key,
      awskmsKeymgmtDup h env (uncountedKey k) selection =
        awskmsKeymgmtDup h env k selection := fun k => rfl
  rw [← huncounted k, ← huncounted k', hk.uncounted]

theorem SameKeys.update {keys keys' : Keys Key} (hk : SameKeys keys keys') (r : KeyRef)
    {k k' : AwskmsKey Key} (hkk : SameKey k k') :
    SameKeys (Function.update keys r k) (Function.update keys' r k') := by
  intro q
  by_cases hq : q = r
  · subst hq
    rw [Function.update_self, Function.update_self]
    exact hkk
  · rw [Function.update_of_ne hq, Function.update_of_ne hq]
    exact hk q

theorem SameKeys.applyRefs {keys keys' : Keys Key} (hk : SameKeys keys keys')
    (trace : List Event) : SameKeys (applyRefs keys trace) (applyRefs keys' trace) :=
  fun r => (applyRefs_same keys trace r).symm.trans
    ((hk r).trans (applyRefs_same keys' trace r))

theorem SameKeys.applyRefs_left {keys keys' : Keys Key} (hk : SameKeys keys keys')
    (trace : List Event) : SameKeys (Model.applyRefs keys trace) keys' :=
  fun r => (applyRefs_same keys trace r).symm.trans (hk r)

/-- A store context, and a key that may have another count. -/
structure SameStore (st st' : StoreState Key) : Prop where
  ctx : st.ctx = st'.ctx
  key : SameKey st.key st'.key

theorem setCtxParams_sameStore (params : Option (List OsslParam)) :
    (awskmsStoreSetCtxParams env params : Act (StoreState Key) Event).Lockstep SameStore
      (awskmsStoreSetCtxParams env params) := by
  unfold awskmsStoreSetCtxParams
  split
  · exact Act.lockstep_done
  · next ps =>
      refine Act.Lockstep.andThen ?_ ?_
      · unfold applyExpect
        split
        · exact Act.lockstep_done
        · split
          · exact Act.lockstep_refuse _
          · intro st st' hst
            refine ⟨rfl, rfl, ⟨?_, hst.key⟩⟩
            dsimp only
            rw [hst.ctx]
      · intro st st' hst
        unfold awskmsStoreApplyProperties
        split
        · exact Act.lockstep_refuse _ st st' hst
        · split
          · exact ⟨rfl, rfl, ⟨hst.ctx, ⟨hst.key.uri, hst.key.pub, rfl⟩⟩⟩
          · exact ⟨rfl, rfl, hst⟩

theorem storeLoad_sameStore (cb : ObjectCb) :
    (awskmsStoreLoad h env cb).Lockstep SameStore (awskmsStoreLoad h env cb) := by
  have hload : (awskmsStoreLoadKey h env).Lockstep SameStore (awskmsStoreLoadKey h env) := by
    intro st st' hst
    unfold awskmsStoreLoadKey
    dsimp only
    rw [hst.key.uri, hst.key.pub, hst.key.fips]
    split
    · exact Act.lockstep_done st st' hst
    · split
      · exact Act.lockstep_refuse _ st st' hst
      · exact ⟨rfl, rfl, ⟨hst.ctx, ⟨rfl, rfl, rfl⟩⟩⟩
  have hemit : (emitObject env cb : Act (StoreState Key) Event).Lockstep SameStore
      (emitObject env cb) := by
    intro st st' hst
    have hspec : awskmsKeySpec st.key = awskmsKeySpec st'.key := by
      rw [awskmsKeySpec, awskmsKeySpec, hst.key.pub]
    unfold emitObject
    refine ⟨rfl, ?_, ⟨?_, hst.key⟩⟩
    · dsimp only
      rw [hst.ctx, hspec]
    · dsimp only
      rw [hst.ctx]
  intro st st' hst
  unfold awskmsStoreLoad
  rw [hst.ctx]
  split
  · exact Act.lockstep_refuse _ st st' hst
  · split
    · exact ⟨rfl, rfl, ⟨by dsimp only, hst.key⟩⟩
    · exact hload.andThen hemit st st' hst

/-! ## Calls that name contexts

One lemma for each kind of call: from similar states, with the contexts it
names renamed, it gives the same replies and ends in similar states. A call on
a stand-in is where twins come in. -/

/-- The same call, on another context. -/
def Call.rename (σ : CtxRef → CtxRef) : Call → Call
  | .sigFreectx c => .sigFreectx (σ c)
  | .sigDupctx c => .sigDupctx (σ c)
  | .sig c sc => .sig (σ c) sc
  | call => call

/-- What a copy keeps of an entry. -/
def entryCopy (entry : SigTable × AwskmsSigCtx Alg Key) :
    SigTable × AwskmsSigCtx Alg Key := (entry.1, entry.2.copy)

/-- States that no call on a context outside `hidden` can tell apart, when the
contexts of the one are those of the other under `σ`. The next context has one
name in both, or a name that is hidden. -/
structure Similar (σ : Equiv.Perm CtxRef) (hidden : CtxRef → Prop)
    (s t : Sys Alg Key) : Prop where
  keys : SameKeys s.keys t.keys
  nextKey : s.nextKey = t.nextKey
  handles : s.handles = t.handles
  stores : s.stores = t.stores
  nextStore : s.nextStore = t.nextStore
  names : s.nextCtx = t.nextCtx ∨
    ∀ c, s.nextCtx ≤ c ∨ t.nextCtx ≤ c → hidden c
  fixes : ∀ c, s.nextCtx ≤ c ∨ t.nextCtx ≤ c → σ c = c
  ctxs : ∀ c, ¬ hidden c →
    (s.ctxs c).map entryCopy = (t.ctxs (σ c)).map entryCopy

namespace Similar

variable {σ : Equiv.Perm CtxRef} {hidden : CtxRef → Prop} {s t : Sys Alg Key}

theorem entry (hs : Similar σ hidden s t) {c : CtxRef} (hc : ¬ hidden c) :
    (s.ctxs c = none ∧ t.ctxs (σ c) = none) ∨
      ∃ table x y, s.ctxs c = some (table, x) ∧ t.ctxs (σ c) = some (table, y) ∧
        Twin x y := by
  have heq := hs.ctxs c hc
  cases hx : s.ctxs c with
  | none =>
      rw [hx] at heq
      exact .inl ⟨rfl, Option.map_eq_none_iff.mp heq.symm⟩
  | some entry =>
      obtain ⟨table, x⟩ := entry
      rw [hx] at heq
      obtain ⟨⟨table', y⟩, hy, hentry⟩ := Option.map_eq_some_iff.mp heq.symm
      obtain ⟨rfl, hcopy⟩ := Prod.mk.inj hentry
      exact .inr ⟨table', x, y, rfl, hy, ⟨hcopy.symm⟩⟩

theorem moveRefs (hs : Similar σ hidden s t) (trace : List Event) :
    Similar σ hidden (s.moveRefs trace) (t.moveRefs trace) :=
  { hs with keys := hs.keys.applyRefs trace }

/-- One more context. -/
theorem addCtx (hs : Similar σ hidden s t) (table : SigTable)
    {x y : AwskmsSigCtx Alg Key} (ht : Twin x y) :
    Similar σ hidden (s.addCtx table x) (t.addCtx table y) := by
  have hlater : ∀ c, s.nextCtx + 1 ≤ c ∨ t.nextCtx + 1 ≤ c →
      s.nextCtx ≤ c ∨ t.nextCtx ≤ c :=
    fun c hc => hc.imp Nat.le_of_succ_le Nat.le_of_succ_le
  refine { hs with
    names := hs.names.imp (congrArg (· + 1)) fun hall c hc => hall c (hlater c hc)
    fixes := fun c hc => hs.fixes c (hlater c hc)
    ctxs := fun c hc => ?_ }
  have hfix := hs.fixes t.nextCtx (.inr (Nat.le_refl _))
  show ((Function.update s.ctxs s.nextCtx (some (table, x))) c).map entryCopy =
    ((Function.update t.ctxs t.nextCtx (some (table, y))) (σ c)).map entryCopy
  by_cases hnew : c = t.nextCtx
  · subst hnew
    rcases hs.names with heq | hall
    · rw [hfix, ← heq, Function.update_self, Function.update_self]
      exact congrArg (fun z => some (table, z)) ht.copy
    · exact absurd (hall _ (.inr (Nat.le_refl _))) hc
  · have hne : σ c ≠ t.nextCtx := fun heq => hnew (σ.injective (heq.trans hfix.symm))
    have hold : c ≠ s.nextCtx := by
      rintro rfl
      rcases hs.names with heq | hall
      · exact hnew heq
      · exact hc (hall _ (.inl (Nat.le_refl _)))
    rw [Function.update_of_ne hold, Function.update_of_ne hne]
    exact hs.ctxs c hc

/-- The entries of one context replaced. -/
theorem update (hs : Similar σ hidden s t) (c : CtxRef)
    {entry entry' : Option (SigTable × AwskmsSigCtx Alg Key)}
    (he : entry.map entryCopy = entry'.map entryCopy) :
    Similar σ hidden { s with ctxs := Function.update s.ctxs c entry }
      { t with ctxs := Function.update t.ctxs (σ c) entry' } := by
  refine { hs with ctxs := fun d hd => ?_ }
  show ((Function.update s.ctxs c entry) d).map entryCopy =
    ((Function.update t.ctxs (σ c) entry') (σ d)).map entryCopy
  by_cases hdc : d = c
  · subst hdc
    rw [Function.update_self, Function.update_self]
    exact he
  · have hne : σ d ≠ σ c := fun heq => hdc (σ.injective heq)
    rw [Function.update_of_ne hdc, Function.update_of_ne hne]
    exact hs.ctxs d hd

theorem setCtx (hs : Similar σ hidden s t) (c : CtxRef) (table : SigTable)
    {x y : AwskmsSigCtx Alg Key} (ht : Twin x y) :
    Similar σ hidden (s.setCtx c table x) (t.setCtx (σ c) table y) :=
  hs.update c (congrArg (fun z => some (table, z)) ht.copy)

theorem dropCtx (hs : Similar σ hidden s t) (c : CtxRef) :
    Similar σ hidden (s.dropCtx c) (t.dropCtx (σ c)) := hs.update c rfl

theorem addHandle (hs : Similar σ hidden s t) (r : KeyRef) :
    Similar σ hidden (s.addHandle r) (t.addHandle r) := by
  refine { hs with handles := ?_ }
  show Function.update s.handles r _ = Function.update t.handles r _
  rw [hs.handles]

theorem dropHandle (hs : Similar σ hidden s t) (r : KeyRef) :
    Similar σ hidden (s.dropHandle r) (t.dropHandle r) := by
  refine { hs with handles := ?_ }
  show Function.update s.handles r _ = Function.update t.handles r _
  rw [hs.handles]

theorem addKey (hs : Similar σ hidden s t) (key : AwskmsKey Key) :
    Similar σ hidden (s.addKey key) (t.addKey key) := by
  refine { hs with
    keys := ?_
    nextKey := congrArg (· + 1) hs.nextKey
    handles := ?_ }
  · show SameKeys (Function.update s.keys _ _) (Function.update t.keys _ _)
    rw [← hs.nextKey]
    exact hs.keys.update _ (SameKey.refl key)
  · show Function.update s.handles _ _ = Function.update t.handles _ _
    rw [hs.handles, hs.nextKey]

theorem addStore (hs : Similar σ hidden s t) (key : AwskmsKey Key) :
    Similar σ hidden (s.addStore key) (t.addStore key) := by
  refine { hs with
    keys := ?_
    nextKey := congrArg (· + 1) hs.nextKey
    stores := ?_
    nextStore := congrArg (· + 1) hs.nextStore }
  · show SameKeys (Function.update s.keys _ _) (Function.update t.keys _ _)
    rw [← hs.nextKey]
    exact hs.keys.update _ (SameKey.refl key)
  · show Function.update s.stores _ _ = Function.update t.stores _ _
    rw [hs.stores, hs.nextStore, hs.nextKey]

theorem dropStore (hs : Similar σ hidden s t) (st : StoreRef) :
    Similar σ hidden (s.dropStore st) (t.dropStore st) := by
  refine { hs with stores := ?_ }
  show Function.update s.stores st _ = Function.update t.stores st _
  rw [hs.stores]

theorem onStore (hs : Similar σ hidden s t) (st : StoreRef)
    {act : Act (StoreState Key) Event} (hact : act.Lockstep SameStore act) :
    (s.onStore st act).Agree (Similar σ hidden) (t.onStore st act) := by
  unfold Sys.onStore
  rw [← hs.stores]
  split
  · exact ⟨rfl, rfl, hs⟩
  · next ctx _ =>
      have hout := hact ⟨ctx, s.keys ctx.key⟩ ⟨ctx, t.keys ctx.key⟩
        ⟨rfl, hs.keys ctx.key⟩
      refine ⟨hout.ok, hout.trace, ?_⟩
      dsimp only
      rw [← hout.trace]
      refine moveRefs ?_ _
      have hctx := hout.state.ctx
      refine { hs with
        keys := ?_
        stores := ?_ }
      · show SameKeys (Function.update s.keys _ _) (Function.update t.keys _ _)
        rw [← hctx]
        exact hs.keys.update _ hout.state.key
      · show Function.update s.stores st _ = Function.update t.stores st _
        rw [hs.stores, hctx]

theorem handOut {o o' : Out (Sys Alg Key) Event} (ho : o.Agree (Similar σ hidden) o') :
    (Sys.handOut o).Agree (Similar σ hidden) (Sys.handOut o') := by
  unfold Sys.handOut
  rw [ho.trace]
  split
  · next r _ => exact ⟨ho.ok, rfl, ho.state.addHandle r⟩
  · exact ho

end Similar

variable (h env) in
/-- A call that stays away from the hidden contexts cannot tell similar states
apart, and leaves similar states. -/
theorem similar_step {σ : Equiv.Perm CtxRef} {hidden : CtxRef → Prop} {call : Call}
    (hcall : ∀ c ∈ call.ctx?, ¬ hidden c) :
    (Sys.step h env call).Lockstep
      (Similar σ hidden : Sys Alg Key → Sys Alg Key → Prop)
      (Sys.step h env (call.rename σ)) := by
  intro s t hs
  cases call with
  | storeOpen uri =>
      simp only [Sys.step, Call.rename]
      split
      · exact ⟨rfl, rfl, hs.addStore _⟩
      · exact ⟨rfl, rfl, hs⟩
  | storeSetCtxParams st params => exact hs.onStore st (setCtxParams_sameStore params)
  | storeLoad st cb => exact Similar.handOut (hs.onStore st (storeLoad_sameStore cb))
  | storeEof st =>
      simp only [Sys.step, Call.rename]
      rw [hs.stores]
      exact ⟨rfl, rfl, hs⟩
  | storeClose st =>
      simp only [Sys.step, Call.rename]
      rw [← hs.stores]
      split
      · exact ⟨rfl, rfl, hs⟩
      · exact ⟨rfl, rfl, (hs.dropStore st).moveRefs _⟩
  | keymgmtFree r => exact ⟨rfl, rfl, (hs.dropHandle r).moveRefs _⟩
  | keymgmtDup r selection =>
      simp only [Sys.step, Call.rename]
      rw [← keymgmtDup_sameKey h env (hs.keys r)]
      split
      · exact ⟨rfl, rfl, hs⟩
      · exact ⟨rfl, rfl, (hs.addHandle r).moveRefs _⟩
      · exact ⟨rfl, rfl, hs.addKey _⟩
  | sigNewctx table propq =>
      simp only [Sys.step, Call.rename]
      split
      · exact ⟨rfl, rfl, hs⟩
      · exact ⟨rfl, rfl, hs.addCtx table (Twin.refl _)⟩
  | sigFreectx c =>
      rcases hs.entry (hcall c rfl) with ⟨hx, hy⟩ | ⟨table, x, y, hx, hy, ht⟩
      · simp only [Sys.step, Call.rename, hx, hy]
        exact ⟨rfl, rfl, hs⟩
      · simp only [Sys.step, Call.rename, hx, hy, ht.freectx]
        exact ⟨rfl, rfl, (hs.dropCtx c).moveRefs _⟩
  | sigDupctx c =>
      rcases hs.entry (hcall c rfl) with ⟨hx, hy⟩ | ⟨table, x, y, hx, hy, ht⟩
      · simp only [Sys.step, Call.rename, hx, hy]
        exact ⟨rfl, rfl, hs⟩
      · simp only [Sys.step, Call.rename, hx, hy, dupctx_twin env ht]
        split
        · exact ⟨rfl, rfl, hs.moveRefs _⟩
        · exact ⟨rfl, rfl, (hs.addCtx table (Twin.refl _)).moveRefs _⟩
  | sig c sc =>
      rcases hs.entry (hcall c rfl) with ⟨hx, hy⟩ | ⟨table, x, y, hx, hy, ht⟩
      · simp only [Sys.step, Call.rename, hx, hy]
        exact ⟨rfl, rfl, hs⟩
      · simp only [Sys.step, Call.rename, hx, hy]
        split
        · exact ⟨rfl, rfl, hs⟩
        · have hout := sigCall_blind h env s.keys sc x y ht
          rw [← sigCall_sameKeys h env hs.keys sc]
          refine ⟨hout.ok, hout.trace, ?_⟩
          rw [hout.trace]
          exact (hs.setCtx c table hout.state).moveRefs _

namespace Similar

variable {σ : Equiv.Perm CtxRef} {hidden : CtxRef → Prop} {s t : Sys Alg Key}

theorem moveRefs_left (hs : Similar σ hidden s t) (trace : List Event) :
    Similar σ hidden (s.moveRefs trace) t :=
  { hs with keys := hs.keys.applyRefs_left trace }

theorem update_left (hs : Similar σ hidden s t) {c : CtxRef} (hc : hidden c)
    (entry : Option (SigTable × AwskmsSigCtx Alg Key)) :
    Similar σ hidden { s with ctxs := Function.update s.ctxs c entry } t := by
  refine { hs with ctxs := fun d hd => ?_ }
  have hne : d ≠ c := fun heq => hd (heq ▸ hc)
  show ((Function.update s.ctxs c entry) d).map entryCopy = _
  rw [Function.update_of_ne hne]
  exact hs.ctxs d hd

theorem addCtx_left (hs : Similar σ hidden s t)
    (hnew : ∀ c, s.nextCtx ≤ c ∨ t.nextCtx ≤ c → hidden c) (table : SigTable)
    (x : AwskmsSigCtx Alg Key) : Similar σ hidden (s.addCtx table x) t := by
  have hlater : ∀ c, s.nextCtx + 1 ≤ c ∨ t.nextCtx ≤ c →
      s.nextCtx ≤ c ∨ t.nextCtx ≤ c := fun c hc => hc.imp_left Nat.le_of_succ_le
  have hupd := hs.update_left (hnew _ (.inl (Nat.le_refl s.nextCtx)))
    (some (table, x))
  exact { hupd with
    names := .inr fun c hc => hnew c (hlater c hc)
    fixes := fun c hc => hs.fixes c (hlater c hc) }

end Similar

variable (h env) in
/-- A call on a hidden context is not seen. -/
theorem similar_unseen {σ : Equiv.Perm CtxRef} {hidden : CtxRef → Prop}
    {s t : Sys Alg Key} {call : Call} (hcall : ∃ c ∈ call.ctx?, hidden c)
    (hnew : ∀ c, s.nextCtx ≤ c ∨ t.nextCtx ≤ c → hidden c)
    (hs : Similar σ hidden s t) :
    Similar σ hidden (Sys.step h env call s).state t := by
  obtain ⟨d, hd, hhid⟩ := hcall
  cases call with
  | sigFreectx c =>
      obtain rfl := Option.some.inj hd
      simp only [Sys.step]
      split
      · exact hs
      · exact (hs.update_left hhid none).moveRefs_left _
  | sigDupctx c =>
      simp only [Sys.step]
      split
      · exact hs
      · split
        · exact hs.moveRefs_left _
        · exact (hs.addCtx_left hnew _ _).moveRefs_left _
  | sig c sc =>
      obtain rfl := Option.some.inj hd
      simp only [Sys.step]
      split
      · exact hs
      · split
        · exact hs
        · exact (hs.update_left hhid _).moveRefs_left _
  | _ => cases hd

/-! ## A copy

The exchange of a context with its copy is a renaming, and so is leaving one
of them out. Both are instances of the simulation above, run over the inputs
that follow the duplication. -/

theorem rename_refl (call : Call) : call.rename (Equiv.refl CtxRef) = call := by
  cases call with
  | _ => rfl

/-- The same input, with two contexts exchanged. -/
def Input.exchange (c d : CtxRef) (i : Input Alg Key) : Input Alg Key :=
  { i with call := i.call.rename (Equiv.swap c d) }

/-- A call on `x`, or on a context that is not there yet. -/
def Call.touches (s : Sys Alg Key) (x : CtxRef) (call : Call) : Bool :=
  call.ctx?.any fun c => decide (c = x ∨ s.nextCtx ≤ c)

/-- What the callers of a list of inputs see. -/
def replies (h : Host Alg Key) (s : Sys Alg Key) (is : List (Input Alg Key)) :
    List (Reply Event) := ((provider h).outs s is).map Out.reply

/-- Whatever is called on the one may as well be called on the other. -/
def Interchangeable (h : Host Alg Key) (s : Sys Alg Key) (c d : CtxRef) : Prop :=
  ∀ is, replies h s is = replies h s (is.map (Input.exchange c d))

/-- The calls that touch `x` change nothing for the calls that do not. -/
def Separate (h : Host Alg Key) (s : Sys Alg Key) (x : CtxRef) : Prop :=
  ∀ is : List (Input Alg Key),
    let flagged := is.map fun i => (i, i.call.touches s x)
    (Machine.erase ((provider h).flaggedOuts s flagged)).map Out.reply =
      replies h s (Machine.erase flagged)

/-- What a copy `d` of `c` is, at the states before and after it is made: the
context it was made from, made without a trace, and from then on apart from
it. -/
structure CopyOf (h : Host Alg Key) (s t : Sys Alg Key) (c d : CtxRef) : Prop where
  exact : Interchangeable h t c d
  unnoticed : ∀ is : List (Input Alg Key),
    (∀ i ∈ is, ∀ e ∈ i.call.ctx?, e < s.nextCtx) → replies h t is = replies h s is
  source : Separate h t c
  copy : Separate h t d

theorem similar_swap {s : Sys Alg Key} {c d : CtxRef} {table : SigTable}
    {x : AwskmsSigCtx Alg Key} (hc : c < s.nextCtx) (hd : d < s.nextCtx)
    (hx : s.ctxs c = some (table, x)) (hy : s.ctxs d = some (table, x.copy)) :
    Similar (Equiv.swap c d) (fun _ => False) s s where
  keys _ := SameKey.refl _
  nextKey := rfl
  handles := rfl
  stores := rfl
  nextStore := rfl
  names := .inl rfl
  fixes e he := by
    have hle : s.nextCtx ≤ e := he.elim id id
    exact Equiv.swap_apply_of_ne_of_ne (Nat.ne_of_gt (Nat.lt_of_lt_of_le hc hle))
      (Nat.ne_of_gt (Nat.lt_of_lt_of_le hd hle))
  ctxs e _ := by
    have hxy : (s.ctxs c).map entryCopy = (s.ctxs d).map entryCopy := by
      rw [hx, hy]
      exact congrArg (fun z => some (table, z)) (copy_copy x).symm
    by_cases hec : e = c
    · subst hec
      rw [Equiv.swap_apply_left]
      exact hxy
    · by_cases hed : e = d
      · subst hed
        rw [Equiv.swap_apply_right]
        exact hxy.symm
      · rw [Equiv.swap_apply_of_ne_of_ne hec hed]

theorem similar_refl (hidden : CtxRef → Prop) (s : Sys Alg Key) :
    Similar (Equiv.refl CtxRef) hidden s s where
  keys _ := SameKey.refl _
  nextKey := rfl
  handles := rfl
  stores := rfl
  nextStore := rfl
  names := .inl rfl
  fixes _ _ := rfl
  ctxs _ _ := rfl

variable (h env) in
/-- What is similar stays similar, under the calls that are seen. -/
theorem similar_same_step {hidden : CtxRef → Prop} {call : Call}
    (hcall : ∀ c ∈ call.ctx?, ¬ hidden c) :
    (Sys.step h env call).Lockstep
      (Similar (Equiv.refl CtxRef) hidden : Sys Alg Key → Sys Alg Key → Prop)
      (Sys.step h env call) := by
  intro s t hs
  have hstep := similar_step h env hcall s t hs
  rw [rename_refl] at hstep
  exact hstep

variable (h) in
/-- Nobody sees what is done to a context that is not theirs. -/
theorem separate (s : Sys Alg Key) (x : CtxRef) : Separate h s x := by
  intro is flagged
  -- two runs, in which every context from `s` on has lost its meaning
  let hidden : CtxRef → Prop := fun c => c = x ∨ s.nextCtx ≤ c
  let R : Sys Alg Key → Sys Alg Key → Prop := fun t t' =>
    Similar (Equiv.refl CtxRef) hidden t t' ∧ s.nextCtx ≤ t.nextCtx ∧
      s.nextCtx ≤ t'.nextCtx
  have htouch : ∀ call : Call, call.touches s x = true ↔ ∃ c ∈ call.ctx?, hidden c := by
    intro call
    rw [Call.touches, Option.any_eq_true]
    exact exists_congr fun c => and_congr_right fun _ => decide_eq_true_iff
  have hstart : R s s := ⟨similar_refl hidden s, Nat.le_refl _, Nat.le_refl _⟩
  refine Machine.outs_unseen (M := provider h) (R := R)
    (P := fun i => i.call.touches s x = true)
    (Q := fun i => i.call.touches s x = false) ?_ ?_ hstart ?_
  · intro i hi t t' ⟨hsim, ht, ht'⟩
    have hnew : ∀ c, t.nextCtx ≤ c ∨ t'.nextCtx ≤ c → hidden c :=
      fun c hc => .inr (hc.elim (Nat.le_trans ht) (Nat.le_trans ht'))
    exact ⟨similar_unseen h i.env ((htouch i.call).mp hi) hnew hsim,
      Nat.le_trans ht (nextCtx_step h i.env t i.call), ht'⟩
  · intro i hi t t' ⟨hsim, ht, ht'⟩
    have hcall : ∀ c ∈ i.call.ctx?, ¬ hidden c := by
      intro c hc hhid
      have htrue := (htouch i.call).mpr ⟨c, hc, hhid⟩
      rw [hi] at htrue
      cases htrue
    have hone := similar_same_step h i.env hcall t t' hsim
    exact ⟨hone.ok, hone.trace, hone.state,
      Nat.le_trans ht (nextCtx_step h i.env t i.call),
      Nat.le_trans ht' (nextCtx_step h i.env t' i.call)⟩
  · intro p hp
    obtain ⟨i, _, rfl⟩ := List.mem_map.mp hp
    dsimp only
    split
    · next htrue => exact htrue
    · next hfalse => exact (Bool.not_eq_true _).mp hfalse

/-- The two states around a copy, for callers who do not know of it. -/
theorem similar_copied {s : Sys Alg Key} (table : SigTable) (x : AwskmsSigCtx Alg Key)
    (trace : List Event) :
    Similar (Equiv.refl CtxRef) (fun c => s.nextCtx ≤ c)
      ((s.addCtx table x).moveRefs trace) s := by
  have hnew : ∀ c, s.nextCtx ≤ c ∨ s.nextCtx ≤ c → s.nextCtx ≤ c := fun _ hc => hc.elim id id
  exact ((similar_refl _ s).addCtx_left hnew table x).moveRefs_left trace

theorem copyOf_dup {s : Sys Alg Key} {c : CtxRef} {table : SigTable}
    {x : AwskmsSigCtx Alg Key} (hs : Sound s) (hx : s.ctxs c = some (table, x))
    (trace : List Event) :
    CopyOf h s ((s.addCtx table x.copy).moveRefs trace) c s.nextCtx where
  exact is := by
    have hlt := hs.ctx c table x hx
    have hc : ((s.addCtx table x.copy).moveRefs trace).ctxs c = some (table, x) :=
      (Function.update_of_ne (Nat.ne_of_lt hlt) _ _).trans hx
    have hd : ((s.addCtx table x.copy).moveRefs trace).ctxs s.nextCtx =
        some (table, x.copy) := Function.update_self ..
    refine Machine.outs_lockstep (M := provider h) (N := provider h)
      (R := Similar (Equiv.swap c s.nextCtx) fun _ => False) (fun i _ => ?_)
      (similar_swap (Nat.lt_succ_of_lt hlt) (Nat.lt_succ_self _) hc hd)
    exact similar_step h i.env fun _ _ => id
  unnoticed is his := by
    have hcall : ∀ i ∈ is, ∀ e ∈ i.call.ctx?, ¬ s.nextCtx ≤ e :=
      fun i hi e he => Nat.not_le_of_lt (his i hi e he)
    have hrun := Machine.outs_lockstep (M := provider h) (N := provider h) (f := id)
      (fun i hi => similar_same_step h i.env (hcall i hi))
      (similar_copied table x.copy trace)
    rw [List.map_id] at hrun
    exact hrun
  source := separate h _ c
  copy := separate h _ s.nextCtx

/-- A reference taken and given back, of a key that has a holder. -/
theorem take_give_same {s : Sys Alg Key} (hc : Counted s fun _ => 0) {r : KeyRef}
    (hr : 0 < total s (fun _ => 0) r) :
    s.moveRefs [.keyUpRef r, .keyFree r] = s := by
  have hcell := hc.cell r (hc.lt hr)
  have hcount : (s.keys r).refcnt = total s (fun _ => 0) r := hcell.count
  have hlive : (s.keys r).freed = false := hcell.live hr
  have hpos : ¬ ((s.keys r).refcnt + 1 - 1 ≤ 0) := by
    rw [hcount]
    omega
  have hkeys : applyRefs s.keys [.keyUpRef r, .keyFree r] = s.keys := by
    simp only [applyRefs, List.foldl_cons, List.foldl_nil, applyRef]
    rw [Function.update_self, Function.update_idem, decide_eq_false hpos,
      Bool.or_false, Int.add_sub_cancel, Function.update_eq_self]
  rw [Sys.moveRefs, hkeys]

/-- `dupctx` makes a copy that is the context and stays apart from it, or it
leaves everything as it was. -/
theorem dupctx_exact {evs : List (Rec (Sys Alg Key) (Input Alg Key) Event)}
    {s : Sys Alg Key} (hr : (provider h).Run evs s) (env : Env Alg Key) (c : CtxRef) :
    let out := Sys.step h env (.sigDupctx c) s
    (out.ok = true → CopyOf h s out.state c s.nextCtx) ∧
      (out.ok = false → out.state = s) := by
  obtain ⟨hs, hc⟩ : Sound s ∧ Counted s fun _ => 0 :=
    hr.inv (I := fun s => Sound s ∧ Counted s fun _ => 0) ⟨sound_empty, counted_empty⟩
      fun t i ht ha => ⟨sound_step ht.1 ha, (balanced_step h i.env ht.1 ht.2 ha).counted⟩
  simp only [Sys.step]
  cases hx : s.ctxs c with
  | none => exact ⟨fun hok => absurd hok Bool.false_ne_true, fun _ => rfl⟩
  | some entry =>
      obtain ⟨table, x⟩ := entry
      dsimp only
      rcases dupctx_moves env x with ⟨hcopy, ht⟩ | ⟨hcopy, ht⟩
      · rw [hcopy]
        refine ⟨fun hok => absurd hok Bool.false_ne_true, fun _ => ?_⟩
        show s.moveRefs (awskmsSigDupctx env x).2 = s
        rcases ht with ht | ⟨r, hkey, ht⟩
        · rw [ht]
          rfl
        · rw [ht]
          exact take_give_same hc (ctx_holds hs hx hkey)
      · rw [hcopy]
        exact ⟨fun _ => copyOf_dup hs hx _, fun hok => absurd hok.symm Bool.false_ne_true⟩

namespace Bench

/-- A streaming signature in the middle of its message. -/
def midStream : List Call := opening "alias/ec" .prehash ++ [
  onCtx (.digestSignInit (some (ascii "SHA256")) (some 0) none),
  onCtx (.digestSignUpdate abc)]

end Bench

theorem dupctx_exact_midStream :
    (Bench.stateOf Bench.midStream).nextCtx = 1 ∧
      CopyOf Bench.host (Bench.stateOf Bench.midStream)
        (Sys.step Bench.host Bench.env (.sigDupctx 0)
          (Bench.stateOf Bench.midStream)).state 0
        (Bench.stateOf Bench.midStream).nextCtx := by
  have hok : (Sys.step Bench.host Bench.env (.sigDupctx 0)
      (Bench.stateOf Bench.midStream)).ok = true := by decide +kernel
  exact ⟨by decide +kernel,
    (dupctx_exact (Bench.run_runOf (by decide +kernel)) Bench.env 0).1 hok⟩

end AwsKms.Model
