import AwsKms.Lib.Refcount
import AwsKms.Lib.Tally
import AwsKms.Proofs.Effects
import AwsKms.Proofs.Reach

/-!
# Who holds a key

A key object is held by the store context that made it, by every keydata
handle libcrypto owns, and by every signature context bound to it. This file
shows that the counter of the object is the number of its holders, at the
granularity of single counter updates: `counted_step` says that every update
a call makes is backed by a holder, and that after the call counters and
holders agree again.

`extra` is what makes the step lemma usable for calls that overlap. It counts
the references of other calls in flight, which have taken theirs and not yet
put it anywhere.
-/

namespace AwsKms.Model

open AwsKms.Lib

variable {Alg Key : Type} {h : Host Alg Key} {env : Env Alg Key}
  {keys : Keys Key}

/-- The counter update an effect is, if it is one. -/
def Event.move? : Event → Option (Move KeyRef)
  | .keyUpRef r => some (.take r)
  | .keyFree r => some (.give r)
  | _ => none

/-- The counter updates of a trace, in order. -/
def moves (trace : List Event) : List (Move KeyRef) :=
  trace.filterMap Event.move?

@[simp] theorem moves_nil : moves [] = [] := rfl

@[simp] theorem moves_append (s t : List Event) :
    moves (s ++ t) = moves s ++ moves t := List.filterMap_append

def AwskmsKey.cell (k : AwskmsKey Key) : Cell := ⟨k.refcnt, k.freed⟩

/-- The counters of a memory. -/
def cells (keys : Keys Key) : KeyRef → Cell := fun r => (keys r).cell

theorem applyRef_cells {e : Event} {m : Move KeyRef} (he : e.move? = some m) :
    cells (applyRef keys e) = m.apply (cells keys) := by
  funext q
  cases e with
  | keyUpRef r =>
      obtain rfl := Option.some.inj he
      rcases update_key keys r q { keys r with refcnt := (keys r).refcnt + 1 }
        with ⟨rfl, hk⟩ | ⟨hq, hk⟩
      · rw [Move.apply, Function.update_self]
        show (Function.update keys q _ q).cell = _
        rw [hk]
        rfl
      · rw [Move.apply, Function.update_of_ne hq]
        show (Function.update keys r _ q).cell = _
        rw [hk]
        rfl
  | keyFree r =>
      obtain rfl := Option.some.inj he
      rcases update_key keys r q { keys r with
          refcnt := (keys r).refcnt - 1,
          freed := (keys r).freed || decide ((keys r).refcnt - 1 ≤ 0) }
        with ⟨rfl, hk⟩ | ⟨hq, hk⟩
      · rw [Move.apply, Function.update_self]
        show (Function.update keys q _ q).cell = _
        rw [hk]
        rfl
      · rw [Move.apply, Function.update_of_ne hq]
        show (Function.update keys r _ q).cell = _
        rw [hk]
        rfl
  | _ => cases he

theorem applyRef_still {e : Event} (he : e.move? = none) :
    applyRef keys e = keys := by
  cases e with
  | keyUpRef r => cases he
  | keyFree r => cases he
  | _ => rfl

/-- Applying a trace to the memory is playing its updates on the counters. -/
theorem applyRefs_cells (keys : Keys Key) (trace : List Event) :
    cells (applyRefs keys trace) = play (cells keys) (moves trace) := by
  induction trace generalizing keys with
  | nil => rfl
  | cons e trace ih =>
      show cells (applyRefs (applyRef keys e) trace) = _
      rw [ih]
      cases he : e.move? with
      | none =>
          have hm : moves (e :: trace) = moves trace :=
            List.filterMap_cons_none he
          rw [applyRef_still he, hm]
      | some m =>
          have hm : moves (e :: trace) = m :: moves trace :=
            List.filterMap_cons_some he
          rw [applyRef_cells he, hm]
          rfl

/-- Effects none of which is an update. -/
def Still (t : List Event) : Prop := ∀ e ∈ t, e.move? = none

theorem still_moves {t : List Event} : moves t = [] ↔ Still t := by
  rw [moves, List.filterMap_eq_nil_iff]
  rfl

theorem SetupOnly.still {t : List Event} (ht : SetupOnly t) : Still t := by
  intro e he
  cases ht e he with
  | raise _ => rfl
  | fetchMd _ _ => rfl

theorem still_append {s t : List Event} (hs : Still s) (ht : Still t) :
    Still (s ++ t) := by
  intro e he
  rcases List.mem_append.mp he with he | he
  · exact hs e he
  · exact ht e he

theorem Event.Under.still {e : Event} {propq : String} (he : e.Under propq) :
    e.move? = none := by
  cases e with
  | keyUpRef r => cases he
  | keyFree r => cases he
  | _ => rfl

/-! ## Signature calls

A signature call moves references at one place, where it binds a key: it takes
one on the new key and gives one back on the old. Everything else it does is
still. -/

/-- The updates a call on a context makes, and the key it leaves bound: none,
a key bound in place of the old one, or a key taken and given back. -/
inductive BindMoves (old given : Option KeyRef) :
    List (Move KeyRef) → Option KeyRef → Prop where
  | kept : BindMoves old given [] old
  | bound {r : KeyRef} : given = some r →
      BindMoves old given (.take r :: (old.map Move.give).toList) (some r)
  | undone {r : KeyRef} : given = some r →
      BindMoves old given [.take r, .give r] old

theorem freectx_moves (ctx : AwskmsSigCtx Alg Key) :
    moves (awskmsSigFreectx ctx) = (ctx.key.map Move.give).toList := by
  unfold awskmsSigFreectx
  cases ctx.key with
  | none => rfl
  | some r => rfl

variable (h env) in
theorem fipsView_still (k : AwskmsKey Key) :
    Still (fipsView h env k).trace := by
  intro e he
  unfold fipsView at he
  split at he
  · rw [List.mem_singleton.mp he]
    rfl
  · exact (awskmsPubkeyFromSpki_under he).still

variable (h env keys) in
theorem bindKey_moves (provkey : Option KeyRef) (x : AwskmsSigCtx Alg Key) :
    BindMoves x.key provkey (moves (bindKey h env keys provkey x).trace)
      (bindKey h env keys provkey x).state.key := by
  cases provkey with
  | none => exact .kept
  | some r =>
      have hview := still_moves.mpr (fipsView_still h env (keys r))
      simp only [bindKey]
      split
      · exact .kept
      · split
        · split
          · show BindMoves x.key _
              (.take r :: moves ((fipsView h env (keys r)).trace ++
                awskmsSigFreectx x)) (some r)
            rw [moves_append, hview, List.nil_append, freectx_moves]
            exact .bound rfl
          · show BindMoves x.key _ (.take r ::
              moves ((fipsView h env (keys r)).trace ++ [.keyFree r])) x.key
            rw [moves_append, hview, List.nil_append]
            exact .undone rfl
        · show BindMoves x.key _ (.take r :: moves (awskmsSigFreectx x)) (some r)
          rw [freectx_moves]
          exact .bound rfl

/-- A routine that leaves the key of a context alone. -/
def KeepsKey (a : Act (AwskmsSigCtx Alg Key) Event) : Prop :=
  ∀ x, (a x).state.key = x.key

theorem setDigest_keepsKey {name : Bytes} :
    KeepsKey (setDigest h env keys name) := by
  intro x
  unfold setDigest
  split
  · rfl
  · simp only []
    split
    · rfl
    · split
      · rfl
      · rfl

theorem restartHash_keepsKey :
    KeepsKey (restartHash env keys : Act (AwskmsSigCtx Alg Key) Event) := by
  intro x
  unfold restartHash
  split
  · rfl
  · split
    · rfl
    · split
      · rfl
      · rfl

theorem refuseMdname_keepsKey {mdname : Option Bytes} :
    KeepsKey (refuseMdname keys mdname : Act (AwskmsSigCtx Alg Key) Event) := by
  intro x
  unfold refuseMdname
  split
  · rfl
  · rfl
  · rfl

variable (h env keys) in
theorem afterBind_keepsKey (sc : SigCall) :
    ∀ a ∈ sc.afterBind h env keys, KeepsKey a := by
  intro a ha x
  refine afterBind_keeps (P := fun y => y.key = x.key) ?_ sc a ha x rfl
  intro sc hsc y z hw hy
  cases hw with
  | bind hr _ | bindView hr _ _ =>
      rw [hsc] at hr
      cases hr
  | _ => exact hy

variable (h env keys) in
theorem init_moves {sc : SigCall} (hsc : sc.isInit = true)
    (x : AwskmsSigCtx Alg Key) :
    BindMoves x.key sc.provkey (moves (sigCall h env keys sc x).trace)
      (sigCall h env keys sc x).state.key := by
  have hbind := bindKey_moves h env keys sc.provkey x
  rw [sigCall_init hsc]
  cases hok : (bindKey h env keys sc.provkey x).ok with
  | false =>
      rw [Act.andThen_of_failed hok]
      exact hbind
  | true =>
      rw [Act.andThen_of_ok hok]
      generalize bindKey h env keys sc.provkey x = bound at hbind
      have hkey : (Act.all (sc.afterBind h env keys) bound.state).state.key =
          bound.state.key :=
        Act.all_inv (P := fun y => y.key = bound.state.key)
          (fun a ha y hy => (afterBind_keepsKey h env keys sc a ha y).trans hy)
          rfl
      have hstill : moves (Act.all (sc.afterBind h env keys) bound.state).trace =
          [] := still_moves.mpr (afterBind_setsUp h env keys sc _).still
      show BindMoves _ _ (moves (_ ++ _)) _
      rw [moves_append, hstill, List.append_nil, hkey]
      exact hbind

/-- An effect that is not an update, in a list of one. -/
theorem still_singleton {e : Event} (he : e.move? = none) : Still [e] := by
  intro e' he'
  rw [List.mem_singleton.mp he']
  exact he

theorem still_nil : Still [] := by
  intro e he
  cases he

theorem OpEffects.still {fips : Bool} {t : List Event}
    (ht : OpEffects fips t) : Still t := by
  intro e he
  cases ht e he <;> rfl

/-- Only an init moves a counter. -/
theorem sigCall_still {sc : SigCall} (hsc : sc.isInit = false)
    (x : AwskmsSigCtx Alg Key) : Still (sigCall h env keys sc x).trace :=
  (sigCall_effects h env keys hsc x).still

variable (h env keys) in
theorem sigCall_moves (sc : SigCall) (x : AwskmsSigCtx Alg Key) :
    BindMoves x.key sc.provkey (moves (sigCall h env keys sc x).trace)
      (sigCall h env keys sc x).state.key := by
  cases hsc : sc.isInit with
  | true => exact init_moves h env keys hsc x
  | false =>
      rw [still_moves.mpr (sigCall_still hsc x)]
      rcases sigCall_key h env keys sc x with hk | ⟨r, hr, _⟩
      · rw [hk]
        exact .kept
      · rw [provkey_of_not_init hsc] at hr
        cases hr

namespace Sys

def owns (r : KeyRef) (ctx : AwskmsStoreCtx) : Bool := ctx.key == r

def isBound (r : KeyRef) (entry : SigTable × AwskmsSigCtx Alg Key) : Bool :=
  entry.2.key == some r

/-- The open store contexts that own a key. -/
def storeHolders (s : Sys Alg Key) (r : KeyRef) : Nat :=
  tally (owns r) s.stores s.nextStore

/-- The signature contexts bound to a key. -/
def ctxHolders (s : Sys Alg Key) (r : KeyRef) : Nat :=
  tally (isBound r) s.ctxs s.nextCtx

/-- The live holders of a key. -/
def holders (s : Sys Alg Key) (r : KeyRef) : Nat :=
  s.storeHolders r + s.handles r + s.ctxHolders r

end Sys

/-- One for a reference that is this key's. -/
def one (o : Option KeyRef) (r : KeyRef) : Nat := if o = some r then 1 else 0

theorem toNat_beq (o : Option KeyRef) (r : KeyRef) :
    (o == some r).toNat = one o r := by
  unfold one
  by_cases ho : o = some r
  · rw [if_pos ho, ho, beq_self_eq_true]
    rfl
  · rw [if_neg ho, beq_eq_false_iff_ne.mpr ho]
    rfl

theorem toNat_beq_some (q r : KeyRef) : (q == r).toNat = one (some q) r := by
  rw [← toNat_beq]
  rfl

theorem one_some (q r : KeyRef) : one (some q) r = if q = r then 1 else 0 := by
  unfold one
  by_cases hq : q = r
  · rw [if_pos hq, if_pos (congrArg some hq)]
  · rw [if_neg hq, if_neg (fun he => hq (Option.some.inj he))]

/-- The references to a key, those of calls in flight included. -/
def total (s : Sys Alg Key) (extra : KeyRef → Nat) (r : KeyRef) : Nat :=
  s.holders r + extra r

/-- Every counter is the number of references to its key, and a key is freed
when that number is zero. -/
structure Counted (s : Sys Alg Key) (extra : KeyRef → Nat) : Prop where
  cell : ∀ r, r < s.nextKey → (s.keys r).cell.Counts (total s extra r)
  fresh : ∀ r, s.nextKey ≤ r → total s extra r = 0 ∧ (s.keys r).freed = false
  store : ∀ st ctx, s.stores st = some ctx → st < s.nextStore

/-- What a call leaves: counters that are right again, after updates every one
of which was backed. -/
structure Balanced (s : Sys Alg Key) (extra : KeyRef → Nat) (t : Sys Alg Key)
    (ms : List (Move KeyRef)) : Prop where
  counted : Counted t extra
  backed : Backed (total s extra) ms
  freed : ∀ r, (t.keys r).freed = (play (cells s.keys) ms r).freed

variable {s t : Sys Alg Key} {extra : KeyRef → Nat} {ms : List (Move KeyRef)}

theorem Counted.lt (hc : Counted s extra) {r : KeyRef}
    (hr : 0 < total s extra r) : r < s.nextKey := by
  by_contra hn
  have hz := (hc.fresh r (Nat.le_of_not_lt hn)).1
  omega

/-- Updates that are backed, and holders that change by as much. -/
theorem Counted.balanced (hc : Counted s extra)
    (hnext : t.nextKey = s.nextKey)
    (hcells : cells t.keys = play (cells s.keys) ms)
    (hb : Backed (total s extra) ms)
    (hn : ∀ r, t.holders r + ms.count (.give r) =
      s.holders r + ms.count (.take r))
    (hstore : ∀ st ctx, t.stores st = some ctx → st < t.nextStore) :
    Balanced s extra t ms where
  counted := by
    have hafter : ∀ r, total t extra r = after (total s extra) ms r := by
      intro r
      have hcount := after_count hb r
      have hr := hn r
      unfold total at hcount ⊢
      omega
    refine ⟨fun r hr => ?_, fun r hr => ?_, hstore⟩
    · rw [hafter]
      show (cells t.keys r).Counts _
      rw [hcells]
      exact counts_play hc.cell hb r (hnext ▸ hr)
    · rw [hnext] at hr
      obtain ⟨hz, hf⟩ := hc.fresh r hr
      have hsame : play (cells s.keys) ms r = cells s.keys r :=
        play_of_unheld hb hz
      refine ⟨?_, ?_⟩
      · have hcount := after_count hb r
        have hr := hn r
        have hunheld : ms.count (.take r) = 0 := by
          rw [List.count_eq_zero]
          exact not_mem_of_unheld hb hz
        unfold total at hz hcount ⊢
        omega
      · show (cells t.keys r).freed = false
        rw [hcells, hsame]
        exact hf
  backed := hb
  freed r := by
    show (cells t.keys r).freed = _
    rw [hcells]

/-- A new key, and one holder of it. -/
theorem Counted.grown (hc : Counted s extra) {key : AwskmsKey Key}
    (hnext : t.nextKey = s.nextKey + 1)
    (hkeys : t.keys = Function.update s.keys s.nextKey key)
    (hcell : key.cell = ⟨1, false⟩)
    (hn : ∀ r, t.holders r = s.holders r + one (some s.nextKey) r)
    (hstore : ∀ st ctx, t.stores st = some ctx → st < t.nextStore) :
    Balanced s extra t [] where
  counted := by
    refine ⟨fun r hr => ?_, fun r hr => ?_, hstore⟩
    · by_cases hnew : r = s.nextKey
      · subst hnew
        have hz := (hc.fresh s.nextKey (Nat.le_refl _)).1
        have hone : total t extra s.nextKey = 1 := by
          have hnew := hn s.nextKey
          rw [one_some, if_pos rfl] at hnew
          unfold total at hz ⊢
          omega
        rw [hone, hkeys, Function.update_self, hcell]
        exact ⟨rfl, by decide⟩
      · have hsame : total t extra r = total s extra r := by
          unfold total
          rw [hn r, one_some, if_neg (Ne.symm hnew), Nat.add_zero]
        rw [hsame, hkeys, Function.update_of_ne hnew]
        rw [hnext] at hr
        exact hc.cell r (Nat.lt_of_le_of_ne (Nat.le_of_lt_succ hr) hnew)
    · rw [hnext] at hr
      have hne : r ≠ s.nextKey := Nat.ne_of_gt hr
      obtain ⟨hz, hf⟩ := hc.fresh r (Nat.le_of_lt hr)
      refine ⟨?_, ?_⟩
      · unfold total at hz ⊢
        rw [hn r, one_some, if_neg (Ne.symm hne), Nat.add_zero]
        exact hz
      · rw [hkeys, Function.update_of_ne hne]
        exact hf
  backed := trivial
  freed r := by
    show (t.keys r).freed = (s.keys r).freed
    by_cases hnew : r = s.nextKey
    · subst hnew
      rw [hkeys, Function.update_self, (hc.fresh _ (Nat.le_refl _)).2]
      exact congrArg Cell.freed hcell
    · rw [hkeys, Function.update_of_ne hnew]

/-- A call that moves no counter and no holder. -/
theorem Counted.same (hc : Counted s extra) : Balanced s extra s [] :=
  hc.balanced rfl rfl trivial (fun _ => rfl) hc.store

/-! ## What each object contributes

The number of holders is a sum over all objects, so that a change of one
object is a change of one term. Each update of a store, a context or a handle
is one lemma on the sum. -/

theorem count_give_freectx (o : Option KeyRef) (r : KeyRef) :
    (o.map Move.give).toList.count (.give r) = one o r := by
  cases o with
  | none => rfl
  | some q =>
      rw [one_some]
      show [Move.give q].count (.give r) = _
      rw [count_give_cons_give, List.count_nil, Nat.zero_add]

theorem count_take_freectx (o : Option KeyRef) (r : KeyRef) :
    (o.map Move.give).toList.count (.take r) = 0 := by
  cases o with
  | none => rfl
  | some q => exact count_take_cons_give q r []

namespace Sys

theorem isBound_toNat (r : KeyRef) (entry : SigTable × AwskmsSigCtx Alg Key) :
    ((some entry).any (isBound r)).toNat = one entry.2.key r :=
  toNat_beq entry.2.key r

theorem owns_toNat (r : KeyRef) (ctx : AwskmsStoreCtx) :
    ((some ctx).any (owns r)).toNat = one (some ctx.key) r :=
  toNat_beq_some ctx.key r

theorem setCtx_holders {c : CtxRef} {table : SigTable}
    {x y : AwskmsSigCtx Alg Key} (hx : s.ctxs c = some (table, x))
    (hlt : c < s.nextCtx) (r : KeyRef) :
    (s.setCtx c table y).holders r + one x.key r =
      s.holders r + one y.key r := by
  have hcount := tally_update (p := isBound r) hx (some (table, y)) hlt
  rw [isBound_toNat, isBound_toNat] at hcount
  show s.storeHolders r + s.handles r + tally (isBound r)
      (Function.update s.ctxs c (some (table, y))) s.nextCtx + one x.key r =
    s.storeHolders r + s.handles r + tally (isBound r) s.ctxs s.nextCtx +
      one y.key r
  have hcount : _ + one x.key r = _ + one y.key r := hcount
  omega

theorem addCtx_holders (table : SigTable) (y : AwskmsSigCtx Alg Key)
    (r : KeyRef) :
    (s.addCtx table y).holders r = s.holders r + one y.key r := by
  have hcount := tally_push (p := isBound r) (f := s.ctxs) (some (table, y))
    (n := s.nextCtx)
  rw [isBound_toNat] at hcount
  show s.storeHolders r + s.handles r + tally (isBound r)
      (Function.update s.ctxs s.nextCtx (some (table, y))) (s.nextCtx + 1) =
    s.storeHolders r + s.handles r + tally (isBound r) s.ctxs s.nextCtx +
      one y.key r
  have hcount : _ = _ + one y.key r := hcount
  omega

theorem dropCtx_holders {c : CtxRef} {table : SigTable}
    {x : AwskmsSigCtx Alg Key} (hx : s.ctxs c = some (table, x))
    (hlt : c < s.nextCtx) (r : KeyRef) :
    (s.dropCtx c).holders r + one x.key r = s.holders r := by
  have hcount := tally_update (p := isBound r) hx none hlt
  rw [isBound_toNat] at hcount
  show s.storeHolders r + s.handles r + tally (isBound r)
      (Function.update s.ctxs c none) s.nextCtx + one x.key r =
    s.storeHolders r + s.handles r + tally (isBound r) s.ctxs s.nextCtx
  have hcount : _ + one x.key r = _ + 0 := hcount
  omega

theorem setStore_holders {st : StoreRef} {ctx : AwskmsStoreCtx}
    {x : StoreState Key} (hst : s.stores st = some ctx)
    (hlt : st < s.nextStore) (hkey : x.ctx.key = ctx.key) (r : KeyRef) :
    (s.setStore st x).holders r = s.holders r := by
  have hcount := tally_update (p := owns r) hst (some x.ctx) hlt
  rw [owns_toNat, owns_toNat, hkey] at hcount
  show tally (owns r) (Function.update s.stores st (some x.ctx)) s.nextStore +
      s.handles r + s.ctxHolders r =
    tally (owns r) s.stores s.nextStore + s.handles r + s.ctxHolders r
  omega

theorem dropStore_holders {st : StoreRef} {ctx : AwskmsStoreCtx}
    (hst : s.stores st = some ctx) (hlt : st < s.nextStore) (r : KeyRef) :
    (s.dropStore st).holders r + one (some ctx.key) r = s.holders r := by
  have hcount := tally_update (p := owns r) hst none hlt
  rw [owns_toNat] at hcount
  show tally (owns r) (Function.update s.stores st none) s.nextStore +
      s.handles r + s.ctxHolders r + one (some ctx.key) r =
    tally (owns r) s.stores s.nextStore + s.handles r + s.ctxHolders r
  have hcount : _ + _ = _ + 0 := hcount
  omega

theorem addStore_holders (key : AwskmsKey Key) (r : KeyRef) :
    (s.addStore key).holders r = s.holders r + one (some s.nextKey) r := by
  have hcount := tally_push (p := owns r) (f := s.stores) (n := s.nextStore)
    (some ⟨s.nextKey, false, 0⟩)
  rw [owns_toNat] at hcount
  show tally (owns r) (Function.update s.stores s.nextStore
      (some ⟨s.nextKey, false, 0⟩)) (s.nextStore + 1) + s.handles r +
      s.ctxHolders r =
    tally (owns r) s.stores s.nextStore + s.handles r + s.ctxHolders r +
      one (some s.nextKey) r
  have hcount : _ = _ + one (some s.nextKey) r := hcount
  omega

theorem addHandle_holders (q r : KeyRef) :
    (s.addHandle q).holders r = s.holders r + one (some q) r := by
  rw [one_some]
  show s.storeHolders r + Function.update s.handles q _ r + s.ctxHolders r =
    s.storeHolders r + s.handles r + s.ctxHolders r + _
  by_cases hq : q = r
  · subst hq
    rw [Function.update_self, if_pos rfl]
    omega
  · rw [Function.update_of_ne (Ne.symm hq), if_neg hq]
    omega

theorem dropHandle_holders {q : KeyRef} (hq : s.handles q ≠ 0) (r : KeyRef) :
    (s.dropHandle q).holders r + one (some q) r = s.holders r := by
  rw [one_some]
  show s.storeHolders r + Function.update s.handles q _ r + s.ctxHolders r + _ =
    s.storeHolders r + s.handles r + s.ctxHolders r
  by_cases hr : q = r
  · subst hr
    rw [Function.update_self, if_pos rfl]
    omega
  · rw [Function.update_of_ne (Ne.symm hr), if_neg hr]
    omega

theorem addKey_holders (hz : s.handles s.nextKey = 0) (key : AwskmsKey Key)
    (r : KeyRef) :
    (s.addKey key).holders r = s.holders r + one (some s.nextKey) r := by
  rw [one_some]
  show s.storeHolders r + Function.update s.handles s.nextKey 1 r +
    s.ctxHolders r = s.storeHolders r + s.handles r + s.ctxHolders r + _
  by_cases hr : s.nextKey = r
  · rw [← hr, Function.update_self, if_pos rfl, hz]
    omega
  · rw [Function.update_of_ne (Ne.symm hr), if_neg hr]
    omega

end Sys

/-! ## Every call is balanced

Call by call: the counter has moved by as much as the number of holders, and
at no update in between has it come to zero under a holder. -/

/-- A context that is bound holds its key. -/
theorem ctx_holds (hs : Sound s) {c : CtxRef} {table : SigTable}
    {x : AwskmsSigCtx Alg Key} (hx : s.ctxs c = some (table, x)) {r : KeyRef}
    (hr : x.key = some r) : 0 < total s extra r := by
  have hpos : 0 < s.ctxHolders r :=
    tally_pos (hs.ctx c table x hx) hx
      (show (x.key == some r) = true by rw [hr, beq_self_eq_true])
  unfold total Sys.holders
  omega

theorem handle_holds {r : KeyRef} (hr : s.handles r ≠ 0) :
    0 < total s extra r := by
  unfold total Sys.holders
  omega

theorem store_holds (hc : Counted s extra) {st : StoreRef}
    {ctx : AwskmsStoreCtx} (hst : s.stores st = some ctx) :
    0 < total s extra ctx.key := by
  have hpos : 0 < s.storeHolders ctx.key :=
    tally_pos (hc.store st ctx hst) hst (beq_self_eq_true _)
  unfold total Sys.holders
  omega

/-- Moves of a system that changes no counter besides. -/
theorem cells_moveRefs {t : Sys Alg Key} (hkeys : cells t.keys = cells s.keys)
    (trace : List Event) :
    cells (t.moveRefs trace).keys = play (cells s.keys) (moves trace) := by
  show cells (applyRefs t.keys trace) = _
  rw [applyRefs_cells, hkeys]

/-- Writing a store context and its key back moves nothing. -/
theorem setStore_cells (st : StoreRef) {ctx : AwskmsStoreCtx}
    {x : StoreState Key} (hkey : x.ctx.key = ctx.key)
    (hcell : x.key.cell = (s.keys ctx.key).cell) :
    cells (s.setStore st x).keys = cells s.keys := by
  funext r
  show (Function.update s.keys x.ctx.key x.key r).cell = _
  rcases update_key s.keys x.ctx.key r x.key with ⟨rfl, hk⟩ | ⟨_, hk⟩
  · rw [hk, hcell, ← hkey]
    rfl
  · rw [hk]
    rfl

theorem setStore_bound (hc : Counted s extra) {st : StoreRef}
    (hlt : st < s.nextStore) (x : StoreState Key) :
    ∀ st' ctx, (s.setStore st x).stores st' = some ctx →
      st' < (s.setStore st x).nextStore := by
  intro st' ctx hst'
  rcases update_some hst' with ⟨rfl, _⟩ | ⟨_, hold⟩
  · exact hlt
  · exact hc.store st' ctx hold

theorem setCtxParams_balanced (hc : Counted s extra) (st : StoreRef)
    (params : Option (List OsslParam)) :
    Balanced s extra (s.onStore st (awskmsStoreSetCtxParams env params)).state
      (moves (s.onStore st (awskmsStoreSetCtxParams env params)).trace) := by
  unfold Sys.onStore
  cases hst : s.stores st with
  | none => exact hc.same
  | some ctx =>
      obtain ⟨hkey, htrace, hw⟩ :=
        storeSetCtxParams_writes env params ⟨ctx, s.keys ctx.key⟩
      have hcell : (awskmsStoreSetCtxParams env params
          ⟨ctx, s.keys ctx.key⟩).state.key.cell = (s.keys ctx.key).cell := by
        rcases hw with hw | ⟨ps, _, _, hw⟩
        · rw [hw]
        · rw [hw]
          rfl
      simp only [htrace]
      exact hc.balanced rfl (cells_moveRefs (setStore_cells st hkey hcell) [])
        trivial (fun r => Sys.setStore_holders hst (hc.store st ctx hst) hkey r)
        (setStore_bound hc (hc.store st ctx hst) _)

theorem loadKey_cell (st : StoreState Key) :
    (awskmsStoreLoadKey h env st).state.key.cell = st.key.cell := by
  obtain ⟨_, ⟨hk, _⟩ | ⟨_, answer, _, _, hk⟩⟩ :=
    awskmsStoreLoadKey_writes h env st
  · rw [hk]
  · rw [hk]
    rfl

theorem loadKey_still (st : StoreState Key) :
    Still (awskmsStoreLoadKey h env st).trace := by
  intro e he
  rcases awskmsStoreLoadKey_trace he with rfl | he
  · rfl
  · exact he.still

theorem storeLoad_cell (cb : ObjectCb) (st : StoreState Key) :
    (awskmsStoreLoad h env cb st).state.key.cell = st.key.cell := by
  rcases awskmsStoreLoad_cases h env cb st with
    ⟨_, hk, _⟩ | ⟨_, _, hk⟩ | ⟨_, hk, _, _⟩
  · rw [hk]
  · rw [hk]
    exact loadKey_cell st
  · rw [hk]
    exact loadKey_cell st

variable (h env) in
/-- A load takes at most one reference, and that is the last thing it does. -/
theorem storeLoad_moves (cb : ObjectCb) (st : StoreState Key) :
    Still (awskmsStoreLoad h env cb st).trace ∨
      ∃ pre, Still pre ∧ (awskmsStoreLoad h env cb st).trace =
        pre ++ [.keyUpRef st.ctx.key] := by
  rcases awskmsStoreLoad_cases h env cb st with
    ⟨ht, _, _⟩ | ⟨ht, _, _⟩ | ⟨_, _, _, ht⟩
  · rw [ht]
    exact .inl still_nil
  · rw [ht]
    exact .inl (loadKey_still st)
  · rw [ht]
    by_cases hup : (cb.loads && env.ok .keyUpRef) = true
    · rw [if_pos hup]
      refine .inr ⟨(awskmsStoreLoadKey h env st).trace ++
        [.objectCb (awskmsKeySpec (awskmsStoreLoadKey h env st).state.key).keytype
          st.ctx.key], still_append (loadKey_still st) (still_singleton rfl), ?_⟩
      rw [List.append_assoc]
      rfl
    · rw [if_neg hup]
      exact .inl (still_append (loadKey_still st) (still_singleton rfl))

/-- A trace that moves no counter hands nothing out. -/
theorem handOut_of_still {out : Out (Sys Alg Key) Event}
    (ht : Still out.trace) : Sys.handOut out = out := by
  unfold Sys.handOut
  split
  · next r hlast =>
      cases ht _ (List.mem_of_getLast? hlast)
  · rfl

theorem handOut_of_take {out : Out (Sys Alg Key) Event} {pre : List Event}
    {r : KeyRef} (ht : out.trace = pre ++ [.keyUpRef r]) :
    Sys.handOut out = { out with state := out.state.addHandle r } := by
  unfold Sys.handOut
  rw [ht, List.getLast?_concat]

theorem storeLoad_balanced (hc : Counted s extra) (st : StoreRef)
    (cb : ObjectCb) :
    Balanced s extra (Sys.step h env (.storeLoad st cb) s).state
      (moves (Sys.step h env (.storeLoad st cb) s).trace) := by
  show Balanced s extra
    (Sys.handOut (s.onStore st (awskmsStoreLoad h env cb))).state
    (moves (Sys.handOut (s.onStore st (awskmsStoreLoad h env cb))).trace)
  cases hst : s.stores st with
  | none =>
      have hnone : s.onStore st (awskmsStoreLoad h env cb) = ⟨false, s, []⟩ := by
        unfold Sys.onStore
        rw [hst]
      rw [hnone, handOut_of_still still_nil]
      exact hc.same
  | some ctx =>
      have hlt := hc.store st ctx hst
      have hsome : s.onStore st (awskmsStoreLoad h env cb) =
          let out := awskmsStoreLoad h env cb ⟨ctx, s.keys ctx.key⟩
          ⟨out.ok, (s.setStore st out.state).moveRefs out.trace,
            out.trace⟩ := by
        unfold Sys.onStore
        rw [hst]
      have hkey : (awskmsStoreLoad h env cb
          ⟨ctx, s.keys ctx.key⟩).state.ctx.key = ctx.key := awskmsStoreLoad_key
      have hcell : (awskmsStoreLoad h env cb
          ⟨ctx, s.keys ctx.key⟩).state.key.cell = (s.keys ctx.key).cell :=
        storeLoad_cell cb _
      have hmoves := storeLoad_moves h env cb ⟨ctx, s.keys ctx.key⟩
      rw [hsome]
      generalize awskmsStoreLoad h env cb ⟨ctx, s.keys ctx.key⟩ = out at *
      rcases hmoves with hstill | ⟨pre, hpre, ht⟩
      · rw [handOut_of_still hstill]
        show Balanced s extra ((s.setStore st out.state).moveRefs out.trace)
          (moves out.trace)
        have hcells := cells_moveRefs (setStore_cells st hkey hcell) out.trace
        rw [still_moves.mpr hstill] at hcells ⊢
        exact hc.balanced rfl hcells trivial
          (fun r => Sys.setStore_holders hst hlt hkey r)
          (setStore_bound hc hlt _)
      · rw [handOut_of_take ht]
        show Balanced s extra
          (((s.setStore st out.state).moveRefs out.trace).addHandle ctx.key)
          (moves out.trace)
        have hone : moves out.trace = [.take ctx.key] := by
          rw [ht, moves_append, still_moves.mpr hpre]
          rfl
        have hcells := cells_moveRefs (setStore_cells st hkey hcell) out.trace
        rw [hone] at hcells ⊢
        refine hc.balanced rfl hcells ⟨store_holds hc hst, trivial⟩ ?_
          (setStore_bound hc hlt _)
        intro r
        rw [Sys.addHandle_holders, one_some, count_take_cons_take,
          count_give_cons_take, List.count_nil, List.count_nil]
        have hsame := Sys.setStore_holders hst hlt hkey r
        show (s.setStore st out.state).holders r + _ + 0 = _
        omega

variable (h env) in
theorem storeOpen_cell (uri : Option Bytes) :
    (awskmsStoreOpen h env uri : Reply Event × AwskmsKey Key).2.cell =
      ⟨1, false⟩ := by
  unfold awskmsStoreOpen
  simp only []
  split
  · rfl
  · rfl

variable (h env) in
theorem storeOpen_still (uri : Option Bytes) :
    Still (awskmsStoreOpen h env uri : Reply Event × AwskmsKey Key).1.trace := by
  intro e he
  unfold awskmsStoreOpen at he
  simp only [] at he
  split at he
  · cases he
  · obtain ⟨err, _, rfl⟩ := List.mem_map.mp he
    rfl

theorem storeOpen_balanced (hc : Counted s extra) (uri : Option Bytes) :
    Balanced s extra (Sys.step h env (.storeOpen uri) s).state
      (moves (Sys.step h env (.storeOpen uri) s).trace) := by
  have hcell := storeOpen_cell h env uri
  have hstill := still_moves.mpr (storeOpen_still h env uri)
  simp only [Sys.step]
  generalize (awskmsStoreOpen h env uri : Reply Event × AwskmsKey Key) =
    opened at *
  cases hok : opened.1.ok with
  | false =>
      show Balanced s extra s (moves opened.1.trace)
      rw [hstill]
      exact hc.same
  | true =>
      show Balanced s extra (s.addStore opened.2) (moves opened.1.trace)
      rw [hstill]
      refine hc.grown rfl rfl hcell (s.addStore_holders opened.2) ?_
      intro st ctx hst
      show st < s.nextStore + 1
      rcases update_some hst with ⟨rfl, _⟩ | ⟨_, hold⟩
      · exact Nat.lt_succ_self _
      · exact Nat.lt_succ_of_lt (hc.store st ctx hold)

theorem dupKey_cell {key k : AwskmsKey Key} {selection : Selection}
    (hk : awskmsKeymgmtDup h env key selection = .fresh k) :
    k.cell = ⟨1, false⟩ := by
  unfold awskmsKeymgmtDup at hk
  split at hk
  · cases hk
  · split at hk
    · split at hk
      · cases hk
      · split at hk
        · cases hk
        · cases hk
    · split at hk
      · rw [dupPublicKey_eq (ofOption_fresh hk)]
        rfl
      · split at hk
        · obtain ⟨_, _, _, _, hdom⟩ := dupDomainParameters_eq (ofOption_fresh hk)
          rw [hdom]
          rfl
        · rw [newSubsetKey_eq (ofOption_fresh hk)]
          rfl

theorem handles_fresh (hc : Counted s extra) : s.handles s.nextKey = 0 := by
  have hz := (hc.fresh s.nextKey (Nat.le_refl _)).1
  unfold total Sys.holders at hz
  omega

theorem keymgmtDup_balanced (hc : Counted s extra) {r : KeyRef}
    (hr : s.handles r ≠ 0) (selection : Selection) :
    Balanced s extra (Sys.step h env (.keymgmtDup r selection) s).state
      (moves (Sys.step h env (.keymgmtDup r selection) s).trace) := by
  simp only [Sys.step]
  cases hdup : awskmsKeymgmtDup h env (s.keys r) selection with
  | fail => exact hc.same
  | share =>
      show Balanced s extra ((s.addHandle r).moveRefs [.keyUpRef r]) [.take r]
      refine hc.balanced rfl (cells_moveRefs rfl _)
        ⟨handle_holds hr, trivial⟩ ?_ hc.store
      intro q
      have hadd := s.addHandle_holders r q
      rw [one_some] at hadd
      rw [count_take_cons_take, count_give_cons_take, List.count_nil,
        List.count_nil]
      show (s.addHandle r).holders q + 0 = _
      omega
  | fresh key =>
      exact hc.grown rfl rfl (dupKey_cell hdup)
        (fun q => s.addKey_holders (handles_fresh hc) key q) hc.store

theorem keymgmtFree_balanced (hc : Counted s extra) {r : KeyRef}
    (hr : s.handles r ≠ 0) :
    Balanced s extra (Sys.step h env (.keymgmtFree r) s).state
      (moves (Sys.step h env (.keymgmtFree r) s).trace) := by
  show Balanced s extra ((s.dropHandle r).moveRefs [.keyFree r]) [.give r]
  refine hc.balanced rfl (cells_moveRefs rfl _) ⟨handle_holds hr, trivial⟩ ?_
    hc.store
  intro q
  have hdrop := s.dropHandle_holders hr q
  rw [one_some] at hdrop
  rw [count_take_cons_give, count_give_cons_give, List.count_nil,
    List.count_nil]
  show (s.dropHandle r).holders q + _ = _
  omega

theorem storeClose_balanced (hc : Counted s extra) (st : StoreRef) :
    Balanced s extra (Sys.step h env (.storeClose st) s).state
      (moves (Sys.step h env (.storeClose st) s).trace) := by
  simp only [Sys.step]
  cases hst : s.stores st with
  | none => exact hc.same
  | some ctx =>
      show Balanced s extra ((s.dropStore st).moveRefs [.keyFree ctx.key])
        [.give ctx.key]
      refine hc.balanced rfl (cells_moveRefs rfl _)
        ⟨store_holds hc hst, trivial⟩ ?_ ?_
      · intro q
        have hdrop := s.dropStore_holders hst (hc.store st ctx hst) q
        rw [one_some] at hdrop
        rw [count_take_cons_give, count_give_cons_give, List.count_nil,
          List.count_nil]
        show (s.dropStore st).holders q + _ = _
        omega
      · intro st' ctx' hst'
        rcases update_some hst' with ⟨_, hnone⟩ | ⟨_, hold⟩
        · cases hnone
        · exact hc.store st' ctx' hold

theorem sigFreectx_balanced (hs : Sound s) (hc : Counted s extra)
    (c : CtxRef) :
    Balanced s extra (Sys.step h env (.sigFreectx c) s).state
      (moves (Sys.step h env (.sigFreectx c) s).trace) := by
  simp only [Sys.step]
  cases hx : s.ctxs c with
  | none => exact hc.same
  | some entry =>
      obtain ⟨table, x⟩ := entry
      show Balanced s extra ((s.dropCtx c).moveRefs (awskmsSigFreectx x))
        (moves (awskmsSigFreectx x))
      refine hc.balanced rfl (cells_moveRefs rfl _) ?_ ?_ hc.store
      · rw [freectx_moves]
        cases hk : x.key with
        | none => trivial
        | some r => exact ⟨ctx_holds hs hx hk, trivial⟩
      · intro q
        have hdrop := s.dropCtx_holders hx (hs.ctx c table x hx) q
        rw [freectx_moves, count_give_freectx, count_take_freectx]
        show (s.dropCtx c).holders q + _ = _
        omega

variable (env) in
/-- What a context copy takes, and what it gives back when it fails. -/
theorem dupctx_moves (x : AwskmsSigCtx Alg Key) :
    ((awskmsSigDupctx env x).1 = none ∧
        ((awskmsSigDupctx env x).2 = [] ∨ ∃ r, x.key = some r ∧
          (awskmsSigDupctx env x).2 = [.keyUpRef r, .keyFree r])) ∨
      (awskmsSigDupctx env x).1 = some x.copy ∧
        (awskmsSigDupctx env x).2 = (x.key.map Event.keyUpRef).toList := by
  unfold awskmsSigDupctx
  split
  · exact .inl ⟨rfl, .inl rfl⟩
  · cases hk : x.key with
    | none =>
        dsimp only
        split
        · exact .inr ⟨rfl, rfl⟩
        · exact .inl ⟨rfl, .inl rfl⟩
    | some r =>
        dsimp only
        split
        · exact .inl ⟨rfl, .inl rfl⟩
        · split
          · exact .inr ⟨rfl, rfl⟩
          · exact .inl ⟨rfl, .inr ⟨r, rfl, rfl⟩⟩

theorem take_give_backed {n : KeyRef → Nat} {r : KeyRef} (hr : 0 < n r) :
    Backed n [.take r, .give r] :=
  ⟨hr, tick_take_pos hr, trivial⟩

theorem sigDupctx_balanced (hs : Sound s) (hc : Counted s extra)
    (c : CtxRef) :
    Balanced s extra (Sys.step h env (.sigDupctx c) s).state
      (moves (Sys.step h env (.sigDupctx c) s).trace) := by
  simp only [Sys.step]
  cases hx : s.ctxs c with
  | none => exact hc.same
  | some entry =>
      obtain ⟨table, x⟩ := entry
      simp only []
      rcases dupctx_moves env x with ⟨hcopy, ht⟩ | ⟨hcopy, ht⟩
      · rw [hcopy]
        show Balanced s extra (s.moveRefs (awskmsSigDupctx env x).2)
          (moves (awskmsSigDupctx env x).2)
        rcases ht with ht | ⟨r, hr, ht⟩
        · rw [ht]
          exact hc.same
        · rw [ht]
          refine hc.balanced rfl (cells_moveRefs rfl _)
            (take_give_backed (ctx_holds hs hx hr)) ?_ hc.store
          intro q
          show s.holders q + [Move.take r, Move.give r].count (.give q) =
            s.holders q + [Move.take r, Move.give r].count (.take q)
          rw [count_take_cons_take, count_give_cons_take,
            count_give_cons_give, count_take_cons_give, List.count_nil,
            List.count_nil]
      · rw [hcopy]
        show Balanced s extra
          ((s.addCtx table x.copy).moveRefs (awskmsSigDupctx env x).2)
          (moves (awskmsSigDupctx env x).2)
        rw [ht]
        refine hc.balanced rfl (cells_moveRefs rfl _) ?_ ?_ hc.store
        · cases hk : x.key with
          | none => trivial
          | some r => exact ⟨ctx_holds hs hx hk, trivial⟩
        · intro q
          have hadd := s.addCtx_holders table x.copy q
          rw [copy_key] at hadd
          cases hk : x.key with
          | none =>
              rw [hk] at hadd
              exact hadd
          | some r =>
              rw [hk, one_some] at hadd
              show (s.addCtx table x.copy).holders q +
                [Move.take r].count (.give q) =
                s.holders q + [Move.take r].count (.take q)
              rw [count_take_cons_take, count_give_cons_take, List.count_nil,
                List.count_nil]
              omega

theorem sig_balanced (hs : Sound s) (hc : Counted s extra) {c : CtxRef}
    {sc : SigCall} (hheld : ∀ r ∈ sc.provkey, s.handles r ≠ 0) :
    Balanced s extra (Sys.step h env (.sig c sc) s).state
      (moves (Sys.step h env (.sig c sc) s).trace) := by
  simp only [Sys.step]
  cases hx : s.ctxs c with
  | none => exact hc.same
  | some entry =>
      obtain ⟨table, x⟩ := entry
      simp only []
      split
      · exact hc.same
      · show Balanced s extra ((s.setCtx c table
          (sigCall h env s.keys sc x).state).moveRefs
            (sigCall h env s.keys sc x).trace)
          (moves (sigCall h env s.keys sc x).trace)
        have hset := s.setCtx_holders
          (y := (sigCall h env s.keys sc x).state) hx (hs.ctx c table x hx)
        have hmoves := sigCall_moves h env s.keys sc x
        have hcells := cells_moveRefs (s := s) (t := s.setCtx c table
          (sigCall h env s.keys sc x).state) rfl
          (sigCall h env s.keys sc x).trace
        generalize hms : moves (sigCall h env s.keys sc x).trace = ms at *
        generalize hkey : (sigCall h env s.keys sc x).state.key = key at *
        cases hmoves with
        | kept =>
            refine hc.balanced rfl hcells trivial ?_ hc.store
            intro q
            have hq := hset q
            show (s.setCtx c table _).holders q + 0 = s.holders q + 0
            omega
        | @bound r hr =>
            have hheld : 0 < total s extra r := handle_holds (hheld r hr)
            refine hc.balanced rfl hcells ⟨hheld, ?_⟩ ?_ hc.store
            · cases hk : x.key with
              | none => trivial
              | some o => exact ⟨tick_take_pos (ctx_holds hs hx hk), trivial⟩
            · intro q
              have hq := hset q
              rw [one_some] at hq
              rw [count_take_cons_take, count_give_cons_take,
                count_give_freectx, count_take_freectx]
              show (s.setCtx c table _).holders q + _ = _
              omega
        | @undone r hr =>
            have hheld : 0 < total s extra r := handle_holds (hheld r hr)
            refine hc.balanced rfl hcells (take_give_backed hheld) ?_ hc.store
            intro q
            have hq := hset q
            rw [count_take_cons_take, count_give_cons_take,
              count_give_cons_give, count_take_cons_give, List.count_nil,
              List.count_nil]
            show (s.setCtx c table _).holders q + _ = _
            omega

variable (h env) in
/-- Every call moves counters and holders alike, one backed update at a
time. -/
theorem balanced_step (hs : Sound s) (hc : Counted s extra) {call : Call}
    (ha : call.Allowed s) :
    Balanced s extra (Sys.step h env call s).state
      (moves (Sys.step h env call s).trace) := by
  cases call with
  | storeOpen uri => exact storeOpen_balanced hc uri
  | storeSetCtxParams st params => exact setCtxParams_balanced hc st params
  | storeLoad st cb => exact storeLoad_balanced hc st cb
  | storeEof st => exact hc.same
  | storeClose st => exact storeClose_balanced hc st
  | keymgmtFree r => exact keymgmtFree_balanced hc ha
  | keymgmtDup r selection => exact keymgmtDup_balanced hc ha selection
  | sigNewctx table propq =>
      simp only [Sys.step]
      unfold awskmsSigNewctx
      split
      · exact hc.same
      · next x hx =>
          split at hx
          · cases hx
          · obtain rfl := Option.some.inj hx
            refine hc.balanced rfl rfl trivial ?_ hc.store
            intro q
            exact s.addCtx_holders table _ q
  | sigFreectx c => exact sigFreectx_balanced hs hc c
  | sigDupctx c => exact sigDupctx_balanced hs hc c
  | sig c sc => exact sig_balanced hs hc ha

theorem counted_empty : Counted (Sys.empty : Sys Alg Key) fun _ => 0 where
  cell r hr := absurd hr (Nat.not_lt_zero r)
  fresh r _ := ⟨rfl, rfl⟩
  store st ctx hst := by
    simp only [Sys.empty] at hst
    cases hst

end AwsKms.Model
