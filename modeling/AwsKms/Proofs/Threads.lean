import AwsKms.Model.Threads
import AwsKms.Proofs.Bench
import AwsKms.Proofs.Frame

/-!
# Reference counts under any interleaving

A call in flight holds the reference it took, so a counter is the number of
holders and of calls in flight that have one. `TSound` is the invariant, and
it is `Counted` with the calls in flight as the extra references. What a
thread needs from the others while its call is in flight is little: its
context stays where it is, and a key it was given keeps a handle.
-/

namespace AwsKms.Model

open AwsKms.Lib

section

variable {Alg Key : Type} {h : Host Alg Key} {env : Env Alg Key}
  {s : Sys Alg Key}

/-- A call on one context leaves the others where they are. -/
theorem ctx_kept (hs : Sound s) {call : Call} {c : CtxRef}
    {entry : SigTable × AwskmsSigCtx Alg Key} (hc : s.ctxs c = some entry)
    (hne : call.ctx? ≠ some c) :
    (Sys.step h env call s).state.ctxs c = some entry := by
  have hlt : c < s.nextCtx := hs.ctx c entry.1 entry.2 hc
  have hfresh : ∀ v, Function.update s.ctxs s.nextCtx v c = some entry := by
    intro v
    rw [Function.update_of_ne (Nat.ne_of_lt hlt), hc]
  have hother : ∀ c' v, call.ctx? = some c' →
      Function.update s.ctxs c' v c = some entry := by
    intro c' v hc'
    have hcc : c ≠ c' := by
      rintro rfl
      exact hne hc'
    rw [Function.update_of_ne hcc, hc]
  cases call with
  | storeOpen uri =>
      simp only [Sys.step]
      split
      · exact hc
      · exact hc
  | storeSetCtxParams st params =>
      show (s.onStore st _).state.ctxs c = _
      rw [onStore_ctxs]
      exact hc
  | storeLoad st cb =>
      show (Sys.handOut (s.onStore st _)).state.ctxs c = _
      rw [handOut_ctxs, onStore_ctxs]
      exact hc
  | storeEof st => exact hc
  | storeClose st =>
      simp only [Sys.step]
      split
      · exact hc
      · exact hc
  | keymgmtFree r => exact hc
  | keymgmtDup r selection =>
      simp only [Sys.step]
      split
      · exact hc
      · exact hc
      · exact hc
  | sigNewctx table propq =>
      simp only [Sys.step]
      split
      · exact hc
      · exact hfresh _
  | sigFreectx c' =>
      simp only [Sys.step]
      split
      · exact hc
      · exact hother c' none rfl
  | sigDupctx c' =>
      simp only [Sys.step]
      split
      · exact hc
      · split
        · exact hc
        · exact hfresh _
  | sig c' sc =>
      simp only [Sys.step]
      split
      · exact hc
      · split
        · exact hc
        · exact hother c' _ rfl

theorem addHandle_kept {q r : KeyRef} (hr : s.handles r ≠ 0) :
    (s.addHandle q).handles r ≠ 0 := by
  rw [Sys.addHandle_handles]
  by_cases hq : r = q
  · subst hq
    rw [Function.update_self]
    exact Nat.succ_ne_zero _
  · rw [Function.update_of_ne hq]
    exact hr

/-- Only a free takes the last handle of a key. -/
theorem handle_kept {call : Call} {r : KeyRef} (hr : s.handles r ≠ 0)
    (hfree : call = .keymgmtFree r → s.handles r ≠ 1) :
    (Sys.step h env call s).state.handles r ≠ 0 := by
  cases call with
  | storeOpen uri =>
      simp only [Sys.step]
      split
      · exact hr
      · exact hr
  | storeSetCtxParams st params =>
      show (s.onStore st _).state.handles r ≠ 0
      rw [onStore_handles]
      exact hr
  | storeLoad st cb =>
      show (Sys.handOut (s.onStore st _)).state.handles r ≠ 0
      unfold Sys.handOut
      split
      · refine addHandle_kept ?_
        rw [onStore_handles]
        exact hr
      · rw [onStore_handles]
        exact hr
  | storeEof st => exact hr
  | storeClose st =>
      simp only [Sys.step]
      split
      · exact hr
      · exact hr
  | keymgmtFree q =>
      show Function.update s.handles q (s.handles q - 1) r ≠ 0
      by_cases hq : r = q
      · subst hq
        have hone := hfree rfl
        rw [Function.update_self]
        omega
      · rw [Function.update_of_ne hq]
        exact hr
  | keymgmtDup q selection =>
      simp only [Sys.step]
      split
      · exact hr
      · exact addHandle_kept hr
      · show Function.update s.handles s.nextKey 1 r ≠ 0
        by_cases hq : r = s.nextKey
        · rw [hq, Function.update_self]
          exact Nat.one_ne_zero
        · rw [Function.update_of_ne hq]
          exact hr
  | sigNewctx table propq =>
      simp only [Sys.step]
      split
      · exact hr
      · exact hr
  | sigFreectx c =>
      simp only [Sys.step]
      split
      · exact hr
      · exact hr
  | sigDupctx c =>
      simp only [Sys.step]
      split
      · exact hr
      · split
        · exact hr
        · exact hr
  | sig c sc =>
      simp only [Sys.step]
      split
      · exact hr
      · split
        · exact hr
        · exact hr

/-! ## The first reference of a call

A call that overlaps others is in flight from its first update on. That update
is the take of a key the call was given, or of the key its context holds, and
both have a holder at that moment. -/

/-- What the first reference of a call on a context is, read off the call. -/
def takes (env : Env Alg Key) (entry : SigTable × AwskmsSigCtx Alg Key) :
    Call → Option KeyRef
  | .sig _ sc =>
      if entry.1.offers sc && env.ok .keyUpRef then sc.provkey else none
  | .sigDupctx _ =>
      if env.ok .zalloc && env.ok .keyUpRef then entry.2.key else none
  | _ => none

theorem head_still {t : List Event} (ht : Still t) (r : KeyRef) :
    t.head? ≠ some (.keyUpRef r) := by
  intro hhead
  cases ht _ (List.mem_of_head? hhead)

/-- The reference at the head of a trace. -/
def headTake (t : List Event) : Option KeyRef :=
  match t.head? with
  | some (.keyUpRef r) => some r
  | _ => none

theorem headTake_still {t : List Event} (ht : Still t) : headTake t = none := by
  unfold headTake
  split
  · next r hr => exact absurd hr (head_still ht r)
  · rfl

theorem bindKey_head {keys : Keys Key} {r : KeyRef}
    {x : AwskmsSigCtx Alg Key} (hok : env.ok .keyUpRef = true) :
    ∃ t, (bindKey h env keys (some r) x).trace = .keyUpRef r :: t := by
  have hup : ¬env.ok .keyUpRef = false := by simp [hok]
  simp only [bindKey, if_neg hup]
  split
  · split
    · exact ⟨_, rfl⟩
    · exact ⟨_, rfl⟩
  · exact ⟨_, rfl⟩

theorem headTake_append {t u : List Event} {r : KeyRef}
    (ht : ∃ t', t = .keyUpRef r :: t') : headTake (t ++ u) = some r := by
  obtain ⟨t', rfl⟩ := ht
  rfl

theorem sigCall_headTake {keys : Keys Key} (sc : SigCall)
    (x : AwskmsSigCtx Alg Key) :
    headTake (sigCall h env keys sc x).trace =
      if env.ok .keyUpRef = true then sc.provkey else none := by
  cases hsc : sc.isInit with
  | false =>
      rw [headTake_still (sigCall_still hsc x), provkey_of_not_init hsc]
      split
      · rfl
      · rfl
  | true =>
      rw [sigCall_init hsc]
      have hrest := (afterBind_setsUp h env keys sc
        (bindKey h env keys sc.provkey x).state).still
      cases hk : sc.provkey with
      | none =>
          rw [hk] at hrest
          have hnone : headTake ((bindKey h env keys none).andThen
              (Act.all (sc.afterBind h env keys)) x).trace = none := by
            unfold Act.andThen
            split
            · exact headTake_still hrest
            · exact headTake_still still_nil
          rw [hnone]
          split
          · rfl
          · rfl
      | some r =>
          by_cases hok : env.ok .keyUpRef = true
          · rw [if_pos hok]
            unfold Act.andThen
            split
            · exact headTake_append (bindKey_head hok)
            · have hhead : ∃ t, (bindKey h env keys (some r) x).trace =
                  .keyUpRef r :: t := bindKey_head hok
              obtain ⟨t, ht⟩ := hhead
              rw [ht]
              rfl
          · have hfail : bindKey h env keys (some r) x = Act.refuse [] x := by
              have hup : env.ok .keyUpRef = false := by simpa using hok
              simp only [bindKey, if_pos hup]
            rw [if_neg hok, Act.andThen_of_failed (by rw [hfail]; rfl), hfail]
            rfl

/-- The first reference of a call on a context is the same wherever the
context is. -/
theorem firstTake_eq {call : Call} {c : CtxRef}
    {entry : SigTable × AwskmsSigCtx Alg Key} (hc : s.ctxs c = some entry)
    (hcall : call.ctx? = some c) :
    firstTake h env call s = takes env entry call := by
  show headTake (Sys.step h env call s).trace = _
  cases call with
  | sigFreectx c' =>
      obtain rfl := Option.some.inj hcall
      simp only [Sys.step, hc]
      show headTake (awskmsSigFreectx entry.2) = none
      unfold awskmsSigFreectx
      split
      · rfl
      · rfl
  | sigDupctx c' =>
      obtain rfl := Option.some.inj hcall
      simp only [Sys.step, hc]
      have htrace : ∀ out : Out (Sys Alg Key) Event,
          out.trace = (awskmsSigDupctx env entry.2).2 →
          headTake out.trace = takes env entry (.sigDupctx c') := by
        intro out hout
        rw [hout, takes]
        unfold awskmsSigDupctx
        cases hz : env.ok .zalloc with
        | false => rfl
        | true =>
            rw [if_neg (by simp)]
            cases hup : env.ok .keyUpRef with
            | false =>
                cases entry.2.key with
                | none => rfl
                | some r => rfl
            | true =>
                cases entry.2.key with
                | none => rfl
                | some r =>
                    dsimp only
                    rw [if_neg (by simp)]
                    split
                    · rfl
                    · rfl
      split
      · exact htrace _ rfl
      · exact htrace _ rfl
  | sig c' sc =>
      obtain rfl := Option.some.inj hcall
      simp only [Sys.step, hc]
      rw [takes]
      cases hoff : entry.1.offers sc with
      | false => rfl
      | true =>
          rw [if_neg (by simp), Bool.true_and]
          exact sigCall_headTake sc entry.2
  | _ => cases hcall

/-- What stays true of a call in flight. -/
structure Flying (s : Sys Alg Key) (f : Flight Alg Key) : Prop where
  allowed : f.input.call.Allowed s
  here : ∃ c entry, f.input.call.ctx? = some c ∧ s.ctxs c = some entry ∧
    takes f.input.env entry f.input.call = some f.ref

theorem takes_sig {entry : SigTable × AwskmsSigCtx Alg Key} {c : CtxRef}
    {sc : SigCall} {r : KeyRef}
    (ht : takes env entry (.sig c sc) = some r) : sc.provkey = some r := by
  rw [takes] at ht
  split at ht
  · exact ht
  · cases ht

theorem takes_dup {entry : SigTable × AwskmsSigCtx Alg Key} {c : CtxRef}
    {r : KeyRef} (ht : takes env entry (.sigDupctx c) = some r) :
    entry.2.key = some r := by
  rw [takes] at ht
  split at ht
  · exact ht
  · cases ht

/-- The key of a call in flight has a holder besides the call. -/
theorem Flying.held {f : Flight Alg Key} (hs : Sound s) (hf : Flying s f) :
    0 < s.holders f.ref := by
  obtain ⟨c, entry, hcall, hc, ht⟩ := hf.here
  have ha := hf.allowed
  generalize f.input.call = call at hcall ht ha
  cases call with
  | sigFreectx c' => cases ht
  | sigDupctx c' =>
      have hheld : 0 < total s (fun _ => 0) f.ref :=
        ctx_holds hs hc (takes_dup ht)
      exact hheld
  | sig c' sc =>
      have hheld : 0 < total s (fun _ => 0) f.ref :=
        handle_holds (ha f.ref (takes_sig ht))
      exact hheld
  | _ => cases hcall

theorem Flying.kept {f : Flight Alg Key} (hs : Sound s) (hf : Flying s f)
    {call : Call} (hctx : ∀ c, call.ctx? = some c → f.input.call.ctx? ≠ some c)
    (hfree : ∀ r, call = .keymgmtFree r →
      s.handles r ≠ 1 ∨ f.input.call.given ≠ some r) :
    Flying (Sys.step h env call s).state f := by
  obtain ⟨c, entry, hcall, hc, ht⟩ := hf.here
  have hne : call.ctx? ≠ some c := fun he => hctx c he hcall
  refine ⟨?_, c, entry, hcall, ctx_kept hs hc hne, ht⟩
  have ha := hf.allowed
  generalize f.input.call = fcall at hcall ht ha hfree
  cases fcall with
  | sig c' sc =>
      intro r hr
      refine handle_kept (ha r hr) fun hcall => ?_
      rcases hfree r hcall with hone | hgiven
      · exact hone
      · exact absurd hr hgiven
  | sigDupctx c' => trivial
  | sigFreectx c' => trivial
  | _ => cases hcall

/-- The references of the calls in flight. -/
def Threads.inFlight (t : Threads Alg Key) (r : KeyRef) : Nat :=
  t.flights.countP fun f => f.ref == r

structure TSound (t : Threads Alg Key) : Prop where
  sound : Sound t.sys
  counted : Counted t.sys t.inFlight
  flying : ∀ f ∈ t.flights, Flying t.sys f
  apart : t.flights.Pairwise fun f g => f.input.call.ctx? ≠ g.input.call.ctx?

theorem Sound.rekey (hs : Sound s) {keys : Keys Key}
    (hk : ∀ r, (keys r).pub = (s.keys r).pub) :
    Sound { s with keys := keys } where
  ctx := hs.ctx
  store := hs.store
  handle r hr := ⟨(hs.handle r hr).made, hk r ▸ (hs.handle r hr).viewed⟩
  bound c table x r hc hr :=
    ⟨(hs.bound c table x r hc hr).made,
      hk r ▸ (hs.bound c table x r hc hr).viewed⟩
  blank r hr := by
    have hr : (keys r).pub.spec = none := hr
    rw [hk r] at hr
    show (keys r).pub = _
    rw [hk r]
    exact hs.blank r hr

/-- What a caller owes does not depend on what the keys contain. -/
theorem Call.Allowed.rekey {call : Call} (ha : call.Allowed s)
    {keys : Keys Key} :
    call.Allowed ({ s with keys := keys } : Sys Alg Key) := by
  cases call with
  | sig c sc => exact ha
  | keymgmtFree r => exact ha
  | keymgmtDup r selection => exact ha
  | _ => trivial

theorem moveRefs_sound (hs : Sound s) (trace : List Event) :
    Sound (s.moveRefs trace) :=
  hs.rekey fun r => (applyRefs_same s.keys trace r).pub

theorem untake_sound (hs : Sound s) (r : KeyRef) : Sound (s.untake r) := by
  refine hs.rekey fun q => ?_
  rcases update_key s.keys r q { s.keys r with
      refcnt := (s.keys r).refcnt - 1 } with ⟨rfl, hk⟩ | ⟨_, hk⟩
  · rw [hk]
  · rw [hk]

/-- Taking a reference undoes not having taken it. -/
theorem take_untake (s : Sys Alg Key) (r : KeyRef) :
    (Move.take r).apply (cells (s.untake r).keys) = cells s.keys := by
  funext q
  have hkeys : (s.untake r).keys = Function.update s.keys r { s.keys r with
      refcnt := (s.keys r).refcnt - 1 } := rfl
  by_cases hq : q = r
  · subst hq
    rw [Move.apply, Function.update_self]
    show Cell.take (((s.untake q).keys q).cell) = (s.keys q).cell
    rw [hkeys, Function.update_self]
    show (⟨(s.keys q).refcnt - 1 + 1, (s.keys q).freed⟩ : Cell) =
      ⟨(s.keys q).refcnt, (s.keys q).freed⟩
    rw [Int.sub_add_cancel]
  · rw [Move.apply, Function.update_of_ne hq]
    show ((s.untake r).keys q).cell = (s.keys q).cell
    rw [hkeys, Function.update_of_ne hq]

theorem untake_freed (s : Sys Alg Key) (r q : KeyRef) :
    ((s.untake r).keys q).freed = (s.keys q).freed := by
  rcases update_key s.keys r q { s.keys r with
      refcnt := (s.keys r).refcnt - 1 } with ⟨rfl, hk⟩ | ⟨_, hk⟩
  · show (Function.update s.keys q _ q).freed = _
    rw [hk]
  · show (Function.update s.keys r _ q).freed = _
    rw [hk]

/-! ## Turns

A turn is a whole call, or the first update of one, or the rest of it. In each
case the counters stay what they should be: the holders, and what is in
flight. -/

/-- Updates none of which touches a freed key, and what they free: a key that
was not freed before and is after. -/
structure Orderly (before after : Keys Key) (ms : List (Move KeyRef)) :
    Prop where
  live : AllLive (cells before) ms
  freed : ∀ r, (freedBy (cells before) ms).count r + (before r).freed.toNat =
    (after r).freed.toNat

theorem Balanced.orderly {extra : KeyRef → Nat} {t : Sys Alg Key}
    {ms : List (Move KeyRef)} (hc : Counted s extra)
    (hb : Balanced s extra t ms) : Orderly s.keys t.keys ms := by
  have hlive : AllLive (cells s.keys) ms := by
    refine live_of_backed (P := fun r => r < s.nextKey) hc.cell ?_ hb.backed
    intro r hr
    exact (hc.fresh r (Nat.le_of_not_lt hr)).1
  refine ⟨hlive, fun r => ?_⟩
  rw [hb.freed r]
  exact freedBy_count hlive r

/-- A process whose counters are right, one reference of a call in flight
taken back. -/
theorem Counted.untake {extra extra' : KeyRef → Nat} {r : KeyRef}
    (hc : Counted s extra) (hheld : 0 < s.holders r)
    (hextra : ∀ q, extra q = extra' q + one (some r) q) :
    Counted (s.untake r) extra' := by
  have hsame : ∀ q, total (s.untake r) extra' q + one (some r) q =
      total s extra q := by
    intro q
    have hq := hextra q
    show s.holders q + extra' q + _ = s.holders q + extra q
    omega
  have hkeys : (s.untake r).keys = Function.update s.keys r { s.keys r with
      refcnt := (s.keys r).refcnt - 1 } := rfl
  refine ⟨fun q hq => ?_, fun q hq => ?_, hc.store⟩
  · have hcell := hc.cell q hq
    have htotal := hsame q
    rw [hkeys]
    by_cases hqr : q = r
    · subst hqr
      have hpos : 0 < total (s.untake q) extra' q := by
        show 0 < s.holders q + extra' q
        omega
      rw [one_some, if_pos rfl] at htotal
      rw [Function.update_self]
      refine ⟨?_, ?_⟩
      · show (s.keys q).refcnt - 1 = _
        have hcount : (s.keys q).refcnt = _ := hcell.count
        omega
      · show (s.keys q).freed = true ↔ _
        have hlive : (s.keys q).freed = false := hcell.live (by omega)
        rw [hlive]
        constructor
        · intro hf
          cases hf
        · omega
    · rw [one_some, if_neg (Ne.symm hqr)] at htotal
      rw [Function.update_of_ne hqr]
      rw [show total (s.untake r) extra' q = total s extra q by omega]
      exact hcell
  · obtain ⟨hz, hf⟩ := hc.fresh q hq
    have htotal := hsame q
    refine ⟨by omega, ?_⟩
    rw [untake_freed]
    exact hf

theorem Counted.enter {extra extra' : KeyRef → Nat} {r : KeyRef}
    (hc : Counted s extra) (hheld : 0 < total s extra r)
    (hextra : ∀ q, extra' q = extra q + one (some r) q) :
    Counted (s.moveRefs [.keyUpRef r]) extra' ∧
      Orderly s.keys (s.moveRefs [.keyUpRef r]).keys [.take r] := by
  have hcells : cells (s.moveRefs [.keyUpRef r]).keys =
      play (cells s.keys) [.take r] := applyRefs_cells s.keys [.keyUpRef r]
  have hb : Backed (total s extra) [.take r] := ⟨hheld, trivial⟩
  have htotal : ∀ q, total (s.moveRefs [.keyUpRef r]) extra' q =
      after (total s extra) [.take r] q := by
    intro q
    have hcount := after_count hb q
    rw [count_give_cons_take, count_take_cons_take, List.count_nil,
      List.count_nil] at hcount
    have hq := hextra q
    rw [one_some] at hq
    have hdef : total s extra q = s.holders q + extra q := rfl
    show s.holders q + extra' q = _
    omega
  have hlive : AllLive (cells s.keys) [.take r] := by
    refine live_of_backed (P := fun r => r < s.nextKey) hc.cell ?_ hb
    intro q hq
    exact (hc.fresh q (Nat.le_of_not_lt hq)).1
  refine ⟨⟨fun q hq => ?_, fun q hq => ?_, hc.store⟩, hlive, fun q => ?_⟩
  · rw [htotal q]
    show (cells (s.moveRefs [.keyUpRef r]).keys q).Counts _
    rw [hcells]
    exact counts_play hc.cell hb q hq
  · obtain ⟨hz, hf⟩ := hc.fresh q hq
    rw [htotal q]
    have hne : q ≠ r := by
      rintro rfl
      omega
    refine ⟨?_, ?_⟩
    · show Function.update (total s extra) r _ q = 0
      rw [Function.update_of_ne hne]
      exact hz
    · show (cells (s.moveRefs [.keyUpRef r]).keys q).freed = false
      rw [hcells, play_of_unheld hb hz]
      exact hf
  · show _ = (cells (s.moveRefs [.keyUpRef r]).keys q).freed.toNat
    rw [hcells]
    exact freedBy_count hlive q

/-- What comes after the first update of a call, seen by itself. -/
theorem Orderly.tail {r : KeyRef} {after : Keys Key} {ms : List (Move KeyRef)}
    (ho : Orderly (s.untake r).keys after (.take r :: ms)) :
    Orderly s.keys after ms := by
  have hcells := take_untake s r
  refine ⟨?_, fun q => ?_⟩
  · have hrest : AllLive ((Move.take r).apply (cells (s.untake r).keys)) ms :=
      ho.live.2
    rw [hcells] at hrest
    exact hrest
  · have hq := ho.freed q
    rw [untake_freed] at hq
    rw [← hq, freedBy, hcells]
    rfl

theorem headTake_eq {t : List Event} {r : KeyRef} (ht : headTake t = some r) :
    t = .keyUpRef r :: t.tail := by
  unfold headTake at ht
  split at ht
  · next q hq =>
      obtain rfl := Option.some.inj ht
      exact (List.eq_cons_of_mem_head? hq)
  · cases ht

theorem getElem_split {α : Type} {l : List α} {k : Nat} {a : α}
    (hk : l[k]? = some a) :
    ∃ before after, l = before ++ a :: after ∧ l.eraseIdx k = before ++ after := by
  obtain ⟨hlt, rfl⟩ := List.getElem?_eq_some_iff.mp hk
  refine ⟨l.take k, l.drop (k + 1), ?_, List.eraseIdx_eq_take_drop_succ l k⟩
  rw [List.getElem_cons_drop, List.take_append_drop]

theorem leave_step {t : Threads Alg Key} {k : Nat} {f : Flight Alg Key}
    (hk : t.flights[k]? = some f) :
    Threads.step h (.leave k) t =
      let out := Sys.step h f.input.env f.input.call (t.sys.untake f.ref)
      ⟨out.ok, ⟨out.state, t.flights.eraseIdx k⟩, out.trace.tail⟩ := by
  simp only [Threads.step, hk]

/-- What holds of the process a call in flight comes back to, its own
reference not counted. -/
structure Leaving (s : Sys Alg Key) (extra : KeyRef → Nat)
    (f : Flight Alg Key) : Prop where
  sound : Sound (s.untake f.ref)
  counted : Counted (s.untake f.ref) extra
  flying : Flying (s.untake f.ref) f

theorem TSound.leaving {t : Threads Alg Key} (ht : TSound t) {k : Nat}
    {f : Flight Alg Key} (hk : t.flights[k]? = some f) :
    Leaving t.sys
      (fun q => (t.flights.eraseIdx k).countP fun g => g.ref == q) f := by
  obtain ⟨before, after, hsplit, herase⟩ := getElem_split hk
  have hflying := ht.flying f (List.mem_of_getElem? hk)
  have hextra : ∀ q, t.inFlight q =
      (t.flights.eraseIdx k).countP (fun g => g.ref == q) +
        one (some f.ref) q := by
    intro q
    unfold Threads.inFlight
    rw [herase, hsplit, List.countP_append, List.countP_append,
      List.countP_cons, one_some]
    by_cases hq : f.ref = q
    · rw [if_pos hq, if_pos (by simpa using hq)]
      omega
    · rw [if_neg hq, if_neg (by simpa using hq)]
      omega
  exact ⟨untake_sound ht.sound f.ref,
    ht.counted.untake (hflying.held ht.sound) hextra,
    ⟨hflying.allowed.rekey, hflying.here⟩⟩

/-- One turn keeps the counters right, and makes only orderly updates. -/
theorem tsound_step {t : Threads Alg Key} (ht : TSound t)
    {turn : Turn Alg Key} (ha : Threads.Allowed h t turn) :
    TSound (Threads.step h turn t).state ∧
      Orderly t.sys.keys (Threads.step h turn t).state.sys.keys
        (moves (Threads.step h turn t).trace) := by
  cases turn with
  | call i =>
      obtain ⟨hallowed, hclear⟩ := ha
      have hbal := balanced_step h i.env ht.sound ht.counted hallowed
      refine ⟨⟨sound_step ht.sound hallowed, hbal.counted, ?_, ht.apart⟩,
        hbal.orderly ht.counted⟩
      intro f hf
      refine (ht.flying f hf).kept ht.sound (hclear.ctx f hf) ?_
      intro r hr
      rcases hclear.handle r (by rw [hr]; rfl) with hone | hall
      · exact .inl hone
      · exact .inr (hall f hf)
  | enter i =>
      obtain ⟨hallowed, hclear, hctx, htake⟩ := ha
      obtain ⟨c, hcall⟩ := Option.isSome_iff_exists.mp hctx
      obtain ⟨r, hr⟩ := Option.isSome_iff_exists.mp htake
      have hstep : Threads.step h (.enter i) t =
          ⟨true, ⟨t.sys.moveRefs [.keyUpRef r], t.flights ++ [⟨i, r⟩]⟩,
            [.keyUpRef r]⟩ := by
        simp only [Threads.step, hr]
      rw [hstep]
      have hnew : Flying t.sys ⟨i, r⟩ := by
        have hsome : ∃ entry, t.sys.ctxs c = some entry := by
          cases hc : t.sys.ctxs c with
          | some entry => exact ⟨entry, rfl⟩
          | none =>
              have hnone : (Sys.step h i.env i.call t.sys).trace = [] := by
                generalize i.call = call at hcall
                cases call with
                | sigFreectx c' =>
                    obtain rfl := Option.some.inj hcall
                    simp only [Sys.step, hc]
                | sigDupctx c' =>
                    obtain rfl := Option.some.inj hcall
                    simp only [Sys.step, hc]
                | sig c' sc =>
                    obtain rfl := Option.some.inj hcall
                    simp only [Sys.step, hc]
                | _ => cases hcall
              unfold firstTake at hr
              rw [hnone] at hr
              cases hr
        obtain ⟨entry, hc⟩ := hsome
        exact ⟨hallowed, c, entry, hcall, hc, (firstTake_eq hc hcall) ▸ hr⟩
      have hheld : 0 < total t.sys t.inFlight r := by
        have hpos := hnew.held ht.sound
        have hdef : total t.sys t.inFlight r =
          t.sys.holders r + t.inFlight r := rfl
        have hpos : 0 < t.sys.holders r := hpos
        omega
      have hextra : ∀ q, Threads.inFlight ⟨t.sys.moveRefs [.keyUpRef r],
          t.flights ++ [⟨i, r⟩]⟩ q = t.inFlight q + one (some r) q := by
        intro q
        unfold Threads.inFlight
        rw [List.countP_append, List.countP_singleton, one_some]
        by_cases hq : r = q
        · rw [if_pos hq, if_pos (by simpa using hq)]
        · rw [if_neg hq, if_neg (by simpa using hq)]
      obtain ⟨hcounted, horderly⟩ := ht.counted.enter hheld hextra
      refine ⟨⟨moveRefs_sound ht.sound _, hcounted, ?_, ?_⟩, horderly⟩
      · intro f hf
        rcases List.mem_append.mp hf with hf | hf
        · exact ⟨(ht.flying f hf).allowed.rekey, (ht.flying f hf).here⟩
        · rw [List.mem_singleton.mp hf]
          exact ⟨hnew.allowed.rekey, hnew.here⟩
      · refine List.pairwise_append.mpr ⟨ht.apart, List.pairwise_singleton _ _, ?_⟩
        intro f hf g hg
        rw [List.mem_singleton.mp hg, hcall]
        exact hclear.ctx f hf c hcall
  | leave k =>
      have hk : t.flights[k]? = some (t.flights.get ⟨k, ha⟩) := by
        rw [List.getElem?_eq_getElem ha]
        rfl
      generalize t.flights.get ⟨k, ha⟩ = f at hk
      obtain ⟨hsound, hcounted, hflying⟩ := ht.leaving hk
      rw [leave_step hk]
      obtain ⟨c, entry, hcall, hc, htakes⟩ := hflying.here
      have hbal := balanced_step h f.input.env hsound hcounted hflying.allowed
      have hhead : firstTake h f.input.env f.input.call
          (t.sys.untake f.ref) = some f.ref :=
        (firstTake_eq hc hcall).trans htakes
      have horderly := hbal.orderly hcounted
      rw [headTake_eq hhead] at horderly
      obtain ⟨before, after, hsplit, herase⟩ := getElem_split hk
      have hapart := ht.apart
      rw [hsplit] at hapart
      obtain ⟨hbefore, hrest, hcross⟩ := List.pairwise_append.mp hapart
      refine ⟨⟨sound_step hsound hflying.allowed, hbal.counted, ?_, ?_⟩,
        horderly.tail⟩
      · intro g hg
        have hg : g ∈ before ++ after := herase ▸ hg
        have hmem : g ∈ t.flights := by
          rw [hsplit]
          rcases List.mem_append.mp hg with hg | hg
          · exact List.mem_append_left _ hg
          · exact List.mem_append_right _ (List.mem_cons_of_mem _ hg)
        have hother : g.input.call.ctx? ≠ f.input.call.ctx? := by
          rcases List.mem_append.mp hg with hg | hg
          · exact hcross g hg f List.mem_cons_self
          · exact Ne.symm ((List.pairwise_cons.mp hrest).1 g hg)
        have hgf : Flying (t.sys.untake f.ref) g :=
          ⟨(ht.flying g hmem).allowed.rekey, (ht.flying g hmem).here⟩
        refine hgf.kept hsound ?_ ?_
        · intro c' hc' hgc
          exact hother (hgc.trans hc'.symm)
        · intro r hr
          rw [hr] at hcall
          cases hcall
      · show (t.flights.eraseIdx k).Pairwise _
        rw [herase]
        refine List.pairwise_append.mpr
          ⟨hbefore, (List.pairwise_cons.mp hrest).2, ?_⟩
        intro g hg g' hg'
        exact hcross g hg g' (List.mem_cons_of_mem _ hg')

theorem tsound_run {evs : List (Rec (Threads Alg Key) (Turn Alg Key) Event)}
    {t : Threads Alg Key} (hr : (threads h).Run evs t) : TSound t := by
  refine hr.inv (I := TSound) ?_ fun t turn ht ha => (tsound_step ht ha).1
  refine ⟨sound_empty, counted_empty, ?_, List.Pairwise.nil⟩
  intro f hf
  cases hf

/-! ## What is read is live

A call reads keys between its updates. Each of them is one it has a reference
on by then, so that no other thread can have freed it. -/

variable (h env) in
/-- The key a call reads is held when it starts, and the call gives no more of
it away than it takes. -/
theorem reads_held {extra : KeyRef → Nat} (hs : Sound s)
    (hc : Counted s extra) {call : Call} (ha : call.Allowed s) {r : KeyRef}
    (hr : call.reads s = some r) :
    0 < total s extra r ∧
      (moves (Sys.step h env call s).trace).count (.give r) ≤
        (moves (Sys.step h env call s).trace).count (.take r) := by
  have hstore : ∀ st, (s.stores st).map (fun ctx => ctx.key) = some r →
      0 < total s extra r := by
    intro st hmap
    obtain ⟨ctx, hst, rfl⟩ := Option.map_eq_some_iff.mp hmap
    exact store_holds hc hst
  cases call with
  | storeSetCtxParams st params =>
      refine ⟨hstore st hr, ?_⟩
      obtain ⟨ctx, hst, rfl⟩ := Option.map_eq_some_iff.mp hr
      have htrace : (Sys.step h env (.storeSetCtxParams st params) s).trace =
          [] := by
        show (s.onStore st _).trace = []
        unfold Sys.onStore
        rw [hst]
        exact (storeSetCtxParams_writes env params _).2.1
      rw [htrace]
      exact Nat.le_refl _
  | storeLoad st cb =>
      refine ⟨hstore st hr, ?_⟩
      obtain ⟨ctx, hst, rfl⟩ := Option.map_eq_some_iff.mp hr
      have htrace : (Sys.step h env (.storeLoad st cb) s).trace =
          (awskmsStoreLoad h env cb ⟨ctx, s.keys ctx.key⟩).trace := by
        show (Sys.handOut (s.onStore st _)).trace = _
        have hout : ∀ out : Out (Sys Alg Key) Event,
            (Sys.handOut out).trace = out.trace := by
          intro out
          unfold Sys.handOut
          split
          · rfl
          · rfl
        rw [hout]
        unfold Sys.onStore
        rw [hst]
      rw [htrace]
      rcases storeLoad_moves h env cb ⟨ctx, s.keys ctx.key⟩ with
        hstill | ⟨pre, hpre, ht⟩
      · rw [still_moves.mpr hstill]
        exact Nat.le_refl _
      · rw [ht, moves_append, still_moves.mpr hpre]
        show [Move.take ctx.key].count (.give ctx.key) ≤ _
        rw [count_give_cons_take]
        exact Nat.zero_le _
  | keymgmtDup q selection =>
      obtain rfl := Option.some.inj hr
      refine ⟨handle_holds ha, ?_⟩
      simp only [Sys.step]
      split
      · exact Nat.le_refl _
      · show [Move.take q].count (.give q) ≤ _
        rw [count_give_cons_take]
        exact Nat.zero_le _
      · exact Nat.le_refl _
  | sig c sc =>
      obtain ⟨⟨table, x⟩, hx, hkey⟩ := Option.bind_eq_some_iff.mp hr
      have hpos : 0 < total s extra r := by
        unfold keyAfter at hkey
        cases hk : sc.provkey with
        | some q =>
            rw [hk] at hkey
            obtain rfl := Option.some.inj hkey
            exact handle_holds (ha q hk)
        | none =>
            rw [hk] at hkey
            exact ctx_holds hs hx hkey
      refine ⟨hpos, ?_⟩
      simp only [Sys.step, hx]
      split
      · exact Nat.le_refl _
      · have hmoves := sigCall_moves h env s.keys sc x
        dsimp only
        generalize moves (sigCall h env s.keys sc x).trace = ms at hmoves
        generalize (sigCall h env s.keys sc x).state.key = key at hmoves
        cases hmoves with
        | kept => exact Nat.le_refl _
        | @bound q hq =>
            rw [keyAfter, hq] at hkey
            obtain rfl := Option.some.inj hkey
            rw [count_give_cons_take, count_take_cons_take,
              count_give_freectx, count_take_freectx, if_pos rfl]
            unfold one
            split
            · exact Nat.le_refl _
            · exact Nat.zero_le _
        | @undone q hq =>
            rw [keyAfter, hq] at hkey
            obtain rfl := Option.some.inj hkey
            rw [count_give_cons_take, count_take_cons_take,
              count_give_cons_give, count_take_cons_give, List.count_nil,
              List.count_nil]
  | _ => cases hr

/-- What a call reads is not freed when the call is over. -/
theorem reads_live {extra : KeyRef → Nat} (hs : Sound s)
    (hc : Counted s extra) {call : Call} (ha : call.Allowed s) {r : KeyRef}
    (hr : call.reads s = some r) :
    ((Sys.step h env call s).state.keys r).freed = false := by
  have hbal := balanced_step h env hs hc ha
  obtain ⟨hpos, hmoves⟩ := reads_held h env hs hc ha hr
  have hcount := after_count hbal.backed r
  have hcell := counts_play hc.cell hbal.backed r (hc.lt hpos)
  rw [hbal.freed r]
  exact hcell.live (by omega)

/-- A process with another memory. -/
def Threads.withKeys (t : Threads Alg Key) (keys : Keys Key) :
    Threads Alg Key :=
  { t with sys := { t.sys with keys := keys } }

/-- The outcome of a turn on a memory that differs at freed keys only: nothing
but those keys is different. -/
structure Unread (out out' : Out (Threads Alg Key) Event) : Prop where
  ok : out'.ok = out.ok
  trace : out'.trace = out.trace
  rest : out'.state = out.state.withKeys out'.state.sys.keys
  keys : ∀ r, (out.state.sys.keys r).freed = false →
    out'.state.sys.keys r = out.state.sys.keys r

/-- What a turn does not depend on: the keys that are freed when it is
over. -/
theorem unread_step {t : Threads Alg Key} (ht : TSound t)
    {turn : Turn Alg Key} (ha : Threads.Allowed h t turn) {keys' : Keys Key}
    (hk : ∀ r, ((Threads.step h turn t).state.sys.keys r).freed = false →
      keys' r = t.sys.keys r) :
    Unread (Threads.step h turn t) (Threads.step h turn (t.withKeys keys')) := by
  cases turn with
  | call i =>
      obtain ⟨hallowed, _⟩ := ha
      have hagree : AgreeAt t.sys.keys keys' (i.call.reads t.sys) := by
        intro r hr
        exact hk r (reads_live ht.sound ht.counted hallowed hr)
      obtain ⟨hok, htrace, hrest, hkeys⟩ := step_frame h i.env hagree
      refine ⟨hok, htrace, ?_, fun r hr => hkeys r (hk r hr)⟩
      show (⟨_, t.flights⟩ : Threads Alg Key) = ⟨_, t.flights⟩
      exact congrArg (fun s => (⟨s, t.flights⟩ : Threads Alg Key)) hrest
  | enter i =>
      obtain ⟨hallowed, _, _, htake⟩ := ha
      obtain ⟨r, hr⟩ := Option.isSome_iff_exists.mp htake
      have hstep : Threads.step h (.enter i) t =
          ⟨true, ⟨t.sys.moveRefs [.keyUpRef r], t.flights ++ [⟨i, r⟩]⟩,
            [.keyUpRef r]⟩ := by
        simp only [Threads.step, hr]
      rw [hstep] at hk
      have hfreed : ∀ q, ((t.sys.moveRefs [.keyUpRef r]).keys q).freed =
          (t.sys.keys q).freed := by
        intro q
        rcases update_key t.sys.keys r q { t.sys.keys r with
            refcnt := (t.sys.keys r).refcnt + 1 } with ⟨rfl, hq⟩ | ⟨_, hq⟩
        · show (Function.update t.sys.keys q _ q).freed = _
          rw [hq]
        · show (Function.update t.sys.keys r _ q).freed = _
          rw [hq]
      have hagree : AgreeAt t.sys.keys keys' (i.call.reads t.sys) := by
        intro q hq
        refine hk q ((hfreed q).trans ?_)
        have hpos := (reads_held h i.env ht.sound ht.counted hallowed hq).1
        exact (ht.counted.cell q (ht.counted.lt hpos)).live hpos
      have hr' : firstTake h i.env i.call (t.withKeys keys').sys = some r := by
        show headTake (Sys.step h i.env i.call
          { t.sys with keys := keys' }).trace = some r
        rw [(step_frame h i.env hagree).trace]
        exact hr
      have hstep' : Threads.step h (.enter i) (t.withKeys keys') =
          ⟨true, ⟨(t.withKeys keys').sys.moveRefs [.keyUpRef r],
            t.flights ++ [⟨i, r⟩]⟩, [.keyUpRef r]⟩ := by
        simp only [Threads.step, hr']
        rfl
      rw [hstep, hstep']
      exact ⟨rfl, rfl, rfl, fun q hq => applyRefs_frame (hk q hq)⟩
  | leave k =>
      have hget : t.flights[k]? = some (t.flights.get ⟨k, ha⟩) := by
        rw [List.getElem?_eq_getElem ha]
        rfl
      generalize t.flights.get ⟨k, ha⟩ = f at hget
      obtain ⟨hsound, hcounted, hflying⟩ := ht.leaving hget
      have hget' : (t.withKeys keys').flights[k]? = some f := hget
      rw [leave_step hget] at hk ⊢
      rw [leave_step hget']
      have hsame : ∀ r, keys' r = t.sys.keys r →
          ((t.withKeys keys').sys.untake f.ref).keys r =
            (t.sys.untake f.ref).keys r := by
        intro r hr
        show Function.update keys' f.ref _ r = Function.update t.sys.keys f.ref _ r
        by_cases hrf : r = f.ref
        · subst hrf
          rw [Function.update_self, Function.update_self]
          show { keys' f.ref with refcnt := (keys' f.ref).refcnt - 1 } = _
          rw [hr]
        · rw [Function.update_of_ne hrf, Function.update_of_ne hrf, hr]
      have hagree : AgreeAt (t.sys.untake f.ref).keys
          ((t.withKeys keys').sys.untake f.ref).keys
          (f.input.call.reads (t.sys.untake f.ref)) := by
        intro r hr
        exact hsame r (hk r (reads_live hsound hcounted hflying.allowed hr))
      obtain ⟨hok, htrace, hrest, hkeys⟩ := step_frame h f.input.env hagree
      refine ⟨hok, congrArg List.tail htrace, ?_,
        fun r hr => hkeys r (hsame r (hk r hr))⟩
      exact congrArg
        (fun s => (⟨s, t.flights.eraseIdx k⟩ : Threads Alg Key)) hrest

/-- The keys a run freed, each as often as it freed it. -/
def freedIn (evs : List (Rec (Threads Alg Key) (Turn Alg Key) Event)) :
    List KeyRef :=
  evs.flatMap fun e => freedBy (cells e.pre.sys.keys) (moves e.out.trace)

theorem freedIn_count
    {evs : List (Rec (Threads Alg Key) (Turn Alg Key) Event)}
    {t : Threads Alg Key} (hr : (threads h).Run evs t) (r : KeyRef) :
    (freedIn evs).count r = (t.sys.keys r).freed.toNat := by
  induction hr with
  | nil => rfl
  | @snoc evs t turn hr ha ih =>
      have hstep := (tsound_step (tsound_run hr) ha).2.freed r
      have hlast : freedIn (evs ++ [⟨t, turn, (threads h).step turn t⟩]) =
          freedIn evs ++ freedBy (cells t.sys.keys)
            (moves (Threads.step h turn t).trace) := by
        unfold freedIn
        rw [List.flatMap_append, List.flatMap_singleton]
        rfl
      rw [hlast, List.count_append, ih, Nat.add_comm]
      exact hstep

/-- In every interleaving, the counter of a key is the number of its holders
and of the calls in flight that took a reference to it; the key is freed when
there are none, and freed once; no counter of a freed key is touched, and no
outcome depends on what a freed key contains. -/
theorem refcounts_exact
    {evs : List (Rec (Threads Alg Key) (Turn Alg Key) Event)}
    {t : Threads Alg Key} (hr : (threads h).Run evs t) :
    (∀ r, r < t.sys.nextKey →
      (t.sys.keys r).refcnt = (t.sys.holders r + t.inFlight r : Nat) ∧
      ((t.sys.keys r).freed = true ↔ t.sys.holders r + t.inFlight r = 0)) ∧
    (∀ r, (freedIn evs).count r = if (t.sys.keys r).freed then 1 else 0) ∧
    ∀ e ∈ evs, AllLive (cells e.pre.sys.keys) (moves e.out.trace) ∧
      ∀ keys' : Keys Key,
        (∀ r, (e.out.state.sys.keys r).freed = false →
          keys' r = e.pre.sys.keys r) →
        Unread e.out ((threads h).step e.input (e.pre.withKeys keys')) := by
  have hsound := tsound_run hr
  refine ⟨fun r hlt => ?_, fun r => ?_, fun e he => ?_⟩
  · have hcell := hsound.counted.cell r hlt
    exact ⟨hcell.count, hcell.freed⟩
  · rw [freedIn_count hr r]
    cases (t.sys.keys r).freed with
    | false => rfl
    | true => rfl
  · obtain ⟨before, _, _, hbefore, ha, heq⟩ := hr.of_mem e he
    have hpre := tsound_run hbefore
    have hout : e.out = Threads.step h e.input e.pre := heq
    rw [hout]
    exact ⟨(tsound_step hpre ha).2.live, fun keys' hk => unread_step hpre ha hk⟩

end

namespace Bench

/-- An init on one thread, and the store closed on another while the init has
its reference and has not stored it; then everything is given back. -/
def overlap : List (Turn Digest PubKey) := [
  .call ⟨.storeOpen (some (ascii "aws-kms:key-id=alias/ec")), env⟩,
  .call ⟨.storeLoad 0 ⟨true, true⟩, env⟩,
  .call ⟨.sigNewctx .prehash none, env⟩,
  .enter ⟨onCtx (.signInit (some 0) none), env⟩,
  .call ⟨.storeClose 0, env⟩,
  .leave 0,
  .call ⟨.keymgmtFree 0, env⟩,
  .call ⟨.sigFreectx 0, env⟩]

end Bench

theorem refcounts_exact_overlap :
    (freedIn ((threads Bench.host).records (threads Bench.host).start
      Bench.overlap)).count 0 = 1 := by
  have ha : (threads Bench.host).AllowedAll (threads Bench.host).start
      Bench.overlap := by decide +kernel
  rw [(refcounts_exact (Machine.run_records ha)).2.1 0]
  decide +kernel

end AwsKms.Model
