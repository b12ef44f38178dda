import AwsKms.Proofs.Reach

/-!
# Histories of contexts

What the caller has told a context is not a field of the context, and half of
what the provider promises is about exactly that. A history keeps it outside
the machine: a value for each context, started when the context is made,
copied with it, and noted on by every call its table offers. The rule
`history_run` relates such a value to the context itself in every reachable
state, under any condition on the calls that a result needs.
-/

namespace AwsKms.Model

open AwsKms.Lib

variable {Alg Key γ : Type} {h : Host Alg Key}

/-- What a call adds to the history of its context. -/
abbrev Note (Alg Key γ : Type) :=
  Env Alg Key → Keys Key → SigCall → AwskmsSigCtx Alg Key → γ → γ

/-- One record of a run, noted. -/
def noteStep (note : Note Alg Key γ) (g0 : γ) (g : CtxRef → γ)
    (e : Rec (Sys Alg Key) (Input Alg Key) Event) : CtxRef → γ :=
  match e.input.call with
  | .sigNewctx _ _ => Function.update g e.pre.nextCtx g0
  | .sigDupctx c => Function.update g e.pre.nextCtx (g c)
  | .sig c sc =>
      match e.pre.ctxs c with
      | none => g
      | some (table, ctx) =>
          if table.offers sc = true then
            Function.update g c (note e.input.env e.pre.keys sc ctx (g c))
          else g
  | _ => g

/-- The history of every context after the records of a run. -/
def historyOf (note : Note Alg Key γ) (g0 : γ)
    (evs : List (Rec (Sys Alg Key) (Input Alg Key) Event)) : CtxRef → γ :=
  evs.foldl (noteStep note g0) fun _ => g0

/-- A condition on the call of a record, when it is one a context's table
offers, with the history of that context before it. -/
def CallAt
    (C : Env Alg Key → Keys Key → SigCall → AwskmsSigCtx Alg Key → γ → Prop)
    (g : CtxRef → γ) (e : Rec (Sys Alg Key) (Input Alg Key) Event) : Prop :=
  match e.input.call with
  | .sig c sc =>
      match e.pre.ctxs c with
      | none => True
      | some (table, ctx) => table.offers sc = true →
          C e.input.env e.pre.keys sc ctx (g c)
  | _ => True

/-- A condition on every call a run makes on a context. -/
def EachCall (note : Note Alg Key γ) (g0 : γ)
    (C : Env Alg Key → Keys Key → SigCall → AwskmsSigCtx Alg Key → γ → Prop)
    (evs : List (Rec (Sys Alg Key) (Input Alg Key) Event)) : Prop :=
  ∀ before e after, evs = before ++ e :: after →
    CallAt C (historyOf note g0 before) e

section

variable {C : Env Alg Key → Keys Key → SigCall → AwskmsSigCtx Alg Key → γ →
    Prop}

instance [∀ env keys sc ctx g, Decidable (C env keys sc ctx g)]
    (g : CtxRef → γ) (e : Rec (Sys Alg Key) (Input Alg Key) Event) :
    Decidable (CallAt C g e) := by
  unfold CallAt
  split
  · split
    · exact .isTrue trivial
    · infer_instance
  · exact .isTrue trivial

instance [∀ env keys sc ctx g, Decidable (C env keys sc ctx g)]
    {note : Note Alg Key γ} {g0 : γ}
    (evs : List (Rec (Sys Alg Key) (Input Alg Key) Event)) :
    Decidable (EachCall note g0 C evs) :=
  decidable_of_iff (∀ k (hk : k < evs.length),
      CallAt C (historyOf note g0 (evs.take k)) (evs.get ⟨k, hk⟩))
    ⟨fun hall => Machine.forall_split (P := fun before e =>
      CallAt C (historyOf note g0 before) e) hall, fun hall k hk => hall _ _ (evs.drop (k + 1)) <| by
      rw [List.get_eq_getElem, List.getElem_cons_drop, List.take_append_drop]⟩

end

theorem EachCall.of_forall
    {C : Env Alg Key → Keys Key → SigCall → AwskmsSigCtx Alg Key → γ → Prop}
    (hC : ∀ env keys sc ctx g, C env keys sc ctx g) {note : Note Alg Key γ}
    {g0 : γ} {evs : List (Rec (Sys Alg Key) (Input Alg Key) Event)} :
    EachCall note g0 C evs := by
  intro before e after _
  unfold CallAt
  split
  · split
    · trivial
    · exact fun _ => hC _ _ _ _ _
  · trivial

theorem EachCall.before {note : Note Alg Key γ} {g0 : γ}
    {C : Env Alg Key → Keys Key → SigCall → AwskmsSigCtx Alg Key → γ → Prop}
    {before after : List (Rec (Sys Alg Key) (Input Alg Key) Event)}
    (hC : EachCall note g0 C (before ++ after)) :
    EachCall note g0 C before := by
  intro pre e post hsplit
  exact hC pre e (post ++ after) (by simp [hsplit])

theorem noteStep_congr {note note' : Note Alg Key γ} {g0 : γ} {g : CtxRef → γ}
    {e : Rec (Sys Alg Key) (Input Alg Key) Event}
    (he : CallAt (fun env keys sc ctx g =>
      note' env keys sc ctx g = note env keys sc ctx g) g e) :
    noteStep note' g0 g e = noteStep note g0 g e := by
  unfold CallAt at he
  unfold noteStep
  cases hcall : e.input.call with
  | sig c sc =>
      simp only [hcall] at he ⊢
      cases hctx : e.pre.ctxs c with
      | none => rfl
      | some entry =>
          simp only [hctx] at he ⊢
          by_cases hoff : entry.1.offers sc = true
          · rw [if_pos hoff, if_pos hoff, he hoff]
          · rw [if_neg hoff, if_neg hoff]
  | _ => rfl

/-- Two notes that agree on every call of a run leave the same history. -/
theorem historyOf_congr {note note' : Note Alg Key γ} {g0 : γ}
    {evs : List (Rec (Sys Alg Key) (Input Alg Key) Event)}
    (hagree : EachCall note g0 (fun env keys sc ctx g =>
      note' env keys sc ctx g = note env keys sc ctx g) evs) :
    historyOf note' g0 evs = historyOf note g0 evs := by
  induction evs using List.reverseRecOn with
  | nil => rfl
  | append_singleton evs e ih =>
      have hlast : noteStep note' g0 (historyOf note g0 evs) e =
          noteStep note g0 (historyOf note g0 evs) e :=
        noteStep_congr (hagree evs e [] rfl)
      rw [historyOf, historyOf, List.foldl_append, List.foldl_append]
      change noteStep note' g0 (historyOf note' g0 evs) e =
        noteStep note g0 (historyOf note g0 evs) e
      rw [ih hagree.before, hlast]

/-- A relation between a context and its history that starts right, is copied
right and is kept by every call holds in every reachable state. -/
theorem history_run {note : Note Alg Key γ} {g0 : γ}
    {R : SigTable → AwskmsSigCtx Alg Key → γ → Prop}
    {C : Env Alg Key → Keys Key → SigCall → AwskmsSigCtx Alg Key → γ → Prop}
    (hnew : ∀ table fips, R table (AwskmsSigCtx.new fips) g0)
    (hcopy : ∀ table ctx g, R table ctx g → R table ctx.copy g)
    (hcall : ∀ env keys table sc ctx g, table.offers sc = true →
      C env keys sc ctx g → R table ctx g →
      R table (sigCall h env keys sc ctx).state (note env keys sc ctx g))
    {evs : List (Rec (Sys Alg Key) (Input Alg Key) Event)} {s : Sys Alg Key}
    (hr : (provider h).Run evs s) (hC : EachCall note g0 C evs) {c : CtxRef}
    {table : SigTable} {ctx : AwskmsSigCtx Alg Key}
    (hc : s.ctxs c = some (table, ctx)) :
    R table ctx (historyOf note g0 evs c) := by
  refine (Machine.Run.invHistWhere
    (I := fun s g => Sound s ∧
      ∀ c table ctx, s.ctxs c = some (table, ctx) → R table ctx (g c))
    (C := CallAt C)
    (b := fun _ => g0) (f := noteStep note g0) ?_ ?_ hr ?_).2 c table ctx hc
  · refine ⟨sound_empty, fun c table ctx hc => ?_⟩
    simp only [provider, Sys.empty] at hc
    cases hc
  · rintro s i g ⟨hs, hR⟩ ha hCi
    refine ⟨sound_step hs ha, fun c table ctx hc => ?_⟩
    have hother : ∀ {x : γ}, s.ctxs c = some (table, ctx) →
        Function.update g s.nextCtx x c = g c := by
      intro x hold
      have hne : c ≠ s.nextCtx := Nat.ne_of_lt (hs.ctx c table ctx hold)
      exact Function.update_of_ne hne ..
    unfold noteStep
    unfold CallAt at hCi
    generalize hi : i.call = call at hCi
    have hcs := ctx_step hc
    rw [hi] at hcs
    cases hcs with
    | kept hold hoff =>
        cases call with
        | sigNewctx t propq =>
            simp only [hother hold]
            exact hR c table ctx hold
        | sigDupctx c0 =>
            simp only [hother hold]
            exact hR c table ctx hold
        | sig c0 sc =>
            cases hc0 : s.ctxs c0 with
            | none =>
                simp only [hc0]
                exact hR c table ctx hold
            | some entry =>
                obtain ⟨t, ctx0⟩ := entry
                by_cases hoffers : t.offers sc = true
                · simp only [hc0, if_pos hoffers]
                  by_cases hcc : c = c0
                  · subst hcc
                    rw [hold] at hc0
                    obtain ⟨rfl, rfl⟩ := Prod.mk.inj (Option.some.inj hc0)
                    rw [hoff sc rfl] at hoffers
                    cases hoffers
                  · rw [Function.update_of_ne hcc]
                    exact hR c table ctx hold
                · simp only [hc0, if_neg hoffers]
                  exact hR c table ctx hold
        | _ => exact hR c table ctx hold
    | new =>
        simp only [Function.update_self]
        exact hnew _ _
    | copied hold =>
        simp only [Function.update_self]
        exact hcopy _ _ _ (hR _ _ _ hold)
    | called hold hoffers =>
        simp only [hold, if_pos hoffers, Function.update_self]
        simp only [hold] at hCi
        exact hcall _ _ _ _ _ _ hoffers (hCi hoffers) (hR _ _ _ hold)
  · intro before e after hsplit
    exact hC before e after hsplit

end AwsKms.Model
