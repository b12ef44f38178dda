import Mathlib.Data.List.Basic

/-!
# Programs that ask

A script is what it asks of its surroundings and what it does with each
answer. `Prog` is that tree and nothing more: a program returns, throws, or
asks and goes on with whatever comes back. Who answers, and what may happen
to the rest of the world in the meantime, is not part of it, so one program
can be put beside others, run against a service that answers as it likes, or
against a store whose state the answers come from.

`Leads` follows a program through a list of answered questions, and `Asks` is
what it asks at the end of one. Both are known for a sequence and for a
guarded program from what they are for the parts (`leads_bind`, `asks_bind`,
`leads_tryCatch`, `asks_tryCatch`), so a program is understood piece by piece:
what a piece returns is what its answers said, and what the next piece asks is
asked after those answers.
-/

namespace AwsKms.Lib

/-- A program that asks questions `Q`, gets answers `R`, and returns an `α`
or throws an `E`. -/
inductive Prog (Q R E α : Type) where
  | ret (a : α)
  | throw (e : E)
  | ask (q : Q) (k : R → Prog Q R E α)

namespace Prog

variable {Q R E α β : Type}

/-- One question. -/
def call (q : Q) : Prog Q R E R := ask q ret

def bind : Prog Q R E α → (α → Prog Q R E β) → Prog Q R E β
  | ret a, f => f a
  | throw e, _ => throw e
  | ask q k, f => ask q fun r => (k r).bind f

def tryCatch : Prog Q R E α → (E → Prog Q R E α) → Prog Q R E α
  | ret a, _ => ret a
  | throw e, handler => handler e
  | ask q k, handler => ask q fun r => (k r).tryCatch handler

instance : Monad (Prog Q R E) where
  pure := ret
  bind := bind

instance : MonadExceptOf E (Prog Q R E) where
  throw := throw
  tryCatch := tryCatch

/-- A handler may throw something else, or nothing at all. -/
def handle {E' : Type} : Prog Q R E α → (E → Prog Q R E' α) → Prog Q R E' α
  | ret a, _ => ret a
  | throw e, handler => handler e
  | ask q k, handler => ask q fun r => (k r).handle handler

/-- How a program ends, as a value. -/
def attempt {E' : Type} (p : Prog Q R E α) : Prog Q R E' (Except E α) :=
  (p.bind fun a => ret (.ok a)).handle fun e => ret (.error e)

/-- `try { p } finally { last }`: where `last` throws, that is what is
thrown. -/
def ensure (p : Prog Q R E α) (last : Prog Q R E β) : Prog Q R E α :=
  (p.attempt : Prog Q R E (Except E α)).bind fun
    | .ok a => last.bind fun _ => ret a
    | .error e => last.bind fun _ => throw e

/-- `try { p } catch {}` -/
def ignore {E' : Type} (p : Prog Q R E α) : Prog Q R E' Unit :=
  (p.bind fun _ => ret ()).handle fun _ => ret ()

/-- The program has asked these questions, got these answers, and goes on as
the second one. -/
def Leads : Prog Q R E α → List (Q × R) → Prog Q R E α → Prop
  | p, [], p' => p = p'
  | ask q k, (q', r) :: t, p' => q' = q ∧ (k r).Leads t p'
  | _, _ :: _, _ => False

@[simp] theorem leads_nil {p p' : Prog Q R E α} : p.Leads [] p' ↔ p = p' := by
  cases p <;> rfl

theorem Leads.snoc {p : Prog Q R E α} {t : List (Q × R)} {q : Q}
    {k : R → Prog Q R E α} (h : p.Leads t (ask q k)) (r : R) :
    p.Leads (t ++ [(q, r)]) (k r) := by
  induction t generalizing p with
  | nil =>
      obtain rfl := leads_nil.mp h
      exact ⟨rfl, leads_nil.mpr rfl⟩
  | cons qr t ih =>
      cases p with
      | ret => exact h.elim
      | throw => exact h.elim
      | ask => exact ⟨h.1, ih h.2⟩

/-- The answers decide where a program is. -/
theorem Leads.det {p p₁ p₂ : Prog Q R E α} {t : List (Q × R)}
    (h₁ : p.Leads t p₁) (h₂ : p.Leads t p₂) : p₁ = p₂ := by
  induction t generalizing p with
  | nil => exact (leads_nil.mp h₁).symm.trans (leads_nil.mp h₂)
  | cons qr t ih =>
      cases p with
      | ret => exact h₁.elim
      | throw => exact h₁.elim
      | ask => exact ih h₁.2 h₂.2

@[simp] theorem leads_ret {a : α} {t : List (Q × R)} {p' : Prog Q R E α} :
    (ret a).Leads t p' ↔ t = [] ∧ ret a = p' := by
  cases t with
  | nil => simp
  | cons => simp [Leads]

@[simp] theorem leads_throw {e : E} {t : List (Q × R)} {p' : Prog Q R E α} :
    (throw e).Leads t p' ↔ t = [] ∧ throw e = p' := by
  cases t with
  | nil => simp
  | cons => simp [Leads]

/-- One question has one answer. -/
@[simp] theorem leads_call {q : Q} {t : List (Q × R)} {r : R} :
    (call q : Prog Q R E R).Leads t (ret r) ↔ t = [(q, r)] := by
  cases t with
  | nil => simp [call]
  | cons qr t =>
      obtain ⟨q', r'⟩ := qr
      simp only [call, Leads, leads_ret, ret.injEq, List.cons.injEq, Prod.mk.injEq]
      tauto

/-- A sequence returns what its second part returns after its first. -/
theorem leads_bind {p : Prog Q R E α} {f : α → Prog Q R E β} {t : List (Q × R)}
    {b : β} : (p >>= f).Leads t (ret b) ↔
      ∃ t₁ t₂ a, t = t₁ ++ t₂ ∧ p.Leads t₁ (ret a) ∧ (f a).Leads t₂ (ret b) := by
  change (p.bind f).Leads t (ret b) ↔ _
  induction p generalizing t with
  | ret a =>
      refine ⟨fun h => ⟨[], t, a, rfl, leads_nil.mpr rfl, h⟩, ?_⟩
      rintro ⟨t₁, t₂, a', rfl, h₁, h₂⟩
      obtain ⟨rfl, ⟨⟩⟩ := leads_ret.mp h₁
      exact h₂
  | throw e =>
      refine ⟨fun h => ?_, ?_⟩
      · cases (leads_throw.mp h).2
      · rintro ⟨t₁, t₂, a, rfl, h₁, -⟩
        cases (leads_throw.mp h₁).2
  | ask q k ih =>
      cases t with
      | nil =>
          constructor
          · intro h
            cases leads_nil.mp h
          · rintro ⟨t₁, t₂, a, ht, h₁, -⟩
            obtain ⟨rfl, rfl⟩ := List.append_eq_nil_iff.mp ht.symm
            cases leads_nil.mp h₁
      | cons qr t =>
          obtain ⟨q', r⟩ := qr
          refine ⟨fun ⟨hq, h⟩ => ?_, ?_⟩
          · obtain ⟨t₁, t₂, a, rfl, h₁, h₂⟩ := (ih r).mp h
            exact ⟨(q', r) :: t₁, t₂, a, rfl, ⟨hq, h₁⟩, h₂⟩
          · rintro ⟨t₁, t₂, a, ht, h₁, h₂⟩
            cases t₁ with
            | nil => cases leads_nil.mp h₁
            | cons qr' t₁ =>
                obtain ⟨rfl, rfl⟩ := List.cons.inj ht
                exact ⟨h₁.1, (ih r).mpr ⟨t₁, t₂, a, rfl, h₁.2, h₂⟩⟩

/-- A guarded program whose handler does not return `a` has not thrown where
it returns `a`. -/
theorem leads_tryCatch {p : Prog Q R E α} {handler : E → Prog Q R E α}
    {t : List (Q × R)} {a : α}
    (hne : ∀ e t, ¬ (handler e).Leads t (ret a)) :
    (MonadExcept.tryCatch p handler).Leads t (ret a) ↔ p.Leads t (ret a) := by
  change (p.tryCatch handler).Leads t (ret a) ↔ _
  induction p generalizing t with
  | ret => rfl
  | throw e =>
      refine ⟨fun h => (hne e t h).elim, fun h => ?_⟩
      cases (leads_throw.mp h).2
  | ask q k ih =>
      cases t with
      | nil => simp [tryCatch]
      | cons qr t => exact and_congr_right' (ih qr.2)

/-- After the answers `t` the program asks `q`. -/
def Asks (p : Prog Q R E α) (t : List (Q × R)) (q : Q) : Prop :=
  ∃ k, p.Leads t (ask q k)

@[simp] theorem not_asks_ret {a : α} {t : List (Q × R)} {q : Q} :
    ¬ (ret a : Prog Q R E α).Asks t q := by
  simp [Asks]

@[simp] theorem not_asks_throw {e : E} {t : List (Q × R)} {q : Q} :
    ¬ (throw e : Prog Q R E α).Asks t q := by
  simp [Asks]

@[simp] theorem not_asks_pure {a : α} {t : List (Q × R)} {q : Q} :
    ¬ (pure a : Prog Q R E α).Asks t q := not_asks_ret

@[simp] theorem not_asks_raise {e : E} {t : List (Q × R)} {q : Q} :
    ¬ (MonadExcept.throw e : Prog Q R E α).Asks t q := not_asks_throw

@[simp] theorem asks_call {q q' : Q} {t : List (Q × R)} :
    (call q : Prog Q R E R).Asks t q' ↔ t = [] ∧ q' = q := by
  cases t with
  | nil =>
      simp only [Asks, call, leads_nil, ask.injEq, true_and]
      exact ⟨fun ⟨_, h, _⟩ => h.symm, fun h => ⟨_, h.symm, rfl⟩⟩
  | cons => simp [Asks, call, Leads]

/-- A sequence asks what its first part asks, and after that what its second
part does. -/
theorem asks_bind {p : Prog Q R E α} {f : α → Prog Q R E β} {t : List (Q × R)}
    {q : Q} : (p >>= f).Asks t q ↔ p.Asks t q ∨
      ∃ t₁ t₂ a, t = t₁ ++ t₂ ∧ p.Leads t₁ (ret a) ∧ (f a).Asks t₂ q := by
  change (p.bind f).Asks t q ↔ _
  induction p generalizing t with
  | ret a =>
      constructor
      · intro h
        exact .inr ⟨[], t, a, rfl, leads_nil.mpr rfl, h⟩
      · rintro (h | ⟨t₁, t₂, a', rfl, h₁, h₂⟩)
        · exact (not_asks_ret h).elim
        · obtain ⟨rfl, ⟨⟩⟩ := leads_ret.mp h₁
          exact h₂
  | throw e =>
      constructor
      · intro h
        exact (not_asks_throw h).elim
      · rintro (h | ⟨t₁, t₂, a, rfl, h₁, -⟩)
        · exact (not_asks_throw h).elim
        · cases (leads_throw.mp h₁).2
  | ask q' k ih =>
      cases t with
      | nil =>
          constructor
          · rintro ⟨k', hk⟩
            obtain ⟨rfl, -⟩ := ask.inj (leads_nil.mp hk)
            exact .inl ⟨k, leads_nil.mpr rfl⟩
          · rintro (⟨k', hk⟩ | ⟨t₁, t₂, a, ht, h₁, -⟩)
            · obtain ⟨rfl, -⟩ := ask.inj (leads_nil.mp hk)
              exact ⟨_, leads_nil.mpr rfl⟩
            · obtain ⟨rfl, rfl⟩ := List.append_eq_nil_iff.mp ht.symm
              cases leads_nil.mp h₁
      | cons qr t =>
          obtain ⟨q'', r⟩ := qr
          constructor
          · rintro ⟨k', hq, hk⟩
            rcases (ih r).mp ⟨k', hk⟩ with ⟨k'', h⟩ | ⟨t₁, t₂, a, rfl, h₁, h₂⟩
            · exact .inl ⟨k'', hq, h⟩
            · exact .inr ⟨(q'', r) :: t₁, t₂, a, rfl, ⟨hq, h₁⟩, h₂⟩
          · rintro (⟨k', hq, hk⟩ | ⟨t₁, t₂, a, ht, h₁, h₂⟩)
            · obtain ⟨k'', h⟩ := (ih r).mpr (.inl ⟨k', hk⟩)
              exact ⟨k'', hq, h⟩
            · cases t₁ with
              | nil => cases leads_nil.mp h₁
              | cons qr' t₁ =>
                  obtain ⟨rfl, rfl⟩ := List.cons.inj ht
                  obtain ⟨k'', h⟩ := (ih r).mpr (.inr ⟨t₁, t₂, a, rfl, h₁.2, h₂⟩)
                  exact ⟨k'', h₁.1, h⟩

/-- A guarded program whose handler asks nothing asks what it would ask
alone. -/
theorem asks_tryCatch {p : Prog Q R E α} {handler : E → Prog Q R E α}
    {t : List (Q × R)} {q : Q} (hquiet : ∀ e t, ¬ (handler e).Asks t q) :
    (MonadExcept.tryCatch p handler).Asks t q ↔ p.Asks t q := by
  change (p.tryCatch handler).Asks t q ↔ _
  induction p generalizing t with
  | ret => rfl
  | throw e => exact iff_of_false (hquiet e t) not_asks_throw
  | ask q' k ih =>
      cases t with
      | nil =>
          constructor <;>
          · rintro ⟨k', hk⟩
            obtain ⟨rfl, -⟩ := ask.inj (leads_nil.mp hk)
            exact ⟨_, leads_nil.mpr rfl⟩
      | cons qr t =>
          have hrest := ih qr.2 (t := t)
          constructor
          · rintro ⟨k', hq, hk⟩
            obtain ⟨k'', h⟩ := hrest.mp ⟨k', hk⟩
            exact ⟨k'', hq, h⟩
          · rintro ⟨k', hq, hk⟩
            obtain ⟨k'', h⟩ := hrest.mpr ⟨k', hk⟩
            exact ⟨k'', hq, h⟩

/-- A path is a path to where it is cut, and one from there. -/
theorem leads_append {p p' : Prog Q R E α} {t₁ t₂ : List (Q × R)} :
    p.Leads (t₁ ++ t₂) p' ↔ ∃ mid, p.Leads t₁ mid ∧ mid.Leads t₂ p' := by
  induction t₁ generalizing p with
  | nil => simp
  | cons qr t₁ ih =>
      cases p with
      | ret => simp
      | throw => simp
      | ask q k =>
          obtain ⟨q', r⟩ := qr
          simp only [List.cons_append, Leads, ih, and_assoc, exists_and_left]

/-- What was asked along a path was asked after the answers before it. -/
theorem Leads.asked {p p' : Prog Q R E α} {t₁ t₂ : List (Q × R)} {q : Q} {r : R}
    (h : p.Leads (t₁ ++ (q, r) :: t₂) p') : p.Asks t₁ q := by
  obtain ⟨mid, h₁, h₂⟩ := leads_append.mp h
  cases mid with
  | ret => exact h₂.elim
  | throw => exact h₂.elim
  | ask q' k =>
      obtain ⟨rfl, -⟩ := h₂
      exact ⟨k, h₁⟩

/-- Where a program asks, its answer is the next one. -/
theorem Asks.next {p p' : Prog Q R E α} {t₁ t₂ : List (Q × R)} {q : Q}
    (h : p.Asks t₁ q) (hl : p.Leads (t₁ ++ t₂) p') (hne : ∀ k, p' ≠ ask q k) :
    ∃ r t₃, t₂ = (q, r) :: t₃ := by
  obtain ⟨k, hk⟩ := h
  obtain ⟨mid, h₁, h₂⟩ := leads_append.mp hl
  obtain rfl := hk.det h₁
  cases t₂ with
  | nil => exact absurd (leads_nil.mp h₂).symm (hne k)
  | cons qr t₂ =>
      obtain ⟨q', r⟩ := qr
      obtain ⟨rfl, -⟩ := h₂
      exact ⟨r, t₂, rfl⟩

/-- A guarded program ends as it would alone, or as its handler does. -/
theorem tryCatch_end {p : Prog Q R E α} {handler : E → Prog Q R E α}
    {t : List (Q × R)} {e : E}
    (h : (MonadExcept.tryCatch p handler).Leads t (throw e)) :
    ∃ e' t', (handler e').Leads t' (throw e) := by
  change (p.tryCatch handler).Leads t (throw e) at h
  induction p generalizing t with
  | ret => cases (leads_ret.mp h).2
  | throw e' => exact ⟨e', t, h⟩
  | ask q k ih =>
      cases t with
      | nil => cases leads_nil.mp h
      | cons qr t => exact ih qr.2 h.2

end Prog

end AwsKms.Lib
