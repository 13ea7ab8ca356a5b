import Mathlib.Data.List.Basic
import SecureZone.Proofs.Run

/-!
# Comparing actions

A comparison says which states and which reports of two systems count as alike. Two actions are
alike from a pair of states when they succeed with related values or fail with the same error, and
report and leave behind what counts as alike. Alike actions can be put together like actions.
-/

namespace SecureZone

open SecureZone.Action

/-- Both answers are values that `R` relates, or both are the same error. -/
inductive Answers {ε α β : Type} (R : α → β → Prop) : Except ε α → Except ε β → Prop where
  | ok {a : α} {b : β} (h : R a b) : Answers R (.ok a) (.ok b)
  | error (e : ε) : Answers R (.error e) (.error e)

namespace Answers

variable {ε ε' α β : Type} {R : α → β → Prop}

theorem refl (answer : Except ε α) : Answers Eq answer answer := by
  cases answer with
  | ok a => exact .ok rfl
  | error e => exact .error e

theorem eq {answer answer' : Except ε α} (h : Answers Eq answer answer') : answer = answer' := by
  cases h with
  | ok h => rw [h]
  | error e => rfl

theorem sharpen {R' : α → β → Prop} {answer : Except ε α} {answer' : Except ε β}
    (h : Answers R answer answer')
    (hR : ∀ a b, answer = .ok a → answer' = .ok b → R a b → R' a b) :
    Answers R' answer answer' := by
  cases h with
  | ok h => exact .ok (hR _ _ rfl rfl h)
  | error e => exact .error e

theorem mapError {answer : Except ε α} {answer' : Except ε β} (h : Answers R answer answer')
    (f : ε → ε') : Answers R (answer.mapError f) (answer'.mapError f) := by
  cases h with
  | ok h => exact .ok h
  | error e => exact .error (f e)

end Answers

/-- The values are equal, unless `p` holds. -/
def EqUnless {α : Type} (p : Prop) (a b : α) : Prop := p ∨ a = b

namespace EqUnless

variable {α β : Type} {p q : Prop} {a b : α}

theorem of_eq (p : Prop) (h : a = b) : EqUnless p a b := .inr h

theorem map (h : EqUnless p a b) (f : α → β) : EqUnless p (f a) (f b) :=
  h.imp_right (congrArg f)

theorem imp (h : EqUnless p a b) (hpq : p → q) : EqUnless q a b := h.imp_left hpq

theorem eq (h : EqUnless p a b) (hp : ¬ p) : a = b := h.resolve_left hp

end EqUnless

/-- What counts as alike in two systems. Reports are compared from left to right. -/
structure Comparison (σ τ : Type) where
  States : σ → τ → Prop
  Reports : List Event → List Event → Prop
  reports_nil : Reports [] []
  reports_append {es es' later later' : List Event} (h : Reports es es')
    (hlater : Reports later later') : Reports (es ++ later) (es' ++ later')

namespace Comparison

variable {σ τ ι κ ε ε' α α' β β' : Type} {c : Comparison σ τ}

/-- The states are related and the reports are equal. -/
def ofStates (States : σ → τ → Prop) : Comparison σ τ where
  States := States
  Reports := Eq
  reports_nil := rfl
  reports_append h hlater := congrArg₂ (· ++ ·) h hlater

/-- Nothing differs. -/
def equal (σ : Type) : Comparison σ σ := .ofStates Eq

/-- From `s` and `t` the two actions have alike outcomes, with values that `R` relates. -/
structure Alike (c : Comparison σ τ) (R : α → β → Prop) (x : Action σ ε α) (y : Action τ ε β)
    (s : σ) (t : τ) : Prop where
  answers : Answers R (x s).answer (y t).answer
  states : c.States (x s).state (y t).state
  reports : c.Reports (x s).events (y t).events

namespace Alike

variable {R : α → β → Prop} {R' : α' → β' → Prop} {x : Action σ ε α} {y : Action τ ε β} {s : σ}
  {t : τ}

theorem of_ok {a : α} {b : β} {s' : σ} {t' : τ} {es es' : List Event}
    (hx : x s = ⟨.ok a, s', es⟩) (hy : y t = ⟨.ok b, t', es'⟩) (hab : R a b)
    (hst : c.States s' t') (hes : c.Reports es es') : c.Alike R x y s t := by
  refine ⟨?_, ?_, ?_⟩
  · rw [hx, hy]
    exact .ok hab
  · rwa [hx, hy]
  · rwa [hx, hy]

theorem of_error {e : ε} {s' : σ} {t' : τ} {es es' : List Event} (hx : x s = ⟨.error e, s', es⟩)
    (hy : y t = ⟨.error e, t', es'⟩) (hst : c.States s' t') (hes : c.Reports es es') :
    c.Alike R x y s t := by
  refine ⟨?_, ?_, ?_⟩
  · rw [hx, hy]
    exact .error e
  · rwa [hx, hy]
  · rwa [hx, hy]

theorem refl (x : Action σ ε α) (s : σ) : (equal σ).Alike Eq x x s s := ⟨.refl _, rfl, rfl⟩

theorem pure (hst : c.States s t) {a : α} {b : β} (hab : R a b) :
    c.Alike R (Pure.pure a : Action σ ε α) (Pure.pure b) s t :=
  of_ok rfl rfl hab hst c.reports_nil

theorem fail (hst : c.States s t) (e : ε) :
    c.Alike R (Action.fail e) (Action.fail e) s t :=
  of_error rfl rfl hst c.reports_nil

theorem get (hst : c.States s t) :
    c.Alike c.States (Action.get : Action σ ε σ) (Action.get : Action τ ε τ) s t :=
  of_ok rfl rfl hst hst c.reports_nil

theorem report (hst : c.States s t) {event event' : Event} (h : c.Reports [event] [event']) :
    c.Alike Eq (Action.report event : Action σ ε Unit) (Action.report event') s t :=
  of_ok rfl rfl rfl hst h

theorem perform {update : Update σ} {update' : Update τ}
    (hst : c.States (update s).1 (update' t).1) (hes : c.Reports (update s).2 (update' t).2) :
    c.Alike Eq (Action.perform update : Action σ ε Unit) (Action.perform update') s t :=
  of_ok rfl rfl rfl hst hes

theorem bind {f : α → Action σ ε α'} {g : β → Action τ ε β'} (h : c.Alike R x y s t)
    (hnext : ∀ a b, R a b → ∀ s' t', c.States s' t' → c.Alike R' (f a) (g b) s' t') :
    c.Alike R' (x >>= f) (y >>= g) s t := by
  obtain ⟨hanswers, hstates, hreports⟩ := h
  rcases hx : x s with ⟨answer, s', es⟩
  rcases hy : y t with ⟨answer', t', es'⟩
  rw [hx, hy] at hanswers hstates hreports
  cases hanswers with
  | @ok a b hab =>
      have hrest := hnext a b hab s' t' hstates
      have hleft : (x >>= f) s = (f a s').after es := by rw [bind_apply, hx, Outcome.andThen_ok]
      have hright : (y >>= g) t = (g b t').after es' := by rw [bind_apply, hy, Outcome.andThen_ok]
      refine ⟨?_, ?_, ?_⟩
      · rw [hleft, hright]
        exact hrest.answers
      · rw [hleft, hright]
        exact hrest.states
      · rw [hleft, hright]
        exact c.reports_append hreports hrest.reports
  | error e =>
      refine of_error (e := e) ?_ ?_ hstates hreports
      · rw [bind_apply, hx, Outcome.andThen_error]
      · rw [bind_apply, hy, Outcome.andThen_error]

/-- What follows a check matters only where the check passes. -/
theorem bind_ofExcept {answer : Except ε α} {f : α → Action σ ε α'} {g : α → Action τ ε β'}
    (hst : c.States s t) (hnext : ∀ a, answer = .ok a → c.Alike R' (f a) (g a) s t) :
    c.Alike R' (ofExcept answer >>= f) (ofExcept answer >>= g) s t := by
  cases answer with
  | ok a => exact hnext a rfl
  | error e => exact of_error rfl rfl hst c.reports_nil

theorem map (h : c.Alike R x y s t) {f : α → α'} {g : β → β'}
    (hfg : ∀ a b, R a b → R' (f a) (g b)) : c.Alike R' (f <$> x) (g <$> y) s t := by
  rw [map_eq_pure_bind, map_eq_pure_bind]
  exact h.bind fun a b hab s' t' hst ↦ .pure hst (hfg a b hab)

/-- The same function of equal values. -/
theorem map_eq {x : Action σ ε α} {y : Action τ ε α} (h : c.Alike Eq x y s t) (f : α → β) :
    c.Alike Eq (f <$> x) (f <$> y) s t :=
  h.map fun _ _ ↦ congrArg f

/-- Only values that the two actions do answer have to be related. -/
theorem sharpen {R' : α → β → Prop} (h : c.Alike R x y s t)
    (hR : ∀ a b, (x s).answer = .ok a → (y t).answer = .ok b → R a b → R' a b) :
    c.Alike R' x y s t :=
  ⟨h.answers.sharpen hR, h.states, h.reports⟩

theorem mono {R' : α → β → Prop} (h : c.Alike R x y s t) (hR : ∀ a b, R a b → R' a b) :
    c.Alike R' x y s t :=
  h.sharpen fun a b _ _ ↦ hR a b

theorem mapError (h : c.Alike R x y s t) (f : ε → ε') :
    c.Alike R (x.mapError f) (y.mapError f) s t :=
  ⟨h.answers.mapError f, h.states, h.reports⟩

theorem attempt (h : c.Alike R x y s t) :
    c.Alike (Answers R) (x.attempt : Action σ ε' _) (y.attempt : Action τ ε' _) s t :=
  of_ok rfl rfl h.answers h.states h.reports

theorem onPart {d : Comparison ι κ} {part : ι → σ} {part' : κ → τ} {replace : ι → σ → ι}
    {replace' : κ → τ → κ} {u : ι} {v : κ} (h : c.Alike R x y (part u) (part' v))
    (hstates : ∀ s' t', c.States s' t' → d.States (replace u s') (replace' v t'))
    (hreports : ∀ es es', c.Reports es es' → d.Reports es es') :
    d.Alike R (x.onPart part replace) (y.onPart part' replace') u v :=
  ⟨h.answers, hstates _ _ h.states, hreports _ _ h.reports⟩

theorem forEach {body : ι → Action σ ε Unit} {body' : ι → Action τ ε Unit}
    (hbody : ∀ i s t, c.States s t → c.Alike Eq (body i) (body' i) s t) {is : List ι}
    (hst : c.States s t) : c.Alike Eq (Action.forEach body is) (Action.forEach body' is) s t := by
  induction is generalizing s t with
  | nil => exact .pure hst rfl
  | cons i is ih => exact (hbody i s t hst).bind fun _ _ _ _ _ ↦ ih

theorem tabulate {body : Nat → Action σ ε α} {body' : Nat → Action τ ε β}
    (hbody : ∀ i s t, c.States s t → c.Alike R (body i) (body' i) s t) (n : Nat)
    (hst : c.States s t) :
    c.Alike (List.Forall₂ R) (Action.tabulate n body) (Action.tabulate n body') s t := by
  induction n generalizing body body' s t with
  | zero => exact .pure hst .nil
  | succ n ih =>
      rw [tabulate_succ, tabulate_succ]
      refine (hbody 0 s t hst).bind fun a b hab s₁ t₁ h₁ ↦ ?_
      refine (ih (fun i ↦ hbody (i + 1)) h₁).bind fun as bs hrest s₂ t₂ h₂ ↦ ?_
      exact .pure h₂ (.cons hab hrest)

end Alike

/-! ## Runs -/

/-- Two runs whose operations are related, and whose entries meet some condition, have related
histories if one step keeps the states related. -/
theorem history_forall₂_of {step : ι → Action σ ε α} {step' : κ → Action τ ε' β}
    {Rel : σ → τ → Prop} {Twins : ι → κ → Prop} (Given : Entry ι σ ε α → Entry κ τ ε' β → Prop)
    {Agree : Entry ι σ ε α → Entry κ τ ε' β → Prop} {ops : List ι} {ops' : List κ} {s : σ}
    {t : τ} (hst : Rel s t) (hops : List.Forall₂ Twins ops ops')
    (hgiven : ∀ e ∈ (history step ops s).zip (history step' ops' t), Given e.1 e.2)
    (hstep : ∀ op op' u v, Twins op op' → Rel u v → Given (.of step op u) (.of step' op' v) →
      Rel (step op u).state (step' op' v).state ∧ Agree (.of step op u) (.of step' op' v)) :
    List.Forall₂ Agree (history step ops s) (history step' ops' t) := by
  -- The condition on the entries of a step may be needed before its states can be related.
  induction hops generalizing s t with
  | nil => exact .nil
  | cons htwins _ ih =>
      rw [history_cons, history_cons, List.zip_cons_cons, List.forall_mem_cons] at hgiven
      obtain ⟨hnext, hagree⟩ := hstep _ _ s t htwins hst hgiven.1
      exact .cons hagree (ih hnext hgiven.2)

end Comparison

end SecureZone
