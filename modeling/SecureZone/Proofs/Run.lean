import Mathlib.Data.List.Basic
import SecureZone.Action

/-!
# Runs

A run performs one operation after the other, whether or not they succeed. Its history has an
entry for every step. What one step preserves holds along the whole run, and two runs whose steps
agree have histories that agree entry by entry.
-/

namespace SecureZone.Action

variable {ι σ τ ε ε' α β : Type}

/-- One step of a run: the state it started from, the operation and what came of it. -/
structure Entry (ι σ ε α : Type) where
  before : σ
  op : ι
  outcome : Outcome σ ε α

def Entry.of (step : ι → Action σ ε α) (op : ι) (s : σ) : Entry ι σ ε α := ⟨s, op, step op s⟩

@[simp] theorem Entry.of_before (step : ι → Action σ ε α) (op : ι) (s : σ) :
    (Entry.of step op s).before = s := rfl

@[simp] theorem Entry.of_op (step : ι → Action σ ε α) (op : ι) (s : σ) :
    (Entry.of step op s).op = op := rfl

@[simp] theorem Entry.of_outcome (step : ι → Action σ ε α) (op : ι) (s : σ) :
    (Entry.of step op s).outcome = step op s := rfl

/-- The steps of a run, oldest first. -/
def history (step : ι → Action σ ε α) : List ι → σ → List (Entry ι σ ε α)
  | [], _ => []
  | op :: ops, s => .of step op s :: history step ops (step op s).state

/-- The state at the end of a run. -/
def final (step : ι → Action σ ε α) : List ι → σ → σ
  | [], s => s
  | op :: ops, s => final step ops (step op s).state

section

variable (step : ι → Action σ ε α)

@[simp] theorem history_nil (s : σ) : history step [] s = [] := rfl

@[simp] theorem history_cons (op : ι) (ops : List ι) (s : σ) :
    history step (op :: ops) s = .of step op s :: history step ops (step op s).state := rfl

@[simp] theorem final_nil (s : σ) : final step [] s = s := rfl

@[simp] theorem final_cons (op : ι) (ops : List ι) (s : σ) :
    final step (op :: ops) s = final step ops (step op s).state := rfl

theorem final_append (first second : List ι) (s : σ) :
    final step (first ++ second) s = final step second (final step first s) := by
  induction first generalizing s with
  | nil => rfl
  | cons op ops ih =>
      rw [List.cons_append, final_cons, final_cons, ih]

theorem exists_of_history_eq_cons {ops : List ι} {s : σ} {e : Entry ι σ ε α}
    {rest : List (Entry ι σ ε α)} (h : history step ops s = e :: rest) :
    ∃ op later, ops = op :: later ∧ e = .of step op s ∧
      rest = history step later (step op s).state := by
  cases ops with
  | nil => cases h
  | cons op later =>
      rw [history_cons, List.cons.injEq] at h
      exact ⟨op, later, rfl, h.1.symm, h.2.symm⟩

/-- A piece at the front of a history is the history of a piece of the run. -/
theorem exists_of_history_eq_append {ops : List ι} {s : σ} {first second : List (Entry ι σ ε α)}
    (h : history step ops s = first ++ second) :
    ∃ before after, ops = before ++ after ∧ first = history step before s ∧
      second = history step after (final step before s) := by
  induction first generalizing ops s with
  | nil => exact ⟨[], ops, rfl, rfl, by simpa using h.symm⟩
  | cons e first ih =>
      obtain ⟨op, later, rfl, rfl, hrest⟩ := exists_of_history_eq_cons step h
      obtain ⟨before, after, rfl, rfl, rfl⟩ := ih hrest.symm
      exact ⟨op :: before, after, rfl, rfl, rfl⟩

theorem exists_of_mem_history {ops : List ι} {s : σ} {e : Entry ι σ ε α}
    (he : e ∈ history step ops s) : ∃ op ∈ ops, ∃ t, e = .of step op t := by
  induction ops generalizing s with
  | nil => cases he
  | cons op ops ih =>
      rw [history_cons, List.mem_cons] at he
      rcases he with rfl | he
      · exact ⟨op, List.mem_cons_self, s, rfl⟩
      · obtain ⟨op', hop', ht⟩ := ih he
        exact ⟨op', List.mem_cons_of_mem op hop', ht⟩

variable {step}

theorem final_of_preserved (Holds : σ → Prop) {ops : List ι} {s : σ} (hs : Holds s)
    (hstep : ∀ op ∈ ops, ∀ t, Holds t → Holds (step op t).state) : Holds (final step ops s) := by
  induction ops generalizing s with
  | nil => exact hs
  | cons op ops ih =>
      refine ih (hstep op List.mem_cons_self s hs) ?_
      intro op' hop'
      exact hstep op' (List.mem_cons_of_mem op hop')

/-- What one step preserves as long as its entry is of some kind holds at the end of a run whose
entries are all of that kind. -/
theorem final_of_preserved_on (Holds : σ → Prop) {Kind : Entry ι σ ε α → Prop} {ops : List ι}
    {s : σ} (hs : Holds s) (hkind : ∀ e ∈ history step ops s, Kind e)
    (hstep : ∀ op t, Holds t → Kind (.of step op t) → Holds (step op t).state) :
    Holds (final step ops s) := by
  induction ops generalizing s with
  | nil => exact hs
  | cons op ops ih =>
      rw [history_cons, List.forall_mem_cons] at hkind
      exact ih (hstep op s hs hkind.1) hkind.2

/-- What a step leaves of something that the state shows, if it leaves anything, is there until a
later step leaves something else. -/
theorem view_final (view : σ → β) (left? : Entry ι σ ε α → Option β) {ops : List ι}
    (hstep : ∀ op ∈ ops, ∀ s, view (step op s).state = (left? (.of step op s)).getD (view s))
    (s : σ) :
    view (final step ops s) = ((history step ops s).reverse.findSome? left?).getD (view s) := by
  induction ops generalizing s with
  | nil => rfl
  | cons op ops ih =>
      rw [List.forall_mem_cons] at hstep
      rw [final_cons, ih hstep.2, hstep.1, history_cons, List.reverse_cons, List.findSome?_append,
        List.findSome?_singleton, Option.getD_or]

/-- Two runs whose states stay related, step by step, have related histories. -/
theorem history_forall₂ {step' : ι → Action τ ε' β} {Rel : σ → τ → Prop}
    {Agree : Entry ι σ ε α → Entry ι τ ε' β → Prop} {ops : List ι} {s : σ} {t : τ} (hst : Rel s t)
    (hstep : ∀ op ∈ ops, ∀ u v, Rel u v →
      Rel (step op u).state (step' op v).state ∧ Agree (.of step op u) (.of step' op v)) :
    List.Forall₂ Agree (history step ops s) (history step' ops t) := by
  induction ops generalizing s t with
  | nil => exact .nil
  | cons op ops ih =>
      obtain ⟨hnext, hagree⟩ := hstep op List.mem_cons_self s t hst
      refine .cons hagree (ih hnext ?_)
      intro op' hop'
      exact hstep op' (List.mem_cons_of_mem op hop')

end

end SecureZone.Action
