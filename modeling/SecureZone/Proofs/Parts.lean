import Mathlib.Data.List.Basic
import SecureZone.Proofs.Moves

/-!
# Whole accesses in parts

A whole access issues its request, hands it to the memory and completes or aborts, all in one move.
Replacing each such move by its parts gives a run of single moves that ends in the same state, and
there the accesses within the whole ones can be seen.
-/

namespace SecureZone.Interceptor

open SecureZone.Action

variable {σ : Type}

/-- The move does not issue and complete by itself. -/
def Move.IsSingle : Move σ → Prop
  | .call (.bus op) => op = .warmReset
  | .call (.transact _) => False
  | _ => True

variable [Bus σ]

/-- The moves that a whole access consists of: no more than the issue if that is refused, and else
also the transfer and what the answer of the memory calls for. -/
def accessParts (request : Request) (z : Interceptor σ) : List (Move σ) :=
  .call (.issue request) ::
    match issue request z with
    | ⟨.error _, _, _⟩ => []
    | ⟨.ok forwarded, y, _⟩ =>
      [.memory fun m ↦ (serve forwarded m).state,
        match (serve forwarded y.memory).answer with
        | .ok data => .call (.complete data)
        | .error _ => .call .abort]

def Move.parts : Move σ → Interceptor σ → List (Move σ)
  | .call (.bus op), z =>
    if op = .warmReset then [.call (.bus op)]
    else (access? op).elim [] (accessParts · z)
  | .call (.transact request), z => accessParts request z
  | move, _ => [move]

/-- The run with each whole access replaced by its parts. -/
def inParts : List (Move σ) → Interceptor σ → List (Move σ)
  | [], _ => []
  | move :: ms, z => move.parts z ++ inParts ms (move.step z).state

theorem isSingle_of_mem_accessParts {request : Request} {z : Interceptor σ} {move : Move σ}
    (h : move ∈ accessParts request z) : move.IsSingle := by
  rw [accessParts, List.mem_cons] at h
  rcases h with rfl | h
  · trivial
  · split at h
    · cases h
    · rw [List.mem_pair] at h
      rcases h with rfl | rfl
      · trivial
      · split <;> trivial

theorem isSingle_of_mem_parts {move part : Move σ} {z : Interceptor σ} (h : part ∈ move.parts z) :
    part.IsSingle := by
  cases move with
  | memory change =>
      rw [List.mem_singleton.mp h]
      trivial
  | call op =>
      cases op with
      | bus op =>
          rw [Move.parts] at h
          by_cases hop : op = .warmReset
          · rw [if_pos hop, List.mem_singleton] at h
            rw [h]
            exact hop
          · rw [if_neg hop] at h
            cases hr : access? op with
            | none => simp [hr] at h
            | some request =>
                rw [hr] at h
                exact isSingle_of_mem_accessParts h
      | transact request => exact isSingle_of_mem_accessParts h
      | _ =>
          rw [List.mem_singleton.mp h]
          trivial

theorem isSingle_of_mem_inParts {ms : List (Move σ)} {z : Interceptor σ} :
    ∀ part ∈ inParts ms z, part.IsSingle := by
  induction ms generalizing z with
  | nil => simp [inParts]
  | cons move ms ih =>
      intro part h
      rw [inParts, List.mem_append] at h
      exact h.elim isSingle_of_mem_parts (ih part)

theorem final_accessParts (request : Request) (z : Interceptor σ) :
    final Move.step (accessParts request z) z = (transact request z).state := by
  rw [accessParts, final_cons, state_issue_move, transact, bind_apply]
  rcases issue request z with ⟨answer, y, events⟩
  cases answer with
  | error failure => rfl
  | ok forwarded =>
      rw [Outcome.andThen_ok, bind_apply, attempt_apply, Outcome.andThen_ok, onMemory, onPart_apply]
      simp only [final_cons, final_nil, state_memory_move]
      cases (serve forwarded y.memory).answer with
      | ok data => simp
      | error fault => simp

theorem final_parts (move : Move σ) (z : Interceptor σ) :
    final Move.step (move.parts z) z = (move.step z).state := by
  cases move with
  | memory change => rfl
  | call op =>
      cases op with
      | bus op =>
          rw [Move.parts, state_bus_move]
          by_cases h : op = .warmReset
          · rw [if_pos h, final_cons, final_nil, state_bus_move]
          · rw [if_neg h, state_bus_step h]
            cases access? op with
            | none => rfl
            | some request => exact final_accessParts request z
      | transact request =>
          rw [state_transact_move]
          exact final_accessParts request z
      | _ => rfl

theorem final_inParts (ms : List (Move σ)) (z : Interceptor σ) :
    final Move.step (inParts ms z) z = final Move.step ms z := by
  induction ms generalizing z with
  | nil => rfl
  | cons move ms ih => rw [inParts, final_append, final_parts, ih, final_cons]

end SecureZone.Interceptor
