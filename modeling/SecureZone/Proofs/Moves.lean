import Mathlib.Data.List.Basic
import SecureZone.Proofs.Access
import SecureZone.Proofs.Lanes
import SecureZone.Proofs.Run

/-!
# Moves against an interceptor

A move is an operation on the interceptor or any change made directly to the memory behind it. An
accepted issue takes the slot of the handshake, and a completion, an abort or a warm reset frees
it. While the slot is taken every other move leaves the handshake as it is, and whole accesses
fail and change nothing at all.
-/

namespace SecureZone.Interceptor

open SecureZone.Action

variable {σ : Type}

inductive Move (σ : Type) where
  | call (op : Op)
  | memory (change : σ → σ)

def Move.step [Bus σ] : Move σ → Action (Interceptor σ) OpFailure Reply
  | .call op => Interceptor.step op
  | .memory change => (fun _ ↦ .done) <$> onMemory (.modify change)

abbrev Record (σ : Type) : Type := Entry (Move σ) (Interceptor σ) OpFailure Reply

/-- The step is an issue that is accepted. -/
def takes (e : Record σ) : Bool :=
  match e.op with
  | .call (.issue _) => e.outcome.answer.isOk
  | _ => false

/-- The step is a successful completion, or an abort or a warm reset of a busy interceptor. -/
def frees (e : Record σ) : Bool :=
  match e.op with
  | .call (.complete _) => e.outcome.answer.isOk
  | .call .abort | .call (.bus .warmReset) => !decide e.before.IsIdle
  | _ => false

variable [Bus σ] {z : Interceptor σ}

theorem takes_issue (request : Request) (z : Interceptor σ) :
    takes (.of Move.step (.call (.issue request)) z) = (issue request z).answer.isOk := by
  rw [takes, Entry.of_op, Entry.of_outcome, Move.step, Interceptor.step, answer_map,
    answer_mapError]
  cases (issue request z).answer <;> rfl

theorem frees_complete (data : Word) (z : Interceptor σ) :
    frees (.of Move.step (.call (.complete data)) z) = (complete data z).answer.isOk := by
  rw [frees, Entry.of_op, Entry.of_outcome, Move.step, Interceptor.step, answer_map,
    answer_mapError]
  cases (complete data z).answer <;> rfl

theorem frees_abort (z : Interceptor σ) :
    frees (.of Move.step (.call .abort) z) = !decide z.IsIdle := rfl

theorem frees_warmReset (z : Interceptor σ) :
    frees (.of Move.step (.call (.bus .warmReset)) z) = !decide z.IsIdle := rfl

/-! ## States -/

section

variable (z) (request : Request)

@[simp] theorem state_memory_move (change : σ → σ) :
    (Move.step (.memory change) z).state = { z with memory := change z.memory } := by
  rw [Move.step, state_map, onMemory, onPart_apply, Action.modify]

@[simp] theorem state_issue_move :
    (Move.step (.call (.issue request)) z).state = (issue request z).state := by
  rw [Move.step, Interceptor.step, state_map, state_mapError]

@[simp] theorem state_complete_move (data : Word) :
    (Move.step (.call (.complete data)) z).state = (complete data z).state := by
  rw [Move.step, Interceptor.step, state_map, state_mapError]

@[simp] theorem state_abort_move : (Move.step (.call .abort) z).state = (abort z).1 := by
  rw [Move.step, Interceptor.step, state_map, perform_apply]

@[simp] theorem state_transact_move :
    (Move.step (.call (.transact request)) z).state = (transact request z).state := by
  rw [Move.step, Interceptor.step, state_map, state_mapError]

@[simp] theorem state_bus_move (op : Bus.Op) :
    (Move.step (.call (.bus op)) z).state = (Bus.step op z).state := by
  rw [Move.step, Interceptor.step, state_map, state_mapError]

end

/-! ## Whole accesses -/

theorem transact_busy (hz : ¬ z.IsIdle) (request : Request) :
    (∃ violation, (transact request z).answer = .error (.protocol violation)) ∧
      (transact request z).state = z := by
  by_cases h : Size.word.Aligned request.address
  · rw [transact_of_not_isIdle h hz]
    exact ⟨⟨_, rfl⟩, rfl⟩
  · rw [transact_of_not_aligned h]
    exact ⟨⟨_, rfl⟩, rfl⟩

theorem isIdle_transact (hz : z.IsIdle) (request : Request) :
    (transact request z).state.IsIdle := by
  by_cases h : Size.word.Aligned request.address
  · cases hserved : served request z with
    | mk answer m events =>
        cases answer with
        | ok data =>
            rw [transact_of_served_ok h hz hserved]
            exact rfl
        | error fault =>
            rw [transact_of_served_error h hz hserved]
            exact rfl
  · rw [transact_of_not_aligned h]
    exact hz

/-- The access that an operation of a core becomes, unless it is misaligned. -/
def access? : Bus.Op → Option Request
  | .load size a =>
    if size.Aligned a then some (.load a.container (.forAccess size a)) else none
  | .store size a data =>
    if size.Aligned a then some (.store a.container (replicate size data) (.forAccess size a))
    else none
  | .storeLanes a data strobe =>
    if Size.word.Aligned a then some (.store a data strobe) else none
  | .warmReset => none

theorem state_bus_step {op : Bus.Op} (h : op ≠ .warmReset) (z : Interceptor σ) :
    (Bus.step op z).state = (access? op).elim z fun request ↦ (transact request z).state := by
  cases op with
  | load size a =>
      rw [Bus.step, state_map, bus_load, access?]
      by_cases ha : size.Aligned a
      · rw [state_load ha, if_pos ha, Option.elim_some]
      · rw [load_of_not_aligned ha, if_neg ha, Option.elim_none]
  | store size a data =>
      rw [Bus.step, state_map, bus_store, access?]
      by_cases ha : size.Aligned a
      · rw [store_of_aligned ha, state_storeLanes a.container_aligned, if_pos ha, Option.elim_some]
      · rw [store_of_not_aligned ha, if_neg ha, Option.elim_none]
  | storeLanes a data strobe =>
      rw [Bus.step, state_map, bus_storeLanes, access?]
      by_cases ha : Size.word.Aligned a
      · rw [state_storeLanes ha, if_pos ha, Option.elim_some]
      · rw [storeLanes_of_not_aligned ha, if_neg ha, Option.elim_none]
  | warmReset => exact absurd rfl h

theorem isIdle_bus_step (hz : z.IsIdle) (op : Bus.Op) : (Bus.step op z).state.IsIdle := by
  by_cases h : op = .warmReset
  · rw [h, Bus.step, state_map]
    exact rfl
  · rw [state_bus_step h]
    cases access? op with
    | none => exact hz
    | some request => exact isIdle_transact hz request

/-- What a refused operation of a core reports: its misalignment first, and else an access fault. A
warm reset is never refused. -/
def refusal? : Bus.Op → Option Fault
  | .load size a => some ⟨.load, if size.Aligned a then .access else .misaligned⟩
  | .store size a _ => some ⟨.store, if size.Aligned a then .access else .misaligned⟩
  | .storeLanes a _ _ => some ⟨.store, if Size.word.Aligned a then .access else .misaligned⟩
  | .warmReset => none

theorem answer_bus_step_of_busy (hz : ¬ z.IsIdle) {op : Bus.Op} {fault : Fault}
    (h : refusal? op = some fault) : (Bus.step op z).answer = .error fault := by
  cases op with
  | load size a =>
      obtain rfl := Option.some.inj h
      rw [Bus.step, answer_map, bus_load]
      by_cases ha : size.Aligned a
      · rw [answer_load ha, transact_of_not_isIdle a.container_aligned hz, if_pos ha]
        rfl
      · rw [load_of_not_aligned ha, if_neg ha]
        rfl
  | store size a data =>
      obtain rfl := Option.some.inj h
      rw [Bus.step, answer_map, bus_store]
      by_cases ha : size.Aligned a
      · rw [store_of_aligned ha, answer_storeLanes a.container_aligned,
          transact_of_not_isIdle a.container_aligned hz, if_pos ha]
        rfl
      · rw [store_of_not_aligned ha, if_neg ha]
        rfl
  | storeLanes a data strobe =>
      obtain rfl := Option.some.inj h
      rw [Bus.step, answer_map, bus_storeLanes]
      by_cases ha : Size.word.Aligned a
      · rw [answer_storeLanes ha, transact_of_not_isIdle ha hz, if_pos ha]
        rfl
      · rw [storeLanes_of_not_aligned ha, if_neg ha]
        rfl
  | warmReset => cases h

theorem state_bus_step_of_busy (hz : ¬ z.IsIdle) {op : Bus.Op} (h : op ≠ .warmReset) :
    (Bus.step op z).state = z := by
  rw [state_bus_step h]
  cases access? op with
  | none => rfl
  | some request => exact (transact_busy hz request).2

/-! ## The slot -/

/-- While the slot is taken, a move that does not free it does not touch it. -/
theorem handshake_step_of_busy {move : Move σ} (hz : ¬ z.IsIdle)
    (hfree : frees (.of Move.step move z) = false) :
    (move.step z).state.handshake = z.handshake := by
  cases move with
  | memory change => rw [state_memory_move]
  | call op =>
      cases op with
      | bus op =>
          by_cases h : op = .warmReset
          · simp [h, frees_warmReset, hz] at hfree
          · rw [state_bus_move, state_bus_step_of_busy hz h]
      | issue request =>
          rw [state_issue_move]
          by_cases h : Size.word.Aligned request.address
          · rw [issue_of_not_isIdle h hz]
          · rw [issue_of_not_aligned h]
      | complete data =>
          rw [frees_complete, complete_of_not_isIdle hz] at hfree
          cases hfree
      | abort => simp [frees_abort, hz] at hfree
      | transact request => rw [state_transact_move, (transact_busy hz request).2]
      | region op => rw [Move.step, Interceptor.step, state_map, onRegion, onPart_apply]
      | memory op => rw [Move.step, Interceptor.step, state_map, onMemory, onPart_apply]

end SecureZone.Interceptor
