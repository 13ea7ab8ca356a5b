import Mathlib.Data.List.Basic
import SecureZone.Bus.Ram
import SecureZone.Proofs.Parts

/-!
# The slot of the handshake

There is room for one access. A single move keeps the slot as it is, takes it, frees it or clears it
while it is free. So along a run of single moves the accepted issues and the moves that free the
slot alternate, and every run is one of single moves once its whole accesses are taken apart.
-/

namespace SecureZone

namespace Handshake

/-- The handshake is idle exactly if it has latched nothing. -/
def Consistent (h : Handshake) : Prop := h.phase = .idle ↔ h.latched = none

/-- The number of accesses in flight. -/
def occupancy (h : Handshake) : Nat :=
  match h.phase with
  | .idle => 0
  | .forwarding => 1

theorem occupancy_eq_zero {h : Handshake} (hidle : h.phase = .idle) : h.occupancy = 0 := by
  rw [occupancy, hidle]

theorem occupancy_eq_one {h : Handshake} (hbusy : h.phase = .forwarding) : h.occupancy = 1 := by
  rw [occupancy, hbusy]

/-- The handshakes before and after a single move, and whether the move takes or frees the slot. -/
inductive SlotStep : Handshake → Bool → Bool → Handshake → Prop where
  | keep (h : Handshake) : SlotStep h false false h
  | take {h : Handshake} (access : Pending) (hidle : h.phase = .idle) :
      SlotStep h true false ⟨.forwarding, some access⟩
  | free {h : Handshake} (hbusy : h.phase = .forwarding) : SlotStep h false true .initial
  | clear {h : Handshake} (hidle : h.phase = .idle) : SlotStep h false false .initial

namespace SlotStep

variable {h h' : Handshake} {took freed : Bool}

theorem consistent (hstep : SlotStep h took freed h') (hc : h.Consistent) : h'.Consistent := by
  cases hstep with
  | keep => exact hc
  | take access hidle => simp [Consistent]
  | free hbusy => simp [Consistent, initial]
  | clear hidle => simp [Consistent, initial]

theorem took_iff (hstep : SlotStep h took freed h') :
    took = true ↔ h.phase = .idle ∧ h'.phase = .forwarding := by
  cases hstep with
  | keep => cases hp : h.phase <;> simp
  | take access hidle => simp [hidle]
  | free hbusy => simp [hbusy]
  | clear hidle => simp [initial]

theorem freed_iff (hstep : SlotStep h took freed h') :
    freed = true ↔ h.phase = .forwarding ∧ h'.phase = .idle := by
  cases hstep with
  | keep => cases hp : h.phase <;> simp
  | take access hidle => simp [hidle]
  | free hbusy => simp [hbusy, initial]
  | clear hidle => simp [hidle]

theorem occupancy (hstep : SlotStep h took freed h') :
    h.occupancy + (if took then 1 else 0) = h'.occupancy + if freed then 1 else 0 := by
  cases hstep with
  | keep => rfl
  | take access hidle =>
      rw [occupancy_eq_zero hidle, occupancy_eq_one rfl]
      rfl
  | free hbusy =>
      rw [occupancy_eq_one hbusy, occupancy_eq_zero rfl]
      rfl
  | clear hidle => rw [occupancy_eq_zero hidle, occupancy_eq_zero rfl]

end SlotStep

end Handshake

namespace Interceptor

open SecureZone.Action Handshake

variable {σ : Type} [Bus σ]

/-! ## One move -/

theorem slotStep {move : Move σ} (hmove : move.IsSingle) (z : Interceptor σ) :
    SlotStep z.handshake (takes (.of Move.step move z)) (frees (.of Move.step move z))
      (move.step z).state.handshake := by
  cases move with
  | memory change =>
      rw [state_memory_move]
      exact .keep z.handshake
  | call op =>
      cases op with
      | bus op =>
          obtain rfl : op = .warmReset := hmove
          rw [frees_warmReset]
          by_cases hz : z.IsIdle
          · rw [decide_eq_true hz]
            exact .clear hz
          · rw [decide_eq_false hz]
            exact .free (not_isIdle_iff.mp hz)
      | issue request =>
          rw [takes_issue, state_issue_move]
          by_cases ha : Size.word.Aligned request.address
          · by_cases hz : z.IsIdle
            · rw [issue_of_isIdle ha hz]
              exact .take _ hz
            · rw [issue_of_not_isIdle ha hz]
              exact .keep z.handshake
          · rw [issue_of_not_aligned ha]
            exact .keep z.handshake
      | complete data =>
          rw [frees_complete, state_complete_move]
          by_cases hz : z.IsIdle
          · rw [complete_of_isIdle hz]
            exact .keep z.handshake
          · rw [complete_of_not_isIdle hz]
            exact .free (not_isIdle_iff.mp hz)
      | abort =>
          rw [frees_abort, state_abort_move]
          by_cases hz : z.IsIdle
          · rw [decide_eq_true hz, abort_of_isIdle hz]
            exact .keep z.handshake
          · rw [decide_eq_false hz, abort_of_not_isIdle hz]
            exact .free (not_isIdle_iff.mp hz)
      | transact request => exact hmove.elim
      | region op =>
          rw [Move.step, step, state_map, onRegion, onPart_apply]
          exact .keep z.handshake
      | memory op =>
          rw [Move.step, step, state_map, onMemory, onPart_apply]
          exact .keep z.handshake

/-! ## Runs -/

/-- A step that takes the slot and the next one that does have one step between them that frees
it. -/
def Alternates (steps : List (Record σ)) : Prop :=
  ∀ before first between second after,
    steps = before ++ first :: (between ++ second :: after) → takes first = true →
    takes second = true → (∀ e ∈ between, takes e = false) → between.countP frees = 1

theorem consistent_final_of_single {ms : List (Move σ)} (hms : ∀ move ∈ ms, move.IsSingle)
    {z : Interceptor σ} (hz : z.handshake.Consistent) :
    (final Move.step ms z).handshake.Consistent := by
  refine final_of_preserved (fun y : Interceptor σ ↦ y.handshake.Consistent) hz ?_
  intro move hmove y hy
  exact (slotStep (hms move hmove) y).consistent hy

theorem consistent_final (ms : List (Move σ)) {z : Interceptor σ}
    (hz : z.handshake.Consistent) : (final Move.step ms z).handshake.Consistent := by
  rw [← final_inParts]
  exact consistent_final_of_single isSingle_of_mem_inParts hz

theorem countP_takes_add_occupancy {ms : List (Move σ)} (hms : ∀ move ∈ ms, move.IsSingle)
    (z : Interceptor σ) :
    (history Move.step ms z).countP takes + z.handshake.occupancy =
      (history Move.step ms z).countP frees + (final Move.step ms z).handshake.occupancy := by
  induction ms generalizing z with
  | nil => rfl
  | cons move ms ih =>
      rw [List.forall_mem_cons] at hms
      have hstep := (slotStep hms.1 z).occupancy
      have hrest := ih hms.2 (move.step z).state
      rw [history_cons, final_cons, List.countP_cons, List.countP_cons]
      omega

theorem alternates_of_single {ms : List (Move σ)} (hms : ∀ move ∈ ms, move.IsSingle)
    (z : Interceptor σ) : Alternates (history Move.step ms z) := by
  intro before first between second after h hfirst hsecond hbetween
  obtain ⟨ms₁, _, rfl, -, h₁⟩ := exists_of_history_eq_append Move.step h
  obtain ⟨taking, _, rfl, rfl, h₂⟩ := exists_of_history_eq_cons Move.step h₁.symm
  obtain ⟨ms₂, _, rfl, rfl, h₃⟩ := exists_of_history_eq_append Move.step h₂.symm
  obtain ⟨retaking, _, rfl, rfl, -⟩ := exists_of_history_eq_cons Move.step h₃.symm
  simp only [List.forall_mem_append, List.forall_mem_cons] at hms
  obtain ⟨-, htaking, hms₂, hretaking, -⟩ := hms
  have hbusy := ((slotStep htaking _).took_iff.mp hfirst).2
  have hidle := ((slotStep hretaking _).took_iff.mp hsecond).1
  have hnone := List.countP_eq_zero.mpr fun e he ↦ Bool.eq_false_iff.mp (hbetween e he)
  have hledger := countP_takes_add_occupancy hms₂ (taking.step (final Move.step ms₁ z)).state
  rw [hnone, occupancy_eq_one hbusy, occupancy_eq_zero hidle] at hledger
  omega

/-- The discipline of the slot after any moves from a new interceptor, on any memory. -/
theorem single_slot_handshake (mode : Keystream.Mode) (memory : σ) (ms : List (Move σ)) :
    let start := new mode memory
    let z := final Move.step ms start
    (z.IsIdle ↔ z.handshake.latched = none) ∧
    (∀ request, (∃ forwarded, (issue request z).answer = .ok forwarded) ↔
      Size.word.Aligned request.address ∧ z.IsIdle) ∧
    (∀ request, ¬ Size.word.Aligned request.address →
      (issue request z).answer = .error (.protocol .unaligned)) ∧
    (∀ data, (∃ plain, (complete data z).answer = .ok plain) ↔
      z.handshake.phase = .forwarding) ∧
    (final Move.step (inParts ms start) start = z ∧
      (∀ part ∈ inParts ms start, part.IsSingle) ∧
      Alternates (history Move.step (inParts ms start) start)) ∧
    (∀ e ∈ history Move.step (inParts ms start) start,
      frees e = true ↔ ¬ e.before.IsIdle ∧ e.outcome.state.IsIdle) ∧
    (z.IsIdle →
      (∀ request, (transact request z).state.IsIdle) ∧ ∀ op, (Bus.step op z).state.IsIdle) ∧
    (z.handshake.phase = .forwarding →
      (∀ request,
        (∃ violation, (transact request z).answer = .error (.protocol violation)) ∧
          (transact request z).state = z) ∧
      ∀ op fault, refusal? op = some fault →
        (Bus.step op z).answer = .error fault ∧ (Bus.step op z).state = z) := by
  intro start z
  refine ⟨?_, ?_, ?_, ?_, ?_, ?_, ?_, ?_⟩
  · exact consistent_final ms (by simp [start, new, Consistent, initial])
  · intro request
    exact issue_ok_iff
  · intro request ha
    rw [issue_of_not_aligned ha]
  · intro data
    exact complete_ok_iff
  · exact ⟨final_inParts ms start, isSingle_of_mem_inParts,
      alternates_of_single isSingle_of_mem_inParts start⟩
  · intro e he
    obtain ⟨part, hpart, y, rfl⟩ := exists_of_mem_history Move.step he
    rw [not_isIdle_iff]
    exact (slotStep (isSingle_of_mem_inParts part hpart) y).freed_iff
  · intro hz
    exact ⟨isIdle_transact hz, isIdle_bus_step hz⟩
  · intro hbusy
    have hz : ¬ z.IsIdle := not_isIdle_iff.mpr hbusy
    refine ⟨transact_busy hz, ?_⟩
    intro op fault hop
    refine ⟨answer_bus_step_of_busy hz hop, state_bus_step_of_busy hz ?_⟩
    rintro rfl
    cases hop

/-- Two accesses around a completion, the second of them whole. -/
theorem single_slot_between_two_accesses :
    let start : Interceptor Ram := new .keys (.zeroed 8)
    let between : List (Move Ram) :=
      [.call (.issue (.load 4 .full)), .call .abort, .call (.bus .warmReset)]
    let ms : List (Move Ram) :=
      .call (.issue (.load 0 .full)) :: (between ++ [.call (.bus (.load .half 2))])
    let y := (Move.step (.call (.issue (.load 0 .full))) start).state
    (history Move.step (inParts ms start) start).countP takes = 2 ∧
      (history Move.step between y).countP frees = 1 := by
  intro start between ms y
  have htwo : (history Move.step (inParts ms start) start).countP takes = 2 := by
    decide +kernel +revert
  refine ⟨htwo, ?_⟩
  refine (single_slot_handshake .keys (.zeroed 8) ms).2.2.2.2.1.2.2 [] _
    (history Move.step between y) _ _ rfl rfl rfl ?_
  decide +kernel +revert

end Interceptor

end SecureZone
