import Mathlib.Data.List.Basic
import SecureZone.Interceptor.Operation
import SecureZone.Proofs.Mask

/-!
# What an access does

Every event of the handshake has one of a few outcomes, and the phase and the address say which. A
whole access on an idle interceptor is one operation of the memory on the masked request, after
which the interceptor is idle; on a busy one it fails and nothing changes.
-/

namespace SecureZone.Interceptor

variable {σ : Type} {z : Interceptor σ} {request : Request}

theorem not_isIdle_iff : ¬ z.IsIdle ↔ z.handshake.phase = .forwarding := by
  cases hp : z.handshake.phase <;> simp [IsIdle, hp]

/-! ## Events of the handshake -/

theorem issue_of_not_aligned (h : ¬ Size.word.Aligned request.address) (z : Interceptor σ) :
    issue request z =
      ⟨.error (.protocol .unaligned), z, [.unalignedIssue request.address]⟩ := by
  rw [issue, if_pos h]

theorem issue_of_not_isIdle (h : Size.word.Aligned request.address) (hz : ¬ z.IsIdle) :
    issue request z = ⟨.error (.protocol .busy), z, [.issueWhileBusy]⟩ := by
  have hp := not_isIdle_iff.mp hz
  rw [issue, if_neg (not_not_intro h)]
  simp only [Handshake.receive, hp]

theorem issue_of_isIdle (h : Size.word.Aligned request.address) (hz : z.IsIdle) :
    issue request z =
      ⟨.ok (Pending.of z.mode z.region request).forwarded,
        { z with handshake := ⟨.forwarding, some (.of z.mode z.region request)⟩ },
        [.forwarded (Pending.of z.mode z.region request).forwarded
          (Pending.of z.mode z.region request).keystream.isSome]⟩ := by
  have hp : z.handshake.phase = .idle := hz
  rw [issue, if_neg (not_not_intro h)]
  simp only [Handshake.receive, hp, Pending.of]

theorem complete_of_isIdle (hz : z.IsIdle) (data : Word) :
    complete data z = ⟨.error (.protocol .idle), z, [.completionWhileIdle]⟩ := by
  have hp : z.handshake.phase = .idle := hz
  simp only [complete, Handshake.receive, hp]

theorem complete_of_not_isIdle (hz : ¬ z.IsIdle) (data : Word) :
    complete data z =
      ⟨.ok (z.handshake.returned data), { z with handshake := .initial }, []⟩ := by
  have hp := not_isIdle_iff.mp hz
  simp only [complete, Handshake.receive, hp, Handshake.initial]

theorem abort_of_isIdle (hz : z.IsIdle) : abort z = (z, []) := by
  have hp : z.handshake.phase = .idle := hz
  simp only [abort, Handshake.receive, hp]

theorem abort_of_not_isIdle (hz : ¬ z.IsIdle) :
    abort z = ({ z with handshake := .initial }, [.aborted]) := by
  have hp := not_isIdle_iff.mp hz
  simp only [abort, Handshake.receive, hp, Handshake.initial]

theorem issue_ok_iff :
    (∃ forwarded, (issue request z).answer = .ok forwarded) ↔
      Size.word.Aligned request.address ∧ z.IsIdle := by
  constructor
  · rintro ⟨forwarded, h⟩
    by_cases ha : Size.word.Aligned request.address
    · by_cases hz : z.IsIdle
      · exact ⟨ha, hz⟩
      · rw [issue_of_not_isIdle ha hz] at h
        cases h
    · rw [issue_of_not_aligned ha] at h
      cases h
  · rintro ⟨ha, hz⟩
    rw [issue_of_isIdle ha hz]
    exact ⟨_, rfl⟩

theorem complete_ok_iff {data : Word} :
    (∃ plain, (complete data z).answer = .ok plain) ↔ z.handshake.phase = .forwarding := by
  constructor
  · rintro ⟨plain, h⟩
    apply not_isIdle_iff.mp
    intro hz
    rw [complete_of_isIdle hz] at h
    cases h
  · intro hbusy
    rw [complete_of_not_isIdle (not_isIdle_iff.mpr hbusy)]
    exact ⟨_, rfl⟩

/-! ## Whole accesses -/

variable [Bus σ]

theorem transact_of_not_aligned (h : ¬ Size.word.Aligned request.address) (z : Interceptor σ) :
    transact request z =
      ⟨.error (.protocol .unaligned), z, [.unalignedIssue request.address]⟩ := by
  rw [transact, Action.bind_apply, issue_of_not_aligned h, Outcome.andThen_error]

theorem transact_of_not_isIdle (h : Size.word.Aligned request.address) (hz : ¬ z.IsIdle) :
    transact request z = ⟨.error (.protocol .busy), z, [.issueWhileBusy]⟩ := by
  rw [transact, Action.bind_apply, issue_of_not_isIdle h hz, Outcome.andThen_error]

/-- What the memory answers to the masked request. -/
def served (request : Request) (z : Interceptor σ) : Outcome σ Fault Word :=
  serve (request.masked (Keystream.mask z.mode z.region request.address)) z.memory

theorem transact_of_served_ok (h : Size.word.Aligned request.address) (hz : z.IsIdle) {data : Word}
    {m : σ} {events : List Event} (hm : served request z = ⟨.ok data, m, events⟩) :
    transact request z =
      ⟨.ok ((Pending.of z.mode z.region request).returned data),
        { z with handshake := .initial, memory := m },
        .forwarded (request.masked (Keystream.mask z.mode z.region request.address))
          (decide (z.region.Contains request.address)) :: events⟩ := by
  rw [served, ← Pending.forwarded_of] at hm
  rw [transact, Action.bind_apply, issue_of_isIdle h hz, Outcome.andThen_ok, Action.bind_apply,
    Action.attempt_apply, onMemory, Action.onPart_apply]
  simp only [hm, Outcome.andThen_ok]
  rw [complete_of_not_isIdle (by simp [IsIdle])]
  simp [Pending.forwarded_of, Pending.isSome_keystream_of, Handshake.returned]

theorem transact_of_served_error (h : Size.word.Aligned request.address) (hz : z.IsIdle)
    {fault : Fault} {m : σ} {events : List Event}
    (hm : served request z = ⟨.error fault, m, events⟩) :
    transact request z =
      ⟨.error (.memory fault), { z with handshake := .initial, memory := m },
        .forwarded (request.masked (Keystream.mask z.mode z.region request.address))
          (decide (z.region.Contains request.address)) ::
          (events ++ [.memoryFault fault request.address, .aborted])⟩ := by
  rw [served, ← Pending.forwarded_of] at hm
  rw [transact, Action.bind_apply, issue_of_isIdle h hz, Outcome.andThen_ok, Action.bind_apply,
    Action.attempt_apply, onMemory, Action.onPart_apply]
  simp only [hm, Outcome.andThen_ok]
  rw [Action.bind_apply, Action.report_apply, Outcome.andThen_ok, Action.bind_apply,
    Action.perform_apply, abort_of_not_isIdle (by simp [IsIdle])]
  simp [Pending.forwarded_of, Pending.isSome_keystream_of]

/-! ## Accesses of a core -/

theorem load_of_not_aligned {size : Size} {a : Word} (h : ¬ size.Aligned a) (z : Interceptor σ) :
    load size a z = ⟨.error ⟨.load, .misaligned⟩, z, []⟩ := by
  rw [load, if_pos h, Action.fail_apply]

theorem answer_load {size : Size} {a : Word} (h : size.Aligned a) (z : Interceptor σ) :
    (load size a z).answer =
      ((transact (.load a.container (.forAccess size a)) z).answer.mapError (·.toFault .load)).map
        (extract size a) := by
  rw [load, if_neg (not_not_intro h), Action.answer_map, Action.answer_mapError]

theorem state_load {size : Size} {a : Word} (h : size.Aligned a) (z : Interceptor σ) :
    (load size a z).state = (transact (.load a.container (.forAccess size a)) z).state := by
  rw [load, if_neg (not_not_intro h), Action.state_map, Action.state_mapError]

theorem storeLanes_of_not_aligned {a : Word} (h : ¬ Size.word.Aligned a) (data : Word)
    (strobe : Strobe) (z : Interceptor σ) :
    storeLanes a data strobe z = ⟨.error ⟨.store, .misaligned⟩, z, []⟩ := by
  rw [storeLanes, if_pos h, Action.fail_apply]

theorem answer_storeLanes {a : Word} (h : Size.word.Aligned a) (data : Word) (strobe : Strobe)
    (z : Interceptor σ) :
    (storeLanes a data strobe z).answer =
      ((transact (.store a data strobe) z).answer.mapError (·.toFault .store)).map
        fun _ ↦ () := by
  rw [storeLanes, if_neg (not_not_intro h), Action.answer_map, Action.answer_mapError]

theorem state_storeLanes {a : Word} (h : Size.word.Aligned a) (data : Word) (strobe : Strobe)
    (z : Interceptor σ) :
    (storeLanes a data strobe z).state = (transact (.store a data strobe) z).state := by
  rw [storeLanes, if_neg (not_not_intro h), Action.state_map, Action.state_mapError]

theorem store_of_not_aligned {size : Size} {a : Word} (h : ¬ size.Aligned a) (data : Word)
    (z : Interceptor σ) : store size a data z = ⟨.error ⟨.store, .misaligned⟩, z, []⟩ := by
  rw [store, if_pos h, Action.fail_apply]

theorem store_of_aligned {size : Size} {a : Word} (h : size.Aligned a) (data : Word) :
    (store size a data : Action (Interceptor σ) Fault Unit) =
      storeLanes a.container (replicate size data) (.forAccess size a) := by
  rw [store, if_neg (not_not_intro h)]

end SecureZone.Interceptor
