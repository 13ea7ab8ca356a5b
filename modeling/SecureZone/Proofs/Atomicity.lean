import Mathlib.Data.List.Basic
import SecureZone.Proofs.EncryptedMemory
import SecureZone.Proofs.Registers
import SecureZone.Proofs.Slot

/-!
# Failures leave no trace

An operation on an interceptor in front of a memory either succeeds or changes nothing: a register
refuses a value before it is changed, the driver checks its arguments before the first instruction,
and an access that the memory refuses gives back the slot that it took. That the slot is then as it
was before needs an idle interceptor to have latched nothing, which holds in all reachable states.
-/

namespace SecureZone

open SecureZone.Action

/-! ## Registers -/

namespace Region

variable (r : Region)

theorem atomicFrom_put (csr : Csr) (value : Word) : AtomicFrom (put csr value) r := by
  cases h : refusal? csr value with
  | none =>
      have haccepts := refusal?_eq_none_iff.mp h
      exact AtomicFrom.of_answer_eq (gives_put r csr haccepts).answer_eq
  | some refusal => exact AtomicFrom.of_state_eq (gives_put_refused r csr h).state_eq

theorem state_locate (number : Word) : (locate number r).state = r := by
  rw [locate]
  cases Csr.ofNumber? number <;> rfl

theorem state_readCsr (number : Word) : (readCsr number r).state = r := by
  have hlocate := state_locate r number
  rw [readCsr]
  cases ha : (locate number r).answer with
  | ok csr =>
      have hget : Gives (Action.get >>= fun s ↦ pure (s.get csr) : Action Region Csr.Failure Word) r
          (.ok (r.get csr)) r := (Gives.get r).bind (Gives.pure _ r)
      exact (Gives.bind ⟨ha, hlocate⟩ hget).state_eq
  | error failure => exact (Gives.bind_error ⟨ha, hlocate⟩ _).state_eq

theorem atomicFrom_readCsr (number : Word) : AtomicFrom (readCsr number) r :=
  AtomicFrom.of_state_eq (state_readCsr r number)

theorem atomicFrom_writeCsr (number value : Word) : AtomicFrom (writeCsr number value) r := by
  rw [writeCsr]
  apply AtomicFrom.bind_of_state_eq (state_locate r number)
  intro csr
  exact (atomicFrom_put r csr value).mapError _

theorem atomicFrom_execCsr (instruction : Csr.Instruction) (number operand : Word) :
    AtomicFrom (execCsr instruction number operand) r := by
  rw [execCsr]
  apply AtomicFrom.bind_of_state_eq (state_readCsr r number)
  intro old
  by_cases h : instruction = .readWrite ∨ operand ≠ 0
  · rw [if_pos h]
    exact (atomicFrom_writeCsr r number _).bind_of_succeeds fun _ t ↦ ⟨old, rfl⟩
  · rw [if_neg h]
    exact AtomicFrom.of_state_eq rfl

/-- Reporting a failure to the driver changes nothing. -/
theorem atomicFrom_forDriver {α : Type} {x : Action Region Csr.Failure α} {r : Region}
    (hx : AtomicFrom x r) : AtomicFrom (forDriver x) r := by
  cases ha : (x r).answer with
  | ok a => exact AtomicFrom.of_answer_eq (gives_forDriver ⟨ha, rfl⟩).answer_eq
  | error failure =>
      exact AtomicFrom.of_state_eq (gives_forDriver_error ⟨ha, hx failure ha⟩).state_eq

end Region

namespace Driver

open Region

theorem valid_of_validate {base size : Word} (h : validate base size = .ok ()) :
    ValidBase base ∧ ValidSize size := by
  rw [validate_eq] at h
  by_cases hbase : ValidBase base
  · rw [if_neg (not_not_intro hbase)] at h
    by_cases hsize : ValidSize size
    · exact ⟨hbase, hsize⟩
    · rw [if_pos hsize] at h
      cases h
  · rw [if_pos hbase] at h
    cases h

theorem atomicFrom_init (r : Region) (base size : Word) (on : Bool) :
    AtomicFrom (init base size on : Action Region Failure Unit) r := by
  cases hv : validate base size with
  | ok u =>
      obtain ⟨hbase, hsize⟩ := valid_of_validate hv
      exact AtomicFrom.of_answer_eq (gives_init r hbase hsize on).answer_eq
  | error failure => exact AtomicFrom.of_state_eq (gives_init_refused hv on r).state_eq

theorem atomicFrom_reconfigure (r : Region) (base size : Word) :
    AtomicFrom (reconfigure base size : Action Region Failure Unit) r := by
  cases hv : validate base size with
  | ok u =>
      obtain ⟨hbase, hsize⟩ := valid_of_validate hv
      exact AtomicFrom.of_answer_eq (gives_reconfigure r hbase hsize).answer_eq
  | error failure => exact AtomicFrom.of_state_eq (gives_reconfigure_refused hv r).state_eq

theorem atomicFrom_step (r : Region) (op : Op) :
    AtomicFrom (step op : Action Region Failure Reply) r := by
  cases op with
  | init base size on => exact (atomicFrom_init r base size on).map _
  | reconfigure base size => exact (atomicFrom_reconfigure r base size).map _
  | enable => exact (AtomicFrom.of_answer_eq (gives_enable r).answer_eq).map _
  | disable => exact (AtomicFrom.of_answer_eq (gives_disable r).answer_eq).map _
  | isEnabled => exact (AtomicFrom.of_answer_eq (gives_isEnabled r).answer_eq).map _
  | config => exact (AtomicFrom.of_answer_eq (gives_config r).answer_eq).map _
  | setKeys ks => exact (AtomicFrom.of_answer_eq (gives_setKeys r ks).answer_eq).map _
  | keys => exact (AtomicFrom.of_answer_eq (gives_keys r).answer_eq).map _
  | read number => exact (atomicFrom_forDriver (atomicFrom_readCsr r number)).map _
  | write number value => exact (atomicFrom_forDriver (atomicFrom_writeCsr r number value)).map _
  | setBits number mask =>
      exact (atomicFrom_forDriver (atomicFrom_execCsr r .readSet number mask)).map _
  | clearBits number mask | readAndClear number =>
      exact (atomicFrom_forDriver (atomicFrom_execCsr r .readClear number _)).map _
  | settle cycles => exact AtomicFrom.of_answer_eq rfl

end Driver

theorem Region.atomicFrom_step (r : Region) (op : Region.Op) : AtomicFrom (Region.step op) r := by
  cases op with
  | setBase base => exact ((atomicFrom_put r .base base).mapError _).map _
  | setSize size => exact ((atomicFrom_put r .size size).mapError _).map _
  | setEnabled on => exact AtomicFrom.of_answer_eq rfl
  | setKey slot key => exact AtomicFrom.of_answer_eq rfl
  | setKeys keys => exact AtomicFrom.of_answer_eq rfl
  | reset => exact AtomicFrom.of_answer_eq rfl
  | snapshot => exact AtomicFrom.of_answer_eq rfl
  | readCsr number => exact ((atomicFrom_readCsr r number).mapError _).map _
  | writeCsr number value => exact ((atomicFrom_writeCsr r number value).mapError _).map _
  | execCsr instruction number operand =>
      exact ((atomicFrom_execCsr r instruction number operand).mapError _).map _
  | driver op => exact ((Driver.atomicFrom_step r op).mapError _).map _

/-! ## Accesses -/

namespace Ram

theorem atomicFrom_step (ram : Ram) (op : Bus.Op) : AtomicFrom (Bus.step op) ram := by
  cases op with
  | load size a =>
      apply AtomicFrom.map
      cases hm : ram.refusal? size a with
      | some cause => exact AtomicFrom.of_refused (load_of_refused hm)
      | none => exact AtomicFrom.of_accepted (load_of_accepted hm)
  | store size a data =>
      apply AtomicFrom.map
      cases hm : ram.refusal? size a with
      | some cause => exact AtomicFrom.of_refused (store_of_refused hm data)
      | none => exact AtomicFrom.of_accepted (store_of_accepted hm data)
  | storeLanes a data strobe =>
      apply AtomicFrom.map
      cases hm : ram.refusal? .word a with
      | some cause => exact AtomicFrom.of_refused (storeLanes_of_refused hm data strobe)
      | none => exact AtomicFrom.of_accepted (storeLanes_of_accepted hm data strobe)
  | warmReset => exact AtomicFrom.of_answer_eq rfl

end Ram

namespace Interceptor

theorem atomicFrom_issue {σ : Type} (z : Interceptor σ) (request : Request) :
    AtomicFrom (issue request) z := by
  by_cases ha : Size.word.Aligned request.address
  · by_cases hz : z.IsIdle
    · exact AtomicFrom.of_accepted (issue_of_isIdle ha hz)
    · exact AtomicFrom.of_refused (issue_of_not_isIdle ha hz)
  · exact AtomicFrom.of_refused (issue_of_not_aligned ha z)

theorem atomicFrom_complete {σ : Type} (z : Interceptor σ) (data : Word) :
    AtomicFrom (complete data) z := by
  by_cases hz : z.IsIdle
  · exact AtomicFrom.of_refused (complete_of_isIdle hz data)
  · exact AtomicFrom.of_accepted (complete_of_not_isIdle hz data)

theorem handshake_eq_initial {σ : Type} {z : Interceptor σ} (hc : z.handshake.Consistent)
    (hz : z.IsIdle) : z.handshake = .initial := by
  have hphase : z.handshake.phase = .idle := hz
  have hlatched := hc.mp hphase
  obtain ⟨region, mode, ⟨phase, latched⟩, memory⟩ := z
  cases hphase
  cases hlatched
  rfl

variable {z : Interceptor Ram}

/-- The access gives back the slot that it took when the memory refuses it. -/
theorem atomicFrom_transact (hc : z.handshake.Consistent) (request : Request) :
    AtomicFrom (transact request) z := by
  by_cases hz : z.IsIdle
  · by_cases ha : Size.word.Aligned request.address
    · cases hm : z.memory.refusal? .word request.address with
      | some cause =>
          have hstate := (transact_of_refused request ha hz hm).2
          rw [← handshake_eq_initial hc hz] at hstate
          exact AtomicFrom.of_state_eq hstate
      | none =>
          cases hd : request.direction with
          | load => exact AtomicFrom.of_answer_eq (transact_load request ha hz hd hm).1
          | store => exact AtomicFrom.of_answer_eq (transact_store request ha hz hd hm).1
    · exact AtomicFrom.of_refused (transact_of_not_aligned ha z)
  · exact AtomicFrom.of_state_eq (transact_busy hz request).2

theorem atomicFrom_storeLanes (hc : z.handshake.Consistent) (a data : Word) (strobe : Strobe) :
    AtomicFrom (storeLanes a data strobe) z := by
  by_cases ha : Size.word.Aligned a
  · rw [storeLanes, if_neg (not_not_intro ha)]
    exact ((atomicFrom_transact hc _).mapError _).map _
  · exact AtomicFrom.of_refused (storeLanes_of_not_aligned ha data strobe z)

theorem atomicFrom_bus_step (hc : z.handshake.Consistent) (op : Bus.Op) :
    AtomicFrom (Bus.step op) z := by
  cases op with
  | load size a =>
      apply AtomicFrom.map
      rw [bus_load]
      by_cases ha : size.Aligned a
      · rw [load, if_neg (not_not_intro ha)]
        exact ((atomicFrom_transact hc _).mapError _).map _
      · exact AtomicFrom.of_refused (load_of_not_aligned ha z)
  | store size a data =>
      apply AtomicFrom.map
      rw [bus_store]
      by_cases ha : size.Aligned a
      · rw [store_of_aligned ha]
        exact atomicFrom_storeLanes hc _ _ _
      · exact AtomicFrom.of_refused (store_of_not_aligned ha data z)
  | storeLanes a data strobe => exact (atomicFrom_storeLanes hc a data strobe).map _
  | warmReset => exact AtomicFrom.of_answer_eq rfl

theorem atomicFrom_step (hc : z.handshake.Consistent) (op : Op) : AtomicFrom (step op) z := by
  cases op with
  | bus op => exact ((atomicFrom_bus_step hc op).mapError _).map _
  | issue request => exact ((atomicFrom_issue z request).mapError _).map _
  | complete data => exact ((atomicFrom_complete z data).mapError _).map _
  | abort => exact AtomicFrom.of_answer_eq rfl
  | transact request => exact ((atomicFrom_transact hc request).mapError _).map _
  | region op => exact (((Region.atomicFrom_step z.region op).mapError _).onPart rfl).map _
  | memory op => exact (((Ram.atomicFrom_step z.memory op).mapError _).onPart rfl).map _

/-- After any moves from a new interceptor in front of any memory, an operation that fails leaves
the registers, the handshake with the access in flight and the memory exactly as they were. -/
theorem failure_changes_nothing (mode : Keystream.Mode) (ram : Ram) (ms : List (Move Ram))
    (op : Op) (failure : OpFailure) :
    let z := final Move.step ms (new mode ram)
    (step op z).answer = .error failure → (step op z).state = z := by
  intro z hfailed
  have hconsistent : z.handshake.Consistent :=
    consistent_final ms (by simp [new, Handshake.Consistent, Handshake.initial])
  exact atomicFrom_step hconsistent op failure hfailed

/-- The last bytes of the memory make no whole word, so a store to them is refused after its access
has been issued. -/
theorem refused_store_changes_nothing :
    let ms : List (Move Ram) :=
      [.call (.region (.driver (.init 0 8 true))), .call (.bus (.store .word 0 0xCAFEBABE))]
    let z := final Move.step ms (new .address (.zeroed 6))
    let op : Op := .bus (.store .half 4 0x1234)
    (step op z).answer = .error (.bus ⟨.store, .access⟩) ∧ (step op z).state = z := by
  intro ms z op
  have hfailed : (step op z).answer = .error (.bus ⟨.store, .access⟩) := by
    decide +kernel +revert
  exact ⟨hfailed, failure_changes_nothing .address (.zeroed 6) ms op _ hfailed⟩

end Interceptor

end SecureZone
