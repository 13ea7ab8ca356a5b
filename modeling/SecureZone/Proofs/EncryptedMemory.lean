import Mathlib.Data.List.Basic
import SecureZone.Proofs.Access
import SecureZone.Proofs.Memory

/-!
# An interceptor in front of a memory

An access is refused when the memory refuses its word. A load returns the masked bytes of the
memory and a store leaves masked bytes in it.
-/

namespace SecureZone.Interceptor

variable {z : Interceptor Ram} {size : Size} {a : Word}

/-- The masks that are in force. -/
def masks {σ : Type} (z : Interceptor σ) : Word → Word := Keystream.mask z.mode z.region

/-- The word that the memory behind the interceptor holds at `a`. -/
def heldWord (z : Interceptor Ram) (a : Word) : Word := Word.ofBytes (z.memory.bytesFrom a.toNat 4)

theorem transact_of_refused (request : Request) (h : Size.word.Aligned request.address)
    (hz : z.IsIdle) {cause : Fault.Cause}
    (hm : z.memory.refusal? .word request.address = some cause) :
    (transact request z).answer = .error (.memory ⟨request.direction, cause⟩) ∧
      (transact request z).state = { z with handshake := .initial } := by
  have hserved : served request z = ⟨.error ⟨request.direction, cause⟩, z.memory, []⟩ := by
    obtain ⟨direction, address, data, strobe⟩ := request
    cases direction with
    | load => exact Ram.load_of_refused hm
    | store =>
        have hs := Ram.storeLanes_of_refused hm (data ^^^ z.masks address) strobe
        simp only [served, serve, Request.masked, Action.map_apply, Ram.bus_storeLanes]
        rw [masks] at hs
        rw [hs]
        rfl
  rw [transact_of_served_error h hz hserved]
  exact ⟨rfl, rfl⟩

theorem transact_load (request : Request) (h : Size.word.Aligned request.address) (hz : z.IsIdle)
    (hd : request.direction = .load) (hm : z.memory.refusal? .word request.address = none) :
    (transact request z).answer =
        .ok (z.heldWord request.address ^^^ z.masks request.address) ∧
      (transact request z).state = { z with handshake := .initial } := by
  have hserved : served request z = ⟨.ok (z.heldWord request.address), z.memory, []⟩ := by
    simp only [served, serve, Request.masked, hd]
    exact Ram.load_of_accepted hm
  rw [transact_of_served_ok h hz hserved, Pending.returned_of]
  simp only [hd, masks, and_self]

theorem transact_store (request : Request) (h : Size.word.Aligned request.address) (hz : z.IsIdle)
    (hd : request.direction = .store) (hm : z.memory.refusal? .word request.address = none) :
    (transact request z).answer = .ok 0 ∧
      (transact request z).state =
        { z with
          handshake := .initial
          memory := z.memory.setLanes request.address.toNat
            (request.data ^^^ z.masks request.address) request.strobe.lanes } := by
  have hs := Ram.storeLanes_of_accepted hm (request.data ^^^ z.masks request.address)
    request.strobe
  have hserved : served request z =
      ⟨.ok 0, z.memory.setLanes request.address.toNat
        (request.data ^^^ z.masks request.address) request.strobe.lanes, []⟩ := by
    rw [masks] at hs ⊢
    simp only [served, serve, Request.masked, hd, Action.map_apply, Ram.bus_storeLanes]
    rw [hs]
    rfl
  rw [transact_of_served_ok h hz hserved, Pending.returned_of]
  simp only [hd, and_self]

/-! ## Accesses of a core -/

theorem load_of_refused (h : size.Aligned a) (hz : z.IsIdle) {cause : Fault.Cause}
    (hm : z.memory.refusal? .word a.container = some cause) :
    (load size a z).answer = .error ⟨.load, cause⟩ ∧
      (load size a z).state = { z with handshake := .initial } := by
  obtain ⟨hanswer, hstate⟩ := transact_of_refused
    (.load a.container (.forAccess size a)) a.container_aligned hz hm
  rw [answer_load h, state_load h, hanswer, hstate]
  exact ⟨rfl, rfl⟩

theorem load_of_accepted (h : size.Aligned a) (hz : z.IsIdle)
    (hm : z.memory.refusal? .word a.container = none) :
    (load size a z).answer =
        .ok (extract size a (z.heldWord a.container ^^^ z.masks a.container)) ∧
      (load size a z).state = { z with handshake := .initial } := by
  obtain ⟨hanswer, hstate⟩ := transact_load
    (.load a.container (.forAccess size a)) a.container_aligned hz rfl hm
  rw [answer_load h, state_load h, hanswer, hstate]
  exact ⟨rfl, rfl⟩

theorem storeLanes_of_refused (h : Size.word.Aligned a) (hz : z.IsIdle) {cause : Fault.Cause}
    (hm : z.memory.refusal? .word a = some cause) (data : Word) (strobe : Strobe) :
    (storeLanes a data strobe z).answer = .error ⟨.store, cause⟩ ∧
      (storeLanes a data strobe z).state = { z with handshake := .initial } := by
  obtain ⟨hanswer, hstate⟩ := transact_of_refused (.store a data strobe) h hz hm
  rw [answer_storeLanes h, state_storeLanes h, hanswer, hstate]
  exact ⟨rfl, rfl⟩

theorem storeLanes_of_accepted (h : Size.word.Aligned a) (hz : z.IsIdle)
    (hm : z.memory.refusal? .word a = none) (data : Word) (strobe : Strobe) :
    (storeLanes a data strobe z).answer = .ok () ∧
      (storeLanes a data strobe z).state =
        { z with
          handshake := .initial
          memory := z.memory.setLanes a.toNat (data ^^^ z.masks a) strobe.lanes } := by
  obtain ⟨hanswer, hstate⟩ := transact_store (.store a data strobe) h hz rfl hm
  rw [answer_storeLanes h, state_storeLanes h, hanswer, hstate]
  exact ⟨rfl, rfl⟩

/-! ## Bytes -/

theorem byte_heldWord (z : Interceptor Ram) (h : Size.word.Aligned a) {lane : Nat}
    (hl : lane < 4) :
    (z.heldWord a ^^^ z.masks a).byte lane =
      z.memory.byteAt (a.toNat + lane) ^^^ byteMask z.masks (a.toNat + lane) := by
  rw [Word.byte_xor, heldWord, Ram.byte_ofBytes_bytesFrom _ _ _ hl, if_pos hl,
    byteMask_word _ h hl]

/-- A load returns the masked bytes at its own positions, and zero above them. -/
theorem byte_extract_heldWord (z : Interceptor Ram) (h : size.Aligned a) (j : Nat) :
    (extract size a (z.heldWord a.container ^^^ z.masks a.container)).byte j =
      if j < size.bytes then
        z.memory.byteAt (a.toNat + j) ^^^ byteMask z.masks (a.toNat + j)
      else 0 := by
  have hle := h.lane_add_bytes_le
  rw [byte_extract]
  by_cases hj : j < size.bytes
  · rw [if_pos hj, if_pos hj, byte_heldWord z a.container_aligned (by omega), a.toNat_eq,
      Nat.add_assoc]
  · rw [if_neg hj, if_neg hj]

theorem byteAt_setLanes_masked (z : Interceptor Ram) (h : Size.word.Aligned a) (data : Word)
    (strobe : Strobe) (i : Nat) :
    (z.memory.setLanes a.toNat (data ^^^ z.masks a) strobe.lanes).byteAt i =
      (((Bus.Op.storeLanes a data strobe).stored? i).map (· ^^^ byteMask z.masks i)).getD
        (z.memory.byteAt i) := by
  rw [Ram.byteAt_setLanes_lanes, Bus.Op.stored?_masked _ h]

end SecureZone.Interceptor
