import Mathlib.Data.List.Basic
import SecureZone.Bus.Ram
import SecureZone.Proofs.Lanes
import SecureZone.Proofs.Mask

/-!
# Accesses of a memory, byte by byte

A memory refuses an access for its address alone. An access that it does not refuse returns the
bytes at its positions or overwrites them, and touches no others.
-/

namespace SecureZone

namespace Bus.Op

/-- The byte that the operation leaves at position `i` if it succeeds and stores one there. -/
def stored? : Bus.Op → Nat → Option Byte
  | .store size address data, i =>
    if address.toNat ≤ i ∧ i < address.toNat + size.bytes then
      some (data.byte (i - address.toNat))
    else none
  | .storeLanes address data strobe, i =>
    if address.toNat ≤ i ∧ i < address.toNat + 4 ∧ strobe.Selects (i - address.toNat) then
      some (data.byte (i - address.toNat))
    else none
  | .load _ _, _ | .warmReset, _ => none

/-- Storing the lanes of the repeated value is storing the value. -/
theorem stored?_replicate {size : Size} {a : Word} (h : size.Aligned a) (data : Word) (i : Nat) :
    (storeLanes a.container (Interceptor.replicate size data) (.forAccess size a)).stored? i =
      (store size a data).stored? i := by
  have hle := h.lane_add_bytes_le
  have ha := a.toNat_eq
  by_cases hi : a.toNat ≤ i ∧ i < a.toNat + size.bytes
  · obtain ⟨j, rfl⟩ : ∃ j, i = a.toNat + j := ⟨i - a.toNat, by omega⟩
    have hj : j < size.bytes := by omega
    have hsub : a.toNat + j - a.container.toNat = a.lane + j := by omega
    have hsel : (Strobe.forAccess size a).Selects (a.lane + j) :=
      (Strobe.selects_forAccess h (by omega)).mpr ⟨by omega, by omega⟩
    rw [stored?, stored?, if_pos hi, if_pos (by rw [hsub]; exact ⟨by omega, by omega, hsel⟩),
      hsub, Nat.add_sub_cancel_left, Interceptor.byte_replicate data h hj]
  · rw [stored?, stored?, if_neg hi, if_neg]
    rintro ⟨hlo, hhi, hsel⟩
    have hlanes := (Strobe.selects_forAccess h (by omega)).mp hsel
    exact hi ⟨by omega, by omega⟩

end Bus.Op

section

variable (mask : Word → Word)

theorem byteMask_word {a : Word} (h : Size.word.Aligned a) {lane : Nat} (hl : lane < 4) :
    byteMask mask (a.toNat + lane) = (mask a).byte lane := by
  have ha := a.isLt
  have hmod : a.toNat % 4 = 0 := h
  rw [byteMask, if_pos (by omega), Word.container_ofNat h hl rfl, Nat.add_mod, hmod, Nat.zero_add,
    Nat.mod_mod, Nat.mod_eq_of_lt hl]

/-- Masking the data of a store masks the bytes that it leaves behind. -/
theorem Bus.Op.stored?_masked {a : Word} (h : Size.word.Aligned a) (data : Word) (strobe : Strobe)
    (i : Nat) :
    (storeLanes a (data ^^^ mask a) strobe).stored? i =
      ((storeLanes a data strobe).stored? i).map (· ^^^ byteMask mask i) := by
  by_cases hi : a.toNat ≤ i ∧ i < a.toNat + 4 ∧ strobe.Selects (i - a.toNat)
  · obtain ⟨lane, rfl⟩ : ∃ lane, i = a.toNat + lane := ⟨i - a.toNat, by omega⟩
    rw [stored?, stored?, if_pos hi, if_pos hi, Option.map_some, Nat.add_sub_cancel_left,
      byteMask_word mask h (by omega), Word.byte_xor]
  · rw [stored?, stored?, if_neg hi, if_neg hi, Option.map_none]

end

namespace Ram

variable {ram : Ram} {size : Size} {a : Word}

theorem refusal?_of_not_aligned (h : ¬ size.Aligned a) :
    ram.refusal? size a = some .misaligned := by
  rw [refusal?, if_pos h]

theorem refusal?_of_aligned (h : size.Aligned a) :
    ram.refusal? size a =
      if ram.size < a.toNat + size.bytes then some .access else none := by
  rw [refusal?, if_neg (not_not_intro h)]

theorem refusal?_eq_none_iff :
    ram.refusal? size a = none ↔ size.Aligned a ∧ a.toNat + size.bytes ≤ ram.size := by
  by_cases h : size.Aligned a
  · rw [refusal?_of_aligned h, ite_eq_right_iff, and_iff_right h]
    simp
  · rw [refusal?_of_not_aligned h]
    simp [h]

theorem refusal?_eq_access_iff :
    ram.refusal? size a = some .access ↔ size.Aligned a ∧ ram.size < a.toNat + size.bytes := by
  by_cases h : size.Aligned a
  · rw [refusal?_of_aligned h, and_iff_right h]
    simp
  · rw [refusal?_of_not_aligned h]
    simp [h]

theorem refusal?_eq_misaligned_iff :
    ram.refusal? size a = some .misaligned ↔ ¬ size.Aligned a := by
  by_cases h : size.Aligned a
  · rw [refusal?_of_aligned h]
    simp [h]
  · exact iff_of_true (refusal?_of_not_aligned h) h

/-- If the memory consists of whole words, it holds an aligned access when it holds its word. -/
theorem refusal?_container (h : size.Aligned a) (hsize : ram.size % 4 = 0) :
    ram.refusal? .word a.container = ram.refusal? size a := by
  have hle := h.lane_add_bytes_le
  have hpos := size.bytes_pos
  have ha := a.toNat_eq
  have hc : a.container.toNat % 4 = 0 := a.container_aligned
  rw [refusal?_of_aligned h, refusal?_of_aligned a.container_aligned]
  by_cases hfit : ram.size < a.toNat + size.bytes
  · rw [if_pos hfit, if_pos (by simp only [Size.bytes]; omega)]
  · rw [if_neg hfit, if_neg (by simp only [Size.bytes]; omega)]

theorem load_of_refused {cause : Fault.Cause} (h : ram.refusal? size a = some cause) :
    load size a ram = ⟨.error ⟨.load, cause⟩, ram, []⟩ := by
  simp only [load, h]

theorem load_of_accepted (h : ram.refusal? size a = none) :
    load size a ram = ⟨.ok (Word.ofBytes (ram.bytesFrom a.toNat size.bytes)), ram, []⟩ := by
  simp only [load, h]

theorem store_of_refused {cause : Fault.Cause} (h : ram.refusal? size a = some cause)
    (data : Word) : store size a data ram = ⟨.error ⟨.store, cause⟩, ram, []⟩ := by
  simp only [store, h]

theorem store_of_accepted (h : ram.refusal? size a = none) (data : Word) :
    store size a data ram =
      ⟨.ok (), ram.setLanes a.toNat data (List.range size.bytes), []⟩ := by
  simp only [store, h]

theorem storeLanes_of_refused {cause : Fault.Cause} (h : ram.refusal? .word a = some cause)
    (data : Word) (strobe : Strobe) :
    storeLanes a data strobe ram = ⟨.error ⟨.store, cause⟩, ram, []⟩ := by
  simp only [storeLanes, h]

theorem storeLanes_of_accepted (h : ram.refusal? .word a = none) (data : Word)
    (strobe : Strobe) :
    storeLanes a data strobe ram = ⟨.ok (), ram.setLanes a.toNat data strobe.lanes, []⟩ := by
  simp only [storeLanes, h]

theorem byte_ofBytes_bytesFrom (ram : Ram) (start count : Nat) {j : Nat} (hj : j < 4) :
    (Word.ofBytes (ram.bytesFrom start count)).byte j =
      if j < count then ram.byteAt (start + j) else 0 := by
  rw [Word.byte_ofBytes _ hj, bytesFrom]
  by_cases hc : j < count
  · simp [List.getD_eq_getElem?_getD, hc]
  · simp [List.getD_eq_getElem?_getD, hc]

theorem setLanes_append (ram : Ram) (start : Nat) (data : Word) (first second : List Nat) :
    ram.setLanes start data (first ++ second) =
      (ram.setLanes start data first).setLanes start data second := by
  rw [setLanes, List.foldl_append]
  rfl

theorem byteAt_setLanes_range (ram : Ram) (size : Size) (a data : Word) (i : Nat) :
    (ram.setLanes a.toNat data (List.range size.bytes)).byteAt i =
      ((Bus.Op.store size a data).stored? i).getD (ram.byteAt i) := by
  rw [byteAt_setLanes, Bus.Op.stored?]
  by_cases hi : a.toNat ≤ i ∧ i < a.toNat + size.bytes
  · rw [if_pos hi, if_pos ⟨hi.1, List.mem_range.mpr (by omega)⟩, Option.getD_some]
  · rw [if_neg hi, if_neg, Option.getD_none]
    rintro ⟨hlo, hmem⟩
    have hlt := List.mem_range.mp hmem
    exact hi ⟨hlo, by omega⟩

theorem byteAt_setLanes_lanes (ram : Ram) (a data : Word) (strobe : Strobe) (i : Nat) :
    (ram.setLanes a.toNat data strobe.lanes).byteAt i =
      ((Bus.Op.storeLanes a data strobe).stored? i).getD (ram.byteAt i) := by
  rw [byteAt_setLanes, Bus.Op.stored?]
  by_cases hi : a.toNat ≤ i ∧ i < a.toNat + 4 ∧ strobe.Selects (i - a.toNat)
  · rw [if_pos hi, if_pos ⟨hi.1, Strobe.mem_lanes.mpr ⟨by omega, hi.2.2⟩⟩, Option.getD_some]
  · rw [if_neg hi, if_neg, Option.getD_none]
    rintro ⟨hlo, hmem⟩
    obtain ⟨hlt, hsel⟩ := Strobe.mem_lanes.mp hmem
    exact hi ⟨hlo, by omega, hsel⟩

end Ram

end SecureZone
