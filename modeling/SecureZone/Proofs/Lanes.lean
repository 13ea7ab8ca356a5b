import Mathlib.Data.List.Basic
import SecureZone.Interceptor.Bus

/-!
# Bytes of an access

An aligned access lies in one word of memory. Its value is repeated over the lanes on the way out
and taken from its lanes on the way back, so that the byte at address `a + j` is byte `j` of the
value in either direction.
-/

namespace SecureZone

namespace Word

theorem toNat_eq (a : Word) : a.toNat = a.container.toNat + a.lane := by
  rw [toNat_container, lane]
  omega

theorem container_aligned (a : Word) : Size.word.Aligned a.container := by
  rw [Size.Aligned, toNat_container]
  exact Nat.mul_mod_left _ _

theorem container_eq_self {a : Word} (h : Size.word.Aligned a) : a.container = a := by
  apply BitVec.eq_of_toNat_eq
  simp only [Size.Aligned, Size.bytes] at h
  rw [toNat_container]
  omega

/-- The word that holds the byte at position `i` starts at `i` rounded down. -/
theorem container_ofNat {a : Word} {i lane : Nat} (ha : Size.word.Aligned a) (hl : lane < 4)
    (hi : i = a.toNat + lane) : Word.container (BitVec.ofNat 32 i) = a := by
  have hlt := a.isLt
  simp only [Size.Aligned, Size.bytes] at ha
  apply BitVec.eq_of_toNat_eq
  rw [toNat_container, BitVec.toNat_ofNat]
  omega

/-- The lanes of an aligned word have addresses of their own: the sum does not wrap around. -/
theorem toNat_add_lane {a : Word} (h : Size.word.Aligned a) {lane : Nat} (hl : lane < 4) :
    (a + BitVec.ofNat 32 lane).toNat = a.toNat + lane := by
  have hlt := a.isLt
  simp only [Size.Aligned, Size.bytes] at h
  rw [BitVec.toNat_add, BitVec.toNat_ofNat]
  omega

theorem container_add_lane {a : Word} (h : Size.word.Aligned a) {lane : Nat} (hl : lane < 4) :
    (a + BitVec.ofNat 32 lane).container = a := by
  apply BitVec.eq_of_toNat_eq
  rw [toNat_container, toNat_add_lane h hl]
  simp only [Size.Aligned, Size.bytes] at h
  omega

theorem lane_add_lane {a : Word} (h : Size.word.Aligned a) {lane : Nat} (hl : lane < 4) :
    (a + BitVec.ofNat 32 lane).lane = lane := by
  rw [Word.lane, toNat_add_lane h hl]
  simp only [Size.Aligned, Size.bytes] at h
  omega

theorem toNat_byte (w : Word) (lane : Nat) :
    (w.byte lane).toNat = w.toNat >>> (8 * lane) % 256 := by
  rw [byte, BitVec.extractLsb'_toNat]

/-- A byte made into a word is its low byte. -/
theorem byte_setWidth (b : Byte) : Word.byte (b.setWidth 32) 0 = b := by
  apply BitVec.eq_of_getLsbD_eq
  intro i hi
  have hw : i < 32 := by omega
  rw [getLsbD_byte _ _ hi, Nat.mul_zero, Nat.zero_add, BitVec.getLsbD_setWidth,
    decide_eq_true hw, Bool.true_and]

end Word

theorem Size.bytes_le (size : Size) : size.bytes ≤ 4 := by
  cases size <;> decide

theorem Size.byte_aligned (a : Word) : Size.byte.Aligned a := Nat.mod_one _

theorem Size.Aligned.lane_add_bytes_le {size : Size} {a : Word} (h : size.Aligned a) :
    a.lane + size.bytes ≤ 4 := by
  have ha := a.lane_lt
  simp only [Size.Aligned, Word.lane] at h ha ⊢
  cases size <;> simp only [Size.bytes] at h ⊢ <;> omega

/-- The mask of a size has the bits of its bytes. -/
theorem Size.getLsbD_mask (size : Size) (i : Nat) :
    size.mask.getLsbD i = decide (i < 8 * size.bytes) := by
  by_cases hi : i < 32
  · revert i
    cases size <;> decide
  · have hb : ¬ i < 8 * size.bytes := by
      cases size <;> simp only [Size.bytes] <;> omega
    rw [BitVec.getLsbD_of_ge _ _ (by omega), decide_eq_false hb]

namespace Word

theorem byte_and_mask (w : Word) {size : Size} {j : Nat} (hj : j < size.bytes) :
    (w &&& size.mask).byte j = w.byte j := by
  apply BitVec.eq_of_getLsbD_eq
  intro i hi
  rw [getLsbD_byte _ _ hi, getLsbD_byte _ _ hi, BitVec.getLsbD_and, Size.getLsbD_mask,
    decide_eq_true (by omega), Bool.and_true]

theorem byte_mul_ones {w : Word} (hw : w.toNat < 256) {lane : Nat} (hl : lane < 4) :
    (w * 0x01010101).byte lane = w.byte 0 := by
  apply BitVec.eq_of_toNat_eq
  rw [toNat_byte, toNat_byte, BitVec.toNat_mul]
  generalize w.toNat = n at hw
  have hprod : n * BitVec.toNat (0x01010101 : Word) % 2 ^ 32 = n * 0x01010101 :=
    Nat.mod_eq_of_lt (by simp only [BitVec.reduceToNat]; omega)
  -- What is left above a lane is the same pattern with one byte fewer.
  have h8 : n * 0x01010101 / 2 ^ 8 = n * 0x010101 := by omega
  have h16 : n * 0x01010101 / 2 ^ 16 = n * 0x0101 := by omega
  have h24 : n * 0x01010101 / 2 ^ 24 = n := by omega
  rw [hprod, Nat.shiftRight_eq_div_pow, Nat.shiftRight_eq_div_pow]
  obtain rfl | rfl | rfl | rfl : lane = 0 ∨ lane = 1 ∨ lane = 2 ∨ lane = 3 := by omega
  · omega
  · rw [h8]
    omega
  · rw [h16]
    omega
  · rw [h24]
    omega

theorem byte_mul_halves {w : Word} (hw : w.toNat < 65536) {lane : Nat} (hl : lane < 4) :
    (w * 0x00010001).byte lane = w.byte (lane % 2) := by
  apply BitVec.eq_of_toNat_eq
  rw [toNat_byte, toNat_byte, BitVec.toNat_mul]
  generalize w.toNat = n at hw
  have hprod : n * BitVec.toNat (0x00010001 : Word) % 2 ^ 32 = n * 0x00010001 :=
    Nat.mod_eq_of_lt (by simp only [BitVec.reduceToNat]; omega)
  have h8 : n * 0x00010001 / 2 ^ 8 = n / 2 ^ 8 + n * 2 ^ 8 := by omega
  have h16 : n * 0x00010001 / 2 ^ 16 = n := by omega
  have h24 : n * 0x00010001 / 2 ^ 24 = n / 2 ^ 8 := by omega
  rw [hprod, Nat.shiftRight_eq_div_pow, Nat.shiftRight_eq_div_pow]
  obtain rfl | rfl | rfl | rfl : lane = 0 ∨ lane = 1 ∨ lane = 2 ∨ lane = 3 := by omega
  · simp only [Nat.zero_mod]
    omega
  · simp only [Nat.mul_one, Nat.one_mod, h8]
    omega
  · rw [h16, Nat.mod_self, Nat.mul_zero, Nat.pow_zero, Nat.div_one]
  · rw [h24]

end Word

namespace Strobe

theorem lanes_full : full.lanes = List.range 4 := rfl

theorem lanes_eq_nil_iff (strobe : Strobe) : strobe.lanes = [] ↔ strobe = 0 := by
  revert strobe
  decide

theorem lanes_forAccess_byte {a : Word} {lane : Nat} (h : a.lane = lane) :
    (forAccess .byte a).lanes = [lane] := by
  have hl := a.lane_lt
  rw [h] at hl
  rw [forAccess, h]
  clear h
  revert lane
  decide

end Strobe

namespace Interceptor

/-- In the lanes of an aligned access, the repeated value shows its own bytes in order. -/
theorem byte_replicate {size : Size} {a : Word} (data : Word) (h : size.Aligned a) {j : Nat}
    (hj : j < size.bytes) : (replicate size data).byte (a.lane + j) = data.byte j := by
  have hle := h.lane_add_bytes_le
  cases size with
  | byte =>
      obtain rfl : j = 0 := by simpa [Size.bytes] using hj
      have hlt : (data &&& Size.byte.mask).toNat < 256 :=
        Nat.lt_of_le_of_lt Nat.and_le_right (by decide)
      rw [replicate, Nat.add_zero, Word.byte_mul_ones hlt a.lane_lt, Word.byte_and_mask data hj]
  | half =>
      simp only [Size.Aligned, Size.bytes, Word.lane] at h hle hj
      have hlt : (data &&& Size.half.mask).toNat < 65536 :=
        Nat.lt_of_le_of_lt Nat.and_le_right (by decide)
      have hlane : (a.lane + j) % 2 = j := by
        rw [Word.lane]
        omega
      rw [replicate, Word.byte_mul_halves hlt (by rw [Word.lane]; omega), hlane,
        Word.byte_and_mask data hj]
  | word =>
      have hlane : a.lane = 0 := h
      rw [replicate, hlane, Nat.zero_add]

/-- Taking the bytes of an access out of a word moves them to the low end and clears the rest. -/
theorem byte_extract (size : Size) (a data : Word) (j : Nat) :
    (extract size a data).byte j = if j < size.bytes then data.byte (a.lane + j) else 0 := by
  apply BitVec.eq_of_getLsbD_eq
  intro i hi
  have hsum : 8 * a.lane + (8 * j + i) = 8 * (a.lane + j) + i := by omega
  rw [Word.getLsbD_byte _ _ hi, extract, BitVec.getLsbD_and, BitVec.getLsbD_ushiftRight,
    Size.getLsbD_mask, hsum]
  by_cases hb : j < size.bytes
  · rw [if_pos hb, Word.getLsbD_byte _ _ hi, decide_eq_true (by omega), Bool.and_true]
  · rw [if_neg hb, decide_eq_false (by omega), Bool.and_false]
    exact BitVec.getLsbD_zero.symm

end Interceptor

end SecureZone
