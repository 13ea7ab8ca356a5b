import Mathlib.Data.List.Basic
import SecureZone.Proofs.AtRest

/-!
# How far the encryption reaches

The bounds of a region are byte addresses, and an access is in the region when the word that
contains it starts there. The base is the start of a word, so the two agree wherever the size is one
of whole words. A region of one or two bytes is the exception: it masks the rest of its only word
as well, which lies outside its bounds.
-/

namespace SecureZone

open SecureZone.Action

theorem Region.validSize_cases {size : Word} (h : ValidSize size) :
    size.toNat = 1 ∨ size.toNat = 2 ∨ size.toNat % 4 = 0 ∧ 4 ≤ size.toNat := by
  obtain ⟨k, hk⟩ := h
  match k with
  | 0 => exact .inl hk
  | 1 => exact .inr (.inl hk)
  | k + 2 =>
      have hpos := Nat.two_pow_pos k
      rw [Nat.pow_add] at hk
      exact .inr (.inr ⟨by omega, by omega⟩)

/-- The word around position `i` starts inside the bounds exactly when `i` lies inside them, with a
size below one word counted as a whole word. -/
theorem Region.word_inside_iff {base size i : Nat} (hbase : base % 4 = 0)
    (hsize : size = 1 ∨ size = 2 ∨ size % 4 = 0 ∧ 4 ≤ size) :
    (base ≤ i / 4 * 4 ∧ i / 4 * 4 < base + size) ↔ base ≤ i ∧ i < base + max 4 size := by
  omega

/-- The byte at position `i` of an enabled region is masked by the keystream of its word. -/
theorem byteMask_eq {mode : Keystream.Mode} {region : Region} (hbase : Region.ValidBase region.base)
    (hsize : Region.ValidSize region.size) (hon : region.enabled = true) {i : Nat}
    (hi : i < 0x100000000) :
    byteMask (Keystream.mask mode region) i =
      if region.base.toNat ≤ i ∧ i < region.base.toNat + max 4 region.size.toNat then
        (Keystream.keystream mode region (Word.container (BitVec.ofNat 32 i))).byte (i % 4)
      else 0 := by
  have hword : (Word.container (BitVec.ofNat 32 i)).toNat = i / 4 * 4 := by
    rw [Word.toNat_container, BitVec.toNat_ofNat, Nat.mod_eq_of_lt hi]
  have hinside := Region.word_inside_iff (i := i) hbase (Region.validSize_cases hsize)
  have hcontains : region.Contains (Word.container (BitVec.ofNat 32 i)) ↔
      region.base.toNat ≤ i ∧ i < region.base.toNat + max 4 region.size.toNat := by
    rw [Region.contains_iff, hword, ← hinside]
    exact and_iff_right hon
  rw [byteMask, if_pos hi]
  by_cases h : region.Contains (Word.container (BitVec.ofNat 32 i))
  · rw [Keystream.mask_of_contains mode h, if_pos (hcontains.mp h)]
  · rw [Keystream.mask_of_not_contains mode h, if_neg (mt hcontains.mpr h)]
    simp [Word.byte]

namespace Interceptor

/-- What a successful store leaves at each of its bytes. -/
theorem byteAt_store_of_ok {z : Interceptor Ram} {size : Size} {a data : Word}
    (hok : (store size a data z).answer = .ok ()) {j : Nat} (hj : j < size.bytes) :
    a.toNat + j < 0x100000000 ∧
      (store size a data z).state.memory.byteAt (a.toNat + j) =
        data.byte j ^^^ byteMask z.masks (a.toNat + j) := by
  have ha : size.Aligned a := by
    by_contra h
    rw [store_of_not_aligned h] at hok
    cases hok
  have hle := ha.lane_add_bytes_le
  have hword := a.toNat_eq
  have hcontainer : a.container.toNat % 4 = 0 := a.container_aligned
  have hlt := a.container.isLt
  refine ⟨by omega, ?_⟩
  rw [byteAt_store, hok, Bus.Op.stored?, if_pos (by omega), Nat.add_sub_cancel_left]
  rfl

/-- While a region is enabled, a successful store leaves each of its bytes under the keystream of
its word if the byte lies in the bounds of the region, or in the one word that a smaller region
touches, and as it is if it lies outside. So the bounds are exact to the byte, unless the region is
smaller than a word: a byte behind the bounds in the word of the region is masked nevertheless. -/
theorem stores_mask_whole_words (z : Interceptor Ram) (hbase : z.region.base.toNat % 4 = 0)
    (hsize : z.region.size.toNat.isPowerOfTwo) (hon : z.region.enabled = true) (size : Size)
    (a data : Word) (hok : (store size a data z).answer = .ok ()) (j : Nat)
    (hj : j < size.bytes) :
    let i := a.toNat + j
    let left := (store size a data z).state.memory.byteAt i
    let masked := data.byte j ^^^
      (Keystream.keystream z.mode z.region (Word.container (BitVec.ofNat 32 i))).byte (i % 4)
    let lower := z.region.base.toNat
    let upper := lower + z.region.size.toNat
    (left = if lower ≤ i ∧ i < lower + max 4 z.region.size.toNat then masked else data.byte j) ∧
    ((left = if lower ≤ i ∧ i < upper then masked else data.byte j) ↔
      ¬ (upper ≤ i ∧ i < lower + 4 ∧ masked ≠ data.byte j)) := by
  intro i left masked lower upper
  obtain ⟨hi, hleft⟩ := byteAt_store_of_ok hok hj
  rw [masks, byteMask_eq hbase hsize hon hi] at hleft
  have hexact : left =
      if lower ≤ i ∧ i < lower + max 4 z.region.size.toNat then masked else data.byte j := by
    by_cases h : lower ≤ i ∧ i < lower + max 4 z.region.size.toNat
    · rw [if_pos h] at hleft ⊢
      exact hleft
    · rw [if_neg h] at hleft ⊢
      exact hleft.trans BitVec.xor_zero
  refine ⟨hexact, ?_⟩
  rw [hexact]
  by_cases hbehind : upper ≤ i ∧ i < lower + 4
  · rw [if_pos (by omega), if_neg (by omega)]
    constructor
    · exact fun hsame h ↦ h.2.2 hsame
    · exact fun h ↦ by_contra fun hne ↦ h ⟨hbehind.1, hbehind.2, hne⟩
  · have hbounds : (lower ≤ i ∧ i < lower + max 4 z.region.size.toNat) ↔
        (lower ≤ i ∧ i < upper) := by omega
    rw [if_congr hbounds rfl rfl]
    exact iff_of_true rfl fun h ↦ hbehind ⟨h.1, h.2.1⟩

/-- The last byte of the memory, in the upper half of the last word of a region of two words. -/
theorem store_masked_to_the_byte :
    let z : Interceptor Ram := ⟨⟨4, 8, true, .zero⟩, .address, .initial, .zeroed 12⟩
    let o := store .half 10 0xABCD z
    (z.region.base.toNat % 4 = 0 ∧ z.region.size.toNat.isPowerOfTwo ∧ z.region.enabled = true ∧
      o.answer = .ok () ∧ 1 < Size.half.bytes) ∧
    o.state.memory.byteAt 11 = 0xAB ^^^ 0xDE := by
  intro z o
  have hok : o.answer = .ok () := by decide +kernel +revert
  have hsize : z.region.size.toNat.isPowerOfTwo := ⟨3, rfl⟩
  have hbase : z.region.base.toNat % 4 = 0 := by decide +revert
  refine ⟨⟨hbase, hsize, rfl, hok, by decide⟩, ?_⟩
  have hleft := (stores_mask_whole_words z hbase hsize rfl .half 10 0xABCD hok 1 (by decide)).1
  refine hleft.trans ?_
  decide +kernel

/-- A byte store just behind a region of one byte is masked all the same. -/
theorem store_behind_single_byte_is_masked :
    let z : Interceptor Ram := ⟨⟨0, 1, true, .zero⟩, .address, .initial, .zeroed 4⟩
    let o := store .byte 1 0x55 z
    z.region.base.toNat % 4 = 0 ∧ z.region.size.toNat.isPowerOfTwo ∧ z.region.enabled = true ∧
    z.IsIdle ∧ o.answer = .ok () ∧ ¬ 1 < z.region.base.toNat + z.region.size.toNat ∧
    o.state.memory.byteAt 1 ≠ (0x55 : Word).byte 0 := by
  intro z o
  refine ⟨by decide +revert, ⟨0, rfl⟩, rfl, rfl, ?_, by decide +revert, ?_⟩
  · decide +kernel +revert
  · decide +kernel +revert

end Interceptor

end SecureZone
