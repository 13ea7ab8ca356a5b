/-!
# Words and bytes

The bus carries 32-bit words. A word holds four bytes, numbered by their lane: lane 0 is the low
end, and the byte in lane `l` of the word at `a` lives at address `a + l`.
-/

namespace SecureZone

abbrev Word := BitVec 32

abbrev Byte := BitVec 8

namespace Word

def byte (w : Word) (lane : Nat) : Byte := w.extractLsb' (8 * lane) 8

/-- The word whose lanes are filled from `bytes`, the first of them in lane 0. -/
def ofBytes (bytes : List Byte) : Word :=
  bytes.foldr (fun b w ↦ (w <<< 8) ||| b.setWidth 32) 0

/-- The next word, if this is not the last one. -/
def next? (w : Word) : Option Word := if w.toNat + 1 < 0x100000000 then some (w + 1) else none

theorem toNat_add_one {w : Word} (h : w.toNat + 1 < 0x100000000) : (w + 1).toNat = w.toNat + 1 := by
  rw [BitVec.toNat_add]
  exact Nat.mod_eq_of_lt h

/-- The lane that byte address `a` occupies in its word. -/
def lane (a : Word) : Nat := a.toNat % 4

/-- The address of the word that contains byte address `a`. -/
def container (a : Word) : Word := BitVec.ofNat 32 (a.toNat / 4 * 4)

theorem toNat_container (a : Word) : a.container.toNat = a.toNat / 4 * 4 := by
  have := a.isLt
  simp only [container, BitVec.toNat_ofNat]
  omega

theorem lane_lt (a : Word) : a.lane < 4 := Nat.mod_lt _ (by decide)

theorem getLsbD_byte (w : Word) (lane : Nat) {i : Nat} (hi : i < 8) :
    (w.byte lane).getLsbD i = w.getLsbD (8 * lane + i) := by
  simp only [byte, BitVec.getLsbD_extractLsb', hi, decide_true, Bool.true_and]

theorem byte_xor (a b : Word) (lane : Nat) :
    (a ^^^ b).byte lane = a.byte lane ^^^ b.byte lane := by
  apply BitVec.eq_of_getLsbD_eq
  intro i hi
  simp only [BitVec.getLsbD_xor, getLsbD_byte _ _ hi]

theorem ext_byte {a b : Word} (h : ∀ lane < 4, a.byte lane = b.byte lane) : a = b := by
  apply BitVec.eq_of_getLsbD_eq
  intro i hi
  have hm : i % 8 < 8 := Nat.mod_lt _ (by decide)
  have hb := congrArg (BitVec.getLsbD · (i % 8)) (h (i / 8) (by omega))
  simp only [getLsbD_byte _ _ hm, Nat.div_add_mod] at hb
  exact hb

theorem byte_ofBytes (bytes : List Byte) {lane : Nat} (h : lane < 4) :
    (ofBytes bytes).byte lane = bytes.getD lane 0 := by
  induction bytes generalizing lane with
  | nil =>
      apply BitVec.eq_of_getLsbD_eq
      intro i hi
      rw [getLsbD_byte _ _ hi]
      simp [ofBytes]
  | cons b bs ih =>
      apply BitVec.eq_of_getLsbD_eq
      intro i hi
      rw [ofBytes, List.foldr_cons, ← ofBytes, getLsbD_byte _ _ hi, BitVec.getLsbD_or,
        BitVec.getLsbD_shiftLeft, BitVec.getLsbD_setWidth]
      cases lane with
      | zero =>
          have hw : i < 32 := by omega
          simp only [Nat.mul_zero, Nat.zero_add, hi, hw, decide_true, Bool.not_true, Bool.and_false,
            Bool.false_and, Bool.false_or, Bool.true_and, List.getD_cons_zero]
      | succ lane =>
          have hb := congrArg (BitVec.getLsbD · i) (@ih lane (by omega))
          simp only [getLsbD_byte _ _ hi] at hb
          have hw : 8 * (lane + 1) + i < 32 := by omega
          have hl : ¬ 8 * (lane + 1) + i < 8 := by omega
          have hs : 8 * (lane + 1) + i - 8 = 8 * lane + i := by omega
          rw [BitVec.getLsbD_of_ge b _ (by omega), hs, hb]
          simp only [hw, hl, decide_true, decide_false, Bool.not_false, Bool.true_and,
            Bool.and_false, Bool.or_false, List.getD_cons_succ]

end Word

end SecureZone
