import SecureZone.Bus.Size
import SecureZone.Numeral

/-!
# Byte strobes

A strobe has one bit for each lane of a word and says which lanes a store may change.
-/

namespace SecureZone

abbrev Strobe := BitVec 4

namespace Strobe

def full : Strobe := 0b1111

/-- The lanes of the bytes that an access covers. -/
def forAccess (size : Size) (address : Word) : Strobe :=
  match size with
  | .byte => 0b0001 <<< address.lane
  | .half => 0b0011 <<< address.lane
  | .word => full

def Selects (strobe : Strobe) (lane : Nat) : Prop := strobe.getLsbD lane = true

instance (strobe : Strobe) (lane : Nat) : Decidable (strobe.Selects lane) :=
  inferInstanceAs (Decidable (_ = _))

/-- The selected lanes, lowest first. -/
def lanes (strobe : Strobe) : List Nat := (List.range 4).filter (strobe.Selects ·)

/-- All bits of the selected lanes. -/
def mask (strobe : Strobe) : Word :=
  strobe.lanes.foldl (fun m lane ↦ m ||| (0xFF : Word) <<< (8 * lane)) 0

def text (strobe : Strobe) : String := Numeral.binary 4 strobe.toNat

theorem mem_lanes {strobe : Strobe} {lane : Nat} :
    lane ∈ strobe.lanes ↔ lane < 4 ∧ strobe.Selects lane := by
  simp [lanes]

/-- The strobe of an aligned access selects the bytes from the address up to its end. -/
theorem selects_forAccess {size : Size} {address : Word} (h : size.Aligned address) {lane : Nat}
    (hl : lane < 4) :
    (forAccess size address).Selects lane ↔
      address.lane ≤ lane ∧ lane < address.lane + size.bytes := by
  have ha := address.lane_lt
  have hm : address.lane % size.bytes = 0 := by
    simp only [Size.Aligned, Word.lane] at h ⊢
    cases size <;> simp only [Size.bytes] at h ⊢ <;> omega
  simp only [forAccess, Selects]
  generalize address.lane = n at ha hm ⊢
  revert n lane
  cases size <;> decide

end Strobe

end SecureZone
