import SecureZone.Word

/-!
# Access sizes
-/

namespace SecureZone

inductive Size where
  | byte
  | half
  | word
  deriving DecidableEq, Repr

namespace Size

def all : List Size := [byte, half, word]

def bytes : Size → Nat
  | byte => 1
  | half => 2
  | word => 4

def name : Size → String
  | byte => "Byte"
  | half => "HalfWord"
  | word => "Word"

def ofBytes? (n : Nat) : Option Size := all.find? (·.bytes == n)

/-- The low `bytes` bytes of a word. -/
def mask : Size → Word
  | byte => 0xFF
  | half => 0xFFFF
  | word => 0xFFFFFFFF

/-- An access is aligned when its address is a multiple of its size. -/
def Aligned (size : Size) (address : Word) : Prop := address.toNat % size.bytes = 0

instance (size : Size) (address : Word) : Decidable (size.Aligned address) :=
  inferInstanceAs (Decidable (_ = _))

theorem bytes_pos (size : Size) : 0 < size.bytes := by cases size <;> decide

theorem ofBytes?_bytes (size : Size) : ofBytes? size.bytes = some size := by
  cases size <;> rfl

end Size

end SecureZone
