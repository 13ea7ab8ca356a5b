import SecureZone.Numeral
import SecureZone.Word

/-!
# The secure region

A region is a half-open interval of addresses with a switch and four key words. Its upper bound is
checked as an offset from the base, so a region that reaches past the top of the address space is
clipped there and does not wrap around.
-/

namespace SecureZone

inductive KeySlot where
  | key0
  | key1
  | key2
  | key3
  deriving DecidableEq, Repr

namespace KeySlot

def all : List KeySlot := [key0, key1, key2, key3]

def index : KeySlot → Nat
  | key0 => 0
  | key1 => 1
  | key2 => 2
  | key3 => 3

def name (slot : KeySlot) : String := s!"Key{slot.index}"

def ofIndex? (n : Nat) : Option KeySlot := all.find? (·.index == n)

theorem ofIndex?_index (slot : KeySlot) : ofIndex? slot.index = some slot := by
  cases slot <;> rfl

end KeySlot

structure Keys where
  key0 : Word
  key1 : Word
  key2 : Word
  key3 : Word
  deriving DecidableEq, Repr

namespace Keys

/-- The first four of `words`; those that are missing are zero. -/
def ofList (words : List Word) : Keys :=
  ⟨words.getD 0 0, words.getD 1 0, words.getD 2 0, words.getD 3 0⟩

def zero : Keys := ⟨0, 0, 0, 0⟩

def get (keys : Keys) : KeySlot → Word
  | .key0 => keys.key0
  | .key1 => keys.key1
  | .key2 => keys.key2
  | .key3 => keys.key3

def set (keys : Keys) (slot : KeySlot) (key : Word) : Keys :=
  match slot with
  | .key0 => { keys with key0 := key }
  | .key1 => { keys with key1 := key }
  | .key2 => { keys with key2 := key }
  | .key3 => { keys with key3 := key }

def toList (keys : Keys) : List Word := KeySlot.all.map keys.get

def folded (keys : Keys) : Word := keys.key0 ^^^ keys.key1 ^^^ keys.key2 ^^^ keys.key3

theorem get_set (keys : Keys) (slot other : KeySlot) (key : Word) :
    (keys.set slot key).get other = if slot = other then key else keys.get other := by
  cases slot <;> cases other <;> rfl

theorem ofList_toList (keys : Keys) : ofList keys.toList = keys := rfl

end Keys

structure Region where
  base : Word
  size : Word
  enabled : Bool
  keys : Keys
  deriving DecidableEq, Repr

namespace Region

/-- The region after reset: disabled, empty, at address 0, with zero keys. -/
def initial : Region := ⟨0, 0, false, .zero⟩

/-- The address lies in the interval of an enabled region. -/
def Contains (region : Region) (address : Word) : Prop :=
  region.enabled = true ∧ region.base ≤ address ∧ address - region.base < region.size

instance (region : Region) (address : Word) : Decidable (region.Contains address) :=
  inferInstanceAs (Decidable (_ ∧ _))

/-- Membership in terms of unbounded numbers. -/
theorem contains_iff {region : Region} {address : Word} :
    region.Contains address ↔
      region.enabled = true ∧ region.base.toNat ≤ address.toNat ∧
        address.toNat < region.base.toNat + region.size.toNat := by
  have ha := address.isLt
  simp only [Contains, BitVec.le_def, BitVec.lt_def, BitVec.toNat_sub]
  constructor
  · rintro ⟨he, hb, hs⟩
    exact ⟨he, hb, by omega⟩
  · rintro ⟨he, hb, hs⟩
    exact ⟨he, hb, by omega⟩

def text (region : Region) : String :=
  let state := if region.enabled then "enabled" else "disabled"
  s!"[{Numeral.hex 8 region.base.toNat}, +{Numeral.hex 0 region.size.toNat}) {state}"

/-- A value that a register of the region refuses. -/
inductive Refusal where
  | unalignedBase (base : Word)
  | badSize (size : Word)
  deriving DecidableEq, Repr

def Refusal.message : Refusal → String
  | unalignedBase base => s!"secure region base {Numeral.hex 8 base.toNat} is not word aligned"
  | badSize size => s!"secure region size {Numeral.hex 0 size.toNat} is not a nonzero power of two"

/-- A word can be the base of a region when it is a multiple of four. -/
def ValidBase (base : Word) : Prop := base.toNat % 4 = 0

/-- A word can be the size of a region when it is a power of two. -/
def ValidSize (size : Word) : Prop := size.toNat.isPowerOfTwo

instance (base : Word) : Decidable (ValidBase base) := inferInstanceAs (Decidable (_ = _))

instance (size : Word) : Decidable (ValidSize size) :=
  inferInstanceAs (Decidable (Nat.isPowerOfTwo _))

end Region

end SecureZone
