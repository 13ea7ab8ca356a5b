import SecureZone.Bus.Fault
import SecureZone.Bus.Strobe

/-!
# Word requests

A request is one access on the word-wide side of the bus: the strobe names the lanes, and the data
is meaningful for stores only.
-/

namespace SecureZone

structure Request where
  direction : Direction
  address : Word
  data : Word
  strobe : Strobe
  deriving DecidableEq, Repr

namespace Request

def load (address : Word) (strobe : Strobe) : Request := ⟨.load, address, 0, strobe⟩

def store (address data : Word) (strobe : Strobe) : Request := ⟨.store, address, data, strobe⟩

end Request

end SecureZone
