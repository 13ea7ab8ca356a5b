import SecureZone.Keystream

/-!
# Settings of the emulator
-/

namespace SecureZone

structure Settings where
  base : Word
  size : Word
  mode : Keystream.Mode
  keys : Keys
  words : Word
  ramSize : Word
  deriving DecidableEq, Repr

def Settings.default : Settings where
  base := 0x10000
  size := 0x1000
  mode := .address
  keys := .zero
  words := 196
  ramSize := 0x20000

end SecureZone
