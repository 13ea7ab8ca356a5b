import SecureZone.Region

/-!
# Keystreams

The cipher is an exclusive or with a keystream word, so encrypting and decrypting are one
operation. A keystream word is made from a seed, and the mode says what the seed is: the address of
the access, or the four key words folded together.
-/

namespace SecureZone.Keystream

inductive Mode where
  | address
  | keys
  deriving DecidableEq, Repr

namespace Mode

def name : Mode → String
  | address => "address"
  | keys => "keys"

structure Unknown where
  text : String
  deriving DecidableEq, Repr

def Unknown.message (e : Unknown) : String :=
  s!"unknown keystream mode '{e.text}' (expected 'address' or 'keys')"

def parse (text : String) : Except Unknown Mode :=
  match text with
  | "address" => .ok address
  | "keys" => .ok keys
  | _ => .error ⟨text⟩

end Mode

/-- Mixed into the seed in address mode, so that low addresses do not give sparse keystreams. -/
def whitening : Word := 0xDEADBEEF

def seed (mode : Mode) (region : Region) (address : Word) : Word :=
  match mode with
  | .address => address
  | .keys => region.keys.folded

def generate (mode : Mode) (seed : Word) : Word :=
  match mode with
  | .address => seed ^^^ whitening
  | .keys => seed

/-- The keystream word for an access to `address` under the configuration `region`. -/
def keystream (mode : Mode) (region : Region) (address : Word) : Word :=
  generate mode (seed mode region address)

/-- The whitened address, or the four key words in one. -/
theorem keystream_eq (mode : Mode) (region : Region) (address : Word) :
    keystream mode region address =
      match mode with
      | .address => address ^^^ 0xDEADBEEF
      | .keys =>
          region.keys.key0 ^^^ region.keys.key1 ^^^ region.keys.key2 ^^^ region.keys.key3 := by
  cases mode <;> rfl

/-- The keystream word of an access, if its address is in the region. -/
def within (mode : Mode) (region : Region) (address : Word) : Option Word :=
  if region.Contains address then some (keystream mode region address) else none

def encrypt (data keystream : Word) : Word := data ^^^ keystream

def decrypt (data keystream : Word) : Word := data ^^^ keystream

theorem decrypt_encrypt (data keystream : Word) :
    decrypt (encrypt data keystream) keystream = data := by
  rw [decrypt, encrypt, BitVec.xor_assoc, BitVec.xor_self, BitVec.xor_zero]

end SecureZone.Keystream
