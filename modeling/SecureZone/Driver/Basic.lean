import SecureZone.Action

/-!
# The driver

The driver configures a region with CSR instructions on some register file. It checks a
configuration before it issues the first instruction, and writes base and size only while the region
is disabled and the core has settled. The first instruction that fails ends the sequence.
-/

namespace SecureZone

namespace Driver

inductive Failure where
  | invalidAlignment
  | invalidSize
  | csrFault
  deriving DecidableEq, Repr

namespace Failure

def name : Failure → String
  | invalidAlignment => "InvalidAlignment"
  | invalidSize => "InvalidSize"
  | csrFault => "CsrFault"

/-- The number of the driver in the top byte, the failure in the low bits. -/
def code : Failure → Word
  | invalidAlignment => 0x01000001
  | invalidSize => 0x01000002
  | csrFault => 0x01000003

end Failure

end Driver

/-- A register file as the CSR instructions of a core see it. Setting and clearing answer with the
old value, and waiting cannot fail. -/
class CsrFile (φ : Type) where
  read : Word → Action φ Driver.Failure Word
  write : Word → Word → Action φ Driver.Failure Unit
  setBits : Word → Word → Action φ Driver.Failure Word
  clearBits : Word → Word → Action φ Driver.Failure Word
  settle : Word → Update φ := fun _ s ↦ (s, [])

def CsrFile.readAndClear {φ : Type} [CsrFile φ] (number : Word) : Action φ Driver.Failure Word :=
  clearBits number (BitVec.allOnes 32)

namespace Driver

/-- The part of a configuration that the driver reports. -/
structure Config where
  base : Word
  size : Word
  enabled : Bool
  deriving DecidableEq, Repr

def Config.text (c : Config) : String :=
  let state := if c.enabled then "ENABLED" else "DISABLED"
  String.intercalate "\n"
    [ "SMZ Configuration:",
      s!"  Base Address: {Numeral.hex 8 c.base.toNat}",
      s!"  Region Size:  {Numeral.hex 8 c.size.toNat} ({c.size.toNat} bytes)",
      s!"  Status:       {state}" ]

/-- The enable bit, the one flag of the enable register. -/
def enableBit : Word := 1

/-- The flags among `bits`; the other bits are dropped. -/
def knownFlags (bits : Word) : Word := bits &&& enableBit

def hasEnable (bits : Word) : Bool := knownFlags bits = enableBit

/-- Cycles between disabling a region and changing its bounds. -/
def settleCycles : Word := 10

/-- The driver's own check of the bounds, made before it issues any instruction. -/
def validate (base size : Word) : Except Failure Unit :=
  if base &&& 0x3 ≠ 0 then .error .invalidAlignment
  else if ¬ size.toNat.isPowerOfTwo then .error .invalidSize
  else .ok ()

/-- The driver looks at the low bits of a base where a register divides it by four. -/
theorem and_three_eq_zero_iff {base : Word} : base &&& 0x3 = 0 ↔ Region.ValidBase base := by
  have hlow : (base &&& 0x3).toNat = base.toNat % 4 := Nat.and_two_pow_sub_one_eq_mod _ 2
  rw [← BitVec.toNat_inj, hlow]
  rfl

/-- The driver and the registers agree on what is valid. -/
theorem validate_eq (base size : Word) :
    validate base size =
      if ¬ Region.ValidBase base then .error .invalidAlignment
      else if ¬ Region.ValidSize size then .error .invalidSize
      else .ok () := by
  by_cases hbase : Region.ValidBase base
  · rw [validate, if_neg (not_not_intro (and_three_eq_zero_iff.mpr hbase)),
      if_neg (not_not_intro hbase)]
    rfl
  · rw [validate, if_pos (mt and_three_eq_zero_iff.mp hbase), if_pos hbase]

variable {φ : Type} [CsrFile φ]

def enable : Action φ Failure Unit := do
  let _ ← CsrFile.setBits Csr.enable.number enableBit

def disable : Action φ Failure Unit := do
  let _ ← CsrFile.clearBits Csr.enable.number enableBit

def isEnabled : Action φ Failure Bool := hasEnable <$> CsrFile.read Csr.enable.number

/-- Disable the region, wait, and write its bounds. -/
def program (base size : Word) : Action φ Failure Unit := do
  disable
  .perform (CsrFile.settle settleCycles)
  CsrFile.write Csr.base.number base
  CsrFile.write Csr.size.number size

def init (base size : Word) (on : Bool) : Action φ Failure Unit := do
  .ofExcept (validate base size)
  program base size
  if on then enable

/-- Move or resize the region, which is enabled afterwards if it was before. -/
def reconfigure (base size : Word) : Action φ Failure Unit := do
  .ofExcept (validate base size)
  let on ← isEnabled
  program base size
  if on then enable

def config : Action φ Failure Config := do
  let base ← CsrFile.read Csr.base.number
  let size ← CsrFile.read Csr.size.number
  return ⟨base, size, ← isEnabled⟩

def setKeys (keys : Keys) : Action φ Failure Unit :=
  KeySlot.all |> Action.forEach fun slot ↦ CsrFile.write (Csr.key slot).number (keys.get slot)

def keys : Action φ Failure Keys := do
  let key0 ← CsrFile.read (Csr.key .key0).number
  let key1 ← CsrFile.read (Csr.key .key1).number
  let key2 ← CsrFile.read (Csr.key .key2).number
  let key3 ← CsrFile.read (Csr.key .key3).number
  return ⟨key0, key1, key2, key3⟩

/-- One operation of the driver, or one instruction directly on its register file. -/
inductive Op where
  | init (base size : Word) (on : Bool)
  | reconfigure (base size : Word)
  | enable
  | disable
  | isEnabled
  | config
  | setKeys (keys : Keys)
  | keys
  | read (number : Word)
  | write (number value : Word)
  | setBits (number mask : Word)
  | clearBits (number mask : Word)
  | readAndClear (number : Word)
  | settle (cycles : Word)
  deriving DecidableEq, Repr

inductive Reply where
  | done
  | flag (on : Bool)
  | config (c : Config)
  | keys (keys : Keys)
  | word (value : Word)
  deriving DecidableEq, Repr

def step : Op → Action φ Failure Reply
  | .init base size on => (fun _ ↦ .done) <$> init base size on
  | .reconfigure base size => (fun _ ↦ .done) <$> reconfigure base size
  | .enable => (fun _ ↦ .done) <$> enable
  | .disable => (fun _ ↦ .done) <$> disable
  | .isEnabled => .flag <$> isEnabled
  | .config => .config <$> config
  | .setKeys ks => (fun _ ↦ .done) <$> setKeys ks
  | .keys => .keys <$> keys
  | .read number => .word <$> CsrFile.read number
  | .write number value => (fun _ ↦ .done) <$> CsrFile.write number value
  | .setBits number mask => .word <$> CsrFile.setBits number mask
  | .clearBits number mask => .word <$> CsrFile.clearBits number mask
  | .readAndClear number => .word <$> CsrFile.readAndClear number
  | .settle cycles => (fun _ ↦ .done) <$> .perform (CsrFile.settle cycles)

end Driver

end SecureZone
