import SecureZone.Region.Registers

/-!
# Register access by number

An instruction answers with the old value of its register. A set or a clear with no operand bits
only reads, so it cannot be refused. Of a value written to the enable register bit 0 counts alone.
-/

namespace SecureZone.Region

def get (r : Region) : Csr → Word
  | .base => r.base
  | .size => r.size
  | .enable => if r.enabled then 1 else 0
  | .key slot => r.keys.get slot

def put (csr : Csr) (value : Word) : Action Region Refusal Unit :=
  match csr with
  | .base => setBase value
  | .size => setSize value
  | .enable => .perform (setEnabled (value.getLsbD 0))
  | .key slot => .perform (setKey slot value)

def locate (number : Word) : Action Region Csr.Failure Csr :=
  match Csr.ofNumber? number with
  | some csr => pure csr
  | none => .fail (.notImplemented number)

def readCsr (number : Word) : Action Region Csr.Failure Word := do
  let csr ← locate number
  return (← Action.get).get csr

def writeCsr (number value : Word) : Action Region Csr.Failure Unit := do
  let csr ← locate number
  (put csr value).mapError .refused

def execCsr (instruction : Csr.Instruction) (number operand : Word) :
    Action Region Csr.Failure Word := do
  let old ← readCsr number
  if instruction = .readWrite ∨ operand ≠ 0 then
    writeCsr number (instruction.combine old operand)
  return old

end SecureZone.Region
