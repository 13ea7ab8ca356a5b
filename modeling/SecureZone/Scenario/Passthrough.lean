import SecureZone.Bus.Ram
import SecureZone.Interceptor.Bus

/-!
# The passthrough check

A known word is written and read back at one address. Outside the region the memory holds it as it
was written.
-/

namespace SecureZone.Passthrough

def word : Word := 0xCAFEBEEF

structure Report where
  address : Word
  readBack : Word
  /-- The word in memory, if the memory holds all of it. -/
  stored : Option Word
  deriving DecidableEq, Repr

def Report.Passed (r : Report) : Prop := r.readBack = word ∧ r.stored = some word

instance (r : Report) : Decidable r.Passed := inferInstanceAs (Decidable (_ ∧ _))

def run (address : Word) : Action (Interceptor Ram) Fault Report := do
  Bus.store .word address word
  let readBack ← Bus.load .word address
  let z ← .get
  return ⟨address, readBack, z.memory.word? address⟩

def Report.text (r : Report) : String :=
  let stored := match r.stored with
    | some w => Numeral.hex 8 w.toNat
    | none => "<outside RAM>"
  let verdict :=
    if r.Passed then "PASS: stored and returned unmodified"
    else "FAIL: passthrough altered the data"
  s!"Passthrough at {Numeral.hex 8 r.address.toNat}\n" ++
    s!"  Read back: {Numeral.hex 8 r.readBack.toNat}\n" ++
    s!"  Stored:    {stored}\n" ++
    s!"{verdict}\n"

end SecureZone.Passthrough
