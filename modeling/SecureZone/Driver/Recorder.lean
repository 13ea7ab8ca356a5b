import Std.Data.TreeMap.Lemmas
import SecureZone.Driver.Basic

/-!
# A recording register file

A register file that stores whatever it is given and writes down the instructions it carries out.
Each instruction has a number, counted from 1, and those on a list fail: they are counted, but they
change nothing and are not written down.
-/

namespace SecureZone

namespace Recorder

inductive Entry where
  | read (number : Word)
  | write (number value : Word)
  | setBits (number mask : Word)
  | clearBits (number mask : Word)
  | settle (cycles : Word)
  deriving DecidableEq, Repr

private def entryHex (w : Word) : String := Numeral.hex 0 w.toNat

def Entry.line : Entry → String
  | read n => s!"csrr {entryHex n}\n"
  | write n v => s!"csrw {entryHex n}, {entryHex v}\n"
  | setBits n m => s!"csrrs {entryHex n}, {entryHex m}\n"
  | clearBits n m => s!"csrrc {entryHex n}, {entryHex m}\n"
  | settle cycles => s!"settle {cycles.toNat}\n"

def record (entries : List Entry) : String := String.join (entries.map Entry.line)

end Recorder

/-- With `recordsSettling` this is a port that carries out the driver's waits itself and writes them
down. Without, it is one that leaves them as every port has them if it says nothing else: the wait
spins, uses no register and is not written down. -/
structure Recorder where
  registers : Std.TreeMap Nat Word
  issued : Nat
  failing : List Nat
  failure : Driver.Failure
  recordsSettling : Bool
  entries : List Recorder.Entry

namespace Recorder

def value (p : Recorder) (number : Word) : Word := p.registers.getD number.toNat 0

def put (number value : Word) (p : Recorder) : Recorder :=
  { p with registers := p.registers.insert number.toNat value }

theorem value_put (p : Recorder) (n v m : Word) :
    (p.put n v).value m = if n = m then v else p.value m := by
  simp [put, value, Std.TreeMap.getD_insert, BitVec.toNat_inj]

/-- Carry out one instruction: it is counted, and unless its number is on the list it is written
down, answers with the old value of its register and makes its change. -/
def issue (entry : Entry) (number : Word) (change : Recorder → Recorder) :
    Action Recorder Driver.Failure Word
  | p =>
    let p := { p with issued := p.issued + 1 }
    if p.issued ∈ p.failing then ⟨.error p.failure, p, []⟩
    else ⟨.ok (p.value number), change { p with entries := p.entries ++ [entry] }, []⟩

instance : CsrFile Recorder where
  read number := issue (.read number) number id
  write number value := (fun _ ↦ ()) <$> issue (.write number value) number (put number value)
  setBits number mask :=
    issue (.setBits number mask) number fun p ↦ p.put number (p.value number ||| mask)
  clearBits number mask :=
    issue (.clearBits number mask) number fun p ↦ p.put number (p.value number &&& ~~~mask)
  settle cycles p :=
    (if p.recordsSettling then { p with entries := p.entries ++ [.settle cycles] } else p, [])

/-- The text of the record so far, which is then forgotten. -/
def takeRecord (p : Recorder) : String × Recorder := (record p.entries, { p with entries := [] })

end Recorder

end SecureZone
