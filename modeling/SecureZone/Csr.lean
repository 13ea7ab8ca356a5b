import SecureZone.Region

/-!
# Control and status registers

The region is configured through seven registers with consecutive numbers.
-/

namespace SecureZone

inductive Csr where
  | base
  | size
  | enable
  | key (slot : KeySlot)
  deriving DecidableEq, Repr

namespace Csr

def all : List Csr := [base, size, enable] ++ KeySlot.all.map key

def number : Csr → Word
  | base => 0x200
  | size => 0x201
  | enable => 0x202
  | key slot => 0x203 + BitVec.ofNat 32 slot.index

def name : Csr → String
  | base => "Base"
  | size => "Size"
  | enable => "Enable"
  | key slot => slot.name

def ofNumber? (n : Word) : Option Csr := all.find? (·.number == n)

theorem ofNumber?_number (csr : Csr) : ofNumber? csr.number = some csr := by
  rcases csr with _ | _ | _ | slot
  · rfl
  · rfl
  · rfl
  · cases slot <;> rfl

/-- How an instruction combines its operand with the register. -/
inductive Instruction where
  | readWrite
  | readSet
  | readClear
  deriving DecidableEq, Repr

def Instruction.combine (instruction : Instruction) (old operand : Word) : Word :=
  match instruction with
  | .readWrite => operand
  | .readSet => old ||| operand
  | .readClear => old &&& ~~~operand

inductive Failure where
  | notImplemented (number : Word)
  | refused (refusal : Region.Refusal)
  deriving DecidableEq, Repr

def Failure.message : Failure → String
  | notImplemented number => s!"CSR {Numeral.hex 3 number.toNat} is not implemented"
  | refused refusal => refusal.message

end Csr

end SecureZone
