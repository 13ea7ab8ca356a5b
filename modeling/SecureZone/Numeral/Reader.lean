import SecureZone.Word

/-!
# Reading numbers

Digits are read from the left and the first flaw ends the reading. At each position the digit is
looked at before the size of the number, so a foreign character wins over an overflow that it would
have completed.
-/

namespace SecureZone.Numeral

/-- Why a text is not a number of the wanted range. -/
inductive Flaw where
  | empty
  | invalidDigit
  | tooLarge
  | tooSmall
  deriving DecidableEq, Repr

def Flaw.message : Flaw → String
  | .empty => "cannot parse integer from empty string"
  | .invalidDigit => "invalid digit found in string"
  | .tooLarge => "number too large to fit in target type"
  | .tooSmall => "number too small to fit in target type"

/-- The value of an ASCII digit of the radix; letters count in either case. -/
def digitValue? (radix : Nat) (c : Char) : Option Nat :=
  let value :=
    if '0' ≤ c ∧ c ≤ '9' then some (c.toNat - '0'.toNat)
    else if 'a' ≤ c ∧ c ≤ 'z' then some (c.toNat - 'a'.toNat + 10)
    else if 'A' ≤ c ∧ c ≤ 'Z' then some (c.toNat - 'A'.toNat + 10)
    else none
  value.filter (· < radix)

/-- Read on from the number `n`; `overflow` is the flaw of passing `limit`. -/
def readDigits (radix limit : Nat) (overflow : Flaw) : List Char → Nat → Except Flaw Nat
  | [], n => .ok n
  | c :: cs, n =>
    match digitValue? radix c with
    | none => .error .invalidDigit
    | some d =>
      if limit < n * radix + d then .error overflow
      else readDigits radix limit overflow cs (n * radix + d)

/-- An unsigned word. One leading plus sign is skipped, but a sign alone is no number. -/
def readWord (radix : Nat) (text : List Char) : Except Flaw Word :=
  let magnitude (cs : List Char) := BitVec.ofNat 32 <$> readDigits radix 0xFFFFFFFF .tooLarge cs 0
  match text with
  | [] => .error .empty
  | ['+'] | ['-'] => .error .invalidDigit
  | '+' :: cs => magnitude cs
  | cs => magnitude cs

/-- A decimal number of the signed 64-bit range, with an optional sign. -/
def readSigned (text : List Char) : Except Flaw Int :=
  let positive (cs : List Char) := Int.ofNat <$> readDigits 10 0x7FFFFFFFFFFFFFFF .tooLarge cs 0
  match text with
  | [] => .error .empty
  | ['+'] | ['-'] => .error .invalidDigit
  | '-' :: cs => (fun n : Nat ↦ -(n : Int)) <$> readDigits 10 0x8000000000000000 .tooSmall cs 0
  | '+' :: cs => positive cs
  | cs => positive cs

structure WordFlaw where
  text : String
  flaw : Flaw
  deriving DecidableEq, Repr

def WordFlaw.message (e : WordFlaw) : String :=
  s!"'{e.text}' is not a 32-bit value: {e.flaw.message}"

/-- The digits and the radix that a text announces: after `0x` or `0X` the text is hexadecimal and
underscores do not count, otherwise it is decimal. -/
def radixAndDigits : List Char → Nat × List Char
  | '0' :: 'x' :: cs | '0' :: 'X' :: cs => (16, cs.filter (· ≠ '_'))
  | cs => (10, cs)

def parseWord (text : String) : Except WordFlaw Word :=
  let (radix, cs) := radixAndDigits text.toList
  (readWord radix cs).mapError (⟨text, ·⟩)

end SecureZone.Numeral
