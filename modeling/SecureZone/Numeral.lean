/-!
# Written numbers

Numbers are printed in a radix of at most sixteen, in lower-case digits, padded with zeros on the
left up to a width. A width of 0 gives the shortest numeral.
-/

namespace SecureZone.Numeral

def digits (radix width n : Nat) : List Char :=
  (Nat.toDigits radix n).leftpad width '0'

def hex (width n : Nat) : String := "0x" ++ String.ofList (digits 16 width n)

def binary (width n : Nat) : String := "0b" ++ String.ofList (digits 2 width n)

end SecureZone.Numeral
