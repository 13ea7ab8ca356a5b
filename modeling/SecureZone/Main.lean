import SecureZone.Emulator.Usage

/-!
# The program

What a call prints goes to standard output; reported events and errors go to standard error.
-/

open SecureZone CommandLine

def main (args : List String) : IO UInt32 := do
  let e := ending args
  for line in e.reported do
    IO.eprintln line
  IO.print e.printed
  return e.status
