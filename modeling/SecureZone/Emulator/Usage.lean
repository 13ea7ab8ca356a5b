import SecureZone.Emulator.CommandLine
import SecureZone.Emulator.Run

/-!
# Messages and exit status

What a call of the emulator comes to: help, a refused command line, or a run. The exit status is 0
after help and after a run that passed, 1 after a run in which a check failed, and 2 otherwise.
-/

namespace SecureZone.CommandLine

def help : String := String.intercalate "\n"
  [ "smz-emu ",
    "Secure Memory Zone emulator",
    "",
    "USAGE:",
    "    smz-emu [OPTIONS]",
    "",
    "OPTIONS:",
    "        --base <ADDR>          Secure region base address [default: 0x10000]",
    "    -h, --help                 Print help information",
    "        --key <WORD>           Key word, repeat up to four times",
    "        --log-level <LEVEL>    Log level [default: info] [possible values: off, error, warn, info,",
    "                               debug, trace]",
    "        --mode <MODE>          Keystream derivation [default: address] [possible values: address,",
    "                               keys]",
    "        --ram-size <BYTES>     Emulated RAM size [default: 0x20000]",
    "        --size <BYTES>         Secure region size, a power of two [default: 0x1000]",
    "        --words <COUNT>        Image length in words [default: 196]",
    "" ]

/-- The message of an error, where it has one of its own. -/
def UsageError.message? : UsageError → Option String
  | helpWanted => some help
  | badWord flaw => some flaw.message
  | badCount flaw => some flaw.message
  | tooManyKeys count => some s!"at most four key words may be given, got {count}"
  | notAChoice _ _ | missingValue _ | repeated _ | unwantedValue | unknownArgument _ => none

def runStatus : Except Emulator.Failure Bool → UInt32
  | .ok true => 0
  | .ok false => 1
  | .error _ => 2

/-- What a call leaves behind: its output, the lines that it reported, and its exit status. -/
structure Ending where
  printed : String
  reported : List String
  status : UInt32
  deriving DecidableEq, Repr

/-- The ending of a run. Events below the level asked for are not reported. -/
def runEnding (level : Option Level) (o : Outcome Emulator.Session Emulator.Failure Bool) :
    Ending :=
  let threshold := (level.map Level.rank).getD 5
  let events := o.events.filter (threshold ≤ ·.level.rank)
  let failure := match o.answer with
    | .error e => [s!"ERROR Error: {e.message}"]
    | .ok _ => []
  let shown := if threshold ≤ Level.error.rank then failure else []
  ⟨o.state.printed, events.map Event.line ++ shown, runStatus o.answer⟩

def ending (args : List String) : Ending :=
  match parse args with
  | .error .helpWanted => ⟨help, [], 0⟩
  | .error e => ⟨"", ["error: " ++ e.message?.getD "invalid arguments, try --help"], 2⟩
  | .ok i => runEnding i.logLevel (Emulator.run i.settings)

def exitStatus (args : List String) : UInt32 := (ending args).status

end SecureZone.CommandLine
