import SecureZone.Emulator.Settings
import SecureZone.Event
import SecureZone.Numeral.Reader

/-!
# The command line

Which options there are and what their values mean is the emulator's own. How arguments are told
apart is not: that is left to an argument parser the emulator does not contain, and what follows is
assumed of it, as it is documented.

Arguments are handled from left to right and the first error ends the reading. The value of
`--option=value` is read at once; a value that stands alone is held until the next option or the
end, so that an unknown argument behind it is reported first. A text that begins with a hyphen is
not taken as a value that stands alone, unless it is the hyphen itself, and `--` ends the options.
Options without a value and repeated options are found when all arguments have been handled.
-/

namespace SecureZone.CommandLine

inductive Flag where
  | base
  | size
  | mode
  | key
  | words
  | ramSize
  | logLevel
  deriving DecidableEq, Repr

namespace Flag

def all : List Flag := [base, size, mode, key, words, ramSize, logLevel]

def name : Flag → String
  | base => "base"
  | size => "size"
  | mode => "mode"
  | key => "key"
  | words => "words"
  | ramSize => "ram-size"
  | logLevel => "log-level"

def ofName? (text : String) : Option Flag := all.find? (·.name == text)

end Flag

/-- What one option with its value asks for. No level means that nothing is reported. -/
inductive Setting where
  | base (w : Word)
  | size (w : Word)
  | mode (m : Keystream.Mode)
  | key (w : Word)
  | words (w : Word)
  | ramSize (w : Word)
  | logLevel (l : Option Level)
  deriving DecidableEq, Repr

inductive CountFlaw where
  | unreadable (flaw : Numeral.Flaw)
  | outOfRange (n : Int)
  deriving DecidableEq, Repr

def CountFlaw.message : CountFlaw → String
  | unreadable flaw => flaw.message
  | outOfRange n => s!"{n} is not in 0..=4294967295"

inductive UsageError where
  | helpWanted
  | badWord (flaw : Numeral.WordFlaw)
  | badCount (flaw : CountFlaw)
  | notAChoice (flag : Flag) (text : String)
  | missingValue (flag : Flag)
  | repeated (flag : Flag)
  | unwantedValue
  | unknownArgument (text : String)
  | tooManyKeys (count : Nat)
  deriving DecidableEq, Repr

def parseCount (text : String) : Except CountFlaw Word :=
  match Numeral.readSigned text.toList with
  | .error flaw => .error (.unreadable flaw)
  | .ok n => if 0 ≤ n ∧ n ≤ 0xFFFFFFFF then .ok (BitVec.ofInt 32 n) else .error (.outOfRange n)

def parseLevel? : String → Option (Option Level)
  | "off" => some none
  | "error" => some (some .error)
  | "warn" => some (some .warn)
  | "info" => some (some .info)
  | "debug" => some (some .debug)
  | "trace" => some (some .trace)
  | _ => none

def Flag.read (flag : Flag) (text : String) : Except UsageError Setting :=
  let word (setting : Word → Setting) : Except UsageError Setting :=
    ((Numeral.parseWord text).mapError .badWord).map setting
  match flag with
  | .base => word .base
  | .size => word .size
  | .key => word .key
  | .ramSize => word .ramSize
  | .words => ((parseCount text).mapError .badCount).map .words
  | .mode => ((Keystream.Mode.parse text).mapError fun e ↦ .notAChoice flag e.text).map .mode
  | .logLevel => ((parseLevel? text).map .logLevel).getDM (.error (.notAChoice flag text))

/-- Where the reading stands: after an option whose value has not come yet, after a value that has
not been read yet, or neither. -/
inductive Cursor where
  | free
  | awaiting (flag : Flag)
  | holding (flag : Flag) (text : String)
  deriving DecidableEq, Repr

structure Scan where
  /-- The options so far, oldest first, with their values. -/
  given : List (Flag × Option Setting)
  cursor : Cursor
  /-- No more options are expected. -/
  closed : Bool
  deriving DecidableEq, Repr

namespace Scan

def start : Scan := ⟨[], .free, false⟩

/-- Enter the option under the cursor. -/
def settle (s : Scan) : Except UsageError Scan :=
  match s.cursor with
  | .free => .ok s
  | .awaiting flag => .ok { s with given := s.given ++ [(flag, none)], cursor := .free }
  | .holding flag text => do
    let setting ← flag.read text
    return { s with given := s.given ++ [(flag, some setting)], cursor := .free }

/-- A long option, with the text behind its equals sign if it has one. -/
def long (s : Scan) (argument name : String) (value : Option String) : Except UsageError Scan :=
  if name = "help" then
    if value.isSome then .error .unwantedValue
    else do
      let _ ← s.settle
      .error .helpWanted
  else
    match Flag.ofName? name, value with
    | none, _ => .error (.unknownArgument argument)
    | some flag, none => do
      let s ← s.settle
      return { s with cursor := .awaiting flag }
    | some flag, some text => do
      let s ← s.settle
      let setting ← flag.read text
      return { s with given := s.given ++ [(flag, some setting)] }

/-- An argument that is not a value. -/
def free (s : Scan) (argument : String) : Except UsageError Scan :=
  match argument.toList with
  | ['-', '-'] => .ok { s with closed := true }
  | '-' :: '-' :: cs =>
    match cs.span (· ≠ '=') with
    | (name, []) => s.long argument (String.ofList name) none
    | (name, _ :: value) => s.long argument (String.ofList name) (some (String.ofList value))
  | '-' :: 'h' :: _ => do
    let _ ← s.settle
    .error .helpWanted
  | _ => .error (.unknownArgument argument)

/-- A text can be a value that stands alone. -/
def CanBeValue (argument : String) : Prop :=
  argument = "-" ∨ argument.toList.head? ≠ some '-'

instance (argument : String) : Decidable (CanBeValue argument) :=
  inferInstanceAs (Decidable (_ ∨ _))

def next (s : Scan) (argument : String) : Except UsageError Scan :=
  if s.closed then .error (.unknownArgument argument)
  else
    match s.cursor with
    | .awaiting flag =>
      if CanBeValue argument then .ok { s with cursor := .holding flag argument }
      else s.free argument
    | _ => s.free argument

/-- The settings that an option was given. -/
def settingsOf (s : Scan) (flag : Flag) : List Setting :=
  s.given.filterMap fun (f, setting) ↦ if f = flag then setting else none

/-- An option needs a value, and only keys may be given more than once. -/
def flaw? (s : Scan) (flag : Flag) : Option UsageError :=
  if s.settingsOf flag = [] then some (.missingValue flag)
  else if flag ≠ .key ∧ 1 < (s.given.filter (·.1 = flag)).length then some (.repeated flag)
  else none

/-- Enter what is left at the end and check the options. An option left without a value comes first,
then the others in the order in which they were first given. -/
def finish (s : Scan) : Except UsageError (List Setting) := do
  let last := match s.cursor with
    | .awaiting flag => some flag
    | _ => none
  let s ← s.settle
  match last.filter fun flag ↦ s.settingsOf flag = [] with
  | some flag => .error (.missingValue flag)
  | none =>
    match s.given.findSome? fun (flag, _) ↦ s.flaw? flag with
    | some e => .error e
    | none => .ok (s.given.filterMap (·.2))

end Scan

structure Invocation where
  settings : Settings
  logLevel : Option Level
  deriving DecidableEq, Repr

def Invocation.default : Invocation := ⟨.default, some .info⟩

def Setting.applyTo (i : Invocation) : Setting → Invocation
  | base w => { i with settings.base := w }
  | size w => { i with settings.size := w }
  | mode m => { i with settings.mode := m }
  | words w => { i with settings.words := w }
  | ramSize w => { i with settings.ramSize := w }
  | logLevel l => { i with logLevel := l }
  | key _ => i

def Setting.key? : Setting → Option Word
  | key w => some w
  | _ => none

def parse (args : List String) : Except UsageError Invocation := do
  let scan ← args.foldlM Scan.next Scan.start
  let given ← scan.finish
  let keys := given.filterMap Setting.key?
  if 4 < keys.length then .error (.tooManyKeys keys.length)
  let i := given.foldl Setting.applyTo .default
  return { i with settings.keys := .ofList keys }

end SecureZone.CommandLine
