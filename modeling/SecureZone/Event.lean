import SecureZone.Bus.Request
import SecureZone.Csr
import SecureZone.Keystream

/-!
# Reported events

Every part of the device reports what it does as events. An event has a level and a line of text;
it carries addresses, settings and outgoing data, and no event carries a word that memory returned.
-/

namespace SecureZone

inductive Level where
  | trace
  | debug
  | info
  | warn
  | error
  deriving DecidableEq, Repr

namespace Level

def name : Level → String
  | trace => "TRACE"
  | debug => "DEBUG"
  | info => "INFO"
  | warn => "WARN"
  | error => "ERROR"

def rank : Level → Nat
  | trace => 0
  | debug => 1
  | info => 2
  | warn => 3
  | error => 4

end Level

inductive Event where
  | baseSet (base : Word)
  | baseRefused (base : Word)
  | sizeSet (size : Word)
  | sizeRefused (size : Word)
  | enabledSet (enabled : Bool)
  | keySet (slot : KeySlot)
  | keysSet
  | regionReset
  | unalignedIssue (address : Word)
  | issueWhileBusy
  | forwarded (request : Request) (secure : Bool)
  | completionWhileIdle
  | aborted
  | memoryFault (fault : Fault) (address : Word)
  | csrFailed (failure : Csr.Failure)
  | settling (cycles : Word)
  | imageWritten (words : Nat) (base : Word)
  | started (ramSize : Word) (mode : Keystream.Mode)
  deriving DecidableEq, Repr

namespace Event

def level : Event → Level
  | settling _ => .trace
  | forwarded _ _ | aborted => .debug
  | baseSet _ | sizeSet _ | enabledSet _ | keySet _ | keysSet | regionReset
  | imageWritten _ _ | started _ _ => .info
  | baseRefused _ | sizeRefused _ | unalignedIssue _ | issueWhileBusy | completionWhileIdle
  | memoryFault _ _ | csrFailed _ => .warn

private def address (a : Word) : String := Numeral.hex 8 a.toNat

def text : Event → String
  | baseSet base => s!"smz: base = {address base}"
  | baseRefused base => s!"smz: rejected base {address base}"
  | sizeSet size => s!"smz: size = {Numeral.hex 0 size.toNat}"
  | sizeRefused size => s!"smz: rejected size {Numeral.hex 0 size.toNat}"
  | enabledSet enabled => if enabled then "smz: enabled" else "smz: disabled"
  | keySet slot => s!"smz: {slot.name} updated"
  | keysSet => "smz: key registers updated"
  | regionReset => "smz: configuration reset"
  | unalignedIssue a => s!"smz: issue at unaligned {address a}"
  | issueWhileBusy => "smz: issue while an access is in flight"
  | forwarded request secure =>
    let verb := match request.direction with
      | .load => "rd"
      | .store => "wr"
    let kind := if secure then "secure" else "plain"
    s!"smz: {verb} {address request.address} be={request.strobe.text} {kind} " ++
      s!"data={address request.data}"
  | completionWhileIdle => "smz: completion with no access in flight"
  | aborted => "smz: access aborted"
  | memoryFault fault a => s!"smz: memory fault {fault.text} at {address a}"
  | csrFailed failure => s!"csr: {failure.message}"
  | settling cycles => s!"csr: settle {cycles.toNat} cycles"
  | imageWritten words base => s!"image: wrote {words} words at {address base}"
  | started ramSize mode => s!"emu: {ramSize.toNat} bytes of RAM, {mode.name} keystream"

def line (event : Event) : String := s!"{event.level.name} {event.text}"

end Event

end SecureZone
