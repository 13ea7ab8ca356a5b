import SecureZone.Bus.Basic

/-!
# A scripted device

A device for watching the traffic on a bus. It notes every call it receives and answers from a
script: loads take the queued words first and then the standing answer, stores always get the
standing answer. It checks nothing.
-/

namespace SecureZone

namespace Scripted

inductive Call where
  | load (size : Size) (address : Word)
  | store (size : Size) (address data : Word)
  | storeLanes (address data : Word) (strobe : Strobe)
  | warmReset
  deriving DecidableEq, Repr

private def shortHex (w : Word) : String := Numeral.hex 0 w.toNat

def Call.line : Call → String
  | load size a => s!"read(RvSize::{size.name}, {shortHex a})\n"
  | store size a d => s!"write(RvSize::{size.name}, {shortHex a}, {shortHex d})\n"
  | storeLanes a d strobe => s!"write_strobed({shortHex a}, {shortHex d}, {strobe.text})\n"
  | warmReset => "warm_reset()\n"

def transcript (calls : List Call) : String := String.join (calls.map Call.line)

end Scripted

structure Scripted where
  calls : List Scripted.Call
  queue : List Word
  loadAnswer : Except Fault Word
  storeAnswer : Except Fault Unit

namespace Scripted

def fresh : Scripted := ⟨[], [], .ok 0, .ok ()⟩

def note (call : Call) (s : Scripted) : Scripted := { s with calls := s.calls ++ [call] }

def load (size : Size) (address : Word) : Action Scripted Fault Word
  | s =>
    let s := s.note (.load size address)
    match s.queue with
    | data :: rest => ⟨.ok data, { s with queue := rest }, []⟩
    | [] => ⟨s.loadAnswer, s, []⟩

def store (size : Size) (address data : Word) : Action Scripted Fault Unit
  | s => ⟨s.storeAnswer, s.note (.store size address data), []⟩

def storeLanes (address data : Word) (strobe : Strobe) : Action Scripted Fault Unit
  | s => ⟨s.storeAnswer, s.note (.storeLanes address data strobe), []⟩

instance : Bus Scripted where
  load := load
  store := store
  storeLanes := storeLanes
  warmReset s := (s.note .warmReset, [])

@[simp] theorem bus_load (size : Size) (address : Word) :
    (Bus.load size address : Action Scripted Fault Word) = load size address := rfl

@[simp] theorem bus_store (size : Size) (address data : Word) :
    (Bus.store size address data : Action Scripted Fault Unit) = store size address data := rfl

@[simp] theorem bus_storeLanes (address data : Word) (strobe : Strobe) :
    (Bus.storeLanes address data strobe : Action Scripted Fault Unit) =
      storeLanes address data strobe := rfl

@[simp] theorem bus_warmReset (s : Scripted) : Bus.warmReset s = (s.note .warmReset, []) := rfl

/-- Extend the queue and replace the standing answers that are given. -/
def extend (queue : List Word) (loadAnswer : Option (Except Fault Word))
    (storeAnswer : Option (Except Fault Unit)) (s : Scripted) : Scripted :=
  { s with
    queue := s.queue ++ queue
    loadAnswer := loadAnswer.getD s.loadAnswer
    storeAnswer := storeAnswer.getD s.storeAnswer }

/-- The text of the calls noted so far, which are then forgotten. -/
def takeTranscript (s : Scripted) : String × Scripted :=
  (transcript s.calls, { s with calls := [] })

end Scripted

end SecureZone
