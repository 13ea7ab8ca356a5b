import SecureZone.Bus.Basic
import SecureZone.Region.Registers

/-!
# The interceptor

The interceptor stands between a core and a memory and encrypts the traffic of the secure region. An
access is issued, forwarded to the memory and completed, and one access at most is in flight. What
was in force at the issue decides how the access completes: its keystream word is latched then, and
later changes of the region do not touch it.
-/

namespace SecureZone

/-- An access in flight; it has a keystream word if it was issued into the region. -/
structure Pending where
  request : Request
  keystream : Option Word
  deriving DecidableEq, Repr

namespace Pending

/-- The request that goes to memory: the data of a store into the region is encrypted, and nothing
else changes. -/
def forwarded (access : Pending) : Request :=
  match access.request.direction, access.keystream with
  | .store, some k => { access.request with data := Keystream.encrypt access.request.data k }
  | _, _ => access.request

/-- The word that goes back to the core: the data of a load from the region is decrypted. -/
def returned (access : Pending) (data : Word) : Word :=
  match access.request.direction, access.keystream with
  | .load, some k => Keystream.decrypt data k
  | _, _ => data

end Pending

inductive Phase where
  | idle
  | forwarding
  deriving DecidableEq, Repr

/-- The phase of the handshake and the access it has latched. -/
structure Handshake where
  phase : Phase
  latched : Option Pending
  deriving DecidableEq, Repr

namespace Handshake

def initial : Handshake := ⟨.idle, none⟩

inductive Signal where
  | issue (access : Pending)
  | complete
  | abort
  deriving DecidableEq, Repr

/-- The handshake after a signal, unless its phase does not accept the signal. -/
def receive (h : Handshake) (signal : Signal) : Option Handshake :=
  match h.phase, signal with
  | .idle, .issue access => some ⟨.forwarding, some access⟩
  | .forwarding, .complete | .forwarding, .abort => some ⟨.idle, none⟩
  | _, _ => none

/-- The word that completes the latched access when memory returned `data`. -/
def returned (h : Handshake) (data : Word) : Word :=
  match h.latched with
  | some access => access.returned data
  | none => data

end Handshake

structure Interceptor (σ : Type) where
  region : Region
  mode : Keystream.Mode
  handshake : Handshake
  memory : σ

namespace Interceptor

variable {σ ε α : Type}

def new (mode : Keystream.Mode) (memory : σ) : Interceptor σ := ⟨.initial, mode, .initial, memory⟩

def IsIdle (z : Interceptor σ) : Prop := z.handshake.phase = .idle

instance (z : Interceptor σ) : Decidable z.IsIdle := inferInstanceAs (Decidable (_ = _))

/-- An event that the handshake does not accept. -/
inductive Violation where
  | unaligned
  | busy
  | idle
  deriving DecidableEq, Repr

def Violation.text : Violation → String
  | unaligned => "address not word aligned"
  | busy => "access already in flight"
  | idle => "no access in flight"

inductive Failure where
  | protocol (violation : Violation)
  | memory (fault : Fault)
  deriving DecidableEq, Repr

def Failure.message : Failure → String
  | protocol violation => s!"protocol violation: {violation.text}"
  | memory fault => s!"memory side faulted: {fault.text}"

/-- What a core sees of a failure: the fault of the memory, or an access fault. -/
def Failure.toFault (direction : Direction) : Failure → Fault
  | protocol _ => ⟨direction, .access⟩
  | memory fault => fault

def onRegion (x : Action Region ε α) : Action (Interceptor σ) ε α :=
  x.onPart region fun z r ↦ { z with region := r }

def onMemory (x : Action σ ε α) : Action (Interceptor σ) ε α :=
  x.onPart memory fun z m ↦ { z with memory := m }

/-- Accept a request and answer with the one to forward to memory. -/
def issue (request : Request) : Action (Interceptor σ) Failure Request
  | z =>
    if ¬ Size.word.Aligned request.address then
      ⟨.error (.protocol .unaligned), z, [.unalignedIssue request.address]⟩
    else
      let access : Pending := ⟨request, Keystream.within z.mode z.region request.address⟩
      match z.handshake.receive (.issue access) with
      | none => ⟨.error (.protocol .busy), z, [.issueWhileBusy]⟩
      | some handshake =>
        ⟨.ok access.forwarded, { z with handshake := handshake },
          [.forwarded access.forwarded access.keystream.isSome]⟩

/-- Complete the access in flight with the word that memory returned. -/
def complete (data : Word) : Action (Interceptor σ) Failure Word
  | z =>
    match z.handshake.receive .complete with
    | none => ⟨.error (.protocol .idle), z, [.completionWhileIdle]⟩
    | some handshake =>
      ⟨.ok (z.handshake.returned data), { z with handshake := handshake }, []⟩

/-- Drop the access in flight, if there is one. -/
def abort : Update (Interceptor σ)
  | z =>
    match z.handshake.receive .abort with
    | none => (z, [])
    | some handshake => ({ z with handshake := handshake }, [.aborted])

/-- Carry out a request on the memory. A store has no word to answer with. -/
def serve [Bus σ] (request : Request) : Action σ Fault Word :=
  match request.direction with
  | .load => Bus.load .word request.address
  | .store => (fun _ ↦ 0) <$> Bus.storeLanes request.address request.data request.strobe

/-- Issue a request, forward it and complete it. If the memory faults the access is dropped. -/
def transact [Bus σ] (request : Request) : Action (Interceptor σ) Failure Word := do
  let forwarded ← issue request
  match ← (onMemory (serve forwarded)).attempt with
  | .ok data => complete data
  | .error fault =>
    .report (.memoryFault fault forwarded.address)
    .perform abort
    .fail (.memory fault)

end Interceptor

end SecureZone
