import SecureZone.Driver.Emulated
import SecureZone.Emulator.Settings
import SecureZone.Scenario.Image
import SecureZone.Scenario.Passthrough

/-!
# A run of the emulator

A run builds a memory behind an interceptor, lets the driver configure the region, and carries out
the image round trip at the base of the region and the passthrough check at address 0. What it
prints is kept as text, also when the run fails on the way.
-/

namespace SecureZone.Emulator

structure Session where
  zone : Interceptor Ram
  printed : String

inductive Failure where
  | loadingKeys (failure : Driver.Failure)
  | configuring (base size : Word) (failure : Driver.Failure)
  | readingBack (failure : Driver.Failure)
  | image (fault : Fault)
  | passthrough (fault : Fault)
  deriving DecidableEq, Repr

def Failure.message : Failure → String
  | loadingKeys failure => s!"loading keys failed: {failure.name}"
  | configuring base size failure =>
    s!"configuring base {Numeral.hex 8 base.toNat} size {Numeral.hex 0 size.toNat} failed: " ++
      s!"{failure.name} ({Numeral.hex 8 failure.code.toNat})"
  | readingBack failure => s!"reading configuration failed: {failure.name}"
  | image fault => s!"image round trip faulted: {fault.text}"
  | passthrough fault => s!"passthrough access faulted: {fault.text}"

variable {ε α : Type}

def print (text : String) : Action Session ε Unit :=
  .modify fun s ↦ { s with printed := s.printed ++ text }

def onZone (x : Action (Interceptor Ram) ε α) : Action Session ε α :=
  x.onPart Session.zone fun s z ↦ { s with zone := z }

def onDriver (x : Action Region Driver.Failure α) : Action Session Driver.Failure α :=
  onZone (Interceptor.onRegion x)

def plainAddress : Word := 0

/-- The steps of a run. The answer says whether both checks passed. -/
def body (settings : Settings) : Action Session Failure Bool := do
  .report (.started settings.ramSize settings.mode)
  (onDriver (Driver.setKeys settings.keys)).mapError .loadingKeys
  (onDriver (Driver.init settings.base settings.size true)).mapError
    (.configuring settings.base settings.size)
  let config ← (onDriver Driver.config).mapError .readingBack
  print s!"{config.text}\n\n"
  let image ← (onZone (Image.run settings.base settings.words.toNat)).mapError .image
  print s!"{image.text}\n"
  let passthrough ← (onZone (Passthrough.run plainAddress)).mapError .passthrough
  print passthrough.text
  return image.Passed ∧ passthrough.Passed

def start (settings : Settings) : Session :=
  ⟨.new settings.mode (.zeroed settings.ramSize.toNat), ""⟩

def run (settings : Settings) : Outcome Session Failure Bool := body settings (start settings)

end SecureZone.Emulator
