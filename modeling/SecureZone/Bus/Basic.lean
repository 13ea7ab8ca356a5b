import SecureZone.Action
import SecureZone.Bus.Request

/-!
# Buses

A bus answers loads and stores of any size and stores of selected lanes of a word. Loads and stores
may change the device and may fault; a warm reset cannot fail.
-/

namespace SecureZone

class Bus (σ : Type) where
  load : Size → Word → Action σ Fault Word
  store : Size → Word → Word → Action σ Fault Unit
  storeLanes : Word → Word → Strobe → Action σ Fault Unit
  warmReset : Update σ

namespace Bus

variable {σ : Type}

/-- A store of selected lanes carried out with plain stores: one word store for a full strobe, and
otherwise one byte store for each selected lane, lowest first, up to the first fault. -/
def storeEachLane (store : Size → Word → Word → Action σ Fault Unit)
    (address data : Word) (strobe : Strobe) : Action σ Fault Unit :=
  if ¬ Size.word.Aligned address then
    .fail ⟨.store, .misaligned⟩
  else if strobe = Strobe.full then
    store .word address data
  else
    strobe.lanes |> Action.forEach fun lane ↦
      store .byte (address + BitVec.ofNat 32 lane) ((data.byte lane).setWidth 32)

inductive Op where
  | load (size : Size) (address : Word)
  | store (size : Size) (address data : Word)
  | storeLanes (address data : Word) (strobe : Strobe)
  | warmReset
  deriving DecidableEq, Repr

/-- The answer of a successful operation; only a load has a word to return. -/
inductive Reply where
  | word (data : Word)
  | done
  deriving DecidableEq, Repr

def step [Bus σ] : Op → Action σ Fault Reply
  | .load size address => .word <$> load size address
  | .store size address data => (fun _ ↦ .done) <$> store size address data
  | .storeLanes address data strobe => (fun _ ↦ .done) <$> storeLanes address data strobe
  | .warmReset => (fun _ ↦ .done) <$> Action.perform warmReset

end Bus

/-- A device behind a bus that knows only plain loads and stores: stores of selected lanes are split
and a warm reset does not reach the device. -/
structure LaneSplit (σ : Type) where
  device : σ

namespace LaneSplit

variable {σ ε α : Type}

def onDevice (x : Action σ ε α) : Action (LaneSplit σ) ε α :=
  x.onPart device fun _ d ↦ ⟨d⟩

def store [Bus σ] (size : Size) (address data : Word) : Action (LaneSplit σ) Fault Unit :=
  onDevice (Bus.store size address data)

instance [Bus σ] : Bus (LaneSplit σ) where
  load size address := onDevice (Bus.load size address)
  store := store
  storeLanes := Bus.storeEachLane store
  warmReset s := (s, [])

end LaneSplit

end SecureZone
