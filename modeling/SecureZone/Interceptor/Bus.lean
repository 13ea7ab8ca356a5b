import SecureZone.Interceptor.Basic

/-!
# The interceptor as a bus

A core sees the interceptor as a bus. Each access is carried out on the word that contains it: a
load reads the whole word and takes its lanes out, and a store puts its value into every lane and
lets the strobe select the ones that are written.
-/

namespace SecureZone.Interceptor

variable {σ : Type} [Bus σ]

/-- The low bytes of `data` repeated over the whole word. -/
def replicate (size : Size) (data : Word) : Word :=
  match size with
  | .byte => (data &&& size.mask) * 0x01010101
  | .half => (data &&& size.mask) * 0x00010001
  | .word => data

/-- The bytes of a word that an access covers, moved to the low end. -/
def extract (size : Size) (address data : Word) : Word :=
  (data >>> (8 * address.lane)) &&& size.mask

def load (size : Size) (address : Word) : Action (Interceptor σ) Fault Word :=
  if ¬ size.Aligned address then
    .fail ⟨.load, .misaligned⟩
  else
    let request := Request.load address.container (.forAccess size address)
    extract size address <$> (transact request).mapError (·.toFault .load)

def storeLanes (address data : Word) (strobe : Strobe) : Action (Interceptor σ) Fault Unit :=
  if ¬ Size.word.Aligned address then
    .fail ⟨.store, .misaligned⟩
  else
    (fun _ ↦ ()) <$> (transact (.store address data strobe)).mapError (·.toFault .store)

def store (size : Size) (address data : Word) : Action (Interceptor σ) Fault Unit :=
  if ¬ size.Aligned address then
    .fail ⟨.store, .misaligned⟩
  else
    storeLanes address.container (replicate size data) (.forAccess size address)

/-- Reset the region, drop the access in flight and reset the memory. -/
def warmReset : Update (Interceptor σ)
  | z =>
    let (region, events) := Region.reset z.region
    let (memory, later) := Bus.warmReset z.memory
    (⟨region, z.mode, .initial, memory⟩, events ++ later)

instance : Bus (Interceptor σ) where
  load := load
  store := store
  storeLanes := storeLanes
  warmReset := warmReset

@[simp] theorem bus_load (size : Size) (address : Word) :
    (Bus.load size address : Action (Interceptor σ) Fault Word) = load size address := rfl

@[simp] theorem bus_store (size : Size) (address data : Word) :
    (Bus.store size address data : Action (Interceptor σ) Fault Unit) =
      store size address data := rfl

@[simp] theorem bus_storeLanes (address data : Word) (strobe : Strobe) :
    (Bus.storeLanes address data strobe : Action (Interceptor σ) Fault Unit) =
      storeLanes address data strobe := rfl

@[simp] theorem bus_warmReset (z : Interceptor σ) : Bus.warmReset z = warmReset z := rfl

end SecureZone.Interceptor
