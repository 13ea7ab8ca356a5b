import Std.Data.TreeMap.Lemmas
import SecureZone.Bus.Basic

/-!
# Random access memory

A memory is a little-endian store of a fixed number of bytes. Only bytes that have been written are
kept; the others read as zero. An access is refused as misaligned before it is refused for leaving
the memory, and a refused access changes nothing.
-/

namespace SecureZone

structure Ram where
  size : Nat
  cells : Std.TreeMap Nat Byte

namespace Ram

def zeroed (size : Nat) : Ram := ⟨size, ∅⟩

def byteAt (ram : Ram) (i : Nat) : Byte := ram.cells.getD i 0

def setByte (ram : Ram) (i : Nat) (b : Byte) : Ram := { ram with cells := ram.cells.insert i b }

@[simp] theorem byteAt_zeroed (size i : Nat) : (zeroed size).byteAt i = 0 := by
  simp [zeroed, byteAt]

@[simp] theorem byteAt_setByte (ram : Ram) (i j : Nat) (b : Byte) :
    (ram.setByte i b).byteAt j = if i = j then b else ram.byteAt j := by
  simp [setByte, byteAt, Std.TreeMap.getD_insert]

@[simp] theorem size_setByte (ram : Ram) (i : Nat) (b : Byte) : (ram.setByte i b).size = ram.size :=
  rfl

/-- Lay out `bytes` from position `start` on. -/
def setBytes (ram : Ram) (start : Nat) : List Byte → Ram
  | [] => ram
  | b :: bs => (ram.setByte start b).setBytes (start + 1) bs

def ofBytes (bytes : List Byte) : Ram := (zeroed bytes.length).setBytes 0 bytes

@[simp] theorem size_setBytes (ram : Ram) (start : Nat) (bytes : List Byte) :
    (ram.setBytes start bytes).size = ram.size := by
  induction bytes generalizing ram start with
  | nil => rfl
  | cons b bs ih => simp [setBytes, ih]

theorem byteAt_setBytes (ram : Ram) (start i : Nat) (bytes : List Byte) :
    (ram.setBytes start bytes).byteAt i =
      if start ≤ i ∧ i < start + bytes.length then bytes.getD (i - start) 0 else ram.byteAt i := by
  induction bytes generalizing ram start with
  | nil =>
      have h : ¬ (start ≤ i ∧ i < start + 0) := by omega
      simp only [setBytes, List.length_nil, if_neg h]
  | cons b bs ih =>
      rw [setBytes, ih, byteAt_setByte]
      rcases Nat.lt_trichotomy i start with h | h | h
      · rw [if_neg (by omega), if_neg (by omega), if_neg (by simp; omega)]
      · subst h
        rw [if_neg (by omega)]
        simp
      · obtain ⟨k, rfl⟩ : ∃ k, i = start + 1 + k := ⟨i - (start + 1), by omega⟩
        rw [if_neg (by omega : ¬ start = start + 1 + k)]
        have e : start + 1 + k - start = k + 1 := by omega
        simp only [e, Nat.add_sub_cancel_left, List.length_cons, List.getD_cons_succ]
        by_cases hk : k < bs.length
        · rw [if_pos (by omega), if_pos (by omega)]
        · rw [if_neg (by omega), if_neg (by omega)]

/-- The `count` bytes from position `start` on. -/
def bytesFrom (ram : Ram) (start count : Nat) : List Byte :=
  (List.range count).map fun j ↦ ram.byteAt (start + j)

/-- The bytes of a range, if the memory holds all of it. -/
def window? (ram : Ram) (start count : Nat) : Option (List Byte) :=
  if start + count ≤ ram.size then some (ram.bytesFrom start count) else none

/-- Overwrite a range from outside the bus, if the memory holds all of it. -/
def poke? (ram : Ram) (start : Nat) (bytes : List Byte) : Option Ram :=
  if start + bytes.length ≤ ram.size then some (ram.setBytes start bytes) else none

/-- The word at a byte address, if the memory holds all of it. -/
def word? (ram : Ram) (address : Word) : Option Word :=
  Word.ofBytes <$> ram.window? address.toNat 4

/-- Write the named lanes of `data` to the word at position `start`. -/
def setLanes (ram : Ram) (start : Nat) (data : Word) (lanes : List Nat) : Ram :=
  lanes.foldl (fun ram lane ↦ ram.setByte (start + lane) (data.byte lane)) ram

/-- Why an access of `size` bytes at `address` is refused, if it is. -/
def refusal? (ram : Ram) (size : Size) (address : Word) : Option Fault.Cause :=
  if ¬ size.Aligned address then some .misaligned
  else if ram.size < address.toNat + size.bytes then some .access
  else none

def load (size : Size) (address : Word) : Action Ram Fault Word
  | ram =>
    match ram.refusal? size address with
    | some cause => ⟨.error ⟨.load, cause⟩, ram, []⟩
    | none => ⟨.ok (Word.ofBytes (ram.bytesFrom address.toNat size.bytes)), ram, []⟩

def store (size : Size) (address data : Word) : Action Ram Fault Unit
  | ram =>
    match ram.refusal? size address with
    | some cause => ⟨.error ⟨.store, cause⟩, ram, []⟩
    | none => ⟨.ok (), ram.setLanes address.toNat data (List.range size.bytes), []⟩

/-- The whole word has to lie in the memory, whatever the strobe selects. -/
def storeLanes (address data : Word) (strobe : Strobe) : Action Ram Fault Unit
  | ram =>
    match ram.refusal? .word address with
    | some cause => ⟨.error ⟨.store, cause⟩, ram, []⟩
    | none => ⟨.ok (), ram.setLanes address.toNat data strobe.lanes, []⟩

instance : Bus Ram where
  load := load
  store := store
  storeLanes := storeLanes
  warmReset ram := (ram, [])

@[simp] theorem bus_load (size : Size) (address : Word) :
    (Bus.load size address : Action Ram Fault Word) = load size address := rfl

@[simp] theorem bus_store (size : Size) (address data : Word) :
    (Bus.store size address data : Action Ram Fault Unit) = store size address data := rfl

@[simp] theorem bus_storeLanes (address data : Word) (strobe : Strobe) :
    (Bus.storeLanes address data strobe : Action Ram Fault Unit) =
      storeLanes address data strobe := rfl

@[simp] theorem bus_warmReset (ram : Ram) : Bus.warmReset ram = (ram, []) := rfl

@[simp] theorem size_setLanes (ram : Ram) (start : Nat) (data : Word) (lanes : List Nat) :
    (ram.setLanes start data lanes).size = ram.size := by
  induction lanes generalizing ram with
  | nil => rfl
  | cons lane lanes ih => simpa [setLanes] using ih (ram.setByte (start + lane) (data.byte lane))

theorem byteAt_setLanes (ram : Ram) (start i : Nat) (data : Word) (lanes : List Nat) :
    (ram.setLanes start data lanes).byteAt i =
      if start ≤ i ∧ i - start ∈ lanes then data.byte (i - start) else ram.byteAt i := by
  induction lanes generalizing ram with
  | nil => simp [setLanes]
  | cons lane lanes ih =>
      rw [setLanes, List.foldl_cons, ← setLanes, ih, byteAt_setByte]
      by_cases hi : start ≤ i
      · obtain ⟨k, rfl⟩ : ∃ k, i = start + k := ⟨i - start, by omega⟩
        by_cases hk : k ∈ lanes
        · simp [hk]
        · by_cases hl : lane = k
          · subst hl
            simp
          · simp [hk, hl, Ne.symm hl]
      · have : start + lane ≠ i := by omega
        simp [hi, this]

end Ram

end SecureZone
