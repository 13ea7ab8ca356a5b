import Mathlib.Data.List.Basic
import SecureZone.Interceptor.Basic

/-!
# What a word is masked with

The interceptor combines a word with the keystream inside an enabled region and leaves it alone
outside. Either way the word is xored with a mask, which is zero outside the region, and so is
every one of its bytes.
-/

namespace SecureZone

/-- The mask of the word at `address`, with the bounds of the region as unbounded numbers. -/
def Keystream.mask (mode : Mode) (region : Region) (address : Word) : Word :=
  if region.enabled = true ∧ region.base.toNat ≤ address.toNat ∧
      address.toNat < region.base.toNat + region.size.toNat then
    match mode with
    | .address => address ^^^ 0xDEADBEEF
    | .keys => region.keys.key0 ^^^ region.keys.key1 ^^^ region.keys.key2 ^^^ region.keys.key3
  else 0

theorem Keystream.mask_of_contains {region : Region} {address : Word} (mode : Mode)
    (h : region.Contains address) : mask mode region address = keystream mode region address := by
  have hb := Region.contains_iff.mp h
  cases mode with
  | address => rw [mask, if_pos hb, keystream, generate, seed, whitening]
  | keys => rw [mask, if_pos hb, keystream, generate, seed, Keys.folded]

theorem Keystream.mask_of_not_contains {region : Region} {address : Word} (mode : Mode)
    (h : ¬ region.Contains address) : mask mode region address = 0 := by
  have hb := mt Region.contains_iff.mpr h
  cases mode <;> rw [mask, if_neg hb]

/-- The mask that is xored with the byte at position `i`. Positions past the last address have
none. -/
def byteMask (mask : Word → Word) (i : Nat) : Byte :=
  if i < 0x100000000 then (mask (Word.container (BitVec.ofNat 32 i))).byte (i % 4) else 0

/-- The request with the data of a store masked. -/
def Request.masked (request : Request) (mask : Word) : Request :=
  match request.direction with
  | .load => request
  | .store => { request with data := request.data ^^^ mask }

@[simp] theorem Request.masked_direction (request : Request) (mask : Word) :
    (request.masked mask).direction = request.direction := by
  obtain ⟨direction, address, data, strobe⟩ := request
  cases direction <;> rfl

@[simp] theorem Request.masked_address (request : Request) (mask : Word) :
    (request.masked mask).address = request.address := by
  obtain ⟨direction, address, data, strobe⟩ := request
  cases direction <;> rfl

namespace Pending

/-- The access that an issue latches. -/
def of (mode : Keystream.Mode) (region : Region) (request : Request) : Pending :=
  ⟨request, Keystream.within mode region request.address⟩

variable (mode : Keystream.Mode) (region : Region) (request : Request)

theorem forwarded_of :
    (of mode region request).forwarded =
      request.masked (Keystream.mask mode region request.address) := by
  obtain ⟨direction, address, data, strobe⟩ := request
  by_cases h : region.Contains address
  · cases direction <;>
      simp [of, forwarded, Request.masked, Keystream.within, h, Keystream.encrypt,
        Keystream.mask_of_contains mode h]
  · cases direction <;>
      simp [of, forwarded, Request.masked, Keystream.within, h,
        Keystream.mask_of_not_contains mode h]

theorem returned_of (data : Word) :
    (of mode region request).returned data =
      match request.direction with
      | .load => data ^^^ Keystream.mask mode region request.address
      | .store => data := by
  obtain ⟨direction, address, sent, strobe⟩ := request
  by_cases h : region.Contains address
  · cases direction <;>
      simp [of, returned, Keystream.within, h, Keystream.decrypt,
        Keystream.mask_of_contains mode h]
  · cases direction <;>
      simp [of, returned, Keystream.within, h, Keystream.mask_of_not_contains mode h]

theorem isSome_keystream_of :
    (of mode region request).keystream.isSome = decide (region.Contains request.address) := by
  by_cases h : region.Contains request.address <;> simp [of, Keystream.within, h]

end Pending

end SecureZone
