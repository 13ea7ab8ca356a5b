import Mathlib.Data.List.Basic
import SecureZone.Bus.Ram
import SecureZone.Proofs.Moves

/-!
# The latched access

An issue latches the access together with its keystream word. Until the access is completed,
aborted or reset, nothing replaces what was latched, so the completion depends on the region as it
was at the issue and on nothing later.
-/

namespace SecureZone.Interceptor

open SecureZone.Action

variable {σ : Type}

variable [Bus σ]

theorem handshake_final_of_busy {later : List (Move σ)} {z : Interceptor σ} (hz : ¬ z.IsIdle)
    (hfree : ∀ e ∈ history Move.step later z, frees e = false) :
    (final Move.step later z).handshake = z.handshake := by
  refine final_of_preserved_on (fun y ↦ y.handshake = z.handshake) rfl hfree ?_
  intro move y hy hkept
  have hbusy : ¬ y.IsIdle := by
    rw [IsIdle, hy]
    exact hz
  rw [handshake_step_of_busy hbusy hkept, hy]

/-- The word that completes an access issued under the given region. -/
theorem returned_eq (mode : Keystream.Mode) (region : Region) (request : Request) (data : Word) :
    (Pending.of mode region request).returned data =
      if request.direction = .load ∧ region.Contains request.address then
        data ^^^ Keystream.keystream mode region request.address
      else data := by
  obtain ⟨direction, address, sent, strobe⟩ := request
  cases direction with
  | load =>
      by_cases h : region.Contains address <;>
        simp [Pending.of, Pending.returned, Keystream.within, Keystream.decrypt, h]
  | store => simp [Pending.returned, Pending.of]

/-- However the region and the memory change after an accepted issue, as long as nothing frees the
slot, the next completion succeeds and decrypts exactly the loads that were issued into the enabled
region, with the keystream of the region at the issue. -/
theorem completes_as_issued (z : Interceptor σ) (request forwarded : Request)
    (later : List (Move σ)) (data : Word) (hissue : (issue request z).answer = .ok forwarded)
    (hfree : ∀ e ∈ history Move.step later (issue request z).state, frees e = false) :
    let y := final Move.step later (issue request z).state
    let ks := z.region.keys
    let keystream := match z.mode with
      | .address => request.address ^^^ 0xDEADBEEF
      | .keys => ks.key0 ^^^ ks.key1 ^^^ ks.key2 ^^^ ks.key3
    (complete data y).answer =
        .ok (if request.direction = .load ∧ z.region.Contains request.address then
          data ^^^ keystream
        else data) ∧
      (complete data y).state.IsIdle := by
  intro y ks keystream
  have hkeystream : keystream = Keystream.keystream z.mode z.region request.address :=
    (Keystream.keystream_eq _ _ _).symm
  obtain ⟨haligned, hidle⟩ := issue_ok_iff.mp ⟨forwarded, hissue⟩
  have hlatched : (issue request z).state.handshake =
      ⟨.forwarding, some (.of z.mode z.region request)⟩ := by
    rw [issue_of_isIdle haligned hidle]
  have hbusy : ¬ (issue request z).state.IsIdle := by
    rw [IsIdle, hlatched]
    exact Phase.noConfusion
  have hkept : y.handshake = ⟨.forwarding, some (.of z.mode z.region request)⟩ :=
    (handshake_final_of_busy hbusy hfree).trans hlatched
  have hy : ¬ y.IsIdle := by
    rw [IsIdle, hkept]
    exact Phase.noConfusion
  rw [complete_of_not_isIdle hy, hkept, hkeystream]
  exact ⟨congrArg Except.ok (returned_eq z.mode z.region request data), rfl⟩

/-- The region is disabled and gets another key while a load from it is in flight. -/
theorem completes_after_region_change :
    let z (mode : Keystream.Mode) : Interceptor Ram :=
      ⟨⟨0, 8, true, ⟨1, 2, 4, 8⟩⟩, mode, .initial, .zeroed 8⟩
    let request : Request := .load 4 .full
    let later : List (Move Ram) :=
      [.call (.region (.setEnabled false)), .call (.region (.setKey .key0 0xFF)),
        .call (.issue (.load 0 .full)), .call (.bus (.store .word 0 7))]
    let y (mode : Keystream.Mode) := final Move.step later (issue request (z mode)).state
    (∀ mode, (issue request (z mode)).answer = .ok request ∧
      ∀ e ∈ history Move.step later (issue request (z mode)).state, frees e = false) ∧
    (complete 0x70 (y .keys)).answer = .ok (0x70 ^^^ 0x0F) ∧
    (complete 0x70 (y .keys)).state.IsIdle ∧
    (complete 0x70 (y .address)).answer = .ok (0x70 ^^^ (4 ^^^ 0xDEADBEEF)) ∧
    (complete 0x70 (y .address)).state.IsIdle := by
  intro z request later y
  have hissue (mode : Keystream.Mode) : (issue request (z mode)).answer = .ok request := by
    cases mode <;> decide +kernel +revert
  have hfree (mode : Keystream.Mode) :
      ∀ e ∈ history Move.step later (issue request (z mode)).state, frees e = false := by
    clear hissue
    cases mode <;> decide +kernel +revert
  have hinside (mode : Keystream.Mode) :
      request.direction = .load ∧ (z mode).region.Contains request.address := by
    clear hissue hfree
    cases mode <;> decide +kernel +revert
  obtain ⟨hkeys, hkeysIdle⟩ :=
    completes_as_issued (z .keys) request request later 0x70 (hissue .keys) (hfree .keys)
  obtain ⟨haddress, haddressIdle⟩ :=
    completes_as_issued (z .address) request request later 0x70 (hissue .address) (hfree .address)
  rw [if_pos (hinside .keys)] at hkeys
  rw [if_pos (hinside .address)] at haddress
  exact ⟨fun mode ↦ ⟨hissue mode, hfree mode⟩, hkeys.trans (by decide), hkeysIdle, haddress,
    haddressIdle⟩

end SecureZone.Interceptor
