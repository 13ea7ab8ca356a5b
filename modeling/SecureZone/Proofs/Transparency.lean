import Mathlib.Data.List.Basic
import SecureZone.Proofs.EncryptedMemory
import SecureZone.Proofs.Run

/-!
# Transparency

A core that only loads and stores cannot tell an interceptor in front of a memory from the memory
itself. Whatever the region and the mode are, the interceptor answers every access as a plain
memory would that holds the unmasked bytes, and the two memories stay unmasked views of each other.
-/

namespace SecureZone

open SecureZone.Action

namespace Ram

/-- All bytes of the memory in order. -/
def contents (ram : Ram) : List Byte := ram.bytesFrom 0 ram.size

/-- The plain memory that `ram` stands for when each of its words is masked. -/
def unmasked (mask : Word → Word) (ram : Ram) : Ram :=
  .ofBytes ((List.range ram.size).map fun i ↦ ram.byteAt i ^^^ byteMask mask i)

theorem contents_eq_iff {first second : Ram} :
    first.contents = second.contents ↔
      first.size = second.size ∧ ∀ i < first.size, first.byteAt i = second.byteAt i := by
  simp only [contents, bytesFrom, Nat.zero_add]
  constructor
  · intro h
    have hsize : first.size = second.size := by simpa using congrArg List.length h
    refine ⟨hsize, ?_⟩
    intro i hi
    rw [← hsize] at h
    exact List.map_inj_left.mp h i (List.mem_range.mpr hi)
  · rintro ⟨hsize, hbytes⟩
    rw [← hsize]
    apply List.map_congr_left
    intro i hi
    exact hbytes i (List.mem_range.mp hi)

theorem byteAt_ofBytes (bytes : List Byte) (i : Nat) :
    (ofBytes bytes).byteAt i = bytes.getD i 0 := by
  rw [ofBytes, byteAt_setBytes, byteAt_zeroed]
  by_cases hi : i < bytes.length
  · rw [if_pos ⟨Nat.zero_le i, by omega⟩, Nat.sub_zero]
  · rw [if_neg (by omega), List.getD_eq_getElem?_getD, List.getElem?_eq_none (by omega),
      Option.getD_none]

@[simp] theorem size_unmasked (mask : Word → Word) (ram : Ram) :
    (ram.unmasked mask).size = ram.size := by
  simp [unmasked, ofBytes, zeroed]

theorem byteAt_unmasked (mask : Word → Word) (ram : Ram) {i : Nat} (hi : i < ram.size) :
    (ram.unmasked mask).byteAt i = ram.byteAt i ^^^ byteMask mask i := by
  rw [unmasked, byteAt_ofBytes]
  simp [List.getD_eq_getElem?_getD, hi]

/-- Unmasking a memory unmasks each of its words. -/
theorem word?_unmasked (mask : Word → Word) (ram : Ram) {a : Word} (h : Size.word.Aligned a) :
    (ram.unmasked mask).word? a = (ram.word? a).map (· ^^^ mask a) := by
  by_cases hfit : a.toNat + 4 ≤ ram.size
  · simp only [word?, window?, size_unmasked, if_pos hfit, Option.map_eq_map, Option.map_some,
      Option.some.injEq]
    apply Word.ext_byte
    intro lane hl
    rw [Word.byte_xor, byte_ofBytes_bytesFrom _ _ _ hl, byte_ofBytes_bytesFrom _ _ _ hl,
      if_pos hl, if_pos hl, byteAt_unmasked _ _ (by omega), byteMask_word mask h hl]
  · simp [word?, window?, hfit]

/-- `plain` holds what `raw` holds with the masks taken off. -/
structure Unmasks (mask : Word → Word) (raw plain : Ram) : Prop where
  size_eq : plain.size = raw.size
  byteAt_eq : ∀ i < raw.size, plain.byteAt i = raw.byteAt i ^^^ byteMask mask i

theorem unmasks_iff_contents_eq {mask : Word → Word} {raw plain : Ram} :
    Unmasks mask raw plain ↔ plain.contents = (raw.unmasked mask).contents := by
  rw [contents_eq_iff, size_unmasked]
  constructor
  · rintro ⟨hsize, hbytes⟩
    refine ⟨hsize, fun i hi ↦ ?_⟩
    rw [byteAt_unmasked mask raw (hsize ▸ hi)]
    exact hbytes i (hsize ▸ hi)
  · rintro ⟨hsize, hbytes⟩
    refine ⟨hsize, fun i hi ↦ ?_⟩
    rw [hbytes i (hsize ▸ hi), byteAt_unmasked mask raw hi]

/-- Storing plain bytes on one side and masked ones on the other keeps the view. -/
theorem Unmasks.update {mask : Word → Word} {raw plain raw' plain' : Ram}
    {stored? : Nat → Option Byte} (h : Unmasks mask raw plain) (hraw : raw'.size = raw.size)
    (hplain : plain'.size = plain.size)
    (hmasked : ∀ i, raw'.byteAt i =
      ((stored? i).map (· ^^^ byteMask mask i)).getD (raw.byteAt i))
    (hstored : ∀ i, plain'.byteAt i = (stored? i).getD (plain.byteAt i)) :
    Unmasks mask raw' plain' := by
  refine ⟨by rw [hplain, h.size_eq, hraw], ?_⟩
  intro i hi
  rw [hmasked, hstored]
  cases stored? i with
  | none =>
      rw [Option.map_none, Option.getD_none, Option.getD_none]
      exact h.byteAt_eq i (hraw ▸ hi)
  | some b =>
      rw [Option.map_some, Option.getD_some, Option.getD_some, BitVec.xor_assoc, BitVec.xor_self,
        BitVec.xor_zero]

end Ram

namespace Interceptor

/-- The interceptor is idle with the masks of the start, and the plain memory is the unmasked view
of the one behind it. -/
structure Shows (mode : Keystream.Mode) (region : Region) (z : Interceptor Ram) (plain : Ram) :
    Prop where
  isIdle : z.IsIdle
  mode_eq : z.mode = mode
  region_eq : z.region = region
  whole : z.memory.size % 4 = 0
  unmasks : Ram.Unmasks (Keystream.mask mode region) z.memory plain

namespace Shows

variable {mode : Keystream.Mode} {region : Region} {z : Interceptor Ram} {plain : Ram}
  {size : Size} {a : Word}

theorem masks_eq (h : Shows mode region z plain) : z.masks = Keystream.mask mode region := by
  rw [masks, h.mode_eq, h.region_eq]

theorem refusal?_eq (h : Shows mode region z plain) (ha : size.Aligned a) :
    z.memory.refusal? .word a.container = plain.refusal? size a := by
  rw [Ram.refusal?_container ha h.whole, Ram.refusal?_of_aligned ha, Ram.refusal?_of_aligned ha,
    h.unmasks.size_eq]

theorem completed (h : Shows mode region z plain) :
    Shows mode region { z with handshake := .initial } plain :=
  ⟨rfl, h.mode_eq, h.region_eq, h.whole, h.unmasks⟩

theorem stored (h : Shows mode region z plain) (ha : Size.word.Aligned a) (data : Word)
    (strobe : Strobe) {plain' : Ram} (hsize : plain'.size = plain.size)
    (hstored : ∀ i, plain'.byteAt i =
      ((Bus.Op.storeLanes a data strobe).stored? i).getD (plain.byteAt i)) :
    Shows mode region
      { z with
        handshake := .initial
        memory := z.memory.setLanes a.toNat (data ^^^ z.masks a) strobe.lanes } plain' := by
  have hmasked := byteAt_setLanes_masked z ha data strobe
  have hunmasks := h.unmasks
  rw [← h.masks_eq] at hunmasks
  refine ⟨rfl, h.mode_eq, h.region_eq, by simpa using h.whole, ?_⟩
  rw [← h.masks_eq]
  exact hunmasks.update (Ram.size_setLanes _ _ _ _) hsize hmasked hstored

theorem load (h : Shows mode region z plain) (size : Size) (a : Word) :
    (Interceptor.load size a z).answer = (Ram.load size a plain).answer ∧
      Shows mode region (Interceptor.load size a z).state (Ram.load size a plain).state := by
  by_cases ha : size.Aligned a
  · cases hm : plain.refusal? size a with
    | some cause =>
        obtain ⟨hanswer, hstate⟩ := load_of_refused ha h.isIdle ((h.refusal?_eq ha).trans hm)
        rw [hanswer, hstate, Ram.load_of_refused hm]
        exact ⟨rfl, h.completed⟩
    | none =>
        obtain ⟨hanswer, hstate⟩ := load_of_accepted ha h.isIdle ((h.refusal?_eq ha).trans hm)
        rw [hanswer, hstate, Ram.load_of_accepted hm]
        refine ⟨congrArg Except.ok (Word.ext_byte fun j hj ↦ ?_), h.completed⟩
        rw [byte_extract_heldWord z ha, Ram.byte_ofBytes_bytesFrom _ _ _ hj]
        by_cases hb : j < size.bytes
        · have hfit := (Ram.refusal?_eq_none_iff.mp hm).2
          rw [if_pos hb, if_pos hb, h.masks_eq]
          exact (h.unmasks.byteAt_eq _ (by rw [← h.unmasks.size_eq]; omega)).symm
        · rw [if_neg hb, if_neg hb]
  · rw [load_of_not_aligned ha, Ram.load_of_refused (Ram.refusal?_of_not_aligned ha)]
    exact ⟨rfl, h⟩

theorem storeLanes (h : Shows mode region z plain) (a data : Word) (strobe : Strobe) :
    (Interceptor.storeLanes a data strobe z).answer =
        (Ram.storeLanes a data strobe plain).answer ∧
      Shows mode region (Interceptor.storeLanes a data strobe z).state
        (Ram.storeLanes a data strobe plain).state := by
  by_cases ha : Size.word.Aligned a
  · have hsame : z.memory.refusal? .word a = plain.refusal? .word a := by
      simpa only [Word.container_eq_self ha] using h.refusal?_eq ha
    cases hm : plain.refusal? .word a with
    | some cause =>
        obtain ⟨hanswer, hstate⟩ :=
          storeLanes_of_refused ha h.isIdle (hsame.trans hm) data strobe
        rw [hanswer, hstate, Ram.storeLanes_of_refused hm]
        exact ⟨rfl, h.completed⟩
    | none =>
        obtain ⟨hanswer, hstate⟩ :=
          storeLanes_of_accepted ha h.isIdle (hsame.trans hm) data strobe
        rw [hanswer, hstate, Ram.storeLanes_of_accepted hm]
        refine ⟨rfl, h.stored ha data strobe (Ram.size_setLanes _ _ _ _) ?_⟩
        exact Ram.byteAt_setLanes_lanes plain a data strobe
  · rw [storeLanes_of_not_aligned ha,
      Ram.storeLanes_of_refused (Ram.refusal?_of_not_aligned ha)]
    exact ⟨rfl, h⟩

theorem store (h : Shows mode region z plain) (size : Size) (a data : Word) :
    (Interceptor.store size a data z).answer = (Ram.store size a data plain).answer ∧
      Shows mode region (Interceptor.store size a data z).state
        (Ram.store size a data plain).state := by
  by_cases ha : size.Aligned a
  · rw [store_of_aligned ha]
    cases hm : plain.refusal? size a with
    | some cause =>
        obtain ⟨hanswer, hstate⟩ := storeLanes_of_refused a.container_aligned h.isIdle
          ((h.refusal?_eq ha).trans hm) (replicate size data) (.forAccess size a)
        rw [hanswer, hstate, Ram.store_of_refused hm]
        exact ⟨rfl, h.completed⟩
    | none =>
        obtain ⟨hanswer, hstate⟩ := storeLanes_of_accepted a.container_aligned h.isIdle
          ((h.refusal?_eq ha).trans hm) (replicate size data) (.forAccess size a)
        rw [hanswer, hstate, Ram.store_of_accepted hm]
        refine ⟨rfl, h.stored a.container_aligned _ _ (Ram.size_setLanes _ _ _ _) ?_⟩
        intro i
        rw [Bus.Op.stored?_replicate ha]
        exact Ram.byteAt_setLanes_range plain size a data i
  · rw [store_of_not_aligned ha, Ram.store_of_refused (Ram.refusal?_of_not_aligned ha)]
    exact ⟨rfl, h⟩

/-- One access gets one answer from both sides, and leaves both showing the same. -/
theorem step (h : Shows mode region z plain) {op : Bus.Op} (hop : op ≠ .warmReset) :
    (Bus.step op z).answer = (Bus.step op plain).answer ∧
      Shows mode region (Bus.step op z).state (Bus.step op plain).state := by
  cases op with
  | load size a =>
      obtain ⟨hanswer, hshows⟩ := h.load size a
      simpa [Bus.step, hanswer] using hshows
  | store size a data =>
      obtain ⟨hanswer, hshows⟩ := h.store size a data
      simpa [Bus.step, hanswer] using hshows
  | storeLanes a data strobe =>
      obtain ⟨hanswer, hshows⟩ := h.storeLanes a data strobe
      simpa [Bus.step, hanswer] using hshows
  | warmReset => exact absurd rfl hop

end Shows

/-- Every access of every run is answered as by a plain memory with the unmasked contents, and
after every access the plain contents are the unmasked ones. -/
theorem answers_as_plain_memory (z : Interceptor Ram) (hz : z.IsIdle)
    (hsize : z.memory.size % 4 = 0) (ops : List Bus.Op) (hops : ∀ op ∈ ops, op ≠ .warmReset) :
    List.Forall₂
      (fun masked plain ↦ masked.outcome.answer = plain.outcome.answer ∧
        plain.outcome.state.contents =
          (masked.outcome.state.memory.unmasked (Keystream.mask z.mode z.region)).contents)
      (history Bus.step ops z)
      (history Bus.step ops (z.memory.unmasked (Keystream.mask z.mode z.region))) := by
  have hstart : Shows z.mode z.region z
      (z.memory.unmasked (Keystream.mask z.mode z.region)) :=
    ⟨hz, rfl, rfl, hsize, Ram.unmasks_iff_contents_eq.mpr rfl⟩
  refine history_forall₂ hstart ?_
  intro op hop u v huv
  obtain ⟨hanswer, hshows⟩ := huv.step (hops op hop)
  exact ⟨hshows, hanswer, Ram.unmasks_iff_contents_eq.mp hshows.unmasks⟩

theorem answers_half_then_word :
    let z : Interceptor Ram := ⟨⟨0, 8, true, .zero⟩, .address, .initial, .zeroed 8⟩
    let plain := z.memory.unmasked (Keystream.mask z.mode z.region)
    let ops : List Bus.Op := [.store .half 2 0x1234, .load .word 0, .load .byte 8]
    (z.IsIdle ∧ z.memory.size % 4 = 0 ∧ ∀ op ∈ ops, op ≠ .warmReset) ∧
    List.Forall₂
      (fun masked plain ↦ masked.outcome.answer = plain.outcome.answer ∧
        plain.outcome.state.contents =
          (masked.outcome.state.memory.unmasked (Keystream.mask z.mode z.region)).contents)
      (history Bus.step ops z) (history Bus.step ops plain) ∧
    (history Bus.step ops plain).map (·.outcome.answer) =
      [.ok .done, .ok (.word 0x1234BEEF), .error ⟨.load, .access⟩] := by
  intro z plain ops
  have hops : ∀ op ∈ ops, op ≠ .warmReset := by decide
  have hsize : z.memory.size % 4 = 0 := by decide +revert
  refine ⟨⟨rfl, hsize, hops⟩, answers_as_plain_memory z rfl hsize ops hops, ?_⟩
  decide +kernel +revert

end Interceptor

end SecureZone
