import Mathlib.Data.List.Basic
import SecureZone.Proofs.LaneSplitting

/-!
# Storing lanes one by one behind an interceptor

An interceptor masks the word of a store of lanes once. A byte store repeats its byte over the word,
masks all of it and lets the strobe pick one lane, which is then masked by the same byte of the same
keystream word. And since every byte store asks the memory for the whole word, the lanes of a word
are all refused or all taken, so that a store cannot tear.
-/

namespace SecureZone

open SecureZone.Action

namespace Interceptor

variable {z : Interceptor Ram} {a : Word} {strobe : Strobe}

/-- The two cannot be told apart from outside: region, mode, handshake phase and the bytes of the
memory are the same. -/
structure LooksLike (z y : Interceptor Ram) : Prop where
  region_eq : z.region = y.region
  mode_eq : z.mode = y.mode
  isIdle_iff : z.IsIdle ↔ y.IsIdle
  contents_eq : z.memory.contents = y.memory.contents

theorem looksLike_of_completed (hz : z.IsIdle) : LooksLike { z with handshake := .initial } z :=
  ⟨rfl, rfl, iff_of_true rfl hz, rfl⟩

/-- The store of one lane masks its byte as the store of the whole word does. -/
theorem gives_store_lane (ha : Size.word.Aligned a) (hz : z.IsIdle)
    (hm : z.memory.refusal? .word a = none) (data : Word) {lane : Nat} (hl : lane < 4) :
    Gives (Bus.storeLane store a data lane) z (.ok ())
      { z with
        handshake := .initial
        memory := z.memory.setLanes a.toNat (data ^^^ z.masks a) [lane] } := by
  have hcontainer := Word.container_add_lane ha hl
  have hlane := Word.lane_add_lane ha hl
  have haligned := Size.byte_aligned (a + BitVec.ofNat 32 lane)
  have hbyte : (replicate .byte ((data.byte lane).setWidth 32) ^^^ z.masks a).byte lane =
      (data ^^^ z.masks a).byte lane := by
    have hrepeated := byte_replicate ((data.byte lane).setWidth 32) haligned Nat.one_pos
    rw [hlane, Nat.add_zero, Word.byte_setWidth] at hrepeated
    rw [Word.byte_xor, Word.byte_xor, hrepeated]
  obtain ⟨hanswer, hstate⟩ := storeLanes_of_accepted ha hz hm
    (replicate .byte ((data.byte lane).setWidth 32))
    (.forAccess .byte (a + BitVec.ofNat 32 lane))
  rw [Bus.storeLane, store_of_aligned haligned, hcontainer]
  refine ⟨hanswer, hstate.trans ?_⟩
  rw [Strobe.lanes_forAccess_byte hlane]
  simp only [Ram.setLanes, List.foldl_cons, List.foldl_nil, hbyte]

theorem gives_store_lane_refused (ha : Size.word.Aligned a) (hz : z.IsIdle) {cause : Fault.Cause}
    (hm : z.memory.refusal? .word a = some cause) (data : Word) {lane : Nat} (hl : lane < 4) :
    Gives (Bus.storeLane store a data lane) z (.error ⟨.store, cause⟩)
      { z with handshake := .initial } := by
  obtain ⟨hanswer, hstate⟩ := storeLanes_of_refused ha hz hm
    (replicate .byte ((data.byte lane).setWidth 32))
    (.forAccess .byte (a + BitVec.ofNat 32 lane))
  rw [Bus.storeLane, store_of_aligned (Size.byte_aligned _), Word.container_add_lane ha hl]
  exact ⟨hanswer, hstate⟩

/-- The lanes that have been stored so far, under the masks that were in force at the start. -/
structure HasStored (z : Interceptor Ram) (a data : Word) (done : List Nat) (y : Interceptor Ram) :
    Prop where
  isIdle : y.IsIdle
  region_eq : y.region = z.region
  mode_eq : y.mode = z.mode
  memory_eq : y.memory = z.memory.setLanes a.toNat (data ^^^ z.masks a) done

theorem HasStored.turn {data : Word} {done : List Nat} {y : Interceptor Ram}
    (hy : HasStored z a data done y) (ha : Size.word.Aligned a)
    (hm : z.memory.refusal? .word a = none) {lane : Nat} (hl : lane < 4) :
    ∃ u, Gives (Bus.storeLane store a data lane) y (.ok ()) u ∧
      HasStored z a data (done ++ [lane]) u := by
  have haccepted : y.memory.refusal? .word a = none := by
    rw [Ram.refusal?_eq_none_iff] at hm ⊢
    rwa [hy.memory_eq, Ram.size_setLanes]
  have hmasks : y.masks = z.masks := by rw [masks, masks, hy.mode_eq, hy.region_eq]
  refine ⟨_, gives_store_lane ha hy.isIdle haccepted data hl, rfl, hy.region_eq, hy.mode_eq, ?_⟩
  rw [hmasks, hy.memory_eq, ← Ram.setLanes_append]

theorem gives_storeEachLane (ha : Size.word.Aligned a) (hz : z.IsIdle)
    (hm : z.memory.refusal? .word a = none) (data : Word) (hpart : strobe ≠ .full) :
    ∃ u, Gives (Bus.storeEachLane store a data strobe) z (.ok ()) u ∧
      HasStored z a data strobe.lanes u := by
  rw [Bus.storeEachLane_of_ne_full _ _ ha hpart]
  refine forEach_of_turns (HasStored z a data) ⟨hz, rfl, rfl, rfl⟩ ?_
  intro done lane hlane y hy
  exact hy.turn ha hm (Strobe.mem_lanes.mp hlane).1

theorem gives_storeEachLane_refused (ha : Size.word.Aligned a) (hz : z.IsIdle)
    {cause : Fault.Cause} (hm : z.memory.refusal? .word a = some cause) (data : Word)
    (hpart : strobe ≠ .full) (hsome : strobe ≠ 0) :
    Gives (Bus.storeEachLane store a data strobe) z (.error ⟨.store, cause⟩)
      { z with handshake := .initial } := by
  rw [Bus.storeEachLane_of_ne_full _ _ ha hpart]
  cases hlanes : strobe.lanes with
  | nil => exact absurd (strobe.lanes_eq_nil_iff.mp hlanes) hsome
  | cons lane rest =>
      have hmem : lane ∈ strobe.lanes := hlanes ▸ List.mem_cons_self
      exact (gives_store_lane_refused ha hz hm data (Strobe.mem_lanes.mp hmem).1).bind_error _

/-- A store of lanes and the byte stores in its place answer the same and leave the same behind. -/
structure StoresAlike (z : Interceptor Ram) (a data : Word) (strobe : Strobe) : Prop where
  answer_eq : (Bus.storeEachLane store a data strobe z).answer = (storeLanes a data strobe z).answer
  looksLike : LooksLike (Bus.storeEachLane store a data strobe z).state
    (storeLanes a data strobe z).state

theorem storesAlike_of_eq {data : Word}
    (h : Bus.storeEachLane store a data strobe z = storeLanes a data strobe z) :
    StoresAlike z a data strobe := by
  constructor
  · rw [h]
  · rw [h]
    exact ⟨rfl, rfl, Iff.rfl, rfl⟩

theorem storesAlike_full (z : Interceptor Ram) (ha : Size.word.Aligned a) (data : Word) :
    StoresAlike z a data .full := by
  apply storesAlike_of_eq
  rw [Bus.storeEachLane_full _ _ ha, store_of_aligned ha, Word.container_eq_self ha]
  rfl

theorem storesAlike_of_not_aligned (z : Interceptor Ram) (ha : ¬ Size.word.Aligned a) (data : Word)
    (strobe : Strobe) : StoresAlike z a data strobe := by
  apply storesAlike_of_eq
  rw [Bus.storeEachLane_of_not_aligned _ _ ha, storeLanes_of_not_aligned ha, Action.fail_apply]

/-- A memory that holds the word takes the lanes one by one as it takes them together. -/
theorem storesAlike_of_accepted (ha : Size.word.Aligned a) (hz : z.IsIdle)
    (hm : z.memory.refusal? .word a = none) (data : Word) (hpart : strobe ≠ .full) :
    StoresAlike z a data strobe := by
  obtain ⟨hanswer, hstate⟩ := storeLanes_of_accepted ha hz hm data strobe
  obtain ⟨u, hsplit, hu⟩ := gives_storeEachLane ha hz hm data hpart
  constructor
  · rw [hsplit.answer_eq, hanswer]
  · rw [hsplit.state_eq, hstate]
    exact ⟨hu.region_eq, hu.mode_eq, iff_of_true hu.isIdle rfl, congrArg Ram.contents hu.memory_eq⟩

theorem storesAlike_of_refused (ha : Size.word.Aligned a) (hz : z.IsIdle) {cause : Fault.Cause}
    (hm : z.memory.refusal? .word a = some cause) (data : Word) (hpart : strobe ≠ .full)
    (hsome : strobe ≠ 0) : StoresAlike z a data strobe := by
  obtain ⟨hanswer, hstate⟩ := storeLanes_of_refused ha hz hm data strobe
  have hsplit := gives_storeEachLane_refused ha hz hm data hpart hsome
  constructor
  · rw [hsplit.answer_eq, hanswer]
  · rw [hsplit.state_eq, hstate]
    exact ⟨rfl, rfl, Iff.rfl, rfl⟩

/-- A store of no lanes is refused past the end of the memory, and no byte store is made. -/
theorem store_of_no_lanes_past_end (hz : z.IsIdle) (ha : Size.word.Aligned a)
    (hpast : z.memory.size < a.toNat + 4) (data : Word) :
    (storeLanes a data 0 z).answer = .error ⟨.store, .access⟩ ∧
      LooksLike (storeLanes a data 0 z).state z ∧
      (Bus.storeEachLane store a data 0 z).answer = .ok () ∧
      (Bus.storeEachLane store a data 0 z).state = z := by
  obtain ⟨hanswer, hstate⟩ :=
    storeLanes_of_refused ha hz (Ram.refusal?_eq_access_iff.mpr ⟨ha, hpast⟩) data 0
  rw [hanswer, hstate, Bus.storeEachLane_zero store data ha]
  exact ⟨rfl, looksLike_of_completed hz, rfl, rfl⟩

/-- On an idle interceptor, splitting a store of lanes into byte stores makes no difference to the
answer, the bytes of the memory, the region or the handshake, except exactly when the strobe is
empty and the word does not lie in the memory. Then the store is refused and no byte store is made,
and neither changes anything. -/
theorem splitting_shows_for_empty_strobe (z : Interceptor Ram) (hz : z.IsIdle) (a data : Word)
    (strobe : Strobe) :
    (StoresAlike z a data strobe ↔
      ¬ (strobe = 0 ∧ a.toNat % 4 = 0 ∧ z.memory.size < a.toNat + 4)) ∧
    (strobe = 0 ∧ a.toNat % 4 = 0 ∧ z.memory.size < a.toNat + 4 →
      (storeLanes a data strobe z).answer = .error ⟨.store, .access⟩ ∧
      LooksLike (storeLanes a data strobe z).state z ∧
      (Bus.storeEachLane store a data strobe z).answer = .ok () ∧
      (Bus.storeEachLane store a data strobe z).state = z) := by
  refine ⟨⟨?_, ?_⟩, ?_⟩
  · rintro halike ⟨rfl, ha, hpast⟩
    obtain ⟨hrefused, -, hdone, -⟩ := store_of_no_lanes_past_end hz ha hpast data
    have hsame := halike.answer_eq
    rw [hrefused, hdone] at hsame
    cases hsame
  · intro h
    by_cases ha : Size.word.Aligned a
    · by_cases hpart : strobe = .full
      · subst hpart
        exact storesAlike_full z ha data
      · cases hm : z.memory.refusal? .word a with
        | none => exact storesAlike_of_accepted ha hz hm data hpart
        | some cause =>
            refine storesAlike_of_refused ha hz hm data hpart fun hnone ↦ h ⟨hnone, ha, ?_⟩
            by_contra hfit
            have haccepted := Ram.refusal?_eq_none_iff.mpr ⟨ha, Nat.not_lt.mp hfit⟩
            exact Option.some_ne_none cause (hm.symm.trans haccepted)
    · exact storesAlike_of_not_aligned z ha data strobe
  · rintro ⟨rfl, ha, hpast⟩
    exact store_of_no_lanes_past_end hz ha hpast data

/-- Two lanes of the one word of a region, in a memory that is cut off in the next word. -/
theorem splitting_two_lanes_in_region :
    let z : Interceptor Ram := ⟨⟨4, 4, true, .zero⟩, .address, .initial, .zeroed 10⟩
    let o := Bus.storeEachLane store 4 0xAABBCCDD 0b1010 z
    z.IsIdle ∧ StoresAlike z 4 0xAABBCCDD 0b1010 ∧ ¬ StoresAlike z 8 0xAABBCCDD 0 ∧
    o.answer = .ok () ∧ o.state.memory.bytesFrom 4 4 = [0, 0xCC ^^^ 0xBE, 0, 0xAA ^^^ 0xDE] := by
  intro z o
  have hstored : o.answer = .ok () ∧
      o.state.memory.bytesFrom 4 4 = [0, 0xCC ^^^ 0xBE, 0, 0xAA ^^^ 0xDE] := by
    decide +kernel +revert
  have hz : z.IsIdle := rfl
  have hsize : z.memory.size = 10 := rfl
  have hinside := (splitting_shows_for_empty_strobe z hz 4 0xAABBCCDD 0b1010).1
  have hpast := (splitting_shows_for_empty_strobe z hz 8 0xAABBCCDD 0).1
  refine ⟨hz, hinside.mpr ?_, mt hpast.mp (not_not_intro ⟨rfl, by decide, ?_⟩), hstored⟩
  · rintro ⟨hnone, -⟩
    exact absurd hnone (by decide)
  · rw [hsize]
    decide

end Interceptor

end SecureZone
