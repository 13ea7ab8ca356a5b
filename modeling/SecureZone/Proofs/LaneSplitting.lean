import Mathlib.Data.List.Basic
import SecureZone.Proofs.Outcome
import SecureZone.Proofs.Transparency

/-!
# Storing lanes one by one

A store of selected lanes can be carried out as one byte store for each lane. On a plain memory this
comes to the same wherever the whole word lies inside. At the end of the memory it does not: the
memory refuses the word, while the byte stores get as far as the bytes do and leave what they have
stored.
-/

namespace SecureZone

open SecureZone.Action

/-! ## Selected lanes -/

namespace Strobe

/-- The lanes below a bound come first. -/
theorem exists_lanes_eq_append (strobe : Strobe) (bound : Nat) :
    ∃ inner outer, strobe.lanes = inner ++ outer ∧ (∀ lane ∈ inner, lane < bound) ∧
      ∀ lane ∈ outer, bound ≤ lane := by
  have hsorted : strobe.lanes.Pairwise (· < ·) := List.pairwise_lt_range.filter _
  generalize strobe.lanes = lanes at hsorted
  induction hsorted with
  | nil => exact ⟨[], [], rfl, List.forall_mem_nil _, List.forall_mem_nil _⟩
  | @cons lane lanes hlater _ ih =>
      by_cases hlane : lane < bound
      · obtain ⟨inner, outer, rfl, hinner, houter⟩ := ih
        exact ⟨lane :: inner, outer, rfl, List.forall_mem_cons.mpr ⟨hlane, hinner⟩, houter⟩
      · refine ⟨[], lane :: lanes, rfl, List.forall_mem_nil _, ?_⟩
        rw [List.forall_mem_cons]
        refine ⟨by omega, fun other hother ↦ ?_⟩
        have hlt := hlater other hother
        omega

end Strobe

/-! ## Byte stores in place of a store of lanes -/

namespace Bus

variable {σ : Type} {a : Word} (store : Size → Word → Word → Action σ Fault Unit) (data : Word)

/-- The byte store that stands for one lane of a word. -/
def storeLane (a data : Word) (lane : Nat) : Action σ Fault Unit :=
  store .byte (a + BitVec.ofNat 32 lane) ((data.byte lane).setWidth 32)

theorem storeEachLane_of_not_aligned (ha : ¬ Size.word.Aligned a) (strobe : Strobe) :
    storeEachLane store a data strobe = .fail ⟨.store, .misaligned⟩ := by
  rw [storeEachLane, if_pos ha]

theorem storeEachLane_full (ha : Size.word.Aligned a) :
    storeEachLane store a data .full = store .word a data := by
  rw [storeEachLane, if_neg (not_not_intro ha), if_pos rfl]

theorem storeEachLane_of_ne_full (ha : Size.word.Aligned a) {strobe : Strobe}
    (hpart : strobe ≠ .full) :
    storeEachLane store a data strobe = forEach (storeLane store a data) strobe.lanes := by
  rw [storeEachLane, if_neg (not_not_intro ha), if_neg hpart]
  rfl

theorem storeEachLane_zero (ha : Size.word.Aligned a) :
    storeEachLane store a data 0 = pure () := by
  rw [storeEachLane_of_ne_full store data ha (by decide)]
  rfl

end Bus

/-! ## A plain memory -/

namespace Ram

variable {a : Word} {strobe : Strobe}

/-- The store of one lane succeeds where its byte lies in the memory. -/
theorem gives_store_lane (ram : Ram) (ha : Size.word.Aligned a) (data : Word) {lane : Nat}
    (hl : lane < 4) (hin : a.toNat + lane < ram.size) :
    Gives (Bus.storeLane store a data lane) ram (.ok ()) (ram.setLanes a.toNat data [lane]) := by
  have haddress := Word.toNat_add_lane ha hl
  have haccepted : ram.refusal? .byte (a + BitVec.ofNat 32 lane) = none := by
    apply refusal?_eq_none_iff.mpr
    rw [haddress]
    exact ⟨Size.byte_aligned _, hin⟩
  have hbyte : ram.setLanes (a + BitVec.ofNat 32 lane).toNat ((data.byte lane).setWidth 32)
      (List.range Size.byte.bytes) = ram.setLanes a.toNat data [lane] := by
    rw [haddress]
    exact congrArg (ram.setByte (a.toNat + lane)) (Word.byte_setWidth (data.byte lane))
  rw [← hbyte]
  exact .of_apply_eq (store_of_accepted haccepted _)

theorem gives_store_lane_outside (ram : Ram) (ha : Size.word.Aligned a) (data : Word)
    {lane : Nat} (hl : lane < 4) (hout : ram.size ≤ a.toNat + lane) :
    Gives (Bus.storeLane store a data lane) ram (.error ⟨.store, .access⟩) ram := by
  have hrefused : ram.refusal? .byte (a + BitVec.ofNat 32 lane) = some .access := by
    apply refusal?_eq_access_iff.mpr
    rw [Word.toNat_add_lane ha hl]
    exact ⟨Size.byte_aligned _, Nat.lt_succ_of_le hout⟩
  exact .of_apply_eq (store_of_refused hrefused _)

/-- The stores of lanes whose bytes lie in the memory all succeed. -/
theorem gives_store_lanes_inside (ram : Ram) (ha : Size.word.Aligned a) (data : Word)
    {lanes : List Nat} (hlt : ∀ lane ∈ lanes, lane < 4)
    (hin : ∀ lane ∈ lanes, a.toNat + lane < ram.size) :
    Gives (forEach (Bus.storeLane store a data) lanes) ram (.ok ())
      (ram.setLanes a.toNat data lanes) := by
  have hturn : ∀ done, ∀ lane ∈ lanes, ∀ t, t = ram.setLanes a.toNat data done →
      ∃ u, Gives (Bus.storeLane store a data lane) t (.ok ()) u ∧
        u = ram.setLanes a.toNat data (done ++ [lane]) := by
    rintro done lane hlane _ rfl
    refine ⟨_, gives_store_lane _ ha data (hlt lane hlane) ?_, (setLanes_append ..).symm⟩
    rw [size_setLanes]
    exact hin lane hlane
  obtain ⟨_, hstored, rfl⟩ :=
    forEach_of_turns (fun done t ↦ t = ram.setLanes a.toNat data done) rfl hturn
  exact hstored

/-- Lane by lane, the bytes that lie in the memory are stored, and the first one that does not ends
the store. -/
theorem exists_gives_storeEachLane (ram : Ram) (ha : Size.word.Aligned a) (data : Word)
    (hpart : strobe ≠ .full) :
    ∃ inner outer, strobe.lanes = inner ++ outer ∧ (∀ lane ∈ inner, a.toNat + lane < ram.size) ∧
      (∀ lane ∈ outer, ram.size ≤ a.toNat + lane) ∧
      Gives (Bus.storeEachLane store a data strobe) ram
        (if outer = [] then .ok () else .error ⟨.store, .access⟩)
        (ram.setLanes a.toNat data inner) := by
  obtain ⟨inner, outer, hlanes, hbelow, habove⟩ :=
    strobe.exists_lanes_eq_append (ram.size - a.toNat)
  have hinner : ∀ lane ∈ inner, a.toNat + lane < ram.size := by
    intro lane hlane
    have := hbelow lane hlane
    omega
  have houter : ∀ lane ∈ outer, ram.size ≤ a.toNat + lane := by
    intro lane hlane
    have := habove lane hlane
    omega
  have hlt : ∀ lane ∈ inner ++ outer, lane < 4 := by
    intro lane hlane
    rw [← hlanes] at hlane
    exact (Strobe.mem_lanes.mp hlane).1
  rw [List.forall_mem_append] at hlt
  refine ⟨inner, outer, hlanes, hinner, houter, ?_⟩
  rw [Bus.storeEachLane_of_ne_full _ _ ha hpart, hlanes, forEach_append]
  refine (gives_store_lanes_inside ram ha data hlt.1 hinner).bind ?_
  cases outer with
  | nil => exact Gives.pure () _
  | cons lane rest =>
      have hout : (ram.setLanes a.toNat data inner).size ≤ a.toNat + lane := by
        rw [size_setLanes]
        exact houter lane List.mem_cons_self
      have hfails := gives_store_lane_outside _ ha data (hlt.2 lane List.mem_cons_self) hout
      exact hfails.bind_error _

/-- A store of lanes that succeeds if all of them lie in the memory, and stores those that do in
either case. -/
structure StoresInside (ram : Ram) (a data : Word) (strobe : Strobe) (o : Outcome Ram Fault Unit) :
    Prop where
  ok_iff : o.answer = .ok () ↔ ∀ lane < 4, strobe.Selects lane → a.toNat + lane < ram.size
  error_iff : o.answer = .error ⟨.store, .access⟩ ↔
    ∃ lane < 4, strobe.Selects lane ∧ ram.size ≤ a.toNat + lane
  size_eq : o.state.size = ram.size
  byteAt_eq : ∀ i < ram.size, o.state.byteAt i =
    ((Bus.Op.storeLanes a data strobe).stored? i).getD (ram.byteAt i)

theorem storesInside_storeEachLane (ram : Ram) (ha : Size.word.Aligned a) (data : Word)
    (hpart : strobe ≠ .full) :
    StoresInside ram a data strobe (Bus.storeEachLane store a data strobe ram) := by
  obtain ⟨inner, outer, hlanes, hinner, houter, hanswer, hstate⟩ :=
    exists_gives_storeEachLane ram ha data hpart
  have hmem (lane : Nat) : lane < 4 ∧ strobe.Selects lane ↔ lane ∈ inner ∨ lane ∈ outer := by
    rw [← Strobe.mem_lanes, hlanes, List.mem_append]
  have hall : outer = [] ↔ ∀ lane < 4, strobe.Selects lane → a.toNat + lane < ram.size := by
    constructor
    · rintro rfl lane hl hselected
      rcases (hmem lane).mp ⟨hl, hselected⟩ with hlane | hlane
      · exact hinner lane hlane
      · cases hlane
    · intro hall
      apply List.eq_nil_iff_forall_not_mem.mpr
      intro lane hlane
      obtain ⟨hl, hselected⟩ := (hmem lane).mpr (.inr hlane)
      exact Nat.not_lt.mpr (houter lane hlane) (hall lane hl hselected)
  refine ⟨?_, ?_, ?_, ?_⟩
  · rw [hanswer, ← hall]
    by_cases hnone : outer = [] <;> simp [hnone]
  · have hsome : outer ≠ [] ↔ ∃ lane < 4, strobe.Selects lane ∧ ram.size ≤ a.toNat + lane := by
      simp only [ne_eq, hall, not_forall, Nat.not_lt, exists_prop]
    rw [hanswer, ← hsome]
    by_cases hnone : outer = [] <;> simp [hnone]
  · rw [hstate, size_setLanes]
  · intro i hi
    rw [hstate, byteAt_setLanes, Bus.Op.stored?]
    by_cases hin : a.toNat ≤ i ∧ i < a.toNat + 4 ∧ strobe.Selects (i - a.toNat)
    · obtain ⟨hlo, hhi, hselected⟩ := hin
      have hlane : i - a.toNat ∈ inner := by
        rcases (hmem (i - a.toNat)).mp ⟨by omega, hselected⟩ with hlane | hlane
        · exact hlane
        · have := houter _ hlane
          omega
      rw [if_pos ⟨hlo, hlane⟩, if_pos ⟨hlo, hhi, hselected⟩, Option.getD_some]
    · rw [if_neg hin, if_neg, Option.getD_none]
      rintro ⟨hlo, hlane⟩
      obtain ⟨hl, hselected⟩ := (hmem _).mpr (.inl hlane)
      exact hin ⟨hlo, by omega, hselected⟩

/-- A store of lanes and the byte stores in its place answer the same and leave the same bytes. -/
def StoresAlike (ram : Ram) (a data : Word) (strobe : Strobe) : Prop :=
  (Bus.storeEachLane store a data strobe ram).answer = (storeLanes a data strobe ram).answer ∧
    (Bus.storeEachLane store a data strobe ram).state.contents =
      (storeLanes a data strobe ram).state.contents

theorem storesAlike_of_eq {ram : Ram} {data : Word}
    (h : Bus.storeEachLane store a data strobe ram = storeLanes a data strobe ram) :
    StoresAlike ram a data strobe := by
  rw [StoresAlike, h]
  exact ⟨rfl, rfl⟩

theorem storesAlike_full (ram : Ram) (ha : Size.word.Aligned a) (data : Word) :
    StoresAlike ram a data .full := by
  apply storesAlike_of_eq
  rw [Bus.storeEachLane_full _ _ ha]
  cases hm : ram.refusal? .word a with
  | some cause => rw [store_of_refused hm, storeLanes_of_refused hm]
  | none =>
      rw [store_of_accepted hm, storeLanes_of_accepted hm, Strobe.lanes_full]
      rfl

theorem storesAlike_of_not_aligned (ram : Ram) (ha : ¬ Size.word.Aligned a) (data : Word)
    (strobe : Strobe) : StoresAlike ram a data strobe := by
  apply storesAlike_of_eq
  rw [Bus.storeEachLane_of_not_aligned _ _ ha, Action.fail_apply,
    storeLanes_of_refused (refusal?_of_not_aligned ha)]

theorem storesAlike_inside (ram : Ram) (ha : Size.word.Aligned a) (data : Word)
    (hpart : strobe ≠ .full) (hfit : a.toNat + 4 ≤ ram.size) : StoresAlike ram a data strobe := by
  have hsplit := storesInside_storeEachLane ram ha data hpart
  have hanswer := hsplit.ok_iff.mpr fun lane hl _ ↦ by omega
  rw [StoresAlike, storeLanes_of_accepted (refusal?_eq_none_iff.mpr ⟨ha, hfit⟩)]
  refine ⟨hanswer, contents_eq_iff.mpr ⟨?_, ?_⟩⟩
  · rw [hsplit.size_eq, size_setLanes]
  · intro i hi
    rw [hsplit.size_eq] at hi
    rw [hsplit.byteAt_eq i hi, byteAt_setLanes_lanes]

/-- If no selected lane lies inside, both ways refuse the store. -/
theorem storesAlike_outside (ram : Ram) (ha : Size.word.Aligned a) (data : Word)
    (hpart : strobe ≠ .full) (hfit : ram.size < a.toNat + 4) (hsome : strobe ≠ 0)
    (hout : ∀ lane < 4, strobe.Selects lane → ram.size ≤ a.toNat + lane) :
    StoresAlike ram a data strobe := by
  have hsplit := storesInside_storeEachLane ram ha data hpart
  obtain ⟨lane, hlane⟩ := List.exists_mem_of_ne_nil _ (mt strobe.lanes_eq_nil_iff.mp hsome)
  obtain ⟨hl, hselected⟩ := Strobe.mem_lanes.mp hlane
  have hanswer := hsplit.error_iff.mpr ⟨lane, hl, hselected, hout lane hl hselected⟩
  rw [StoresAlike, storeLanes_of_refused (refusal?_eq_access_iff.mpr ⟨ha, hfit⟩)]
  refine ⟨hanswer, contents_eq_iff.mpr ⟨hsplit.size_eq, ?_⟩⟩
  intro i hi
  rw [hsplit.size_eq] at hi
  rw [hsplit.byteAt_eq i hi, Bus.Op.stored?, if_neg, Option.getD_none]
  rintro ⟨hlo, hhi, hselected⟩
  have := hout (i - a.toNat) (by omega) hselected
  omega

/-- The word at `a` reaches past the end of a memory of `size` bytes, and a store of the lanes one
by one does not fail at the first of them: there is none, or one of them lies inside. -/
def Straddles (size : Nat) (a : Word) (strobe : Strobe) : Prop :=
  a.toNat % 4 = 0 ∧ size < a.toNat + 4 ∧ strobe ≠ .full ∧
    (strobe = 0 ∨ ∃ lane < 4, strobe.Selects lane ∧ a.toNat + lane < size)

theorem storesAlike_of_not_straddles (ram : Ram) (data : Word)
    (h : ¬ Straddles ram.size a strobe) : StoresAlike ram a data strobe := by
  by_cases ha : Size.word.Aligned a
  · by_cases hpart : strobe = .full
    · subst hpart
      exact storesAlike_full ram ha data
    · by_cases hfit : a.toNat + 4 ≤ ram.size
      · exact storesAlike_inside ram ha data hpart hfit
      · have hpast : ram.size < a.toNat + 4 := by omega
        refine storesAlike_outside ram ha data hpart hpast ?_ ?_
        · exact fun hnone ↦ h ⟨ha, hpast, hpart, .inl hnone⟩
        · intro lane hl hselected
          by_contra hin
          exact h ⟨ha, hpast, hpart, .inr ⟨lane, hl, hselected, by omega⟩⟩
  · exact storesAlike_of_not_aligned ram ha data strobe

/-- A torn store that writes back what is there: some selected lane lies outside, and those inside
hold their bytes already. -/
def WritesBack (ram : Ram) (a data : Word) (strobe : Strobe) : Prop :=
  (∃ lane < 4, strobe.Selects lane ∧ ram.size ≤ a.toNat + lane) ∧
    ∀ lane < 4, strobe.Selects lane → a.toNat + lane < ram.size →
      ram.byteAt (a.toNat + lane) = data.byte lane

/-- The selected lanes inside hold their bytes already exactly if storing them changes nothing. -/
theorem holds_lanes_iff {ram : Ram} {data : Word} :
    (∀ lane < 4, strobe.Selects lane → a.toNat + lane < ram.size →
      ram.byteAt (a.toNat + lane) = data.byte lane) ↔
    ∀ i < ram.size,
      ((Bus.Op.storeLanes a data strobe).stored? i).getD (ram.byteAt i) = ram.byteAt i := by
  constructor
  · intro hheld i hi
    by_cases hin : a.toNat ≤ i ∧ i < a.toNat + 4 ∧ strobe.Selects (i - a.toNat)
    · obtain ⟨hlo, hhi, hselected⟩ := hin
      have hbyte := hheld (i - a.toNat) (by omega) hselected (by omega)
      rw [Bus.Op.stored?, if_pos ⟨hlo, hhi, hselected⟩, Option.getD_some, ← hbyte,
        Nat.add_sub_cancel' hlo]
    · rw [Bus.Op.stored?, if_neg hin, Option.getD_none]
  · intro hsame lane hl hselected hin
    have hbyte := hsame (a.toNat + lane) hin
    rw [Bus.Op.stored?, Nat.add_sub_cancel_left, if_pos ⟨by omega, by omega, hselected⟩,
      Option.getD_some] at hbyte
    exact hbyte.symm

/-- Where the word straddles the end, the two ways come to the same only in a torn store that writes
back what is there. -/
theorem storesAlike_iff_of_straddles {ram : Ram} (h : Straddles ram.size a strobe) (data : Word) :
    StoresAlike ram a data strobe ↔ WritesBack ram a data strobe := by
  obtain ⟨ha, hpast, hpart, -⟩ := h
  have hsplit := storesInside_storeEachLane ram ha data hpart
  rw [StoresAlike, storeLanes_of_refused (refusal?_eq_access_iff.mpr ⟨ha, hpast⟩),
    hsplit.error_iff, contents_eq_iff, hsplit.size_eq, and_iff_right rfl, WritesBack,
    holds_lanes_iff]
  refine and_congr_right fun _ ↦ forall₂_congr fun i hi ↦ ?_
  rw [hsplit.byteAt_eq i hi]

/-- Splitting a store of lanes into byte stores makes no difference unless the word straddles the
end of the memory, and there it makes one unless the store is torn and writes back what is there.
The memory refuses such a store and is unchanged. The byte stores store the selected bytes that lie
inside, with success if that is all of them: none of an empty strobe. The addresses of the bytes do
not wrap around. -/
theorem splitting_shows_where_word_straddles_end (ram : Ram) (a data : Word) (strobe : Strobe) :
    (StoresAlike ram a data strobe ↔
      ¬ (Straddles ram.size a strobe ∧ ¬ WritesBack ram a data strobe)) ∧
    (Straddles ram.size a strobe →
      (storeLanes a data strobe ram).answer = .error ⟨.store, .access⟩ ∧
      (storeLanes a data strobe ram).state = ram ∧
      StoresInside ram a data strobe (Bus.storeEachLane store a data strobe ram) ∧
      (strobe = 0 → (Bus.storeEachLane store a data strobe ram).answer = .ok () ∧
        (Bus.storeEachLane store a data strobe ram).state = ram)) ∧
    (a.toNat % 4 = 0 → ∀ lane ∈ strobe.lanes,
      (a + BitVec.ofNat 32 lane).toNat = a.toNat + lane) := by
  refine ⟨?_, ?_, ?_⟩
  · by_cases h : Straddles ram.size a strobe
    · rw [storesAlike_iff_of_straddles h, and_iff_right h, not_not]
    · exact iff_of_true (storesAlike_of_not_straddles ram data h) fun hshows ↦ h hshows.1
  · rintro ⟨ha, hpast, hpart, -⟩
    rw [storeLanes_of_refused (refusal?_eq_access_iff.mpr ⟨ha, hpast⟩)]
    refine ⟨rfl, rfl, storesInside_storeEachLane ram ha data hpart, ?_⟩
    rintro rfl
    rw [Bus.storeEachLane_zero store data ha]
    exact ⟨rfl, rfl⟩
  · intro ha lane hlane
    exact Word.toNat_add_lane ha (Strobe.mem_lanes.mp hlane).1

/-- A torn store: of the two bytes, the one inside is stored and the one outside is a fault. -/
theorem torn_store_of_two_lanes :
    let ram := Ram.zeroed 6
    let o := Bus.storeEachLane store 4 0xAABBCCDD 0b1010 ram
    Straddles ram.size 4 0b1010 ∧ ¬ StoresAlike ram 4 0xAABBCCDD 0b1010 ∧
    (storeLanes 4 0xAABBCCDD 0b1010 ram).state = ram ∧
    o.answer = .error ⟨.store, .access⟩ ∧ o.state.byteAt 5 = 0xCC := by
  intro ram o
  have hstraddles : Straddles ram.size 4 0b1010 :=
    ⟨by decide, by decide, by decide, .inr ⟨1, by decide, by decide, by decide⟩⟩
  have hnew : ¬ WritesBack ram 4 0xAABBCCDD 0b1010 := by
    rintro ⟨-, hheld⟩
    have hzero := hheld 1 (by decide) (by decide) (by decide)
    rw [byteAt_zeroed] at hzero
    exact absurd hzero (by decide)
  obtain ⟨halike, hends, -⟩ := splitting_shows_where_word_straddles_end ram 4 0xAABBCCDD 0b1010
  obtain ⟨-, hrefused, hsplit, -⟩ := hends hstraddles
  refine ⟨hstraddles, ?_, hrefused, hsplit.error_iff.mpr ⟨3, by decide, by decide, ?_⟩, ?_⟩
  · exact fun h ↦ halike.mp h ⟨hstraddles, hnew⟩
  · exact (by decide : 6 ≤ (4 : Word).toNat + 3)
  · exact (hsplit.byteAt_eq 5 (by decide : 5 < 6)).trans (by decide)

/-- The same store of zeros is torn as well, and nobody can tell: both ways fail, and the memory
holds zeros before and after. -/
theorem torn_store_of_held_bytes :
    let ram := Ram.zeroed 6
    Straddles ram.size 4 0b1010 ∧ StoresAlike ram 4 0 0b1010 ∧
    ¬ (StoresAlike ram 4 0 0b1010 ↔ ¬ Straddles ram.size 4 0b1010) := by
  intro ram
  have hstraddles : Straddles ram.size 4 0b1010 :=
    ⟨by decide, by decide, by decide, .inr ⟨1, by decide, by decide, by decide⟩⟩
  have hzero : ∀ lane < 4, 0 = Word.byte 0 lane := by decide
  have hheld : WritesBack ram 4 0 0b1010 := by
    refine ⟨⟨3, by decide, by decide, by decide⟩, fun lane hl _ _ ↦ ?_⟩
    rw [byteAt_zeroed]
    exact hzero lane hl
  have halike := (storesAlike_iff_of_straddles hstraddles 0).mpr hheld
  exact ⟨hstraddles, halike, fun h ↦ h.mp halike hstraddles⟩

end Ram

end SecureZone
