import Mathlib.Data.List.Basic
import SecureZone.Proofs.EncryptedMemory
import SecureZone.Proofs.Outcome
import SecureZone.Scenario.Image
import SecureZone.Scenario.Passthrough

/-!
# The scenarios from end to end

An image that fits into the memory comes back word for word, and lies in the memory masked by the
keystream of its region. One that does not fit ends with the first word that leaves the memory. The
passthrough check finds its word in the memory under the mask of the address.
-/

namespace SecureZone

open SecureZone.Action

/-! ## Whole words -/

theorem Strobe.selects_full : ∀ lane < 4, full.Selects lane := by decide

/-- A store to all lanes leaves its data behind. -/
theorem Ram.ofBytes_setLanes_full (ram : Ram) (a data : Word) :
    Word.ofBytes ((ram.setLanes a.toNat data Strobe.full.lanes).bytesFrom a.toNat 4) = data := by
  apply Word.ext_byte
  intro lane hl
  have hsel : Strobe.full.Selects (a.toNat + lane - a.toNat) := by
    rw [Nat.add_sub_cancel_left]
    exact Strobe.selects_full lane hl
  rw [byte_ofBytes_bytesFrom _ _ _ hl, if_pos hl, byteAt_setLanes_lanes, Bus.Op.stored?,
    if_pos ⟨by omega, by omega, hsel⟩, Option.getD_some, Nat.add_sub_cancel_left]

/-- Bytes outside the word of a store stay as they are. -/
theorem Ram.byteAt_setLanes_of_outside (ram : Ram) (a data : Word) (strobe : Strobe) {p : Nat}
    (hp : p < a.toNat ∨ a.toNat + 4 ≤ p) :
    (ram.setLanes a.toNat data strobe.lanes).byteAt p = ram.byteAt p := by
  rw [byteAt_setLanes_lanes, Bus.Op.stored?, if_neg (by omega), Option.getD_none]

namespace Interceptor

variable {z : Interceptor Ram} {a : Word}

theorem extract_word (ha : Size.word.Aligned a) (data : Word) : extract .word a data = data := by
  have hlane : a.lane = 0 := ha
  apply Word.ext_byte
  intro j hj
  have hbytes : j < Size.word.bytes := hj
  rw [byte_extract, if_pos hbytes, hlane, Nat.zero_add]

/-- `y` is what `z` becomes when the word `data` is stored at `a`. -/
structure Stored (a data : Word) (z y : Interceptor Ram) : Prop where
  isIdle : y.IsIdle
  mode_eq : y.mode = z.mode
  region_eq : y.region = z.region
  size_eq : y.memory.size = z.memory.size
  heldWord_self : y.heldWord a = data ^^^ z.masks a
  byteAt_of_outside : ∀ p, p < a.toNat ∨ a.toNat + 4 ≤ p →
    y.memory.byteAt p = z.memory.byteAt p

/-- No other word changes. -/
theorem Stored.heldWord_of_ne {data b : Word} {y : Interceptor Ram} (h : Stored a data z y)
    (ha : Size.word.Aligned a) (hb : Size.word.Aligned b) (hne : a ≠ b) :
    y.heldWord b = z.heldWord b := by
  have hnat : a.toNat ≠ b.toNat := fun heq ↦ hne (BitVec.eq_of_toNat_eq heq)
  simp only [Size.Aligned, Size.bytes] at ha hb
  refine congrArg Word.ofBytes (List.map_congr_left fun j hj ↦ h.byteAt_of_outside _ ?_)
  have hlt := List.mem_range.mp hj
  omega

theorem gives_store_word (ha : Size.word.Aligned a) (hz : z.IsIdle)
    (hfit : a.toNat + 4 ≤ z.memory.size) (data : Word) :
    ∃ y, Gives (Bus.store .word a data) z (.ok ()) y ∧ Stored a data z y := by
  have hm := Ram.refusal?_eq_none_iff.mpr ⟨ha, hfit⟩
  obtain ⟨hanswer, hstate⟩ := storeLanes_of_accepted ha hz hm data .full
  rw [bus_store, store_of_aligned ha, Word.container_eq_self ha]
  refine ⟨_, ⟨hanswer, hstate⟩, rfl, rfl, rfl, Ram.size_setLanes _ _ _ _, ?_, ?_⟩
  · exact Ram.ofBytes_setLanes_full z.memory a _
  · exact fun p hp ↦ Ram.byteAt_setLanes_of_outside z.memory a _ _ hp

theorem gives_store_word_outside (ha : Size.word.Aligned a) (hz : z.IsIdle)
    (hout : z.memory.size < a.toNat + 4) (data : Word) :
    Gives (Bus.store .word a data) z (.error ⟨.store, .access⟩)
      { z with handshake := .initial } := by
  have hm := Ram.refusal?_eq_access_iff.mpr ⟨ha, hout⟩
  obtain ⟨hanswer, hstate⟩ := storeLanes_of_refused ha hz hm data .full
  rw [bus_store, store_of_aligned ha, Word.container_eq_self ha]
  exact ⟨hanswer, hstate⟩

/-- An idle interceptor stores an aligned word that lies in the memory. Every other store of a word
fails. -/
theorem store_word_cases (z : Interceptor Ram) (a data : Word) :
    (Size.word.Aligned a ∧ z.IsIdle ∧ a.toNat + 4 ≤ z.memory.size) ∨
      ∃ fault u, Gives (Bus.store .word a data) z (.error fault) u := by
  by_cases ha : Size.word.Aligned a
  · by_cases hz : z.IsIdle
    · by_cases hfit : a.toNat + 4 ≤ z.memory.size
      · exact .inl ⟨ha, hz, hfit⟩
      · exact .inr ⟨_, _, gives_store_word_outside ha hz (Nat.lt_of_not_le hfit) data⟩
    · have hfault : (store .word a data z).answer = .error ⟨.store, .access⟩ := by
        rw [store_of_aligned ha, answer_storeLanes a.container_aligned,
          transact_of_not_isIdle a.container_aligned hz]
        rfl
      exact .inr ⟨_, _, hfault, rfl⟩
  · have hfault : (store .word a data z).answer = .error ⟨.store, .misaligned⟩ := by
      rw [store_of_not_aligned ha]
    exact .inr ⟨_, _, hfault, rfl⟩

theorem gives_load_word (ha : Size.word.Aligned a) (hz : z.IsIdle)
    (hfit : a.toNat + 4 ≤ z.memory.size) :
    Gives (Bus.load .word a) z (.ok (z.heldWord a ^^^ z.masks a))
      { z with handshake := .initial } := by
  have hm : z.memory.refusal? .word a.container = none := by
    rw [Word.container_eq_self ha]
    exact Ram.refusal?_eq_none_iff.mpr ⟨ha, hfit⟩
  obtain ⟨hanswer, hstate⟩ := load_of_accepted ha hz hm
  rw [Word.container_eq_self ha, extract_word ha] at hanswer
  exact ⟨hanswer, hstate⟩

theorem word?_memory (hfit : a.toNat + 4 ≤ z.memory.size) :
    z.memory.word? a = some (z.heldWord a) := by
  rw [Ram.word?, Ram.window?, if_pos hfit]
  rfl

end Interceptor

/-! ## The image -/

namespace Image

open Interceptor

section

variable {base : Word} {size n i j : Nat}

theorem address_zero (base : Word) : address base 0 = base := BitVec.add_zero base

theorem toNat_address (h : base.toNat + 4 * i < 0x100000000) :
    (address base i).toNat = base.toNat + 4 * i := by
  simp only [address, BitVec.toNat_add, BitVec.toNat_ofNat]
  omega

theorem address_aligned (hbase : Size.word.Aligned base) (i : Nat) :
    Size.word.Aligned (address base i) := by
  simp only [Size.Aligned, Size.bytes] at hbase ⊢
  simp only [address, BitVec.toNat_add, BitVec.toNat_ofNat]
  omega

/-- Where addresses wrap around, the image has come back to the same word. -/
theorem word_eq_of_address_eq (h : address base i = address base j) : word i = word j := by
  have haddress := congrArg BitVec.toNat h
  simp only [address, BitVec.toNat_add, BitVec.toNat_ofNat] at haddress
  have hlow (k : Nat) : BitVec.ofNat 32 k &&& 0xFF = BitVec.ofNat 32 (k % 256) := by
    apply BitVec.eq_of_toNat_eq
    have hmask : (0xFF : Nat) = 2 ^ 8 - 1 := rfl
    rw [BitVec.toNat_and, BitVec.toNat_ofNat, BitVec.toNat_ofNat]
    change k % 2 ^ 32 &&& 0xFF = k % 256 % 2 ^ 32
    rw [hmask, Nat.and_two_pow_sub_one_eq_mod]
    omega
  have hmod : i % 256 = j % 256 := by omega
  rw [word, word, hlow, hlow, hmod]

/-- The first `n` words of an image at `base` lie in `size` bytes of memory. -/
def Fits (size : Nat) (base : Word) (n : Nat) : Prop := ∀ i < n, (address base i).toNat + 4 ≤ size

theorem fits_zero (size : Nat) (base : Word) : Fits size base 0 :=
  fun i hi ↦ absurd hi (Nat.not_lt_zero i)

theorem fits_succ_iff :
    Fits size base (n + 1) ↔ Fits size base n ∧ (address base n).toNat + 4 ≤ size :=
  Nat.forall_lt_succ_right

/-- An image fits, or there is a first word that leaves the memory. -/
theorem fits_or_first_outside (size : Nat) (base : Word) (n : Nat) :
    Fits size base n ∨ ∃ k < n, Fits size base k ∧ size < (address base k).toNat + 4 := by
  induction n with
  | zero => exact .inl (fits_zero size base)
  | succ n ih =>
      rcases ih with hfits | ⟨k, hk, hfirst⟩
      · by_cases hlast : (address base n).toNat + 4 ≤ size
        · exact .inl (fits_succ_iff.mpr ⟨hfits, hlast⟩)
        · exact .inr ⟨n, Nat.lt_succ_self n, hfits, Nat.lt_of_not_le hlast⟩
      · exact .inr ⟨k, Nat.lt_succ_of_lt hk, hfirst⟩

/-- The words of an image that fits do not wrap around, as far as the memory itself does not. -/
theorem Fits.toNat_address (h : Fits size base n) (hsize : size < 0x100000000) (hi : i < n) :
    (address base i).toNat = base.toNat + 4 * i := by
  induction i with
  | zero => rw [address_zero, Nat.mul_zero, Nat.add_zero]
  | succ i ih =>
      have hbefore := h i (Nat.lt_of_succ_lt hi)
      rw [ih (Nat.lt_of_succ_lt hi)] at hbefore
      exact Image.toNat_address (by omega)

theorem fits_iff (hsize : size < 0x100000000) :
    Fits size base n ↔ (0 < n → base.toNat + 4 * n ≤ size) := by
  constructor
  · intro h hn
    have hlast := h (n - 1) (by omega)
    rw [h.toNat_address hsize (by omega)] at hlast
    omega
  · intro h i hi
    rw [toNat_address (by omega)]
    omega

end

/-- The image repeats itself, so that a place that wraps around does not matter. -/
theorem word_toNat_natCast (i : Nat) : word (i : Word).toNat = word i := by
  rw [word, BitVec.ofNat_toNat, BitVec.setWidth_eq, word]
  rfl

theorem extend_image (i n count : Nat) :
    Comparison.extend ⟨count, none⟩ i ((List.range' i n).map word) = ⟨(count + n : Nat), none⟩ := by
  induction n generalizing i count with
  | zero => exact Comparison.extend_nil _ _
  | succ n ih =>
      have hcast (k : Nat) : ((k + 1 : Nat) : Word) = (k : Word) + 1 := BitVec.ofNat_add k 1
      have hrest := ih (i + 1) (count + 1)
      rw [Nat.add_right_comm, Nat.add_assoc, hcast, hcast] at hrest
      rw [List.range'_succ, List.map_cons,
        Comparison.extend_cons_of_eq _ (word_toNat_natCast i).symm, hrest]

theorem compare_image (n : Nat) : compare ((List.range n).map word) = ⟨n, none⟩ := by
  have hall := extend_image 0 n 0
  rw [Nat.zero_add] at hall
  rw [List.range_eq_range', compare]
  exact hall

/-- The report of an image that came back as it was written. -/
def faithful (mode : Keystream.Mode) (region : Region) (base : Word) (words : Nat) : Report :=
  ⟨base, words, ⟨words, none⟩, (List.range (min words samples)).map fun i ↦
    (word i, word i ^^^ Keystream.mask mode region (address base i))⟩

theorem faithful_passed (mode : Keystream.Mode) (region : Region) (base : Word) {words : Nat}
    (h : words < 0x100000000) : (faithful mode region base words).Passed :=
  (BitVec.toNat_ofNat words 32).trans (Nat.mod_eq_of_lt h)

/-- The interceptor is idle and what `start` becomes when the first `n` words of the image at `base`
are stored under their masks. -/
structure Holds (start : Interceptor Ram) (base : Word) (n : Nat) (z : Interceptor Ram) :
    Prop where
  isIdle : z.IsIdle
  mode_eq : z.mode = start.mode
  region_eq : z.region = start.region
  size_eq : z.memory.size = start.memory.size
  heldWord_eq : ∀ i < n, z.heldWord (address base i) = word i ^^^ start.masks (address base i)
  byteAt_eq : ∀ p, (∀ i < n, p < (address base i).toNat ∨ (address base i).toNat + 4 ≤ p) →
    z.memory.byteAt p = start.memory.byteAt p

section

variable {start z : Interceptor Ram} {base : Word} {n : Nat}

namespace Holds

theorem of_isIdle (hz : z.IsIdle) (base : Word) : Holds z base 0 z :=
  ⟨hz, rfl, rfl, rfl, fun i hi ↦ absurd hi (Nat.not_lt_zero i), fun _ _ ↦ rfl⟩

theorem masks_eq (h : Holds start base n z) : z.masks = start.masks := by
  rw [masks, h.mode_eq, h.region_eq, masks]

theorem completed (h : Holds start base n z) :
    Holds start base n { z with handshake := .initial } :=
  ⟨rfl, h.mode_eq, h.region_eq, h.size_eq, h.heldWord_eq, h.byteAt_eq⟩

theorem write_turn (h : Holds start base n z) (hbase : Size.word.Aligned base)
    (hroom : (address base n).toNat + 4 ≤ start.memory.size) :
    ∃ u, Gives (Bus.store .word (address base n) (word n)) z (.ok ()) u ∧
      Holds start base (n + 1) u := by
  rw [← h.size_eq] at hroom
  have hn := address_aligned hbase n
  obtain ⟨u, hstore, hu⟩ := gives_store_word hn h.isIdle hroom (word n)
  refine ⟨u, hstore, hu.isIdle, hu.mode_eq.trans h.mode_eq, hu.region_eq.trans h.region_eq,
    hu.size_eq.trans h.size_eq, ?_, ?_⟩
  · intro i hi
    by_cases hsame : address base n = address base i
    · rw [← hsame, hu.heldWord_self, h.masks_eq, word_eq_of_address_eq hsame]
    · have hlt : i < n := Nat.lt_of_le_of_ne (Nat.le_of_lt_succ hi) fun heq ↦ hsame (by rw [heq])
      rw [hu.heldWord_of_ne hn (address_aligned hbase i) hsame]
      exact h.heldWord_eq i hlt
  · intro p hp
    rw [hu.byteAt_of_outside p (hp n (Nat.lt_succ_self n))]
    exact h.byteAt_eq p fun i hi ↦ hp i (Nat.lt_succ_of_lt hi)

theorem write_turn_outside (h : Holds start base n z) (hbase : Size.word.Aligned base)
    (hout : start.memory.size < (address base n).toNat + 4) :
    ∃ u, Gives (Bus.store .word (address base n) (word n)) z (.error ⟨.store, .access⟩) u ∧
      Holds start base n u := by
  rw [← h.size_eq] at hout
  exact ⟨_, gives_store_word_outside (address_aligned hbase n) h.isIdle hout (word n), h.completed⟩

theorem read_turn (h : Holds start base n z) (hbase : Size.word.Aligned base)
    (hfits : Fits start.memory.size base n) {i : Nat} (hi : i < n) :
    ∃ u, Gives (Bus.load .word (address base i)) z (.ok (word i)) u ∧ Holds start base n u := by
  have hroom := hfits i hi
  rw [← h.size_eq] at hroom
  have hload := gives_load_word (address_aligned hbase i) h.isIdle hroom
  rw [h.heldWord_eq i hi, h.masks_eq, BitVec.xor_assoc, BitVec.xor_self, BitVec.xor_zero] at hload
  exact ⟨_, hload, h.completed⟩

theorem atRest_eq (h : Holds start base n z) (hfits : Fits start.memory.size base n) :
    atRest z.memory base n = (faithful start.mode start.region base n).atRest := by
  rw [atRest, faithful, ← List.filterMap_eq_map]
  apply List.filterMap_congr
  intro i hi
  have hin : i < n := by
    have hlt := List.mem_range.mp hi
    omega
  have hroom := hfits i hin
  rw [← h.size_eq] at hroom
  rw [word?_memory hroom, Option.map_some, h.heldWord_eq i hin]
  rfl

end Holds

/-- An image that fits comes back, and the report shows its first words as they are masked. An empty
image fits everywhere. -/
theorem run_of_fits (hz : z.IsIdle) (hbase : 0 < n → Size.word.Aligned base)
    (hfits : Fits z.memory.size base n) :
    ∃ u, Gives (run base n) z (.ok (faithful z.mode z.region base n)) u ∧ Holds z base n u := by
  obtain ⟨t, hwrite, ht⟩ := tabulate_of_turns (fun _ ↦ ()) (Holds z base) (.of_isIdle hz base)
    fun i hi t ht ↦ ht.write_turn (hbase (Nat.zero_lt_of_lt hi)) (hfits i hi)
  obtain ⟨u, hread, hu⟩ := tabulate_of_turns word (fun _ ↦ Holds z base n) ht
    fun i hi t ht ↦ ht.read_turn (hbase (Nat.zero_lt_of_lt hi)) hfits hi
  have hreport : Report.mk base n (compare ((List.range n).map word)) (atRest u.memory base n) =
      faithful z.mode z.region base n := by
    rw [compare_image, hu.atRest_eq hfits]
    rfl
  refine ⟨u, ?_, hu⟩
  rw [← hreport, run]
  exact hwrite.bind <| (Gives.report _ t).bind <| hread.bind <| (Gives.get u).bind (Gives.pure _ u)

/-- An image that does not fit ends with the fault of a store, and all words in front of it are in
the memory. -/
theorem run_of_first_outside (hz : z.IsIdle) (hbase : Size.word.Aligned base) {k : Nat} (hk : k < n)
    (hfits : Fits z.memory.size base k) (hout : z.memory.size < (address base k).toNat + 4) :
    ∃ u, Gives (run base n) z (.error ⟨.store, .access⟩) u ∧ Holds z base k u := by
  obtain ⟨u, hwrite, hu⟩ := tabulate_of_failing_turn (fun _ ↦ ()) (Holds z base) hk
    (.of_isIdle hz base) (fun i hi t ht ↦ ht.write_turn hbase (hfits i hi))
    (fun t ht ↦ ht.write_turn_outside hbase hout)
  refine ⟨u, ?_, hu⟩
  rw [run]
  exact hwrite.bind_error _

/-- If the first store fails, so does the run. -/
theorem run_of_first_refused {fault : Fault} {u : Interceptor Ram} (hn : 0 < n)
    (hstore : Gives (Bus.store .word base (word 0)) z (.error fault) u) :
    Gives (run base n) z (.error fault) u := by
  obtain ⟨m, rfl⟩ : ∃ m, n = m + 1 := ⟨n - 1, by omega⟩
  rw [run, tabulate_succ, address_zero]
  exact (hstore.bind_error _).bind_error _

theorem run_of_not_aligned (hn : 0 < n) (hbase : ¬ Size.word.Aligned base) (z : Interceptor Ram) :
    Gives (run base n) z (.error ⟨.store, .misaligned⟩) z := by
  apply run_of_first_refused hn
  rw [bus_store]
  exact ⟨by rw [store_of_not_aligned hbase], by rw [store_of_not_aligned hbase]⟩

/-- Whatever the memory held before, a report that comes about is that of a faithful image. -/
theorem eq_faithful_of_ok {r : Report} (h : (run base n z).answer = .ok r) :
    r = faithful z.mode z.region base n := by
  rcases Nat.eq_zero_or_pos n with rfl | hn
  · cases h
    rfl
  rcases store_word_cases z base (word 0) with ⟨hbase, hz, -⟩ | ⟨fault, u, hstore⟩
  · rcases fits_or_first_outside z.memory.size base n with hfits | ⟨k, hk, hfits, hout⟩
    · obtain ⟨u, hrun, -⟩ := run_of_fits hz (fun _ ↦ hbase) hfits
      exact Except.ok.inj (h.symm.trans hrun.answer_eq)
    · obtain ⟨u, hrun, -⟩ := run_of_first_outside hz hbase hk hfits hout
      rw [hrun.answer_eq] at h
      cases h
  · rw [(run_of_first_refused hn hstore).answer_eq] at h
    cases h

/-! ## Where an image lies -/

/-- `u` holds the first `n` words of the image at `base` under the masks of `z`, and the bytes of
`z` everywhere else. -/
structure LaidOut (z : Interceptor Ram) (base : Word) (n : Nat) (u : Interceptor Ram) : Prop where
  word_eq : ∀ i < n, Word.ofBytes (u.memory.bytesFrom (base.toNat + 4 * i) 4) =
    word i ^^^ Keystream.mask z.mode z.region (address base i)
  byteAt_eq : ∀ p, p < base.toNat ∨ base.toNat + 4 * n ≤ p →
    u.memory.byteAt p = z.memory.byteAt p

theorem Holds.laidOut {u : Interceptor Ram} (h : Holds z base n u)
    (hsize : z.memory.size < 0x100000000) (hfits : Fits z.memory.size base n) :
    LaidOut z base n u := by
  refine ⟨fun i hi ↦ ?_, fun p hp ↦ h.byteAt_eq p fun i hi ↦ ?_⟩
  · have hword := h.heldWord_eq i hi
    rwa [heldWord, hfits.toNat_address hsize hi] at hword
  · rw [hfits.toNat_address hsize hi]
    omega

/-- An image that fits comes back whole and lies in the memory under its masks, wherever the region
is. A misaligned one is refused at once. One that leaves the memory ends with the first word that
does, and those in front of it have been written. Nothing else in memory changes, and the
interceptor is idle and configured as before. -/
theorem image_lies_masked (z : Interceptor Ram) (hz : z.IsIdle)
    (hsize : z.memory.size < 0x100000000) (base : Word) (n : Nat) :
    let o := run base n z
    let Room (k : Nat) := base.toNat + 4 * k ≤ z.memory.size
    (n = 0 ∨ base.toNat % 4 = 0 ∧ Room n →
      o.answer = .ok ⟨base, n, ⟨n, none⟩, (List.range (min n 4)).map fun i ↦
        (word i, word i ^^^ Keystream.mask z.mode z.region (address base i))⟩ ∧
      LaidOut z base n o.state) ∧
    (0 < n → base.toNat % 4 ≠ 0 →
      o.answer = .error ⟨.store, .misaligned⟩ ∧ o.state.memory = z.memory) ∧
    (0 < n → base.toNat % 4 = 0 → ¬ Room n →
      o.answer = .error ⟨.store, .access⟩ ∧
      ∃ k < n, (k = 0 ∨ Room k) ∧ ¬ Room (k + 1) ∧ LaidOut z base k o.state) ∧
    o.state.IsIdle ∧ o.state.mode = z.mode ∧ o.state.region = z.region ∧
      o.state.memory.size = z.memory.size := by
  intro o Room
  have hroom (k : Nat) : Fits z.memory.size base k ↔ k = 0 ∨ Room k := by
    rw [fits_iff hsize, Nat.pos_iff_ne_zero, or_iff_not_imp_left]
  by_cases hbase : 0 < n → Size.word.Aligned base
  · rcases fits_or_first_outside z.memory.size base n with hfits | ⟨k, hk, hfits, hout⟩
    · obtain ⟨u, ⟨hanswer, hstate⟩, hu⟩ := run_of_fits hz hbase hfits
      have hin := (hroom n).mp hfits
      change o.state = u at hstate
      rw [hstate]
      refine ⟨?_, ?_, ?_, hu.isIdle, hu.mode_eq, hu.region_eq, hu.size_eq⟩
      · exact fun _ ↦ ⟨hanswer, hu.laidOut hsize hfits⟩
      · exact fun hn hodd ↦ absurd (hbase hn) hodd
      · exact fun hn _ hover ↦ absurd hin (not_or.mpr ⟨Nat.ne_of_gt hn, hover⟩)
    · obtain ⟨u, ⟨hanswer, hstate⟩, hu⟩ :=
        run_of_first_outside hz (hbase (Nat.zero_lt_of_lt hk)) hk hfits hout
      have hnot (m : Nat) (hm : k < m) : ¬ (m = 0 ∨ Room m) :=
        mt (hroom m).mpr fun h ↦ absurd (h k hm) (Nat.not_le.mpr hout)
      change o.state = u at hstate
      rw [hstate]
      refine ⟨?_, ?_, ?_, hu.isIdle, hu.mode_eq, hu.region_eq, hu.size_eq⟩
      · exact fun hin ↦ absurd (hin.imp_right And.right) (hnot n hk)
      · exact fun hn hodd ↦ absurd (hbase hn) hodd
      · intro _ _ _
        refine ⟨hanswer, k, hk, (hroom k).mp hfits, ?_, hu.laidOut hsize hfits⟩
        exact fun hnext ↦ hnot (k + 1) (Nat.lt_succ_self k) (.inr hnext)
  · obtain ⟨hn, hodd⟩ := Classical.not_imp.mp hbase
    obtain ⟨hanswer, hstate⟩ := run_of_not_aligned hn hodd z
    change o.state = z at hstate
    rw [hstate]
    refine ⟨?_, ?_, ?_, hz, rfl, rfl, rfl⟩
    · rintro (h | h)
      · exact absurd h (Nat.ne_of_gt hn)
      · exact absurd h.1 hodd
    · exact fun _ _ ↦ ⟨hanswer, rfl⟩
    · exact fun _ heven ↦ absurd heven hodd

/-- An image of which the second word is in the region, in a memory that ends in the middle of the
fourth. -/
theorem image_over_short_region :
    let z : Interceptor Ram := ⟨⟨4, 4, true, .zero⟩, .address, .initial, .zeroed 14⟩
    (z.IsIdle ∧ z.memory.size < 0x100000000) ∧
    (run 0 3 z).answer = .ok ⟨0, 3, ⟨3, none⟩,
      [(0xAABB0000, 0xAABB0000), (0xAABB0101, 0x7416BFEA), (0xAABB0202, 0xAABB0202)]⟩ ∧
    (run 0 4 z).answer = .error ⟨.store, .access⟩ := by
  intro z
  have hz : z.IsIdle := rfl
  have hsize : z.memory.size < 0x100000000 := by decide +revert
  refine ⟨⟨hz, hsize⟩, ?_, ?_⟩
  · refine ((image_lies_masked z hz hsize 0 3).1 (.inr ?_)).1.trans ?_
    · decide +revert
    · decide +kernel +revert
  · refine ((image_lies_masked z hz hsize 0 4).2.2.1 ?_ ?_ ?_).1
    · decide
    · decide
    · decide +revert

end

end Image

/-! ## The passthrough check -/

namespace Passthrough

open Interceptor

variable {z : Interceptor Ram} {a : Word}

theorem run_of_fits (ha : Size.word.Aligned a) (hz : z.IsIdle)
    (hfit : a.toNat + 4 ≤ z.memory.size) :
    ∃ u, Gives (run a) z (.ok ⟨a, word, some (word ^^^ z.masks a)⟩) u := by
  obtain ⟨y, hwrite, hy⟩ := gives_store_word ha hz hfit word
  have hmasks : y.masks = z.masks := by rw [masks, hy.mode_eq, hy.region_eq, masks]
  have hroom : a.toNat + 4 ≤ y.memory.size := by rw [hy.size_eq]; exact hfit
  have hread := gives_load_word ha hy.isIdle hroom
  rw [hy.heldWord_self, hmasks, BitVec.xor_assoc, BitVec.xor_self, BitVec.xor_zero] at hread
  have hstored : y.memory.word? a = some (word ^^^ z.masks a) := by
    rw [word?_memory hroom, hy.heldWord_self]
  refine ⟨{ y with handshake := .initial }, ?_⟩
  rw [← hstored, run]
  exact hwrite.bind <| hread.bind <| (Gives.get _).bind (Gives.pure _ _)

theorem run_of_not_fits (ha : Size.word.Aligned a) (hz : z.IsIdle)
    (hout : z.memory.size < a.toNat + 4) : ∃ u, Gives (run a) z (.error ⟨.store, .access⟩) u :=
  ⟨_, (gives_store_word_outside ha hz hout word).bind_error _⟩

theorem eq_of_ok {r : Report} (h : (run a z).answer = .ok r) :
    r = ⟨a, word, some (word ^^^ z.masks a)⟩ := by
  rcases store_word_cases z a word with ⟨ha, hz, hfit⟩ | ⟨fault, u, hstore⟩
  · obtain ⟨u, hrun⟩ := run_of_fits ha hz hfit
    exact Except.ok.inj (h.symm.trans hrun.answer_eq)
  · have hrun : Gives (run a) z (.error fault) u := hstore.bind_error _
    rw [hrun.answer_eq] at h
    cases h

/-- The check passes exactly where words are not masked. -/
theorem passed_iff (a mask : Word) :
    (Report.mk a word (some (word ^^^ mask))).Passed ↔ mask = 0 := by
  constructor
  · rintro ⟨-, hstored⟩
    have hxor : word ^^^ mask = word := Option.some.inj hstored
    calc
      mask = word ^^^ (word ^^^ mask) := by
        rw [← BitVec.xor_assoc, BitVec.xor_self, BitVec.zero_xor]
      _ = 0 := by rw [hxor, BitVec.xor_self]; rfl
  · rintro rfl
    exact ⟨rfl, congrArg some BitVec.xor_zero⟩

end Passthrough

end SecureZone
