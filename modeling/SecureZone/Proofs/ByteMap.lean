import Mathlib.Algebra.BigOperators.Intervals
import SecureZone.Proofs.Memory
import SecureZone.Proofs.Outcome
import SecureZone.Proofs.Run

/-!
# A memory as a map of bytes

A memory takes an access exactly if it is aligned and lies inside as a whole. Each byte is the one
that the last successful store over it left there, of whatever size that store was, and a load
returns the number whose digits to base 256 are the bytes from its address on, the first of them the
least.
-/

namespace SecureZone

open SecureZone.Action

/-! ## Words and their digits -/

theorem Word.toNat_eq_sum (w : Word) :
    w.toNat = ∑ j ∈ Finset.range 4, 256 ^ j * (w.byte j).toNat := by
  have hw := w.isLt
  simp only [Finset.sum_range_succ, Finset.sum_range_zero, toNat_byte, Nat.shiftRight_eq_div_pow]
  omega

/-- The bytes above those of the access are zero and do not count. -/
theorem Ram.toNat_ofBytes_bytesFrom (ram : Ram) (start : Nat) (size : Size) :
    (Word.ofBytes (ram.bytesFrom start size.bytes)).toNat =
      ∑ j ∈ Finset.range size.bytes, 256 ^ j * (ram.byteAt (start + j)).toNat := by
  have hbyte (j : Nat) (hj : j < 4) := ram.byte_ofBytes_bytesFrom start size.bytes hj
  calc
    (Word.ofBytes (ram.bytesFrom start size.bytes)).toNat
    _ = ∑ j ∈ Finset.range 4,
        256 ^ j * ((Word.ofBytes (ram.bytesFrom start size.bytes)).byte j).toNat :=
      Word.toNat_eq_sum _
    _ = ∑ j ∈ Finset.range size.bytes,
        256 ^ j * ((Word.ofBytes (ram.bytesFrom start size.bytes)).byte j).toNat := by
      refine (Finset.sum_subset (Finset.range_subset_range.mpr size.bytes_le) ?_).symm
      intro j hj hout
      rw [hbyte j (Finset.mem_range.mp hj), if_neg (mt Finset.mem_range.mpr hout)]
      rfl
    _ = ∑ j ∈ Finset.range size.bytes, 256 ^ j * (ram.byteAt (start + j)).toNat := by
      refine Finset.sum_congr rfl fun j hj ↦ ?_
      have hlt := Finset.mem_range.mp hj
      rw [hbyte j (hlt.trans_le size.bytes_le), if_pos hlt]

/-! ## One access -/

/-- Which way an operation goes, from which address on and over how many bytes. A store of lanes
counts as a whole word, and a warm reset is no access. -/
def Bus.Op.span? : Bus.Op → Option (Direction × Word × Size)
  | .load size a => some (.load, a, size)
  | .store size a _ => some (.store, a, size)
  | .storeLanes a _ _ => some (.store, a, .word)
  | .warmReset => none

namespace Ram

/-- The byte that a step of a run leaves at position `i`, if it succeeds and stores one there. -/
def left? (e : Entry Bus.Op Ram Fault Bus.Reply) (i : Nat) : Option Byte :=
  match e.outcome.answer with
  | .ok _ => e.op.stored? i
  | .error _ => none

variable {ram : Ram} {op : Bus.Op} {direction : Direction} {a : Word} {size : Size}

theorem step_of_refused (hop : op.span? = some (direction, a, size)) {cause : Fault.Cause}
    (h : ram.refusal? size a = some cause) :
    Gives (Bus.step op) ram (.error ⟨direction, cause⟩) ram := by
  cases op with
  | load size b =>
      cases hop
      exact (Gives.of_apply_eq (load_of_refused h)).map _
  | store size b data =>
      cases hop
      exact (Gives.of_apply_eq (store_of_refused h data)).map _
  | storeLanes b data strobe =>
      cases hop
      exact (Gives.of_apply_eq (storeLanes_of_refused h data strobe)).map _
  | warmReset => cases hop

/-- An access that is not refused succeeds, and leaves the bytes that it stores. -/
theorem step_of_accepted (hop : op.span? = some (direction, a, size))
    (h : ram.refusal? size a = none) :
    ∃ reply t, Gives (Bus.step op) ram (.ok reply) t ∧ t.size = ram.size ∧
      ∀ i, t.byteAt i = (op.stored? i).getD (ram.byteAt i) := by
  cases op with
  | load size b =>
      cases hop
      exact ⟨_, ram, (Gives.of_apply_eq (load_of_accepted h)).map _, rfl, fun i ↦ rfl⟩
  | store size b data =>
      cases hop
      exact ⟨_, _, (Gives.of_apply_eq (store_of_accepted h data)).map _, size_setLanes _ _ _ _,
        byteAt_setLanes_range ram size a data⟩
  | storeLanes b data strobe =>
      cases hop
      exact ⟨_, _, (Gives.of_apply_eq (storeLanes_of_accepted h data strobe)).map _,
        size_setLanes _ _ _ _, byteAt_setLanes_lanes ram a data strobe⟩
  | warmReset => cases hop

theorem exists_answer_eq_ok_iff (hop : op.span? = some (direction, a, size)) :
    (∃ reply, (Bus.step op ram).answer = .ok reply) ↔ ram.refusal? size a = none := by
  cases hm : ram.refusal? size a with
  | some cause => simp [(step_of_refused hop hm).answer_eq]
  | none =>
      obtain ⟨reply, t, hgives, -⟩ := step_of_accepted hop hm
      simp [hgives.answer_eq]

theorem answer_eq_error_iff (hop : op.span? = some (direction, a, size)) {cause : Fault.Cause} :
    (Bus.step op ram).answer = .error ⟨direction, cause⟩ ↔ ram.refusal? size a = some cause := by
  cases hm : ram.refusal? size a with
  | some cause' => simp [(step_of_refused hop hm).answer_eq]
  | none =>
      obtain ⟨reply, t, hgives, -⟩ := step_of_accepted hop hm
      simp [hgives.answer_eq]

theorem state_of_answer_eq_error (hop : op.span? = some (direction, a, size)) {fault : Fault}
    (hfault : (Bus.step op ram).answer = .error fault) : (Bus.step op ram).state = ram := by
  cases hm : ram.refusal? size a with
  | some cause => exact (step_of_refused hop hm).state_eq
  | none =>
      obtain ⟨reply, hok⟩ := (exists_answer_eq_ok_iff hop).mpr hm
      rw [hok] at hfault
      cases hfault

/-- What one step does to the bytes, whether it succeeds or not. -/
theorem size_and_byteAt_step (op : Bus.Op) (ram : Ram) :
    (Bus.step op ram).state.size = ram.size ∧
      ∀ i, (Bus.step op ram).state.byteAt i =
        (left? (.of Bus.step op ram) i).getD (ram.byteAt i) := by
  cases hop : op.span? with
  | none =>
      cases op with
      | warmReset => exact ⟨rfl, fun i ↦ rfl⟩
      | _ => cases hop
  | some span =>
      obtain ⟨direction, a, size⟩ := span
      cases hm : ram.refusal? size a with
      | some cause =>
          have hgives := step_of_refused hop hm
          simp only [left?, Entry.of_outcome, hgives.answer_eq, hgives.state_eq, Option.getD_none,
            implies_true, and_self]
      | none =>
          obtain ⟨reply, t, hgives, hsize, hbytes⟩ := step_of_accepted hop hm
          simp only [left?, Entry.of_outcome, Entry.of_op, hgives.answer_eq, hgives.state_eq]
          exact ⟨hsize, hbytes⟩

/-! ## Runs -/

theorem size_final (ops : List Bus.Op) (ram : Ram) :
    (final Bus.step ops ram).size = ram.size := by
  refine final_of_preserved (fun t : Ram ↦ t.size = ram.size) rfl ?_
  intro op _ t ht
  exact (size_and_byteAt_step op t).1.trans ht

/-- The byte that the last successful store over position `i` has left there in a run, or the
initial one if there was none. -/
def held (ram : Ram) (ops : List Bus.Op) (i : Nat) : Byte :=
  ((history Bus.step ops ram).reverse.findSome? (left? · i)).getD (ram.byteAt i)

theorem byteAt_final (ops : List Bus.Op) (ram : Ram) (i : Nat) :
    (final Bus.step ops ram).byteAt i = held ram ops i := by
  refine view_final (fun t : Ram ↦ t.byteAt i) (left? · i) ?_ ram
  intro op _ t
  exact (size_and_byteAt_step op t).2 i

/-- At any point of a run, a memory takes an access exactly if it is aligned and lies within the
size that the memory has had from the start. It refuses a misaligned access as such, wherever it
lies, and an aligned one that does not fit with an access fault, and is unchanged in both cases. A
load of `n` bytes returns the sum over `j < n` of `256 ^ j` times the byte that the last successful
store over its position left there, of whatever size and lanes that store was, or the initial byte
if there was none. -/
theorem loads_bytes_last_stored (ram : Ram) (ops : List Bus.Op) :
    let t := final Bus.step ops ram
    t.size = ram.size ∧ (∀ i, t.byteAt i = held ram ops i) ∧
    (∀ op direction a size, op.span? = some (direction, a, size) →
      ((∃ reply, (Bus.step op t).answer = .ok reply) ↔
        a.toNat % size.bytes = 0 ∧ a.toNat + size.bytes ≤ ram.size) ∧
      ((Bus.step op t).answer = .error ⟨direction, .misaligned⟩ ↔ a.toNat % size.bytes ≠ 0) ∧
      ((Bus.step op t).answer = .error ⟨direction, .access⟩ ↔
        a.toNat % size.bytes = 0 ∧ ram.size < a.toNat + size.bytes) ∧
      (∀ fault, (Bus.step op t).answer = .error fault → (Bus.step op t).state = t)) ∧
    (∀ size a reply, (Bus.step (.load size a) t).answer = .ok reply →
      ∃ data, reply = .word data ∧
        data.toNat =
          ∑ j ∈ Finset.range size.bytes, 256 ^ j * (held ram ops (a.toNat + j)).toNat) := by
  intro t
  have hsize : t.size = ram.size := size_final ops ram
  have hbytes : ∀ i, t.byteAt i = held ram ops i := byteAt_final ops ram
  refine ⟨hsize, hbytes, ?_, ?_⟩
  · intro op direction a size hop
    rw [exists_answer_eq_ok_iff hop, answer_eq_error_iff hop, answer_eq_error_iff hop,
      refusal?_eq_none_iff, refusal?_eq_misaligned_iff, refusal?_eq_access_iff, hsize]
    exact ⟨Iff.rfl, Iff.rfl, Iff.rfl, fun _ ↦ state_of_answer_eq_error hop⟩
  · intro size a reply hok
    have hm := (exists_answer_eq_ok_iff rfl).mp ⟨reply, hok⟩
    have hloaded := (Gives.of_apply_eq (load_of_accepted hm)).map Bus.Reply.word
    refine ⟨_, Except.ok.inj (hok.symm.trans hloaded.answer_eq), ?_⟩
    rw [toNat_ofBytes_bytesFrom]
    exact Finset.sum_congr rfl fun j _ ↦ by rw [hbytes]

/-- A word, then a half, a lane and a byte within it, and a word that does not fit. -/
theorem load_of_mixed_stores :
    let ram := Ram.zeroed 10
    let ops : List Bus.Op :=
      [.store .word 4 0x44332211, .store .half 6 0xBBAA, .storeLanes 4 0xDDDDDDDD 0b0001,
        .store .byte 7 0x1CC, .store .word 8 0xEEEEEEEE]
    (Bus.step (.load .word 4) (final Bus.step ops ram)).answer = .ok (.word 0xCCAA22DD) := by
  intro ram ops
  have hvalue : ∑ j ∈ Finset.range Size.word.bytes,
      256 ^ j * (held ram ops ((4 : Word).toNat + j)).toNat = (0xCCAA22DD : Word).toNat := by
    decide +kernel +revert
  obtain ⟨-, -, haccess, hloads⟩ := loads_bytes_last_stored ram ops
  obtain ⟨reply, hok⟩ := (haccess (.load .word 4) .load 4 .word rfl).1.mpr ⟨rfl, by decide⟩
  obtain ⟨data, rfl, hdata⟩ := hloads .word 4 reply hok
  rw [hok, BitVec.eq_of_toNat_eq (hdata.trans hvalue)]

end Ram

end SecureZone
