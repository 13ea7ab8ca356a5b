import Mathlib.Data.List.Basic
import SecureZone.Proofs.Registers

/-!
# What an instruction does to the registers

An instruction reads its register, combines the value with the operand and writes the result. It
fails when there is no such register or when the register refuses the result, and then nothing has
changed. Otherwise it answers with the old value and no other register is touched. A set or a clear
without operand bits never writes, so that nothing can refuse it.
-/

namespace SecureZone

open SecureZone.Action

/-! ## Numbers -/

/-- The registers have the seven numbers from `0x200` on. -/
theorem Csr.exists_number_iff {n : Word} :
    (∃ csr : Csr, csr.number = n) ↔ 0x200 ≤ n.toNat ∧ n.toNat ≤ 0x206 := by
  constructor
  · rintro ⟨csr, rfl⟩
    rcases csr with _ | _ | _ | slot
    · decide
    · decide
    · decide
    · cases slot <;> decide
  · rintro ⟨hlo, hhi⟩
    obtain h | h | h | h | h | h | h : n.toNat = 0x200 ∨ n.toNat = 0x201 ∨ n.toNat = 0x202 ∨
        n.toNat = 0x203 ∨ n.toNat = 0x204 ∨ n.toNat = 0x205 ∨ n.toNat = 0x206 := by omega
    · exact ⟨.base, BitVec.eq_of_toNat_eq h.symm⟩
    · exact ⟨.size, BitVec.eq_of_toNat_eq h.symm⟩
    · exact ⟨.enable, BitVec.eq_of_toNat_eq h.symm⟩
    · exact ⟨.key .key0, BitVec.eq_of_toNat_eq h.symm⟩
    · exact ⟨.key .key1, BitVec.eq_of_toNat_eq h.symm⟩
    · exact ⟨.key .key2, BitVec.eq_of_toNat_eq h.symm⟩
    · exact ⟨.key .key3, BitVec.eq_of_toNat_eq h.symm⟩

theorem Csr.ofNumber?_eq_none {n : Word} (h : ¬ ∃ csr : Csr, csr.number = n) :
    ofNumber? n = none := by
  cases hn : ofNumber? n with
  | none => rfl
  | some csr => exact absurd ⟨csr, number_of_ofNumber? hn⟩ h

namespace Region

theorem refusal?_eq_some_iff {csr : Csr} {value : Word} {refusal : Refusal} :
    refusal? csr value = some refusal ↔
      csr = .base ∧ ¬ ValidBase value ∧ refusal = .unalignedBase value ∨
        csr = .size ∧ ¬ ValidSize value ∧ refusal = .badSize value := by
  cases csr with
  | base => by_cases h : ValidBase value <;> simp [refusal?, h, eq_comm]
  | size => by_cases h : ValidSize value <;> simp [refusal?, h, eq_comm]
  | enable | key slot => simp [refusal?]

section

variable (r : Region)

/-! ## Outcomes of an instruction -/

theorem gives_execCsr_missing {n : Word} (h : ¬ ∃ csr : Csr, csr.number = n)
    (instruction : Csr.Instruction) (operand : Word) :
    Gives (execCsr instruction n operand) r (.error (.notImplemented n)) r := by
  have hlocate : Gives (locate n) r (.error (.notImplemented n)) r := by
    rw [locate, Csr.ofNumber?_eq_none h]
    exact Gives.fail _ r
  rw [execCsr, readCsr]
  exact (hlocate.bind_error _).bind_error _

theorem gives_execCsr_reading (csr : Csr) {instruction : Csr.Instruction} {operand : Word}
    (hreads : ¬ (instruction = .readWrite ∨ operand ≠ 0)) :
    Gives (execCsr instruction csr.number operand) r (.ok (r.get csr)) r := by
  rw [execCsr]
  refine (gives_readCsr r csr).bind ?_
  rw [if_neg hreads]
  exact Gives.pure _ r

theorem gives_execCsr_refused (csr : Csr) {instruction : Csr.Instruction} {operand : Word}
    (hwrites : instruction = .readWrite ∨ operand ≠ 0) {refusal : Refusal}
    (h : refusal? csr (instruction.combine (r.get csr) operand) = some refusal) :
    Gives (execCsr instruction csr.number operand) r (.error (.refused refusal)) r := by
  have hwrite : Gives (writeCsr csr.number (instruction.combine (r.get csr) operand)) r
      (.error (.refused refusal)) r := by
    rw [writeCsr]
    exact (gives_locate r csr).bind ((gives_put_refused r csr h).mapError _)
  rw [execCsr]
  refine (gives_readCsr r csr).bind ?_
  rw [if_pos hwrites]
  exact hwrite.bind_error _

theorem execCsr_ne_notImplemented (csr : Csr) (instruction : Csr.Instruction) (operand n : Word) :
    (execCsr instruction csr.number operand r).answer ≠ .error (.notImplemented n) := by
  by_cases hwrites : instruction = .readWrite ∨ operand ≠ 0
  · cases h : refusal? csr (instruction.combine (r.get csr) operand) with
    | none =>
        rw [(gives_execCsr r csr instruction hwrites (refusal?_eq_none_iff.mp h)).answer_eq]
        exact nofun
    | some refusal =>
        rw [(gives_execCsr_refused r csr hwrites h).answer_eq]
        exact nofun
  · rw [(gives_execCsr_reading r csr hwrites).answer_eq]
    exact nofun

theorem execCsr_refused_iff (csr : Csr) {instruction : Csr.Instruction} {operand : Word}
    (hwrites : instruction = .readWrite ∨ operand ≠ 0) (refusal : Refusal) :
    (execCsr instruction csr.number operand r).answer = .error (.refused refusal) ↔
      refusal? csr (instruction.combine (r.get csr) operand) = some refusal := by
  cases h : refusal? csr (instruction.combine (r.get csr) operand) with
  | none =>
      rw [(gives_execCsr r csr instruction hwrites (refusal?_eq_none_iff.mp h)).answer_eq]
      exact iff_of_false nofun nofun
  | some other =>
      rw [(gives_execCsr_refused r csr hwrites h).answer_eq, Except.error.injEq,
        Csr.Failure.refused.injEq, Option.some.injEq]

end

/-- The outcome of an instruction that writes `new` to the register: it succeeds with the old value
and changes this register alone, or the register refuses the value and nothing changes. -/
structure Writes (r : Region) (csr : Csr) (new : Word) (o : Outcome Region Csr.Failure Word) :
    Prop where
  unaligned_iff : o.answer = .error (.refused (.unalignedBase new)) ↔
    csr = .base ∧ new.toNat % 4 ≠ 0
  badSize_iff : o.answer = .error (.refused (.badSize new)) ↔
    csr = .size ∧ ¬ new.toNat.isPowerOfTwo
  state_of_error : ∀ failure, o.answer = .error failure → o.state = r
  of_accepted : ¬ (csr = .base ∧ new.toNat % 4 ≠ 0) → ¬ (csr = .size ∧ ¬ new.toNat.isPowerOfTwo) →
    o.answer = .ok (r.get csr) ∧ o.state = r.withValue csr new
  read_self : ∀ value, o.answer = .ok value →
    (readCsr csr.number o.state).answer = .ok (if csr = .enable then new &&& 1 else new)
  read_of_ne : ∀ other, csr ≠ other →
    (readCsr other.number o.state).answer = (readCsr other.number r).answer

theorem writes_execCsr (r : Region) (csr : Csr) {instruction : Csr.Instruction} {operand : Word}
    (hwrites : instruction = .readWrite ∨ operand ≠ 0) :
    Writes r csr (instruction.combine (r.get csr) operand)
      (execCsr instruction csr.number operand r) := by
  have hrefused (refusal : Refusal) :=
    (execCsr_refused_iff r csr hwrites refusal).trans refusal?_eq_some_iff
  have htaken := @gives_execCsr r csr instruction operand hwrites
  have hturned := @gives_execCsr_refused r csr instruction operand hwrites
  generalize instruction.combine (r.get csr) operand = new at *
  have hunaligned := hrefused (.unalignedBase new)
  have hbadSize := hrefused (.badSize new)
  have hread (s : Region) (other : Csr) : (readCsr other.number s).answer = .ok (s.get other) :=
    (gives_readCsr s other).answer_eq
  cases h : refusal? csr new with
  | none =>
      have hexec := htaken (refusal?_eq_none_iff.mp h)
      refine ⟨by simpa [ValidBase] using hunaligned, by simpa [ValidSize] using hbadSize,
        fun failure hfailed ↦ ?_, fun _ _ ↦ ⟨hexec.answer_eq, hexec.state_eq⟩, fun _ _ ↦ ?_,
        fun other hne ↦ ?_⟩
      · rw [hexec.answer_eq] at hfailed
        cases hfailed
      · rw [hexec.state_eq, hread, get_withValue_self]
        cases csr <;> simp [shown]
      · rw [hexec.state_eq, hread, hread, get_withValue_of_ne r hne]
  | some refusal =>
      have hexec := hturned h
      refine ⟨by simpa [ValidBase] using hunaligned, by simpa [ValidSize] using hbadSize,
        fun _ _ ↦ hexec.state_eq, fun hbase hsize ↦ ?_, fun value hok ↦ ?_, fun other _ ↦ ?_⟩
      · rcases refusal?_eq_some_iff.mp h with ⟨hcsr, hinvalid, -⟩ | ⟨hcsr, hinvalid, -⟩
        · exact absurd ⟨hcsr, hinvalid⟩ hbase
        · exact absurd ⟨hcsr, hinvalid⟩ hsize
      · rw [hexec.answer_eq] at hok
        cases hok
      · rw [hexec.state_eq]

/-! ## The instruction that clears a register -/

/-- Reading and clearing writes zero, which every register takes but the size. -/
theorem gives_readAndClear (r : Region) {csr : Csr} (h : csr ≠ .size) :
    Gives (CsrFile.readAndClear csr.number : Action Region Driver.Failure Word) r
      (.ok (r.get csr)) (r.withValue csr 0) := by
  have hzero : Csr.Instruction.readClear.combine (r.get csr) (BitVec.allOnes 32) = 0 := by
    simp [Csr.Instruction.combine]
  have haccepts : Accepts csr 0 := by
    cases csr with
    | size => exact absurd rfl h
    | base => exact (by decide : ValidBase 0)
    | enable | key slot => trivial
  have hexec := gives_execCsr r csr .readClear (.inr (by decide : BitVec.allOnes 32 ≠ 0))
    (by rw [hzero]; exact haccepts)
  rw [hzero] at hexec
  exact gives_forDriver hexec

theorem gives_readAndClear_size (r : Region) :
    Gives (CsrFile.readAndClear Csr.size.number : Action Region Driver.Failure Word) r
      (.error .invalidSize) r := by
  have hzero : Csr.Instruction.readClear.combine (r.get .size) (BitVec.allOnes 32) = 0 := by
    simp [Csr.Instruction.combine]
  have hrefusal : refusal? .size (0 : Word) = some (.badSize 0) := by decide
  have hexec := gives_execCsr_refused r .size (.inr (by decide : BitVec.allOnes 32 ≠ 0))
    (by rw [hzero]; exact hrefusal)
  exact gives_forDriver_error hexec

/-- An instruction finds no register exactly when its number is not one of the seven. Otherwise a
set or a clear without operand bits answers with the value of the register and changes nothing, and
any other instruction writes: the operand, or the old value with the bits of the operand set or
cleared. So reading and clearing through the port of the driver works on every register but the
size, which refuses zero. -/
theorem instructions_read_and_write (r : Region) (instruction : Csr.Instruction)
    (n operand : Word) :
    let o := execCsr instruction n operand r
    ((∃ csr : Csr, csr.number = n) ↔ 0x200 ≤ n.toNat ∧ n.toNat ≤ 0x206) ∧
    (o.answer = .error (.notImplemented n) ↔ ¬ (0x200 ≤ n.toNat ∧ n.toNat ≤ 0x206)) ∧
    (∀ csr : Csr, csr.number = n →
      (readCsr n r).answer = .ok (r.get csr) ∧
      (instruction ≠ .readWrite → operand = 0 → o.answer = .ok (r.get csr) ∧ o.state = r) ∧
      (instruction = .readWrite → Writes r csr operand o) ∧
      (instruction = .readSet → operand ≠ 0 → Writes r csr (r.get csr ||| operand) o) ∧
      (instruction = .readClear → operand ≠ 0 → Writes r csr (r.get csr &&& ~~~operand) o)) ∧
    ∀ csr : Csr,
      let cleared := (CsrFile.readAndClear csr.number : Action Region Driver.Failure Word) r
      (csr ≠ .size → cleared.answer = .ok (r.get csr)) ∧
      (csr = .size → cleared.answer = .error .invalidSize) := by
  intro o
  refine ⟨Csr.exists_number_iff, ?_, ?_, ?_⟩
  · rw [← Csr.exists_number_iff]
    constructor
    · rintro hfailed ⟨csr, rfl⟩
      exact execCsr_ne_notImplemented r csr instruction operand _ hfailed
    · intro hmissing
      exact (gives_execCsr_missing r hmissing instruction operand).answer_eq
  · rintro csr rfl
    refine ⟨(gives_readCsr r csr).answer_eq, ?_, ?_, ?_, ?_⟩
    · rintro hset rfl
      have hreads := gives_execCsr_reading r csr (not_or.mpr ⟨hset, not_not_intro rfl⟩)
      exact ⟨hreads.answer_eq, hreads.state_eq⟩
    · rintro rfl
      exact @writes_execCsr r csr .readWrite operand (.inl rfl)
    · rintro rfl hbits
      exact @writes_execCsr r csr .readSet operand (.inr hbits)
    · rintro rfl hbits
      exact @writes_execCsr r csr .readClear operand (.inr hbits)
  · intro csr cleared
    refine ⟨fun h ↦ (gives_readAndClear r h).answer_eq, ?_⟩
    rintro rfl
    exact (gives_readAndClear_size r).answer_eq

/-- Setting a second bit in the size is refused, clearing one of two bits of a key is not. -/
theorem instructions_on_two_registers :
    let r : Region := ⟨0, 16, false, ⟨6, 0, 0, 0⟩⟩
    let set := execCsr .readSet 0x201 8 r
    let clear := execCsr .readClear 0x203 2 r
    (set.answer = .error (.refused (.badSize 24)) ∧ set.state = r) ∧
    clear.answer = .ok 6 ∧ clear.state = { r with keys := ⟨4, 0, 0, 0⟩ } := by
  intro r set clear
  have htwo : r.get .size ||| 8 = 24 := by decide
  have hfour : r.withValue (.key .key0) (r.get (.key .key0) &&& ~~~2) =
      { r with keys := ⟨4, 0, 0, 0⟩ } := by decide
  obtain ⟨-, -, hsize, -⟩ := instructions_read_and_write r .readSet 0x201 8
  obtain ⟨-, -, -, hset, -⟩ := hsize .size rfl
  have hwrites := hset rfl (by decide)
  rw [htwo] at hwrites
  have hrefused : set.answer = .error (.refused (.badSize 24)) :=
    hwrites.badSize_iff.mpr ⟨rfl, by decide⟩
  obtain ⟨-, -, hkey, -⟩ := instructions_read_and_write r .readClear 0x203 2
  obtain ⟨-, -, -, -, hclear⟩ := hkey (.key .key0) rfl
  obtain ⟨hanswer, hstate⟩ := (hclear rfl (by decide)).of_accepted (by decide) (by decide)
  exact ⟨⟨hrefused, hwrites.state_of_error _ hrefused⟩, hanswer, hstate.trans hfour⟩

end Region

end SecureZone
