import Mathlib.Data.List.Basic
import SecureZone.Proofs.Outcome
import SecureZone.Region.Operation

/-!
# The driver on emulated registers

An instruction on an implemented register succeeds when the register accepts the new value. The
driver checks base and size by the same rules before it issues an instruction, and no other register
refuses a value, so once its arguments are accepted no instruction of a driver operation fails. Each
operation has one outcome, which is an equation on the whole region.
-/

namespace SecureZone

open SecureZone.Action

/-! ## Instructions -/

theorem Csr.number_of_ofNumber? {n : Word} {csr : Csr} (h : ofNumber? n = some csr) :
    csr.number = n := by
  have hnumber := List.find?_some h
  exact beq_iff_eq.mp hnumber

theorem Csr.number_inj {csr other : Csr} (h : csr.number = other.number) : csr = other := by
  have hfound := congrArg ofNumber? h
  rw [ofNumber?_number, ofNumber?_number] at hfound
  exact Option.some.inj hfound

theorem Keys.eq_of_get_eq {ks ks' : Keys} (h : ∀ slot, ks.get slot = ks'.get slot) : ks = ks' := by
  rw [← ofList_toList ks, ← ofList_toList ks', toList, toList, funext h]

namespace Region

/-- The register takes the value. -/
def Accepts : Csr → Word → Prop
  | .base, value => ValidBase value
  | .size, value => ValidSize value
  | .enable, _ | .key _, _ => True

/-- What the register says to a value that it does not take. -/
def refusal? : Csr → Word → Option Refusal
  | .base, value => if ValidBase value then none else some (.unalignedBase value)
  | .size, value => if ValidSize value then none else some (.badSize value)
  | .enable, _ | .key _, _ => none

theorem refusal?_eq_none_iff {csr : Csr} {value : Word} :
    refusal? csr value = none ↔ Accepts csr value := by
  cases csr with
  | base => simp [refusal?, Accepts]
  | size => simp [refusal?, Accepts]
  | enable | key slot => exact iff_of_true rfl trivial

/-- The region after the register took the value. -/
def withValue (r : Region) : Csr → Word → Region
  | .base, value => { r with base := value }
  | .size, value => { r with size := value }
  | .enable, value => { r with enabled := value.getLsbD 0 }
  | .key slot, value => { r with keys := r.keys.set slot value }

/-- What a register shows of a value that was written to it: the enable register has one bit. -/
def shown : Csr → Word → Word
  | .enable, value => value &&& 1
  | .base, value | .size, value | .key _, value => value

/-- Bit 0 of a value decides what the enable register shows. -/
theorem flag_eq_and (value : Word) : (if value.getLsbD 0 then 1 else 0) = value &&& 1 := by
  have hone : value &&& 1 = (BitVec.ofBool (value.getLsbD 0)).setWidth 32 :=
    BitVec.and_one_eq_setWidth_ofBool_getLsbD
  rw [hone]
  cases value.getLsbD 0 <;> rfl

theorem get_withValue_self (r : Region) (csr : Csr) (value : Word) :
    (r.withValue csr value).get csr = shown csr value := by
  cases csr with
  | base | size => rfl
  | enable => exact flag_eq_and value
  | key slot => exact (Keys.get_set _ _ _ _).trans (if_pos rfl)

theorem get_withValue_of_ne (r : Region) {csr other : Csr} (h : csr ≠ other) (value : Word) :
    (r.withValue csr value).get other = r.get other := by
  cases csr <;> cases other <;> first
    | rfl
    | exact absurd rfl h
    | exact (Keys.get_set _ _ _ _).trans (if_neg fun hslot ↦ h (congrArg Csr.key hslot))

section

variable (r : Region) (csr : Csr)

theorem gives_put {value : Word} (h : Accepts csr value) :
    Gives (put csr value) r (.ok ()) (r.withValue csr value) := by
  cases csr with
  | base =>
      have hput : setBase value r = ⟨.ok (), { r with base := value }, [.baseSet value]⟩ := if_pos h
      exact ⟨by rw [put, hput], by rw [put, hput]; rfl⟩
  | size =>
      have hput : setSize value r = ⟨.ok (), { r with size := value }, [.sizeSet value]⟩ := if_pos h
      exact ⟨by rw [put, hput], by rw [put, hput]; rfl⟩
  | enable => exact Gives.perform _ r
  | key slot => exact Gives.perform _ r

theorem gives_put_refused {value : Word} {refusal : Refusal}
    (h : refusal? csr value = some refusal) : Gives (put csr value) r (.error refusal) r := by
  cases csr with
  | base =>
      by_cases hbase : ValidBase value
      · cases (if_pos hbase).symm.trans h
      · cases (if_neg hbase).symm.trans h
        exact ⟨congrArg Outcome.answer (if_neg hbase), congrArg Outcome.state (if_neg hbase)⟩
  | size =>
      by_cases hsize : ValidSize value
      · cases (if_pos hsize).symm.trans h
      · cases (if_neg hsize).symm.trans h
        exact ⟨congrArg Outcome.answer (if_neg hsize), congrArg Outcome.state (if_neg hsize)⟩
  | enable | key slot => cases h

theorem gives_locate : Gives (locate csr.number) r (.ok csr) r := by
  rw [locate, Csr.ofNumber?_number]
  exact Gives.pure csr r

theorem gives_readCsr : Gives (readCsr csr.number) r (.ok (r.get csr)) r := by
  rw [readCsr]
  exact (gives_locate r csr).bind ((Gives.get r).bind (Gives.pure _ r))

theorem gives_writeCsr {value : Word} (h : Accepts csr value) :
    Gives (writeCsr csr.number value) r (.ok ()) (r.withValue csr value) := by
  rw [writeCsr]
  exact (gives_locate r csr).bind ((gives_put r csr h).mapError _)

theorem gives_execCsr (instruction : Csr.Instruction) {operand : Word}
    (hwrites : instruction = .readWrite ∨ operand ≠ 0)
    (h : Accepts csr (instruction.combine (r.get csr) operand)) :
    Gives (execCsr instruction csr.number operand) r (.ok (r.get csr))
      (r.withValue csr (instruction.combine (r.get csr) operand)) := by
  rw [execCsr]
  refine (gives_readCsr r csr).bind ?_
  rw [if_pos hwrites]
  exact (gives_writeCsr r csr h).bind (Gives.pure _ _)

end

theorem gives_forDriver {α : Type} {x : Action Region Csr.Failure α} {r t : Region} {a : α}
    (hx : Gives x r (.ok a) t) : Gives (forDriver x) r (.ok a) t := by
  rw [forDriver]
  exact hx.attempt.bind (Gives.pure a t)

theorem gives_forDriver_error {α : Type} {x : Action Region Csr.Failure α} {r t : Region}
    {failure : Csr.Failure} (hx : Gives x r (.error failure) t) :
    Gives (forDriver x) r (.error failure.toDriver) t := by
  rw [forDriver]
  exact hx.attempt.bind ((Gives.report _ t).bind (Gives.fail _ t))

end Region

/-! ## Operations of the driver -/

namespace Driver

open Region

variable {base size : Word}

theorem validate_of_valid (hbase : ValidBase base) (hsize : ValidSize size) :
    validate base size = .ok () := by
  rw [validate_eq, if_neg (not_not_intro hbase), if_neg (not_not_intro hsize)]

theorem gives_validate {φ : Type} {answer : Except Failure Unit}
    (h : validate base size = answer) (s : φ) :
    Gives (Action.ofExcept (validate base size)) s answer s := by
  rw [h]
  exact Gives.ofExcept answer s

/-- Arguments that the check refuses reach no instruction, on any register file. -/
theorem gives_init_refused {φ : Type} [CsrFile φ] {failure : Failure}
    (h : validate base size = .error failure) (on : Bool) (s : φ) :
    Gives (init base size on) s (.error failure) s :=
  (gives_validate h s).bind_error _

theorem gives_reconfigure_refused {φ : Type} [CsrFile φ] {failure : Failure}
    (h : validate base size = .error failure) (s : φ) :
    Gives (reconfigure base size) s (.error failure) s :=
  (gives_validate h s).bind_error _

variable (r : Region)

theorem gives_read (csr : Csr) :
    Gives (CsrFile.read csr.number : Action Region Failure Word) r (.ok (r.get csr)) r :=
  gives_forDriver (gives_readCsr r csr)

theorem gives_write (csr : Csr) {value : Word} (h : Accepts csr value) :
    Gives (CsrFile.write csr.number value : Action Region Failure Unit) r (.ok ())
      (r.withValue csr value) :=
  gives_forDriver (gives_writeCsr r csr h)

theorem gives_enable :
    Gives (enable : Action Region Failure Unit) r (.ok ()) { r with enabled := true } := by
  have hexec := gives_execCsr r .enable .readSet (.inr (by decide : enableBit ≠ 0)) trivial
  have hbit : r.withValue .enable (Csr.Instruction.readSet.combine (r.get .enable) enableBit) =
      { r with enabled := true } := by
    cases he : r.enabled <;> simp [withValue, Region.get, he, Csr.Instruction.combine, enableBit]
  rw [hbit] at hexec
  exact (gives_forDriver hexec).bind (Gives.pure () _)

theorem gives_disable :
    Gives (disable : Action Region Failure Unit) r (.ok ()) { r with enabled := false } := by
  have hexec := gives_execCsr r .enable .readClear (.inr (by decide : enableBit ≠ 0)) trivial
  have hbit : r.withValue .enable (Csr.Instruction.readClear.combine (r.get .enable) enableBit) =
      { r with enabled := false } := by
    cases he : r.enabled <;> simp [withValue, Region.get, he, Csr.Instruction.combine, enableBit]
  rw [hbit] at hexec
  exact (gives_forDriver hexec).bind (Gives.pure () _)

theorem gives_isEnabled : Gives (isEnabled : Action Region Failure Bool) r (.ok r.enabled) r := by
  have hread := (gives_read r .enable).map hasEnable
  have hflag : hasEnable (r.get .enable) = r.enabled := by
    cases he : r.enabled <;> simp [Region.get, he, hasEnable, knownFlags, enableBit]
  rw [Except.map, hflag] at hread
  exact hread

theorem gives_program (hbase : ValidBase base) (hsize : ValidSize size) :
    Gives (program base size : Action Region Failure Unit) r (.ok ())
      { r with base := base, size := size, enabled := false } := by
  have hwait := Gives.perform (ε := Failure) (CsrFile.settle settleCycles)
    { r with enabled := false }
  have hwriteBase := gives_write { r with enabled := false } .base hbase
  have hwriteSize := gives_write { r with base := base, enabled := false } .size hsize
  exact (gives_disable r).bind (hwait.bind (hwriteBase.bind hwriteSize))

theorem gives_init (hbase : ValidBase base) (hsize : ValidSize size) (on : Bool) :
    Gives (init base size on : Action Region Failure Unit) r (.ok ())
      { r with base := base, size := size, enabled := on } := by
  rw [init]
  refine (gives_validate (validate_of_valid hbase hsize) r).bind ?_
  refine (gives_program r hbase hsize).bind ?_
  cases on with
  | true => exact gives_enable _
  | false => exact Gives.pure () _

theorem gives_reconfigure (hbase : ValidBase base) (hsize : ValidSize size) :
    Gives (reconfigure base size : Action Region Failure Unit) r (.ok ())
      { r with base := base, size := size } := by
  rw [reconfigure]
  refine (gives_validate (validate_of_valid hbase hsize) r).bind ?_
  refine (gives_isEnabled r).bind ((gives_program r hbase hsize).bind ?_)
  cases he : r.enabled with
  | true => exact gives_enable _
  | false => exact Gives.pure () _

theorem gives_config :
    Gives (config : Action Region Failure Config) r (.ok ⟨r.base, r.size, r.enabled⟩) r := by
  rw [config]
  refine (gives_read r .base).bind ((gives_read r .size).bind ?_)
  exact (gives_isEnabled r).bind (Gives.pure _ r)

theorem gives_setKeys (ks : Keys) :
    Gives (setKeys ks : Action Region Failure Unit) r (.ok ()) { r with keys := ks } := by
  have hkey (slot : KeySlot) (t : Region) :
      Gives (CsrFile.write (Csr.key slot).number (ks.get slot) : Action Region Failure Unit) t
        (.ok ()) { t with keys := t.keys.set slot (ks.get slot) } :=
    gives_write t (.key slot) trivial
  exact (hkey .key0 r).bind <| (hkey .key1 _).bind <| (hkey .key2 _).bind <|
    (hkey .key3 _).bind (Gives.pure () _)

theorem gives_keys : Gives (keys : Action Region Failure Keys) r (.ok r.keys) r := by
  have hkey (slot : KeySlot) := gives_read r (.key slot)
  exact (hkey .key0).bind <| (hkey .key1).bind <| (hkey .key2).bind <|
    (hkey .key3).bind (Gives.pure _ r)

end Driver

end SecureZone
