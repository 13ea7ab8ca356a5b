import Mathlib.Data.List.Basic
import SecureZone.Proofs.Atomicity
import SecureZone.Proofs.Run

/-!
# Configuring a region through the driver

The driver and the registers check base and size apart from each other and by the same rules: the
driver refuses an argument exactly when the register would, and then the region is as it was. If it
refuses neither, whatever the region was before, it ends up with these bounds and with the switch
where the operation leaves it. Nothing of the earlier region enters but the switch and the keys, so
that configuring a region twice is configuring it once.
-/

namespace SecureZone

open SecureZone.Action

namespace Region

variable (r : Region) {base size : Word}

theorem setBase_refuses_iff :
    (∃ refusal, (setBase base r).answer = .error refusal) ↔ ¬ ValidBase base := by
  constructor
  · rintro ⟨refusal, h⟩ hbase
    have hput : (setBase base r).answer = .ok () := (gives_put r .base hbase).answer_eq
    rw [hput] at h
    cases h
  · intro hbase
    have hput : Gives (put .base base) r (.error (.unalignedBase base)) r :=
      gives_put_refused r .base (if_neg hbase)
    exact ⟨_, hput.answer_eq⟩

theorem setSize_refuses_iff :
    (∃ refusal, (setSize size r).answer = .error refusal) ↔ ¬ ValidSize size := by
  constructor
  · rintro ⟨refusal, h⟩ hsize
    have hput : (setSize size r).answer = .ok () := (gives_put r .size hsize).answer_eq
    rw [hput] at h
    cases h
  · intro hsize
    have hput : Gives (put .size size) r (.error (.badSize size)) r :=
      gives_put_refused r .size (if_neg hsize)
    exact ⟨_, hput.answer_eq⟩

end Region

namespace Driver

open Region

/-- From `r` the operation fails when a register would refuse its bound, the base first, and leaves
the region alone. Otherwise it sets the bounds and puts the switch to `on`. -/
structure Configures (x : Action Region Failure Unit) (r : Region) (base size : Word) (on : Bool) :
    Prop where
  alignment_iff : (x r).answer = .error .invalidAlignment ↔
    ∃ refusal, (setBase base r).answer = .error refusal
  size_iff : (x r).answer = .error .invalidSize ↔
    (¬ ∃ refusal, (setBase base r).answer = .error refusal) ∧
      ∃ refusal, (setSize size r).answer = .error refusal
  refused : ∀ failure, (x r).answer = .error failure →
    (failure = .invalidAlignment ∨ failure = .invalidSize) ∧ (x r).state = r
  accepted : (¬ ∃ refusal, (setBase base r).answer = .error refusal) →
    (¬ ∃ refusal, (setSize size r).answer = .error refusal) →
    (x r).answer = .ok () ∧ (x r).state = { r with base := base, size := size, enabled := on }

/-- Doing it once more answers the same and changes nothing. -/
def Repeats (x : Action Region Failure Unit) (r : Region) : Prop :=
  Gives x (x r).state (x r).answer (x r).state

variable {x : Action Region Failure Unit} {r : Region} {base size : Word} {on : Bool}

theorem validate_eq_alignment_iff :
    validate base size = .error .invalidAlignment ↔ ¬ ValidBase base := by
  rw [validate_eq]
  by_cases hbase : ValidBase base
  · by_cases hsize : ValidSize size <;> simp [hbase, hsize]
  · simp [hbase]

theorem validate_eq_size_iff :
    validate base size = .error .invalidSize ↔ ValidBase base ∧ ¬ ValidSize size := by
  rw [validate_eq]
  by_cases hbase : ValidBase base
  · by_cases hsize : ValidSize size <;> simp [hbase, hsize]
  · simp [hbase]

theorem failure_of_validate {failure : Failure} (h : validate base size = .error failure) :
    failure = .invalidAlignment ∨ failure = .invalidSize := by
  by_cases hbase : ValidBase base
  · have hsize : ¬ ValidSize size := by
      intro hsize
      rw [validate_of_valid hbase hsize] at h
      cases h
    rw [validate_eq_size_iff.mpr ⟨hbase, hsize⟩] at h
    cases h
    exact .inr rfl
  · rw [validate_eq_alignment_iff.mpr hbase] at h
    cases h
    exact .inl rfl

/-- An operation that fails where the check of its bounds fails, and else sets them. -/
theorem configures_of_validate
    (hrefused : ∀ failure, validate base size = .error failure → Gives x r (.error failure) r)
    (hvalid : ValidBase base → ValidSize size →
      Gives x r (.ok ()) { r with base := base, size := size, enabled := on }) :
    Configures x r base size on := by
  have hanswer : (x r).answer = validate base size := by
    cases hv : validate base size with
    | ok u =>
        obtain ⟨hbase, hsize⟩ := valid_of_validate hv
        exact (hvalid hbase hsize).answer_eq
    | error failure => exact (hrefused failure hv).answer_eq
  refine ⟨?_, ?_, ?_, ?_⟩
  · rw [hanswer, validate_eq_alignment_iff, setBase_refuses_iff]
  · rw [hanswer, validate_eq_size_iff, setBase_refuses_iff, setSize_refuses_iff, not_not]
  · intro failure hfailed
    rw [hanswer] at hfailed
    exact ⟨failure_of_validate hfailed, (hrefused failure hfailed).state_eq⟩
  · intro hbase hsize
    rw [setBase_refuses_iff, not_not] at hbase
    rw [setSize_refuses_iff, not_not] at hsize
    exact ⟨(hvalid hbase hsize).answer_eq, (hvalid hbase hsize).state_eq⟩

theorem configures_init (r : Region) (base size : Word) (on : Bool) :
    Configures (init base size on) r base size on := by
  refine configures_of_validate ?_ ?_
  · exact fun _ hv ↦ gives_init_refused hv on r
  · exact fun hbase hsize ↦ gives_init r hbase hsize on

theorem configures_reconfigure (r : Region) (base size : Word) :
    Configures (reconfigure base size) r base size r.enabled := by
  refine configures_of_validate ?_ ?_
  · exact fun _ hv ↦ gives_reconfigure_refused hv r
  · exact fun hbase hsize ↦ gives_reconfigure r hbase hsize

/-- What is set the second time is what was set the first time, unless the operation also depends on
a part of the region that it changes. -/
theorem repeats_of_configures {on : Region → Bool} (hx : ∀ r, Configures x r base size (on r))
    (hon : ∀ r : Region, on { r with base := base, size := size, enabled := on r } = on r)
    (r : Region) : Repeats x r := by
  by_cases hbase : ∃ refusal, (setBase base r).answer = .error refusal
  · have hanswer := (hx r).alignment_iff.mpr hbase
    have hstate := ((hx r).refused _ hanswer).2
    rw [Repeats, hstate]
    exact ⟨rfl, hstate⟩
  · by_cases hsize : ∃ refusal, (setSize size r).answer = .error refusal
    · have hanswer := (hx r).size_iff.mpr ⟨hbase, hsize⟩
      have hstate := ((hx r).refused _ hanswer).2
      rw [Repeats, hstate]
      exact ⟨rfl, hstate⟩
    · obtain ⟨hanswer, hstate⟩ := (hx r).accepted hbase hsize
      rw [setBase_refuses_iff] at hbase
      rw [setSize_refuses_iff] at hsize
      obtain ⟨hagain, hkept⟩ := (hx (x r).state).accepted
        (by rwa [setBase_refuses_iff]) (by rwa [setSize_refuses_iff])
      refine ⟨hagain.trans hanswer.symm, hkept.trans ?_⟩
      rw [hstate, hon]

/-- After any operations from any region, setting it up or moving it through the driver fails
exactly where the register of the base or of the size would refuse its argument, with the region
unchanged, and otherwise sets the bounds and the switch and leaves the keys. Doing it once more
changes nothing. The configuration and the keys that the driver reads are those of the region and of
the last keys that it loaded. -/
theorem driver_configures_as_registers_accept (start : Region) (ops : List Region.Op) :
    let r := final Region.step ops start
    (∀ base size on,
      Configures (init base size on) r base size on ∧ Repeats (init base size on) r) ∧
    (∀ base size,
      Configures (reconfigure base size) r base size r.enabled ∧
        Repeats (reconfigure base size) r) ∧
    Gives config r (.ok ⟨r.base, r.size, r.enabled⟩) r ∧
    Gives keys r (.ok r.keys) r ∧
    ∀ ks, Gives (setKeys ks) r (.ok ()) { r with keys := ks } ∧
      Gives keys { r with keys := ks } (.ok ks) { r with keys := ks } := by
  intro r
  refine ⟨?_, ?_, gives_config r, gives_keys r, ?_⟩
  · intro base size on
    have hinit (r : Region) := configures_init r base size on
    exact ⟨hinit r, repeats_of_configures hinit (fun _ ↦ rfl) r⟩
  · intro base size
    have hmove (r : Region) := configures_reconfigure r base size
    exact ⟨hmove r, repeats_of_configures hmove (fun _ ↦ rfl) r⟩
  · intro ks
    exact ⟨gives_setKeys r ks, gives_keys { r with keys := ks }⟩

end Driver

end SecureZone
