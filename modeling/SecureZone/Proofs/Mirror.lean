import Mathlib.Data.List.Forall2
import SecureZone.Proofs.Ledger
import SecureZone.Proofs.Ports

/-!
# A recording file in place of the registers

A recording register file stores whatever it is given, and the registers of a region check what is
written to them. For the driver this makes no difference: it checks its arguments by the same rules
before the first instruction, so no instruction that it issues is refused, and while the registers
read the same on both sides, every operation answers the same.
-/

namespace SecureZone

open SecureZone.Action

/-- The event says that a register refused a value or that an instruction failed. -/
def Event.IsRefusal : Event → Prop
  | .baseRefused _ | .sizeRefused _ | .csrFailed _ => True
  | _ => False

/-! ## Instructions without refusals -/

namespace Region

variable {csr : Csr} {value : Word}

theorem locate_number (r : Region) (csr : Csr) : locate csr.number r = ⟨.ok csr, r, []⟩ := by
  have hlocate : locate csr.number = pure csr := by rw [locate, Csr.ofNumber?_number]
  exact congrFun hlocate r

theorem readCsr_number (r : Region) (csr : Csr) :
    readCsr csr.number r = ⟨.ok (r.get csr), r, []⟩ := by
  rw [readCsr, bind_apply, locate_number, Outcome.andThen_ok, Outcome.after_nil]
  rfl

theorem put_of_accepts (r : Region) (h : Accepts csr value) :
    ∃ event, put csr value r = ⟨.ok (), r.withValue csr value, [event]⟩ ∧ ¬ event.IsRefusal := by
  cases csr with
  | base => exact ⟨.baseSet value, if_pos h, id⟩
  | size => exact ⟨.sizeSet value, if_pos h, id⟩
  | enable => exact ⟨.enabledSet (value.getLsbD 0), rfl, id⟩
  | key slot => exact ⟨.keySet slot, rfl, id⟩

theorem writeCsr_of_accepts (r : Region) (h : Accepts csr value) :
    ∃ event, writeCsr csr.number value r = ⟨.ok (), r.withValue csr value, [event]⟩ ∧
      ¬ event.IsRefusal := by
  obtain ⟨event, hput, hevent⟩ := put_of_accepts r h
  refine ⟨event, ?_, hevent⟩
  rw [writeCsr, bind_apply, locate_number, Outcome.andThen_ok, Outcome.after_nil, mapError, hput]
  rfl

theorem execCsr_of_accepts (r : Region) (csr : Csr) (instruction : Csr.Instruction)
    {operand : Word} (hwrites : operand ≠ 0)
    (h : Accepts csr (instruction.combine (r.get csr) operand)) :
    ∃ event, execCsr instruction csr.number operand r =
        ⟨.ok (r.get csr), r.withValue csr (instruction.combine (r.get csr) operand), [event]⟩ ∧
      ¬ event.IsRefusal := by
  obtain ⟨event, hwrite, hevent⟩ := writeCsr_of_accepts r h
  refine ⟨event, ?_, hevent⟩
  rw [execCsr, bind_apply, readCsr_number, Outcome.andThen_ok, Outcome.after_nil,
    if_pos (.inr hwrites), bind_apply, hwrite, Outcome.andThen_ok]
  rfl

theorem forDriver_of_ok {α : Type} {x : Action Region Csr.Failure α} {r t : Region} {a : α}
    {events : List Event} (hx : x r = ⟨.ok a, t, events⟩) :
    forDriver x r = ⟨.ok a, t, events⟩ := by
  rw [forDriver, bind_apply, attempt_apply, hx]
  exact congrArg (Outcome.mk (.ok a) t) (List.append_nil events)

end Region

/-! ## The two files side by side -/

/-- The file after it counted an instruction and wrote it down. -/
def Recorder.noted (e : Entry) (p : Recorder) : Recorder :=
  { p with issued := p.issued + 1, entries := p.entries ++ [e] }

theorem Recorder.issue_of_reliable {p : Recorder} (h : p.failing = []) (e : Entry) (n : Word)
    (change : Recorder → Recorder) :
    issue e n change p = ⟨.ok (p.value n), change (p.noted e), []⟩ := by
  refine if_neg ?_
  rw [h]
  exact List.not_mem_nil

/-- The recording file never fails, and its registers read as those of the region. -/
structure Mirrors (p : Recorder) (r : Region) : Prop where
  reliable : p.failing = []
  value_eq : ∀ csr : Csr, p.value csr.number = r.get csr

/-- The registers agree, and the region refuses nothing. -/
def mirroring : Comparison Recorder Region where
  States := Mirrors
  Reports _ events := ∀ event ∈ events, ¬ event.IsRefusal
  reports_nil := List.forall_mem_nil _
  reports_append h hlater := List.forall_mem_append.mpr ⟨h, hlater⟩

namespace Mirrors

variable {p : Recorder} {r : Region} {csr : Csr} {value : Word}

theorem noted (h : Mirrors p r) (e : Recorder.Entry) : Mirrors (p.noted e) r :=
  ⟨h.reliable, h.value_eq⟩

theorem put (h : Mirrors p r) (hshown : Region.shown csr value = value) :
    Mirrors (p.put csr.number value) (r.withValue csr value) := by
  refine ⟨h.reliable, fun other ↦ ?_⟩
  rw [Recorder.value_put]
  by_cases hcsr : csr = other
  · subst hcsr
    rw [if_pos rfl, Region.get_withValue_self, hshown]
  · have hnumber : csr.number ≠ other.number := fun heq ↦ hcsr (Csr.number_inj heq)
    rw [if_neg hnumber, Region.get_withValue_of_ne r hcsr, h.value_eq]

theorem read (h : Mirrors p r) (csr : Csr) :
    mirroring.Alike Eq (CsrFile.read csr.number) (CsrFile.read csr.number) p r :=
  .of_ok (Recorder.issue_of_reliable h.reliable _ _ _)
    (Region.forDriver_of_ok (Region.readCsr_number r csr)) (h.value_eq csr) (h.noted _)
    (List.forall_mem_nil _)

theorem write (h : Mirrors p r) (hvalue : Region.Accepts csr value)
    (hshown : Region.shown csr value = value) :
    mirroring.Alike Eq (CsrFile.write csr.number value) (CsrFile.write csr.number value) p r := by
  obtain ⟨event, hwrite, hevent⟩ := Region.writeCsr_of_accepts r hvalue
  have hissue := Recorder.issue_of_reliable h.reliable (.write csr.number value) csr.number
    (Recorder.put csr.number value)
  have hrecord : (CsrFile.write csr.number value : Action Recorder Driver.Failure Unit) p =
      ⟨.ok (), (p.noted (.write csr.number value)).put csr.number value, []⟩ := by
    refine (map_apply _ _ p).trans ?_
    rw [hissue]
    rfl
  exact .of_ok hrecord (Region.forDriver_of_ok hwrite) rfl ((h.noted _).put hshown)
    (List.forall_mem_singleton.mpr hevent)

/-- The driver sets and clears the one bit that the enable register has. -/
theorem shown_combine (instruction : Csr.Instruction) (r : Region) :
    Region.shown .enable (instruction.combine (r.get .enable) Driver.enableBit) =
      instruction.combine (r.get .enable) Driver.enableBit := by
  cases he : r.enabled <;> cases instruction <;>
    simp [Region.shown, Region.get, Csr.Instruction.combine, Driver.enableBit, he]

/-- Setting or clearing the enable bit, on both sides. -/
theorem switch (h : Mirrors p r) (instruction : Csr.Instruction) (e : Recorder.Entry)
    {change : Recorder → Recorder}
    (hchange : ∀ q : Recorder, change q = q.put Csr.enable.number
      (instruction.combine (q.value Csr.enable.number) Driver.enableBit)) :
    mirroring.Alike Eq (Recorder.issue e Csr.enable.number change)
      (Region.forDriver (Region.execCsr instruction Csr.enable.number Driver.enableBit)) p r := by
  obtain ⟨event, hexec, hevent⟩ := Region.execCsr_of_accepts r .enable instruction
    (by decide : Driver.enableBit ≠ 0) trivial
  -- The file combines the whole word and the region keeps one bit of it, which is the same here.
  have hnoted : (p.noted e).value Csr.enable.number = r.get .enable := h.value_eq .enable
  have hissue := Recorder.issue_of_reliable h.reliable e Csr.enable.number change
  rw [hchange, hnoted] at hissue
  exact .of_ok hissue (Region.forDriver_of_ok hexec) (h.value_eq .enable)
    ((h.noted e).put (shown_combine instruction r)) (List.forall_mem_singleton.mpr hevent)

theorem settle (h : Mirrors p r) (cycles : Word) :
    mirroring.Alike Eq (.perform (CsrFile.settle cycles) : Action Recorder Driver.Failure Unit)
      (.perform (CsrFile.settle cycles)) p r := by
  refine .perform ?_ (List.forall_mem_singleton.mpr id)
  change Mirrors (if p.recordsSettling then { p with entries := p.entries ++ [.settle cycles] }
    else p) r
  cases p.recordsSettling with
  | true => exact ⟨h.reliable, h.value_eq⟩
  | false => exact h

end Mirrors

theorem Csr.related_eq_iff {csr : Csr} {v w : Word} : csr.Related Eq v w ↔ v = w := by
  cases csr <;> rfl

/-- A recording file and the registers that it mirrors are ports for one driver. -/
theorem ports_mirroring : Driver.Ports mirroring Eq where
  read csr _ _ h := (Mirrors.read h csr).mono fun _ _ ↦ Csr.related_eq_iff.mpr
  write csr _ _ _ _ hcsr hv hvw h := by
    obtain rfl := Csr.related_eq_iff.mp hvw
    refine Mirrors.write h hv ?_
    cases csr with
    | enable => exact absurd rfl hcsr
    | base | size | key slot => rfl
  setEnable h := Mirrors.switch h .readSet _ fun _ ↦ rfl
  clearEnable h := Mirrors.switch h .readClear _ fun _ ↦ rfl
  settle cycles _ _ h := Mirrors.settle h cycles

namespace Driver

/-- On a file that never fails, an operation fails only when its arguments are refused. -/
theorem answer_ok_iff {p : Recorder} (h : p.failing = []) (op : Op) :
    (∃ reply, (step op p).answer = .ok reply) ↔ op.Valid := by
  constructor
  · rintro ⟨reply, hok⟩
    by_contra hinvalid
    obtain ⟨failure, hcheck⟩ := check_of_not_valid hinvalid
    rw [(gives_step_of_check p hcheck).answer_eq] at hok
    cases hok
  · intro hvalid
    cases follows_step p (check_of_valid hvalid) with
    | through _ _ hanswered => exact ⟨_, hanswered⟩
    | stopped _ _ _ _ _ _ _ hfails _ _ _ =>
        rw [h] at hfails
        exact absurd hfails List.not_mem_nil

/-- From a recording file that never fails and registers that read the same, any sequence of
operations of the driver answers the same on both at every step and leaves them reading the same.
An operation fails only when the driver refuses its arguments, and the registers refuse nothing that
it writes. -/
theorem recorder_stands_in_for_registers {p : Recorder} {r : Region} (h : Mirrors p r)
    {ops : List Op} (hops : ∀ op ∈ ops, ¬ op.IsDirect) :
    List.Forall₂
      (fun e e' ↦ e.outcome.answer = e'.outcome.answer ∧
        Mirrors e.outcome.state e'.outcome.state ∧
        ((∃ reply, e'.outcome.answer = .ok reply) ↔ e'.op.Valid) ∧
        ∀ event ∈ e'.outcome.events, ¬ event.IsRefusal)
      (history step ops p) (history step ops r) := by
  refine history_forall₂ h fun op hop q s hqs ↦ ?_
  have halike : mirroring.Alike Eq (step op) (step op) q s :=
    ports_mirroring.step (hops op hop) (fun _ ↦ rfl) (fun _ _ _ ↦ id) hqs
  have hanswer := halike.answers.eq
  have hvalid := answer_ok_iff hqs.reliable op
  rw [hanswer] at hvalid
  exact ⟨halike.states, hanswer, halike.states, hvalid, halike.reports⟩

/-- The driver refuses to move the region to an unaligned base, and then moves it to another one.
The region stays enabled on both files. -/
theorem recorder_stands_in_across_refusal :
    let p : Recorder := ⟨∅, 0, [], .csrFault, true, []⟩
    let ops : List Op :=
      [.init 0x1000 0x100 true, .reconfigure 0x2002 0x80, .config, .reconfigure 0x2000 0x80,
        .config, .keys]
    let answers : List (Except Failure Reply) :=
      [.ok .done, .error .invalidAlignment, .ok (.config ⟨0x1000, 0x100, true⟩), .ok .done,
        .ok (.config ⟨0x2000, 0x80, true⟩), .ok (.keys .zero)]
    Mirrors p .initial ∧ (∀ op ∈ ops, ¬ op.IsDirect) ∧
    (history step ops p).map (·.outcome.answer) = answers ∧
    (history step ops Region.initial).map (·.outcome.answer) = answers := by
  intro p ops answers
  have hrecord : (history step ops p).map (·.outcome.answer) = answers := by
    decide +kernel +revert
  have hmirrors : Mirrors p .initial := by
    refine ⟨rfl, fun csr ↦ ?_⟩
    rw [Region.get_initial]
    exact Std.TreeMap.getD_emptyc
  have hops : ∀ op ∈ ops, ¬ op.IsDirect := by
    simp [ops, Op.IsDirect]
  have hsame : (history step ops p).map (·.outcome.answer) =
      (history step ops Region.initial).map (·.outcome.answer) := by
    rw [← List.forall₂_eq_eq_eq, List.forall₂_map_left_iff, List.forall₂_map_right_iff]
    exact (recorder_stands_in_for_registers hmirrors hops).imp fun _ _ h ↦ h.1
  exact ⟨hmirrors, hops, hrecord, hsame.symm.trans hrecord⟩

end Driver

end SecureZone
