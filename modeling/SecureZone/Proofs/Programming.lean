import Mathlib.Data.List.Basic
import SecureZone.Proofs.Run
import SecureZone.Proofs.Scripts

/-!
# Driver sequences that fail

When an instruction fails, the operation of the driver that issued it ends there, and its record is
the one it would have left without the failure, cut short. A region is never seen half programmed:
its bounds are stored only while it is disabled and the core has settled, and an operation that
fails leaves the registers as they were or the region disabled.
-/

namespace SecureZone

open SecureZone.Action

/-! ## Records -/

namespace Recorder

/-- The register that an entry stores to. -/
def Entry.target? : Entry → Option Word
  | .read _ | .settle _ => none
  | .write n _ | .setBits n _ | .clearBits n _ => some n

theorem Entry.effect_of_target?_ne {e : Entry} {n : Word} (h : e.target? ≠ some n)
    (values : Word → Word) : e.effect values n = values n := by
  cases e with
  | read m => rfl
  | settle cycles => rfl
  | write m v => exact Function.update_of_ne (fun hm ↦ h (congrArg some hm.symm)) _ _
  | setBits m mask => exact Function.update_of_ne (fun hm ↦ h (congrArg some hm.symm)) _ _
  | clearBits m mask => exact Function.update_of_ne (fun hm ↦ h (congrArg some hm.symm)) _ _

/-- A register keeps its value while nothing is stored to it. -/
theorem replay_of_target?_ne {es : List Entry} {n : Word} (h : ∀ e ∈ es, e.target? ≠ some n)
    (values : Word → Word) : replay es values n = values n := by
  induction es generalizing values with
  | nil => rfl
  | cons e es ih =>
      rw [List.forall_mem_cons] at h
      rw [replay_cons, ih h.2, Entry.effect_of_target?_ne h.1]

theorem replay_of_target?_eq_none {es : List Entry} (h : ∀ e ∈ es, e.target? = none)
    (values : Word → Word) : replay es values = values := by
  funext n
  refine replay_of_target?_ne (fun e he ↦ ?_) values
  rw [h e he]
  exact Option.some_ne_none n ∘ Eq.symm

/-- The property holds of every entry and the entries before it. -/
def Each (P : List Entry → Entry → Prop) (es : List Entry) : Prop :=
  ∀ before next later, es = before ++ next :: later → P before next

section

variable {P : List Entry → Entry → Prop} {e : Entry} {es later : List Entry}

theorem each_nil : Each P [] := by
  intro before next rest hsplit
  cases before <;> cases hsplit

/-- What is asked of some entries only holds where there are none of them. -/
theorem each_of_not {S : Entry → Prop} {Q : List Entry → Prop} (h : ∀ e ∈ es, ¬ S e) :
    Each (fun before next ↦ S next → Q before) es := by
  rintro before next rest rfl hnext
  exact absurd hnext (h next (List.mem_append_right _ List.mem_cons_self))

theorem Each.cut (h : Each P later) (hes : es <+: later) : Each P es := by
  obtain ⟨tail, rfl⟩ := hes
  rintro before next rest rfl
  exact h before next (rest ++ tail) (by rw [List.append_assoc, List.cons_append])

theorem each_cons (he : P [] e) (hes : Each (fun before ↦ P (e :: before)) es) :
    Each P (e :: es) := by
  intro before next rest hsplit
  rw [List.cons_eq_append_iff] at hsplit
  rcases hsplit with ⟨rfl, hcons⟩ | ⟨before', rfl, hrest⟩
  · obtain ⟨rfl, -⟩ := List.cons.inj hcons
    exact he
  · exact hes before' next rest hrest

theorem each_append (hes : Each P es) (hlater : Each (fun before ↦ P (es ++ before)) later) :
    Each P (es ++ later) := by
  induction es generalizing P with
  | nil => exact hlater
  | cons e es ih =>
      refine each_cons (hes [] e es rfl) (ih ?_ hlater)
      intro before next rest hsplit
      exact hes (e :: before) next rest (congrArg (e :: ·) hsplit)

end

/-- The same register file, where no instruction fails. -/
def reliable (p : Recorder) : Recorder := { p with failing := [] }

end Recorder

namespace Driver

open Recorder

/-- One operation of a run on a recording register file. -/
abbrev Step : Type := Action.Entry Op Recorder Failure Reply

/-- The bounds that an operation gives the region. -/
def Op.bounds? : Op → Option (Word × Word)
  | .init base size _ | .reconfigure base size => some (base, size)
  | _ => none

/-- Bounds that the operation gives the region are aligned and a power of two in size. -/
def Op.Valid (op : Op) : Prop :=
  ∀ base size, op.bounds? = some (base, size) → base.toNat % 4 = 0 ∧ size.toNat.isPowerOfTwo

theorem validate_of_not_valid {base size : Word}
    (h : ¬ (base.toNat % 4 = 0 ∧ size.toNat.isPowerOfTwo)) :
    ∃ failure, validate base size = .error failure := by
  by_cases hbase : Region.ValidBase base
  · have hsize : ¬ Region.ValidSize size := fun hsize ↦ h ⟨hbase, hsize⟩
    exact ⟨.invalidSize, by rw [validate_eq, if_neg (not_not_intro hbase), if_pos hsize]⟩
  · exact ⟨.invalidAlignment, by rw [validate_eq, if_pos hbase]⟩

theorem check_of_valid {op : Op} (h : op.Valid) : op.check = .ok () := by
  cases op with
  | init base size on =>
      obtain ⟨hbase, hsize⟩ := h base size rfl
      exact validate_of_valid hbase hsize
  | reconfigure base size =>
      obtain ⟨hbase, hsize⟩ := h base size rfl
      exact validate_of_valid hbase hsize
  | _ => rfl

theorem check_of_not_valid {op : Op} (h : ¬ op.Valid) : ∃ failure, op.check = .error failure := by
  simp only [Op.Valid, not_forall] at h
  obtain ⟨base, size, hop, hinvalid⟩ := h
  obtain ⟨failure, hvalidate⟩ := validate_of_not_valid hinvalid
  refine ⟨failure, ?_⟩
  cases op with
  | init base' size' on =>
      cases hop
      exact hvalidate
  | reconfigure base' size' =>
      cases hop
      exact hvalidate
  | _ => cases hop

/-- What the operation wrote down. -/
def trace (e : Step) : List Recorder.Entry :=
  e.outcome.state.entries.drop e.before.entries.length

/-- What the operation writes down from the same registers where no instruction fails. -/
def wholeTrace (e : Step) : List Recorder.Entry :=
  (step e.op e.before.reliable).state.entries.drop e.before.entries.length

/-- None of the instructions fails, and the operation does what it does without failures. -/
structure GetsThrough (e : Step) : Prop where
  spared : ∀ k < instructions (wholeTrace e), e.before.issued + k + 1 ∉ e.before.failing
  trace_eq : trace e = wholeTrace e
  issued_eq : e.outcome.state.issued = e.before.issued + instructions (wholeTrace e)
  answer_eq : e.outcome.answer = (step e.op e.before.reliable).answer
  answer_ok : e.op.Valid → ∃ reply, e.outcome.answer = .ok reply

/-- The next instruction of the whole trace is the first that fails. The operation issues it, ends
with the error of the register file and issues no other. -/
structure IsCutShort (e : Step) : Prop where
  spared : ∀ k < instructions (trace e), e.before.issued + k + 1 ∉ e.before.failing
  fails : e.before.issued + instructions (trace e) + 1 ∈ e.before.failing
  whole_eq : ∃ next later, next.IsInstruction ∧ wholeTrace e = trace e ++ next :: later
  issued_eq : e.outcome.state.issued = e.before.issued + instructions (trace e) + 1
  answer_eq : e.outcome.answer = .error e.before.failure

section

variable {op : Op} {p : Recorder} {es : List Recorder.Entry} {answer : Except Failure Reply}

theorem wholeTrace_eq (h : Follows (step op) p.reliable es answer) :
    wholeTrace (.of step op p) = es ∧ (step op p.reliable).answer = answer := by
  cases h with
  | through hspared hdone hanswered =>
      refine ⟨?_, hanswered⟩
      rw [wholeTrace, Entry.of_op, Entry.of_before, hdone.entries_eq]
      exact List.drop_left
  | stopped before next later q hsplit hinstruction hspared hfails =>
      exact absurd hfails List.not_mem_nil

/-- An operation that follows a script gets through it or is cut short. -/
theorem cut_of_follows (h : Follows (step op) p es answer)
    (hreliable : Follows (step op) p.reliable es answer)
    (hok : op.Valid → ∃ reply, answer = .ok reply) :
    let e : Step := .of step op p
    e.outcome.state.entries = p.entries ++ trace e ∧
    e.outcome.state.value = replay (trace e) p.value ∧
    (GetsThrough e ∨ IsCutShort e) := by
  intro e
  obtain ⟨hwhole, hanswer⟩ := wholeTrace_eq hreliable
  cases h with
  | through hspared hdone hanswered =>
      have htrace : trace e = es := by
        rw [trace, Entry.of_outcome, hdone.entries_eq]
        exact List.drop_left
      rw [htrace]
      refine ⟨hdone.entries_eq, hdone.value_eq, .inl ⟨?_, ?_, ?_, ?_, ?_⟩⟩
      · rwa [hwhole]
      · rw [htrace, hwhole]
      · rw [hwhole]
        exact hdone.issued_eq
      · exact hanswered.trans hanswer.symm
      · intro hvalid
        obtain ⟨reply, rfl⟩ := hok hvalid
        exact ⟨reply, hanswered⟩
  | stopped before next later q hsplit hinstruction hspared hfails hdone hhalted hanswered =>
      have hstate : e.outcome.state = { q with issued := q.issued + 1 } := hhalted
      have hentries : e.outcome.state.entries = p.entries ++ before := by
        rw [hstate]
        exact hdone.entries_eq
      have htrace : trace e = before := by
        rw [trace, hentries]
        exact List.drop_left
      rw [htrace]
      refine ⟨hentries, ?_, .inr ⟨?_, ?_, ⟨next, later, hinstruction, ?_⟩, ?_, hanswered⟩⟩
      · rw [hstate]
        exact hdone.value_eq
      · rwa [htrace]
      · rwa [htrace]
      · rw [htrace, hwhole, hsplit]
      · rw [hstate, htrace]
        exact congrArg (· + 1) hdone.issued_eq

/-- Whatever fails, an operation gets through or is cut short. -/
theorem cut_step (op : Op) (p : Recorder) :
    let e : Step := .of step op p
    e.outcome.state.entries = p.entries ++ trace e ∧
    e.outcome.state.value = replay (trace e) p.value ∧
    (GetsThrough e ∨ IsCutShort e) := by
  cases hcheck : op.check with
  | ok u =>
      obtain rfl : u = () := rfl
      refine cut_of_follows (follows_step p hcheck) (follows_step p.reliable hcheck) ?_
      exact fun _ ↦ ⟨_, rfl⟩
  | error failure =>
      refine cut_of_follows (.of_gives (gives_step_of_check p hcheck))
        (.of_gives (gives_step_of_check p.reliable hcheck)) ?_
      intro hvalid
      rw [check_of_valid hvalid] at hcheck
      cases hcheck

theorem trace_prefix_script (h : op.check = .ok ()) :
    trace (.of step op p) <+: op.script p := by
  have hwhole : wholeTrace (.of step op p) = op.script p :=
    (wholeTrace_eq (follows_step p.reliable h)).1
  rcases (cut_step op p).2.2 with hthrough | hcut
  · have htrace := hthrough.trace_eq.trans hwhole
    exact ⟨[], (List.append_nil _).trans htrace⟩
  · obtain ⟨next, later, -, hsplit⟩ := hcut.whole_eq
    rw [← hwhole, hsplit]
    exact List.prefix_append _ _

end

/-! ## Stores to the bounds -/

def StoresBound (e : Recorder.Entry) : Prop :=
  e.target? = some Csr.base.number ∨ e.target? = some Csr.size.number

instance (e : Recorder.Entry) : Decidable (StoresBound e) := inferInstanceAs (Decidable (_ ∨ _))

theorem not_storesBound_of_target? {e : Recorder.Entry} (h : e.target? = none) :
    ¬ StoresBound e := by
  simp [StoresBound, h]

/-- After these entries the region is disabled, and if the file records waits, the core has waited
since it was. -/
structure Quiet (p : Recorder) (es : List Recorder.Entry) : Prop where
  disabled : (replay es p.value Csr.enable.number).getLsbD 0 = false
  settled : p.recordsSettling → ∃ before after,
    es = before ++ .clearBits Csr.enable.number 1 :: .settle 10 :: after ∧
      ∀ e ∈ after, e.target? ≠ some Csr.enable.number

/-- The instruction is issued directly and not by an operation of the driver. -/
def Op.IsDirect : Op → Prop
  | .read _ | .write _ _ | .setBits _ _ | .clearBits _ _ | .readAndClear _ | .settle _ => True
  | _ => False

section

variable (p : Recorder) (base size : Word)

theorem target?_pause (cycles : Word) : ∀ e ∈ pause p cycles, e.target? = none := by
  intro e he
  rw [pause, List.mem_ite_nil_right, List.mem_singleton] at he
  rw [he.2, Recorder.Entry.target?]

theorem getLsbD_disable (w : Word) : (w &&& ~~~enableBit).getLsbD 0 = false := by
  rw [BitVec.getLsbD_and, BitVec.getLsbD_not]
  exact Bool.and_false _

/-- Once the script has disabled the region and waited, it stays quiet until it is enabled. -/
theorem quiet_after_pause {front after : List Recorder.Entry}
    (hafter : ∀ e ∈ after, e.target? ≠ some Csr.enable.number) :
    Quiet p (front ++ .clearBits Csr.enable.number enableBit ::
      (pause p settleCycles ++ after)) := by
  constructor
  · rw [replay_append, replay_cons, replay_append, replay_of_target?_ne hafter,
      replay_of_target?_eq_none (target?_pause p settleCycles), Recorder.Entry.effect,
      Function.update_self]
    exact getLsbD_disable _
  · intro hrecords
    refine ⟨front, after, ?_, hafter⟩
    rw [pause, if_pos hrecords]
    rfl

/-- Each store to a bound comes after the region has been disabled and the core has waited. -/
def StoresQuietly (es : List Recorder.Entry) : Prop :=
  Each (fun before next ↦ StoresBound next → Quiet p before) es

/-- Programming stores quietly, whatever comes before it. -/
theorem storesQuietly_programming {front : List Recorder.Entry}
    (hfront : ∀ e ∈ front, ¬ StoresBound e) (on : Bool) :
    StoresQuietly p (front ++ (programming p base size ++ enabling on)) := by
  have hpause : ∀ e ∈ pause p settleCycles, ¬ StoresBound e :=
    fun e he ↦ not_storesBound_of_target? (target?_pause p settleCycles e he)
  have henabling : ∀ e ∈ enabling on, ¬ StoresBound e := by
    cases on <;> decide
  have hdisable : ¬ StoresBound (.clearBits Csr.enable.number enableBit) := by decide
  have hbase : ∀ e ∈ [Recorder.Entry.write Csr.base.number base],
      e.target? ≠ some Csr.enable.number := by
    rw [List.forall_mem_singleton]
    exact (by decide : some Csr.base.number ≠ some Csr.enable.number)
  refine each_append (each_of_not hfront) (each_append ?_ (each_of_not henabling))
  refine each_cons (fun hstore ↦ absurd hstore hdisable) (each_append (each_of_not hpause) ?_)
  refine each_cons ?_ (each_cons ?_ each_nil)
  · exact fun _ ↦ quiet_after_pause p (List.forall_mem_nil _)
  · exact fun _ ↦ quiet_after_pause p hbase

theorem storesQuietly_script {op : Op} (h : ¬ op.IsDirect) : StoresQuietly p (op.script p) := by
  cases op with
  | init base size on =>
      exact storesQuietly_programming p base size (List.forall_mem_nil _) on
  | reconfigure base size =>
      refine storesQuietly_programming p base size ?_ _
      exact List.forall_mem_singleton.mpr (by decide)
  | setKeys ks =>
      have hkey (slot : KeySlot) : some (Csr.key slot).number ≠ some Csr.base.number ∧
          some (Csr.key slot).number ≠ some Csr.size.number := by
        cases slot <;> decide
      refine each_of_not (List.forall_mem_map.mpr fun slot _ ↦ ?_)
      exact not_or.mpr (hkey slot)
  | enable | disable | isEnabled | config | keys =>
      refine each_of_not ?_
      rw [Op.script]
      decide
  | _ => exact absurd trivial h

/-! ## Operations that fail -/

/-- The region is disabled, its bounds are the old ones or, from the base on, the new ones, and all
else is as it was. -/
structure LeftDisabled (base size : Word) (values values' : Word → Word) : Prop where
  disabled : (values' Csr.enable.number).getLsbD 0 = false
  enable_eq : values' Csr.enable.number = values Csr.enable.number &&& ~~~1
  bounds_eq : (values' Csr.base.number, values' Csr.size.number) ∈
    [(values Csr.base.number, values Csr.size.number), (base, values Csr.size.number), (base, size)]
  rest_eq : ∀ n, n ≠ Csr.enable.number → n ≠ Csr.base.number → n ≠ Csr.size.number →
    values' n = values n

theorem leftDisabled_of_stored {stored : List Recorder.Entry}
    (h : stored <+: [.write Csr.base.number base, .write Csr.size.number size])
    (values : Word → Word) :
    LeftDisabled base size values (replay stored
      (Recorder.Entry.effect (.clearBits Csr.enable.number enableBit) values)) := by
  have htarget : ∀ e ∈ stored, StoresBound e := by
    intro e he
    have hmem := h.subset he
    rw [List.mem_pair] at hmem
    rcases hmem with rfl | rfl
    · exact .inl rfl
    · exact .inr rfl
  have hkept {n : Word} (hbase : n ≠ Csr.base.number) (hsize : n ≠ Csr.size.number)
      (values : Word → Word) : replay stored values n = values n := by
    refine replay_of_target?_ne (fun e he heq ↦ ?_) values
    rcases htarget e he with hb | hs
    · exact hbase (Option.some.inj (heq.symm.trans hb))
    · exact hsize (Option.some.inj (heq.symm.trans hs))
  have henable : replay stored (Recorder.Entry.effect (.clearBits Csr.enable.number enableBit)
      values) Csr.enable.number = values Csr.enable.number &&& ~~~1 := by
    rw [hkept (by decide) (by decide), Recorder.Entry.effect, Function.update_self]
    rfl
  refine ⟨?_, henable, ?_, ?_⟩
  · rw [henable]
    exact getLsbD_disable _
  · have hbe : Csr.base.number ≠ Csr.enable.number := by decide
    have hse : Csr.size.number ≠ Csr.enable.number := by decide
    have hbs : Csr.base.number ≠ Csr.size.number := by decide
    have hafter : stored = [] ∨ stored = [.write Csr.base.number base] ∨
        stored = [.write Csr.base.number base, .write Csr.size.number size] := by
      rw [List.prefix_cons_iff] at h
      rcases h with rfl | ⟨t, rfl, h⟩
      · exact .inl rfl
      rw [List.prefix_cons_iff] at h
      rcases h with rfl | ⟨u, rfl, h⟩
      · exact .inr (.inl rfl)
      · rw [List.prefix_nil.mp h]
        exact .inr (.inr rfl)
    rcases hafter with rfl | rfl | rfl
    · simp [Recorder.Entry.effect, hbe, hse]
    · simp [Recorder.Entry.effect, hse, hbs.symm]
    · simp [Recorder.Entry.effect, hbs]
  · intro n hne hbase hsize
    rw [hkept hbase hsize, Recorder.Entry.effect, Function.update_of_ne hne]

/-- A script that programs the region, cut anywhere before it enables it, has done nothing to the
registers or has left the region disabled. -/
theorem replay_of_prefix_programming {front es : List Recorder.Entry}
    (hfront : ∀ e ∈ front, e.target? = none) (hes : es <+: front ++ programming p base size)
    (values : Word → Word) :
    replay es values = values ∨ LeftDisabled base size values (replay es values) := by
  obtain ⟨tail, htail⟩ := hes
  rw [List.append_eq_append_iff] at htail
  rcases htail with ⟨rest, rfl, -⟩ | ⟨es, rfl, htail⟩
  · exact .inl (replay_of_target?_eq_none
      (fun e he ↦ hfront e (List.mem_append_left _ he)) values)
  rw [replay_append, replay_of_target?_eq_none hfront]
  rw [programming, List.cons_eq_append_iff] at htail
  rcases htail with ⟨rfl, -⟩ | ⟨es, rfl, htail⟩
  · exact .inl rfl
  refine .inr ?_
  rw [replay_cons]
  rw [List.append_eq_append_iff] at htail
  rcases htail with ⟨stored, rfl, hstored⟩ | ⟨rest, hpause, -⟩
  · rw [replay_append, replay_of_target?_eq_none (target?_pause p settleCycles)]
    exact leftDisabled_of_stored base size ⟨tail, hstored.symm⟩ values
  · have hsilent : ∀ e ∈ es, e.target? = none := by
      intro e he
      apply target?_pause p settleCycles
      rw [hpause]
      exact List.mem_append_left _ he
    rw [replay_of_target?_eq_none hsilent]
    exact leftDisabled_of_stored base size List.nil_prefix values

theorem script_eq_programming {op : Op} (h : op.bounds? = some (base, size)) :
    ∃ front on, op.script p = front ++ programming p base size ++ enabling on ∧
      ∀ e ∈ front, e.target? = none := by
  cases op with
  | init base' size' on =>
      cases h
      exact ⟨[], on, rfl, List.forall_mem_nil _⟩
  | reconfigure base' size' =>
      cases h
      refine ⟨[.read Csr.enable.number], _, (List.append_assoc _ _ _).symm, ?_⟩
      exact List.forall_mem_singleton.mpr rfl
  | _ => cases h

/-- An operation on the bounds that fails after the checks leaves the registers as they were or the
region disabled. -/
theorem left_of_failed {op : Op} {failure : Failure} (hop : op.bounds? = some (base, size))
    (hvalid : op.Valid) (hfailed : (step op p).answer = .error failure) :
    (step op p).state.value = p.value ∨
      LeftDisabled base size p.value (step op p).state.value := by
  obtain ⟨-, hvalue, hcut⟩ := cut_step op p
  rcases hcut with hthrough | hcut
  · obtain ⟨reply, hok⟩ := hthrough.answer_ok hvalid
    rw [Entry.of_outcome, hfailed] at hok
    cases hok
  obtain ⟨next, later, -, hwhole⟩ := hcut.whole_eq
  obtain ⟨front, on, hscript, hfront⟩ := script_eq_programming p base size hop
  have hsame : wholeTrace (.of step op p) = op.script p :=
    (wholeTrace_eq (follows_step p.reliable (check_of_valid hvalid))).1
  have hsplit := hwhole.symm.trans (hsame.trans hscript)
  -- Enabling the region takes one instruction at most, so the cut does not come after it.
  have hprefix : trace (.of step op p) <+: front ++ programming p base size := by
    apply List.prefix_of_prefix_length_le ⟨_, hsplit⟩ (List.prefix_append _ _)
    have hone : (enabling on).length ≤ 1 := by cases on <;> decide
    have hlength := congrArg List.length hsplit
    rw [List.length_append, List.length_append, List.length_cons] at hlength
    omega
  rw [Entry.of_outcome] at hvalue
  rw [hvalue]
  exact replay_of_prefix_programming p base size hfront hprefix p.value

end

/-! ## Sequences -/

/-- In any sequence of operations on a recording register file, each of them leaves the record that
it leaves where no instruction fails, up to the first instruction that does, and ends there with the
error of the file. One with invalid bounds does nothing. An operation of the driver stores to the
bounds only after it has disabled the region and the core has waited, and if it fails on valid
bounds, the registers are as they were or the region is left disabled. -/
theorem operations_cut_at_failures (p : Recorder) (ops : List Op) :
    ∀ e ∈ history step ops p,
      e.outcome.state.entries = e.before.entries ++ trace e ∧
      e.outcome.state.value = replay (trace e) e.before.value ∧
      (GetsThrough e ∨ IsCutShort e) ∧
      (¬ e.op.Valid → (∃ failure, e.outcome.answer = .error failure) ∧
        e.outcome.state = e.before) ∧
      (¬ e.op.IsDirect → StoresQuietly e.before (trace e)) ∧
      (∀ base size failure, e.op.bounds? = some (base, size) → e.op.Valid →
        e.outcome.answer = .error failure →
          e.outcome.state.value = e.before.value ∨
            LeftDisabled base size e.before.value e.outcome.state.value) := by
  intro e he
  obtain ⟨op, -, q, rfl⟩ := exists_of_mem_history step he
  obtain ⟨hentries, hvalue, hcut⟩ := cut_step op q
  refine ⟨hentries, hvalue, hcut, ?_, ?_, ?_⟩
  · intro hinvalid
    obtain ⟨failure, hcheck⟩ := check_of_not_valid hinvalid
    have hrefused := gives_step_of_check q hcheck
    exact ⟨⟨failure, hrefused.answer_eq⟩, hrefused.state_eq⟩
  · intro hdirect
    cases hcheck : op.check with
    | ok u => exact (storesQuietly_script q hdirect).cut (trace_prefix_script hcheck)
    | error failure =>
        have hnone : trace (.of step op q) = [] := by
          rw [trace, Entry.of_outcome, (gives_step_of_check q hcheck).state_eq]
          exact List.drop_length
        rw [hnone]
        exact each_nil
  · intro base size failure hop hvalid hfailed
    exact left_of_failed q base size hop hvalid hfailed

/-- The store to the size fails, after the region has been disabled and moved. -/
theorem init_cut_at_size :
    let p : Recorder := ⟨∅, 0, [4], .csrFault, true, []⟩
    let op : Op := .init 0x10000 0x1000 true
    let e : Step := .of step op (step .enable p).state
    e ∈ history step [.enable, op] p ∧ op.Valid ∧
    trace e = [.clearBits 0x202 1, .settle 10, .write 0x200 0x10000] ∧
    e.outcome.answer = .error .csrFault ∧
    e.outcome.state.value 0x200 = 0x10000 ∧ (e.outcome.state.value 0x202).getLsbD 0 = false := by
  intro p op e
  have htrace : trace e = [.clearBits 0x202 1, .settle 10, .write 0x200 0x10000] := by
    decide +kernel +revert
  have hanswer : e.outcome.answer = .error .csrFault := by decide +kernel +revert
  have hmoved : e.outcome.state.value 0x200 = 0x10000 := by decide +kernel +revert
  have hbefore : e.before.value 0x200 = 0 := by decide +kernel +revert
  have hmem : e ∈ history step [.enable, op] p := List.mem_cons_of_mem _ List.mem_cons_self
  have hvalid : op.Valid := by
    rintro base size ⟨⟩
    decide
  obtain ⟨-, -, -, -, -, hleft⟩ := operations_cut_at_failures p [.enable, op] e hmem
  refine ⟨hmem, hvalid, htrace, hanswer, hmoved, ?_⟩
  rcases hleft 0x10000 0x1000 .csrFault rfl hvalid hanswer with hkept | hdisabled
  · rw [hkept, hbefore] at hmoved
    exact absurd hmoved (by decide)
  · exact hdisabled.disabled

end Driver
end SecureZone
