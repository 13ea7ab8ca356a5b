import Mathlib.Data.List.Basic
import Mathlib.Logic.Function.Basic
import SecureZone.Driver.Recorder
import SecureZone.Proofs.Registers

/-!
# Scripts of the driver

On a recording register file an operation of the driver carries out a script, which the values of
the registers at its start determine. If none of the instructions of the script fails, all of it is
written down. Otherwise the operation ends at the first one that does, with the error of the file,
and what is written down is the script up to there.
-/

namespace SecureZone

open SecureZone.Action

namespace Recorder

variable {α β : Type}

/-! ## Entries -/

/-- Waiting is not an instruction. -/
def Entry.IsInstruction : Entry → Bool
  | .settle _ => false
  | .read _ | .write _ _ | .setBits _ _ | .clearBits _ _ => true

/-- What an entry does to the values of the registers. -/
def Entry.effect : Entry → (Word → Word) → Word → Word
  | .read _, values | .settle _, values => values
  | .write n v, values => Function.update values n v
  | .setBits n mask, values => Function.update values n (values n ||| mask)
  | .clearBits n mask, values => Function.update values n (values n &&& ~~~mask)

/-- The number of instructions on a list of entries. -/
def instructions (es : List Entry) : Nat := es.countP Entry.IsInstruction

/-- The values of the registers after a list of entries. -/
def replay : List Entry → (Word → Word) → Word → Word
  | [], values => values
  | e :: es, values => replay es (e.effect values)

@[simp] theorem replay_nil (values : Word → Word) : replay [] values = values := rfl

@[simp] theorem replay_cons (e : Entry) (es : List Entry) (values : Word → Word) :
    replay (e :: es) values = replay es (e.effect values) := rfl

theorem replay_append (es later : List Entry) (values : Word → Word) :
    replay (es ++ later) values = replay later (replay es values) := by
  induction es generalizing values with
  | nil => rfl
  | cons e es ih => exact ih (e.effect values)

theorem instructions_append (es later : List Entry) :
    instructions (es ++ later) = instructions es + instructions later :=
  List.countP_append

theorem value_put_eq (p : Recorder) (n v : Word) :
    (p.put n v).value = Function.update p.value n v := by
  funext m
  rw [value_put, Function.update_apply]
  exact if_congr eq_comm rfl rfl

/-! ## Carrying out a script -/

/-- All entries are carried out and written down on the way from `p` to `q`. -/
structure CarriedOut (es : List Entry) (p q : Recorder) : Prop where
  entries_eq : q.entries = p.entries ++ es
  value_eq : q.value = replay es p.value
  issued_eq : q.issued = p.issued + instructions es
  failing_eq : q.failing = p.failing
  failure_eq : q.failure = p.failure
  recordsSettling_eq : q.recordsSettling = p.recordsSettling

/-- No instruction among the entries has a number that fails. -/
def Spared (es : List Entry) (p : Recorder) : Prop :=
  ∀ k < instructions es, p.issued + k + 1 ∉ p.failing

theorem CarriedOut.nil (p : Recorder) : CarriedOut [] p p :=
  ⟨(List.append_nil _).symm, rfl, rfl, rfl, rfl, rfl⟩

theorem CarriedOut.append {es later : List Entry} {p q r : Recorder} (hq : CarriedOut es p q)
    (hr : CarriedOut later q r) : CarriedOut (es ++ later) p r where
  entries_eq := by rw [hr.entries_eq, hq.entries_eq, List.append_assoc]
  value_eq := by rw [hr.value_eq, hq.value_eq, replay_append]
  issued_eq := by rw [hr.issued_eq, hq.issued_eq, instructions_append, Nat.add_assoc]
  failing_eq := hr.failing_eq.trans hq.failing_eq
  failure_eq := hr.failure_eq.trans hq.failure_eq
  recordsSettling_eq := hr.recordsSettling_eq.trans hq.recordsSettling_eq

theorem Spared.append {es later : List Entry} {p q : Recorder} (hp : Spared es p)
    (hq : CarriedOut es p q) (hlater : Spared later q) : Spared (es ++ later) p := by
  intro k hk
  rw [instructions_append] at hk
  by_cases hlt : k < instructions es
  · exact hp k hlt
  · have hnumber := hlater (k - instructions es) (by omega)
    rw [hq.issued_eq, hq.failing_eq] at hnumber
    have hsum : p.issued + instructions es + (k - instructions es) + 1 = p.issued + k + 1 := by
      omega
    rwa [hsum] at hnumber

/-- From `p` the action follows a script. It gets through and gives the answer, or it stops with the
error of the file at the first instruction that fails, which is counted but not written down. -/
inductive Follows (x : Action Recorder Driver.Failure α) (p : Recorder) (es : List Entry)
    (answer : Except Driver.Failure α) : Prop where
  | through (spared : Spared es p) (done : CarriedOut es p (x p).state)
      (answered : (x p).answer = answer)
  | stopped (before : List Entry) (next : Entry) (later : List Entry) (q : Recorder)
      (split : es = before ++ next :: later) (instruction : next.IsInstruction)
      (spared : Spared before p) (fails : p.issued + instructions before + 1 ∈ p.failing)
      (done : CarriedOut before p q) (halted : (x p).state = { q with issued := q.issued + 1 })
      (answered : (x p).answer = .error p.failure)

namespace Follows

variable {x : Action Recorder Driver.Failure α} {p : Recorder} {es later : List Entry}

/-- An action that leaves the file alone follows the empty script. -/
theorem of_gives {answer : Except Driver.Failure α} (hx : Gives x p answer p) :
    Follows x p [] answer := by
  refine .through (fun k hk ↦ absurd hk (Nat.not_lt_zero k)) ?_ hx.answer_eq
  rw [hx.state_eq]
  exact .nil p

theorem of_agrees {y : Action Recorder Driver.Failure α} {answer : Except Driver.Failure α}
    (hy : Follows y p es answer) (hx : Gives x p (y p).answer (y p).state) :
    Follows x p es answer := by
  cases hy with
  | through hspared hdone hanswered =>
      refine .through hspared ?_ (hx.answer_eq.trans hanswered)
      rwa [hx.state_eq]
  | stopped before e rest q hsplit hinstruction hspared hfails hdone hhalted hanswered =>
      exact .stopped before e rest q hsplit hinstruction hspared hfails hdone
        (hx.state_eq.trans hhalted) (hx.answer_eq.trans hanswered)

/-- Looking first does not lengthen the script. -/
theorem bind_of_gives {y : Action Recorder Driver.Failure β} {b : β}
    {next : β → Action Recorder Driver.Failure α} {answer : Except Driver.Failure α}
    (hy : Gives y p (.ok b) p) (hnext : Follows (next b) p es answer) :
    Follows (y >>= next) p es answer :=
  hnext.of_agrees (hy.bind (gives_self (next b) p))

theorem bind {a : α} {next : α → Action Recorder Driver.Failure β}
    {answer : Except Driver.Failure β} (hx : Follows x p es (.ok a))
    (hnext : ∀ q, CarriedOut es p q → Follows (next a) q later answer) :
    Follows (x >>= next) p (es ++ later) answer := by
  cases hx with
  | through hspared hdone hanswered =>
      have hboth : Gives (x >>= next) p (next a (x p).state).answer (next a (x p).state).state :=
        Gives.bind ⟨hanswered, rfl⟩ (gives_self _ _)
      cases hnext _ hdone with
      | through hspared' hdone' hanswered' =>
          refine .through (hspared.append hdone hspared') ?_ (hboth.answer_eq.trans hanswered')
          rw [hboth.state_eq]
          exact hdone.append hdone'
      | stopped before e rest q hsplit hinstruction hspared' hfails hdone' hhalted hanswered' =>
          refine .stopped (es ++ before) e rest q ?_ hinstruction (hspared.append hdone hspared') ?_
            (hdone.append hdone') (hboth.state_eq.trans hhalted) ?_
          · rw [hsplit, List.append_assoc]
          · rw [hdone.issued_eq, hdone.failing_eq] at hfails
            rwa [instructions_append, ← Nat.add_assoc]
          · rw [hboth.answer_eq, hanswered', hdone.failure_eq]
  | stopped before e rest q hsplit hinstruction hspared hfails hdone hhalted hanswered =>
      have hfirst : Gives (x >>= next) p (.error p.failure) (x p).state :=
        Gives.bind_error ⟨hanswered, rfl⟩ next
      refine .stopped before e (rest ++ later) q ?_ hinstruction hspared hfails hdone
        (hfirst.state_eq.trans hhalted) hfirst.answer_eq
      rw [hsplit, List.append_assoc, List.cons_append]

theorem map {a : α} (hx : Follows x p es (.ok a)) (f : α → β) :
    Follows (f <$> x) p es (.ok (f a)) := by
  rw [map_eq_pure_bind, ← List.append_nil es]
  exact hx.bind fun q _ ↦ of_gives (Gives.pure (f a) q)

end Follows

/-! ## Instructions -/

/-- The change makes the effect of the entry on the registers and none on anything else. -/
structure Makes (change : Recorder → Recorder) (e : Entry) : Prop where
  value_eq : ∀ p, (change p).value = e.effect p.value
  rest_eq : ∀ p, change p = { p with registers := (change p).registers }

theorem makes_id (n : Word) : Makes id (.read n) := ⟨fun _ ↦ rfl, fun _ ↦ rfl⟩

theorem makes_put {e : Entry} (n : Word) (value : (Word → Word) → Word)
    (he : ∀ values, e.effect values = Function.update values n (value values)) :
    Makes (fun p ↦ p.put n (value p.value)) e :=
  ⟨fun p ↦ (value_put_eq p n _).trans (he _).symm, fun _ ↦ rfl⟩

theorem follows_issue {e : Entry} {change : Recorder → Recorder} (he : e.IsInstruction)
    (hchange : Makes change e) (n : Word) (p : Recorder) :
    Follows (issue e n change) p [e] (.ok (p.value n)) := by
  have hcount : instructions [e] = 1 := by
    rw [instructions, List.countP_singleton, if_pos he]
  by_cases hfails : p.issued + 1 ∈ p.failing
  · have hissue : issue e n change p =
        ⟨.error p.failure, { p with issued := p.issued + 1 }, []⟩ := if_pos hfails
    exact .stopped [] e [] p rfl he (fun k hk ↦ absurd hk (Nat.not_lt_zero k)) hfails (.nil p)
      (congrArg Outcome.state hissue) (congrArg Outcome.answer hissue)
  · let q : Recorder := { p with issued := p.issued + 1, entries := p.entries ++ [e] }
    have hissue : issue e n change p = ⟨.ok (p.value n), change q, []⟩ := if_neg hfails
    have hdone : CarriedOut [e] p (change q) := by
      rw [hchange.rest_eq q]
      refine ⟨rfl, ?_, ?_, rfl, rfl, rfl⟩
      · exact hchange.value_eq q
      · rw [hcount]
    refine .through ?_ ?_ (congrArg Outcome.answer hissue)
    · intro k hk
      rw [hcount, Nat.lt_one_iff] at hk
      rwa [hk, Nat.add_zero]
    · rw [congrArg Outcome.state hissue]
      exact hdone

section

variable (n : Word) (p : Recorder)

theorem follows_read : Follows (CsrFile.read n) p [.read n] (.ok (p.value n)) :=
  follows_issue rfl (makes_id n) n p

theorem follows_write (v : Word) : Follows (CsrFile.write n v) p [.write n v] (.ok ()) :=
  (follows_issue rfl (makes_put n (fun _ ↦ v) fun _ ↦ rfl) n p).map _

theorem follows_setBits (mask : Word) :
    Follows (CsrFile.setBits n mask) p [.setBits n mask] (.ok (p.value n)) :=
  follows_issue rfl (makes_put n (fun values ↦ values n ||| mask) fun _ ↦ rfl) n p

theorem follows_clearBits (mask : Word) :
    Follows (CsrFile.clearBits n mask) p [.clearBits n mask] (.ok (p.value n)) :=
  follows_issue rfl (makes_put n (fun values ↦ values n &&& ~~~mask) fun _ ↦ rfl) n p

/-- What a wait writes down, if the file records waits. -/
def pause (cycles : Word) : List Entry := if p.recordsSettling then [.settle cycles] else []

theorem follows_settle (cycles : Word) :
    Follows (.perform (CsrFile.settle cycles)) p (pause p cycles) (.ok ()) := by
  have hstate : ((Action.perform (CsrFile.settle cycles) : Action Recorder Driver.Failure Unit)
      p).state = if p.recordsSettling then { p with entries := p.entries ++ [.settle cycles] }
        else p := rfl
  refine .through ?_ ?_ rfl
  · have hnone : instructions (pause p cycles) = 0 := by
      cases h : p.recordsSettling <;> simp [pause, h, instructions, Entry.IsInstruction]
    intro k hk
    rw [hnone] at hk
    exact absurd hk (Nat.not_lt_zero k)
  · rw [hstate, pause]
    by_cases h : p.recordsSettling
    · rw [if_pos h, if_pos h]
      exact ⟨rfl, rfl, rfl, rfl, rfl, rfl⟩
    · rw [if_neg h, if_neg h]
      exact .nil p

end

end Recorder

/-! ## Operations of the driver -/

namespace Driver

open Recorder

/-- The failure of the checks that come before the first instruction. -/
def Op.check : Op → Except Failure Unit
  | .init base size _ | .reconfigure base size => validate base size
  | _ => .ok ()

/-- The script that disables the region, waits and writes its bounds. -/
def programming (p : Recorder) (base size : Word) : List Entry :=
  .clearBits Csr.enable.number enableBit ::
    (pause p settleCycles ++ [.write Csr.base.number base, .write Csr.size.number size])

/-- The script that enables the region if it should be on. -/
def enabling (on : Bool) : List Entry :=
  if on then [.setBits Csr.enable.number enableBit] else []

/-- The script of an operation whose arguments pass the checks. -/
def Op.script (p : Recorder) : Op → List Entry
  | .init base size on => programming p base size ++ enabling on
  | .reconfigure base size =>
    [.read Csr.enable.number] ++
      (programming p base size ++ enabling (hasEnable (p.value Csr.enable.number)))
  | .enable => enabling true
  | .disable => [.clearBits Csr.enable.number enableBit]
  | .isEnabled => [.read Csr.enable.number]
  | .config => [.read Csr.base.number, .read Csr.size.number, .read Csr.enable.number]
  | .setKeys ks => KeySlot.all.map fun slot ↦ .write (Csr.key slot).number (ks.get slot)
  | .keys => KeySlot.all.map fun slot ↦ .read (Csr.key slot).number
  | .read n => [.read n]
  | .write n v => [.write n v]
  | .setBits n mask => [.setBits n mask]
  | .clearBits n mask => [.clearBits n mask]
  | .readAndClear n => [.clearBits n (BitVec.allOnes 32)]
  | .settle cycles => pause p cycles

/-- The reply of an operation that gets through. -/
def Op.reply (p : Recorder) : Op → Reply
  | .isEnabled => .flag (hasEnable (p.value Csr.enable.number))
  | .config =>
    .config ⟨p.value Csr.base.number, p.value Csr.size.number,
      hasEnable (p.value Csr.enable.number)⟩
  | .keys =>
    .keys ⟨p.value (Csr.key .key0).number, p.value (Csr.key .key1).number,
      p.value (Csr.key .key2).number, p.value (Csr.key .key3).number⟩
  | .read n | .setBits n _ | .clearBits n _ | .readAndClear n => .word (p.value n)
  | _ => .done

section

variable (p : Recorder)

theorem follows_enable : Follows enable p (enabling true) (.ok ()) :=
  (follows_setBits _ p enableBit).map fun _ ↦ ()

theorem follows_disable : Follows disable p [.clearBits Csr.enable.number enableBit] (.ok ()) :=
  (follows_clearBits _ p enableBit).map fun _ ↦ ()

theorem follows_enable_if (on : Bool) :
    Follows (if on then enable else pure ()) p (enabling on) (.ok ()) := by
  cases on with
  | true => exact follows_enable p
  | false => exact .of_gives (Gives.pure () p)

theorem follows_isEnabled :
    Follows isEnabled p [.read Csr.enable.number]
      (.ok (hasEnable (p.value Csr.enable.number))) :=
  (follows_read _ p).map hasEnable

theorem follows_program (base size : Word) :
    Follows (program base size) p (programming p base size) (.ok ()) := by
  refine (follows_disable p).bind fun q hq ↦ ?_
  have hpause : pause p settleCycles = pause q settleCycles := by
    rw [pause, pause, hq.recordsSettling_eq]
  rw [hpause]
  refine (follows_settle q _).bind fun r _ ↦ ?_
  exact (follows_write _ r base).bind fun t _ ↦ follows_write _ t size

theorem follows_forEach {ι : Type} {body : ι → Action Recorder Failure Unit} {entry : ι → Entry}
    (hbody : ∀ i p, Follows (body i) p [entry i] (.ok ())) (is : List ι) :
    Follows (forEach body is) p (is.map entry) (.ok ()) := by
  induction is generalizing p with
  | nil => exact .of_gives (Gives.pure () p)
  | cons i is ih => exact (hbody i p).bind fun q _ ↦ ih q

theorem follows_init {base size : Word} (h : validate base size = .ok ()) (on : Bool) :
    Follows (init base size on) p (programming p base size ++ enabling on) (.ok ()) := by
  refine .bind_of_gives (gives_validate h p) ((follows_program p base size).bind fun q _ ↦ ?_)
  exact follows_enable_if q on

theorem follows_reconfigure {base size : Word} (h : validate base size = .ok ()) :
    Follows (reconfigure base size) p (Op.script p (.reconfigure base size)) (.ok ()) := by
  refine .bind_of_gives (gives_validate h p) ((follows_isEnabled p).bind fun q hq ↦ ?_)
  have hprogramming : programming p base size = programming q base size := by
    rw [programming, programming, pause, pause, hq.recordsSettling_eq]
  rw [hprogramming]
  refine (follows_program q base size).bind fun r _ ↦ ?_
  exact follows_enable_if r _

theorem follows_config :
    Follows config p ([.read Csr.base.number] ++ ([.read Csr.size.number] ++
        [.read Csr.enable.number]))
      (.ok ⟨p.value Csr.base.number, p.value Csr.size.number,
        hasEnable (p.value Csr.enable.number)⟩) := by
  refine (follows_read _ p).bind fun q hq ↦ ?_
  have hqp : q.value = p.value := hq.value_eq
  rw [← hqp]
  refine (follows_read _ q).bind fun r hr ↦ ?_
  have hrq : r.value = q.value := hr.value_eq
  rw [← hrq]
  exact (follows_isEnabled r).map _

theorem follows_keys :
    Follows keys p ([.read (Csr.key .key0).number] ++ ([.read (Csr.key .key1).number] ++
        ([.read (Csr.key .key2).number] ++ [.read (Csr.key .key3).number])))
      (.ok ⟨p.value (Csr.key .key0).number, p.value (Csr.key .key1).number,
        p.value (Csr.key .key2).number, p.value (Csr.key .key3).number⟩) := by
  refine (follows_read _ p).bind fun q hq ↦ ?_
  have hqp : q.value = p.value := hq.value_eq
  rw [← hqp]
  refine (follows_read _ q).bind fun r hr ↦ ?_
  have hrq : r.value = q.value := hr.value_eq
  rw [← hrq]
  refine (follows_read _ r).bind fun t ht ↦ ?_
  have htr : t.value = r.value := ht.value_eq
  rw [← htr]
  exact (follows_read _ t).map _

/-- An operation whose arguments pass the checks follows its script. -/
theorem follows_step {op : Op} (h : op.check = .ok ()) :
    Follows (step op) p (op.script p) (.ok (op.reply p)) := by
  cases op with
  | init base size on => exact (follows_init p h on).map _
  | reconfigure base size => exact (follows_reconfigure p h).map _
  | enable => exact (follows_enable p).map _
  | disable => exact (follows_disable p).map _
  | isEnabled => exact (follows_isEnabled p).map _
  | config => exact (follows_config p).map _
  | setKeys ks =>
      have hslots : Follows (setKeys ks) p (Op.script p (.setKeys ks)) (.ok ()) :=
        follows_forEach p (fun slot q ↦ follows_write _ q (ks.get slot)) KeySlot.all
      exact hslots.map _
  | keys => exact (follows_keys p).map _
  | read n => exact (follows_read n p).map _
  | write n v => exact (follows_write n p v).map _
  | setBits n mask => exact (follows_setBits n p mask).map _
  | clearBits n mask => exact (follows_clearBits n p mask).map _
  | readAndClear n => exact (follows_clearBits n p _).map _
  | settle cycles => exact (follows_settle p cycles).map _

theorem gives_step_of_check {op : Op} {failure : Failure} (h : op.check = .error failure) :
    Gives (step op) p (.error failure) p := by
  cases op with
  | init base size on => exact (gives_init_refused h on p).map _
  | reconfigure base size => exact (gives_reconfigure_refused h p).map _
  | _ => cases h

end

end Driver
end SecureZone
