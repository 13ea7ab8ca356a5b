import Mathlib.Data.List.Induction
import SecureZone.Proofs.Atomicity
import SecureZone.Proofs.Run

/-!
# The ledger of a register file

However a region is changed, by its setters, by instructions or by the driver, a change is a list of
writes to single registers, and an operation that fails makes none of them. The writes that were
accepted since the last reset are kept in a ledger. They determine every register, and since each of
them passed the check of its register, they keep the base aligned and the size a power of two.
-/

namespace SecureZone

open SecureZone.Action

namespace Region

/-! ## Lists of writes -/

/-- The region after its registers took some values, one after the other. -/
def applied (r : Region) (ws : List (Csr × Word)) : Region :=
  ws.foldl (fun r w ↦ r.withValue w.1 w.2) r

theorem applied_append (r : Region) (ws later : List (Csr × Word)) :
    r.applied (ws ++ later) = (r.applied ws).applied later := List.foldl_append

/-- After a list of writes a register shows the last value that the list has for it. -/
theorem get_applied (r : Region) (ws : List (Csr × Word)) (csr : Csr) :
    (r.applied ws).get csr = ((ws.reverse.lookup csr).map (shown csr)).getD (r.get csr) := by
  -- From the right, so that the write that is added is the first one that the lookup meets.
  induction ws using List.reverseRecOn with
  | nil => rfl
  | append_singleton ws w ih =>
      obtain ⟨other, value⟩ := w
      rw [applied_append, List.reverse_concat, List.lookup_cons]
      by_cases h : other = csr
      · subst h
        rw [beq_self_eq_true]
        exact get_withValue_self _ _ _
      · rw [beq_false_of_ne (Ne.symm h), ← ih]
        exact get_withValue_of_ne _ h _

theorem get_initial (csr : Csr) : initial.get csr = 0 := by
  cases csr with
  | key slot => cases slot <;> rfl
  | base | size | enable => rfl

/-! ## What an operation writes -/

/-- What an instruction writes: the operand, or the old value with the bits of the operand set or
cleared. A set or a clear without operand bits only reads. -/
def instructed (r : Region) (instruction : Csr.Instruction) (number operand : Word) :
    List (Csr × Word) :=
  match Csr.ofNumber? number, instruction with
  | none, _ => []
  | some csr, .readWrite => [(csr, operand)]
  | some csr, .readSet => if operand = 0 then [] else [(csr, r.get csr ||| operand)]
  | some csr, .readClear => if operand = 0 then [] else [(csr, r.get csr &&& ~~~operand)]

section

variable {r : Region} {csr : Csr} {instruction : Csr.Instruction} {number operand : Word}
  (hn : Csr.ofNumber? number = some csr)

include hn

theorem instructed_of_writes (h : instruction = .readWrite ∨ operand ≠ 0) :
    r.instructed instruction number operand =
      [(csr, instruction.combine (r.get csr) operand)] := by
  cases instruction with
  | readWrite => simp only [instructed, hn, Csr.Instruction.combine]
  | readSet | readClear =>
      simp only [instructed, hn, if_neg (h.resolve_left (by decide)), Csr.Instruction.combine]

theorem instructed_of_reads (h : ¬ (instruction = .readWrite ∨ operand ≠ 0)) :
    r.instructed instruction number operand = [] := by
  obtain ⟨hset, hzero⟩ := not_or.mp h
  cases instruction with
  | readWrite => exact absurd rfl hset
  | readSet | readClear => simp only [instructed, hn, if_pos (not_not.mp hzero)]

end

/-- What programming the bounds writes, ending with the region on or off. -/
def programmed (r : Region) (base size : Word) (on : Bool) : List (Csr × Word) :=
  [(.enable, r.get .enable &&& ~~~1), (.base, base), (.size, size)] ++
    if on then [(.enable, 1)] else []

end Region

open Region

/-- What an operation of the driver writes if it succeeds. -/
def Driver.Op.writes (r : Region) : Driver.Op → List (Csr × Word)
  | .init base size on => r.programmed base size on
  | .reconfigure base size => r.programmed base size r.enabled
  | .enable => [(.enable, r.get .enable ||| 1)]
  | .disable => [(.enable, r.get .enable &&& ~~~1)]
  | .setKeys ks => KeySlot.all.map fun slot ↦ (.key slot, ks.get slot)
  | .write number value => r.instructed .readWrite number value
  | .setBits number mask => r.instructed .readSet number mask
  | .clearBits number mask => r.instructed .readClear number mask
  | .readAndClear number => r.instructed .readClear number (BitVec.allOnes 32)
  | .isEnabled | .config | .keys | .read _ | .settle _ => []

namespace Region

/-- What an operation other than a reset writes if it succeeds. -/
def Op.writes (r : Region) : Op → List (Csr × Word)
  | .setBase base => [(.base, base)]
  | .setSize size => [(.size, size)]
  | .setEnabled on => [(.enable, if on then 1 else 0)]
  | .setKey slot key => [(.key slot, key)]
  | .setKeys ks => KeySlot.all.map fun slot ↦ (.key slot, ks.get slot)
  | .writeCsr number value => r.instructed .readWrite number value
  | .execCsr instruction number operand => r.instructed instruction number operand
  | .driver op => op.writes r
  | .reset | .snapshot | .readCsr _ => []

/-- From `r` the action fails and writes nothing, or it succeeds and makes all the writes, each of
which its register accepts. -/
inductive Makes {ε α : Type} (x : Action Region ε α) (r : Region) (ws : List (Csr × Word)) :
    Prop where
  | none (e : ε) (gives : Gives x r (.error e) r)
  | all (a : α) (gives : Gives x r (.ok a) (r.applied ws))
      (accepted : ∀ w ∈ ws, Accepts w.1 w.2)

namespace Makes

variable {ε ε' α β : Type} {x : Action Region ε α} {r : Region} {ws : List (Csr × Word)}

/-- An action that succeeds and changes nothing makes no writes. -/
theorem of_gives {a : α} (hx : Gives x r (.ok a) r) : Makes x r [] :=
  .all a hx (List.forall_mem_nil _)

theorem map (hx : Makes x r ws) (f : α → β) : Makes (f <$> x) r ws := by
  cases hx with
  | none e hgives => exact .none e (hgives.map f)
  | all a hgives haccepted => exact .all (f a) (hgives.map f) haccepted

theorem mapError (hx : Makes x r ws) (f : ε → ε') : Makes (x.mapError f) r ws := by
  cases hx with
  | none e hgives => exact .none (f e) (hgives.mapError f)
  | all a hgives haccepted => exact .all a (hgives.mapError f) haccepted

theorem bind_of_gives {y : Action Region ε β} {b : β} {next : β → Action Region ε α}
    (hy : Gives y r (.ok b) r) (hnext : Makes (next b) r ws) : Makes (y >>= next) r ws := by
  cases hnext with
  | none e hgives => exact .none e (hy.bind hgives)
  | all a hgives haccepted => exact .all a (hy.bind hgives) haccepted

theorem forDriver {x : Action Region Csr.Failure α} (hx : Makes x r ws) :
    Makes (forDriver x) r ws := by
  cases hx with
  | none failure hgives => exact .none failure.toDriver (gives_forDriver_error hgives)
  | all a hgives haccepted => exact .all a (gives_forDriver hgives) haccepted

end Makes

/-! ## One operation -/

section

variable (r : Region)

theorem makes_put (csr : Csr) (value : Word) : Makes (put csr value) r [(csr, value)] := by
  cases h : refusal? csr value with
  | none =>
      have haccepts := refusal?_eq_none_iff.mp h
      exact .all () (gives_put r csr haccepts) (List.forall_mem_singleton.mpr haccepts)
  | some refusal => exact .none refusal (gives_put_refused r csr h)

theorem makes_writeCsr (number value : Word) :
    Makes (writeCsr number value) r (r.instructed .readWrite number value) := by
  rw [writeCsr]
  cases hn : Csr.ofNumber? number with
  | none =>
      have hlocate : Gives (locate number) r (.error (.notImplemented number)) r := by
        rw [locate, hn]
        exact Gives.fail _ r
      exact .none _ (hlocate.bind_error _)
  | some csr =>
      obtain rfl := Csr.number_of_ofNumber? hn
      rw [instructed_of_writes hn (.inl rfl)]
      exact .bind_of_gives (gives_locate r csr) ((makes_put r csr value).mapError _)

theorem makes_execCsr (instruction : Csr.Instruction) (number operand : Word) :
    Makes (execCsr instruction number operand) r (r.instructed instruction number operand) := by
  rw [execCsr]
  cases hn : Csr.ofNumber? number with
  | none =>
      have hread : Gives (readCsr number) r (.error (.notImplemented number)) r := by
        rw [readCsr, locate, hn]
        exact (Gives.fail _ r).bind_error _
      exact .none _ (hread.bind_error _)
  | some csr =>
      obtain rfl := Csr.number_of_ofNumber? hn
      refine .bind_of_gives (gives_readCsr r csr) ?_
      -- A set or a clear without operand bits does not write at all, so nothing can refuse it.
      by_cases hwrites : instruction = .readWrite ∨ operand ≠ 0
      · have hwrite := makes_writeCsr r csr.number (instruction.combine (r.get csr) operand)
        rw [instructed_of_writes hn (.inl rfl)] at hwrite
        rw [if_pos hwrites, instructed_of_writes hn hwrites, ← map_eq_pure_bind]
        exact hwrite.map _
      · rw [if_neg hwrites, instructed_of_reads hn hwrites]
        exact .of_gives (Gives.pure _ r)

theorem makes_readCsr (number : Word) : Makes (readCsr number) r [] := by
  cases ha : (readCsr number r).answer with
  | ok value => exact .of_gives ⟨ha, state_readCsr r number⟩
  | error failure => exact .none failure ⟨ha, state_readCsr r number⟩

/-- Programming valid bounds is one write to each of them between two to the switch. -/
theorem applied_programmed {base size : Word} (hbase : ValidBase base) (hsize : ValidSize size)
    (on : Bool) :
    r.applied (r.programmed base size on) = { r with base := base, size := size, enabled := on } ∧
      ∀ w ∈ r.programmed base size on, Accepts w.1 w.2 := by
  constructor
  · cases he : r.enabled <;> cases on <;> simp [applied, programmed, withValue, Region.get, he]
  · cases on <;> simp [programmed, Accepts, hbase, hsize]

/-- An operation that checks its bounds and then programs them. -/
theorem makes_programmed {base size : Word} {on : Bool} {x : Action Region Driver.Failure Unit}
    (hvalid : ValidBase base → ValidSize size →
      Gives x r (.ok ()) { r with base := base, size := size, enabled := on })
    (hrefused : ∀ failure, Driver.validate base size = .error failure →
      Gives x r (.error failure) r) :
    Makes x r (r.programmed base size on) := by
  cases hv : Driver.validate base size with
  | ok u =>
      obtain ⟨hbase, hsize⟩ := Driver.valid_of_validate hv
      obtain ⟨happlied, haccepted⟩ := applied_programmed r hbase hsize on
      refine .all () ?_ haccepted
      rw [happlied]
      exact hvalid hbase hsize
  | error failure => exact .none failure (hrefused failure hv)

end

theorem makes_driver_step (r : Region) (op : Driver.Op) :
    Makes (Driver.step op : Action Region Driver.Failure Driver.Reply) r (op.writes r) := by
  cases op with
  | init base size on =>
      refine (makes_programmed r ?_ ?_).map _
      · exact fun hbase hsize ↦ Driver.gives_init r hbase hsize on
      · exact fun failure hv ↦ Driver.gives_init_refused hv on r
  | reconfigure base size =>
      refine (makes_programmed r ?_ ?_).map _
      · exact fun hbase hsize ↦ Driver.gives_reconfigure r hbase hsize
      · exact fun failure hv ↦ Driver.gives_reconfigure_refused hv r
  | enable => exact ((makes_execCsr r .readSet Csr.enable.number 1).forDriver.map _).map _
  | disable => exact ((makes_execCsr r .readClear Csr.enable.number 1).forDriver.map _).map _
  | setKeys ks =>
      refine Makes.map (.all () (Driver.gives_setKeys r ks) ?_) _
      exact List.forall_mem_map.mpr fun _ _ ↦ trivial
  | isEnabled => exact (Makes.of_gives (Driver.gives_isEnabled r)).map _
  | config => exact (Makes.of_gives (Driver.gives_config r)).map _
  | keys => exact (Makes.of_gives (Driver.gives_keys r)).map _
  | read number => exact (makes_readCsr r number).forDriver.map _
  | write number value => exact (makes_writeCsr r number value).forDriver.map _
  | setBits number mask => exact (makes_execCsr r .readSet number mask).forDriver.map _
  | clearBits number mask => exact (makes_execCsr r .readClear number mask).forDriver.map _
  | readAndClear number => exact (makes_execCsr r .readClear number _).forDriver.map _
  | settle cycles => exact (Makes.of_gives (Gives.perform _ r)).map _

theorem makes_step (r : Region) {op : Op} (h : op ≠ .reset) :
    Makes (step op) r (op.writes r) := by
  cases op with
  | setBase base => exact ((makes_put r .base base).mapError _).map _
  | setSize size => exact ((makes_put r .size size).mapError _).map _
  | setEnabled on =>
      refine Makes.map (.all () ⟨rfl, ?_⟩ ?_) _
      · cases on <;> rfl
      · exact List.forall_mem_singleton.mpr trivial
  | setKey slot key =>
      refine Makes.map (.all () (Gives.perform _ r) ?_) _
      exact List.forall_mem_singleton.mpr trivial
  | setKeys ks =>
      refine Makes.map (.all () (Gives.perform _ r) ?_) _
      exact List.forall_mem_map.mpr fun _ _ ↦ trivial
  | reset => exact absurd rfl h
  | snapshot => exact (Makes.of_gives (Gives.get r)).map _
  | readCsr number => exact ((makes_readCsr r number).mapError _).map _
  | writeCsr number value => exact ((makes_writeCsr r number value).mapError _).map _
  | execCsr instruction number operand =>
      exact ((makes_execCsr r instruction number operand).mapError _).map _
  | driver op => exact ((makes_driver_step r op).mapError _).map _

/-! ## The ledger of a run -/

/-- The ledger after one more step: a reset clears it, and an operation that succeeds adds what it
wrote. -/
def entered (log : List (Csr × Word)) (e : Entry Op Region Failure Reply) : List (Csr × Word) :=
  if e.op = .reset then []
  else match e.outcome.answer with
    | .ok _ => log ++ e.op.writes e.before
    | .error _ => log

/-- The accepted writes of a run since its last reset, oldest first. -/
def ledger (ops : List Op) : List (Csr × Word) := (history step ops initial).foldl entered []

/-- The list accounts for the region: but for these writes, each of which was accepted, the region
is new. -/
structure Accounts (log : List (Csr × Word)) (r : Region) : Prop where
  region_eq : r = initial.applied log
  accepted : ∀ w ∈ log, Accepts w.1 w.2

theorem Accounts.step {log : List (Csr × Word)} {r : Region} (hr : Accounts log r) (op : Op) :
    Accounts (entered log (.of step op r)) (step op r).state := by
  by_cases hreset : op = .reset
  · subst hreset
    exact ⟨rfl, List.forall_mem_nil _⟩
  · rw [entered, Entry.of_op, if_neg hreset, Entry.of_outcome, Entry.of_before]
    cases makes_step r hreset with
    | none failure hgives =>
        rw [hgives.answer_eq, hgives.state_eq]
        exact hr
    | all reply hgives haccepted =>
        rw [hgives.answer_eq, hgives.state_eq]
        refine ⟨?_, ?_⟩
        · rw [applied_append, ← hr.region_eq]
        · exact List.forall_mem_append.mpr ⟨hr.accepted, haccepted⟩

theorem Accounts.run {log : List (Csr × Word)} {r : Region} (hr : Accounts log r) (ops : List Op) :
    Accounts ((history Region.step ops r).foldl entered log) (final Region.step ops r) := by
  induction ops generalizing log r with
  | nil => exact hr
  | cons op ops ih => exact ih (hr.step op)

theorem accounts_ledger (ops : List Op) : Accounts (ledger ops) (final step ops initial) :=
  Accounts.run ⟨rfl, List.forall_mem_nil _⟩ ops

/-- What a register that was reset shows after a list of writes. -/
def lastWrite (log : List (Csr × Word)) (csr : Csr) : Word :=
  ((log.reverse.lookup csr).map (shown csr)).getD 0

namespace Accounts

variable {log : List (Csr × Word)} {r : Region}

theorem get_eq (hr : Accounts log r) (csr : Csr) : r.get csr = lastWrite log csr := by
  rw [hr.region_eq, get_applied, get_initial, lastWrite]

theorem mem_of_lookup {csr : Csr} {value : Word} (h : log.reverse.lookup csr = some value) :
    (csr, value) ∈ log := by
  obtain ⟨front, rest, hsplit, -⟩ := List.lookup_eq_some_iff.mp h
  rw [← List.mem_reverse, hsplit]
  exact List.mem_append_right _ List.mem_cons_self

theorem validBase (hr : Accounts log r) : ValidBase r.base := by
  have hbase : r.base = lastWrite log .base := hr.get_eq .base
  rw [hbase, lastWrite]
  cases hlast : log.reverse.lookup .base with
  | none => exact (by decide : ValidBase 0)
  | some value => exact hr.accepted _ (mem_of_lookup hlast)

/-- The size is zero until it is written, and from then on a power of two. -/
theorem size_cases (hr : Accounts log r) :
    (r.size = 0 ∧ ∀ w ∈ log, w.1 ≠ .size) ∨ (ValidSize r.size ∧ ∃ w ∈ log, w.1 = .size) := by
  have hsize : r.size = lastWrite log .size := hr.get_eq .size
  rw [hsize, lastWrite]
  cases hlast : log.reverse.lookup .size with
  | none =>
      refine .inl ⟨rfl, fun w hw heq ↦ ?_⟩
      have hne := List.lookup_eq_none_iff.mp hlast w (List.mem_reverse.mpr hw)
      exact bne_iff_ne.mp hne heq.symm
  | some value =>
      have hmem := mem_of_lookup hlast
      exact .inr ⟨hr.accepted _ hmem, _, hmem, rfl⟩

end Accounts

theorem ne_zero_of_validSize {size : Word} (h : ValidSize size) : size ≠ 0 := by
  rintro rfl
  exact absurd (Nat.pos_of_isPowerOfTwo h) (Nat.lt_irrefl 0)

theorem not_contains_of_empty {r : Region} (h : r.size = 0) (a : Word) : ¬ r.Contains a := by
  rintro ⟨-, -, hlt⟩
  rw [h] at hlt
  exact BitVec.not_lt_zero hlt

/-- After any operations on a new region, whether they were accepted or not, every register reads as
the last value that was accepted for it since the last reset, or as zero. The base is aligned, the
size is a power of two once a size was accepted and zero before, and an empty region has no
addresses even if it is enabled. -/
theorem registers_show_last_writes (ops : List Op) :
    let r := final step ops initial
    r.base.toNat % 4 = 0 ∧
    (r.size = 0 ∨ r.size.toNat.isPowerOfTwo) ∧
    (r.size = 0 ↔ ∀ w ∈ ledger ops, w.1 ≠ .size) ∧
    (readCsr Csr.enable.number r).answer = .ok (if r.enabled then 1 else 0) ∧
    (r.size = 0 → ∀ a, ¬ r.Contains a) ∧
    ∀ csr, (readCsr csr.number r).answer = .ok (lastWrite (ledger ops) csr) := by
  intro r
  have hr : Accounts (ledger ops) r := accounts_ledger ops
  refine ⟨hr.validBase, ?_, ?_, (gives_readCsr r .enable).answer_eq, ?_, ?_⟩
  · rcases hr.size_cases with ⟨hzero, -⟩ | ⟨hvalid, -⟩
    · exact .inl hzero
    · exact .inr hvalid
  · rcases hr.size_cases with ⟨hzero, hnone⟩ | ⟨hvalid, w, hw, hsize⟩
    · exact iff_of_true hzero hnone
    · exact iff_of_false (ne_zero_of_validSize hvalid) fun hnone ↦ hnone w hw hsize
  · exact not_contains_of_empty
  · intro csr
    rw [← hr.get_eq csr]
    exact (gives_readCsr r csr).answer_eq

/-- Writes before a reset and a refused size are not entered, a set instruction is with the bits
that it sets. -/
theorem registers_after_refusals :
    let ops : List Op := [.setSize 16, .reset, .setSize 24, .writeCsr 0x203 5,
      .execCsr .readSet 0x203 2, .execCsr .readClear 0x203 4, .driver (.init 0x20 0x10 true)]
    let r := final step ops initial
    ledger ops = [(.key .key0, 5), (.key .key0, 7), (.key .key0, 3), (.enable, 0), (.base, 0x20),
      (.size, 0x10), (.enable, 1)] ∧
    (readCsr 0x203 r).answer = .ok 3 ∧ (readCsr 0x201 r).answer = .ok 0x10 ∧ r.size ≠ 0 := by
  intro ops r
  have hledger : ledger ops = [(.key .key0, 5), (.key .key0, 7), (.key .key0, 3), (.enable, 0),
      (.base, 0x20), (.size, 0x10), (.enable, 1)] := by
    decide +kernel +revert
  obtain ⟨-, -, hempty, -, -, hread⟩ := registers_show_last_writes ops
  rw [hledger] at hempty hread
  refine ⟨hledger, hread (.key .key0), hread .size, fun hzero ↦ ?_⟩
  exact hempty.mp hzero (.size, 0x10) (by decide) rfl

end Region
end SecureZone
