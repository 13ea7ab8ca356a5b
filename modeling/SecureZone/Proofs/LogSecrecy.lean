import Mathlib.Data.List.Forall2
import SecureZone.Proofs.Scenarios
import SecureZone.Proofs.Twins
import SecureZone.Scenario.Operation

/-!
# The log keeps the memory to itself

Two memories of one size may hold any bytes, and still the interceptors in front of them report the
same, fail at the same steps with the same errors and stay in the same state. Only an operation that
answers with a word of the memory can tell them apart. The scenarios read the memory as well, but
they read back what they have written.
-/

namespace SecureZone

open SecureZone.Action Comparison

/-! ## Operations that answer with a word of the memory -/

/-- A successful answer holds a word of the memory. -/
def Bus.Op.Loads : Op → Prop
  | .load .. => True
  | _ => False

@[inherit_doc Bus.Op.Loads]
def Interceptor.Op.Loads : Op → Prop
  | .bus op | .memory op => op.Loads
  | .transact request => request.direction = .load
  | _ => False

@[inherit_doc Bus.Op.Loads]
def Scenario.Op.Loads : Op → Prop
  | .zone op => op.Loads
  | _ => False

/-! ## Memories -/

namespace Ram

/-- The memories have one size. -/
def sized : Comparison Ram Ram := .ofStates fun ram ram' ↦ ram'.size = ram.size

variable {ram ram' : Ram}

section

variable {α : Type} {R : α → α → Prop} {x : Action Ram Fault α} {size : Size} {a : Word}
  {direction : Direction}

/-- What a memory refuses depends on the address and on where the memory ends, so the access is
refused on both sides or on none. -/
theorem alike_of_refusal (h : sized.States ram ram')
    (hrefused : ∀ (m : Ram) (cause : Fault.Cause), m.refusal? size a = some cause →
      x m = ⟨.error ⟨direction, cause⟩, m, []⟩)
    (haccepted : ∀ m : Ram, m.refusal? size a = none →
      ∃ v m', x m = ⟨.ok v, m', []⟩ ∧ m'.size = m.size)
    (hvalues : ∀ v v', R v v') : sized.Alike R x x ram ram' := by
  have hrefusal : ram'.refusal? size a = ram.refusal? size a := by rw [refusal?, refusal?, h]
  cases hm : ram.refusal? size a with
  | some cause =>
      exact .of_error (hrefused ram cause hm) (hrefused ram' cause (hrefusal.trans hm)) h rfl
  | none =>
      obtain ⟨v, m, hx, hsize⟩ := haccepted ram hm
      obtain ⟨v', m', hx', hsize'⟩ := haccepted ram' (hrefusal.trans hm)
      exact .of_ok hx hx' (hvalues v v') (hsize'.trans (h.trans hsize.symm)) rfl

end

theorem alike_load (h : sized.States ram ram') (size : Size) (a : Word) :
    sized.Alike (fun _ _ ↦ True) (load size a) (load size a) ram ram' :=
  alike_of_refusal h (fun _ _ hm ↦ load_of_refused hm)
    (fun _ hm ↦ ⟨_, _, load_of_accepted hm, rfl⟩) fun _ _ ↦ trivial

theorem alike_store (h : sized.States ram ram') (size : Size) (a data : Word) :
    sized.Alike Eq (store size a data) (store size a data) ram ram' :=
  alike_of_refusal h (fun _ _ hm ↦ store_of_refused hm data)
    (fun _ hm ↦ ⟨_, _, store_of_accepted hm data, size_setLanes _ _ _ _⟩) fun _ _ ↦ rfl

theorem alike_storeLanes (h : sized.States ram ram') (a data : Word) (strobe : Strobe) :
    sized.Alike Eq (storeLanes a data strobe) (storeLanes a data strobe) ram ram' :=
  alike_of_refusal h (fun _ _ hm ↦ storeLanes_of_refused hm data strobe)
    (fun _ hm ↦ ⟨_, _, storeLanes_of_accepted hm data strobe, size_setLanes _ _ _ _⟩)
    fun _ _ ↦ rfl

theorem alike_step (h : sized.States ram ram') (op : Bus.Op) :
    sized.Alike (EqUnless op.Loads) (Bus.step op) (Bus.step op) ram ram' := by
  cases op with
  | load size a => exact (alike_load h size a).map fun _ _ _ ↦ .inl trivial
  | store size a data => exact (alike_store h size a data).map fun _ _ _ ↦ .inr rfl
  | storeLanes a data strobe =>
      exact (alike_storeLanes h a data strobe).map fun _ _ _ ↦ .inr rfl
  | warmReset =>
      have hreset : sized.Alike Eq (.perform Bus.warmReset : Action Ram Fault Unit)
          (.perform Bus.warmReset) ram ram' := .perform h rfl
      exact hreset.map fun _ _ _ ↦ .inr rfl

theorem alike_serve (h : sized.States ram ram') (request : Request) :
    sized.Alike (EqUnless (request.direction = .load)) (Interceptor.serve request)
      (Interceptor.serve request) ram ram' := by
  obtain ⟨direction, a, data, strobe⟩ := request
  cases direction with
  | load => exact (alike_load h .word a).mono fun _ _ _ ↦ .inl rfl
  | store => exact (alike_storeLanes h a data strobe).map fun _ _ _ ↦ .inr rfl

end Ram

/-! ## Interceptors -/

namespace Interceptor

/-- The interceptors differ in the bytes of their memories at most. -/
def bytesApart : Comparison (Interceptor Ram) (Interceptor Ram) :=
  .ofStates fun z z' ↦ ∃ ram : Ram, ram.size = z.memory.size ∧ z' = { z with memory := ram }

namespace BytesApart

theorem twins : Twins bytesApart where
  reports _ := rfl
  handshake_eq := by
    rintro z _ ⟨ram, -, rfl⟩
    rfl
  moved := by
    rintro z _ ⟨ram, hram, rfl⟩ handshake
    exact ⟨ram, hram, rfl⟩

variable {ε α : Type} {z z' : Interceptor Ram}

theorem alike_onMemory {R : α → α → Prop} {x y : Action Ram ε α}
    (h : ∀ ram ram', Ram.sized.States ram ram' → Ram.sized.Alike R x y ram ram')
    (hz : bytesApart.States z z') : bytesApart.Alike R (onMemory x) (onMemory y) z z' := by
  obtain ⟨ram, hram, rfl⟩ := hz
  exact (h z.memory ram hram).onPart (fun m m' hm ↦ ⟨m', hm, rfl⟩) fun _ _ ↦ id

/-- The registers are the same on both sides, so whatever they do is the same. -/
theorem alike_onRegion (x : Action Region ε α) (hz : bytesApart.States z z') :
    bytesApart.Alike Eq (onRegion x) (onRegion x) z z' := by
  obtain ⟨ram, hram, rfl⟩ := hz
  refine .onPart (.refl x z.region) ?_ fun _ _ ↦ id
  rintro r _ rfl
  exact ⟨ram, hram, rfl⟩

theorem pending_eq (hz : bytesApart.States z z') (request : Request) :
    Pending.of z.mode z.region request = Pending.of z'.mode z'.region request := by
  obtain ⟨ram, -, rfl⟩ := hz
  rfl

theorem alike_transact (hz : bytesApart.States z z') (request : Request) :
    bytesApart.Alike (EqUnless (request.direction = .load)) (transact request) (transact request)
      z z' := by
  refine twins.transact hz (fun _ _ ↦ pending_eq hz request) fun f hf u v huv ↦ ?_
  rw [← hf]
  exact alike_onMemory (fun ram ram' h ↦ Ram.alike_serve h f) huv

theorem loads_of_access? {op : Bus.Op} {request : Request} (h : access? op = some request)
    (hload : request.direction = .load) : op.Loads := by
  cases op with
  | load size a => exact trivial
  | store size a data =>
      obtain ⟨-, hrequest⟩ := Option.ite_none_right_eq_some.mp h
      rw [← Option.some.inj hrequest] at hload
      cases hload
  | storeLanes a data strobe =>
      obtain ⟨-, hrequest⟩ := Option.ite_none_right_eq_some.mp h
      rw [← Option.some.inj hrequest] at hload
      cases hload
  | warmReset => cases h

theorem alikeAccess (hz : bytesApart.States z z') (op : Bus.Op) :
    AlikeAccess bytesApart op.Loads op z z' := by
  intro request hrequest
  exact (alike_transact hz request).mono fun _ _ h ↦ h.imp (loads_of_access? hrequest)

theorem alike_warmReset (hz : bytesApart.States z z') :
    bytesApart.Alike Eq (.perform Bus.warmReset : Action (Interceptor Ram) ε Unit)
      (.perform Bus.warmReset) z z' := by
  obtain ⟨ram, hram, rfl⟩ := hz
  exact .perform ⟨ram, hram, rfl⟩ rfl

theorem alike_step (hz : bytesApart.States z z') (op : Op) :
    bytesApart.Alike (EqUnless op.Loads) (step op) (step op) z z' := by
  cases op with
  | bus op =>
      have hstep := alike_bus_step hz (alikeAccess hz op) (alike_warmReset hz)
      exact (hstep.mapError _).map fun _ _ h ↦ h.map _
  | issue request =>
      have hissue := twins.issue hz fun _ _ ↦ pending_eq hz request
      exact (hissue.mapError _).map fun _ _ h ↦ .of_eq _ (congrArg _ h.1)
  | complete data =>
      have hcomplete := twins.complete (p := False) hz (.of_eq False (rfl : data = data))
      exact (hcomplete.mapError _).map fun _ _ h ↦ h.map _
  | abort => exact (twins.abort hz).map fun _ _ _ ↦ .of_eq _ rfl
  | transact request => exact ((alike_transact hz request).mapError _).map fun _ _ h ↦ h.map _
  | region op => exact (alike_onRegion _ hz).map fun _ _ h ↦ .of_eq _ (congrArg _ h)
  | memory op =>
      have hstep :=
        alike_onMemory (fun ram ram' h ↦ (Ram.alike_step h op).mapError OpFailure.bus) hz
      exact hstep.map fun _ _ h ↦ h.map _

end BytesApart

end Interceptor

/-! ## Scenarios -/

section

open Interceptor BytesApart

variable {z z' : Interceptor Ram}

theorem Image.alike_run (hz : bytesApart.States z z') (base : Word) (n : Nat) :
    bytesApart.Alike Eq (run base n) (run base n) z z' := by
  have hwrite (i : Nat) (u v : Interceptor Ram) (h : bytesApart.States u v) :=
    alike_store h (alikeAccess h (.store .word (address base i) (word i)))
  have hread (i : Nat) (u v : Interceptor Ram) (h : bytesApart.States u v) :
      bytesApart.Alike (EqUnless True) (Bus.load .word (address base i))
        (Bus.load .word (address base i)) u v :=
    alike_load h (alikeAccess h (.load .word (address base i)))
  have hreports : bytesApart.Alike (fun _ _ ↦ True) (run base n) (run base n) z z' := by
    refine (Alike.tabulate hwrite n hz).bind fun _ _ _ z₁ z₁' h₁ ↦ ?_
    refine (Alike.report h₁ rfl).bind fun _ _ _ z₂ z₂' h₂ ↦ ?_
    refine (Alike.tabulate hread n h₂).bind fun _ _ _ z₃ z₃' h₃ ↦ ?_
    exact (Alike.get h₃).bind fun _ _ _ z₄ z₄' h₄ ↦ .pure h₄ trivial
  -- What is read back was written before, so the reports cannot differ either.
  refine hreports.sharpen fun r r' hr hr' _ ↦ ?_
  obtain ⟨ram, -, rfl⟩ := hz
  exact (eq_faithful_of_ok hr).trans (eq_faithful_of_ok hr').symm

theorem Passthrough.alike_run (hz : bytesApart.States z z') (a : Word) :
    bytesApart.Alike Eq (run a) (run a) z z' := by
  have hreports : bytesApart.Alike (fun _ _ ↦ True) (run a) (run a) z z' := by
    refine (alike_store hz (alikeAccess hz _)).bind fun _ _ _ z₁ z₁' h₁ ↦ ?_
    refine (alike_load h₁ (alikeAccess h₁ _)).bind fun _ _ _ z₂ z₂' h₂ ↦ ?_
    exact (Alike.get h₂).bind fun _ _ _ z₃ z₃' h₃ ↦ .pure h₃ trivial
  refine hreports.sharpen fun r r' hr hr' _ ↦ ?_
  obtain ⟨ram, -, rfl⟩ := hz
  exact (eq_of_ok hr).trans (eq_of_ok hr').symm

end

namespace Scenario

open Interceptor

theorem alike_step {z z' : Interceptor Ram} (hz : bytesApart.States z z') (op : Op) :
    bytesApart.Alike (EqUnless op.Loads) (step op) (step op) z z' := by
  cases op with
  | zone op => exact (BytesApart.alike_step hz op).map fun _ _ h ↦ h.map _
  | image base words =>
      exact ((Image.alike_run hz base words).mapError _).map fun _ _ h ↦ .of_eq _ (congrArg _ h)
  | passthrough a =>
      exact ((Passthrough.alike_run hz a).mapError _).map fun _ _ h ↦ .of_eq _ (congrArg _ h)

/-- Whatever two memories of one size hold, the same operations on new interceptors in front of them
report the same at every step, succeed or fail alike, and leave the same handshake, registers and
mode. Only the words that a load answers with can differ. So no word of the memory, encrypted or
decrypted, is ever reported. -/
theorem log_hides_memory (mode : Keystream.Mode) {ram ram' : Ram} (hsize : ram'.size = ram.size)
    (ops : List Op) :
    List.Forall₂
      (fun e e' ↦ e.op = e'.op ∧ e.outcome.events = e'.outcome.events ∧
        Answers (EqUnless e.op.Loads) e.outcome.answer e'.outcome.answer ∧
        (e.outcome.state.IsIdle ↔ e'.outcome.state.IsIdle) ∧
        e.outcome.state.handshake = e'.outcome.state.handshake ∧
        e.outcome.state.region = e'.outcome.state.region ∧
        e.outcome.state.mode = e'.outcome.state.mode ∧
        e.outcome.state.memory.size = e'.outcome.state.memory.size)
      (history step ops (new mode ram)) (history step ops (new mode ram')) := by
  have hnew : bytesApart.States (new mode ram) (new mode ram') := ⟨ram', hsize, rfl⟩
  refine history_forall₂ hnew fun op _ z z' hz ↦ ?_
  have halike := alike_step hz op
  obtain ⟨m, hm, hstate⟩ := halike.states
  refine ⟨halike.states, rfl, halike.reports, halike.answers, ?_⟩
  rw [Entry.of_outcome, Entry.of_outcome, hstate]
  exact ⟨Iff.rfl, rfl, rfl, rfl, hm.symm⟩

/-- One memory is zero and one is not. A load tells them apart, and nothing else does. -/
theorem log_over_two_memories :
    let ops : List Op := [.zone (.region (.driver (.init 0 8 true))), .zone (.bus (.load .half 2)),
      .image 4 1, .passthrough 8]
    let ram := Ram.zeroed 8
    let ram' := Ram.ofBytes [1, 2, 3, 4, 5, 6, 7, 8]
    let run (ram : Ram) := history step ops (new .address ram)
    ram'.size = ram.size ∧
    (run ram).map (·.outcome.events) = (run ram').map (·.outcome.events) ∧
    ((run ram).map (·.outcome.answer))[1]? = some (.ok (.zone (.bus (.word 0xDEAD)))) ∧
    ((run ram').map (·.outcome.answer))[1]? = some (.ok (.zone (.bus (.word 0xDAAE)))) := by
  intro ops ram ram' run
  have hsize : ram'.size = ram.size := by decide +kernel +revert
  refine ⟨hsize, ?_, by decide +kernel +revert, by decide +kernel +revert⟩
  have hsame := log_hides_memory .address hsize ops
  rw [← List.forall₂_eq_eq_eq, List.forall₂_map_left_iff, List.forall₂_map_right_iff]
  exact hsame.imp fun _ _ h ↦ h.2.1

end Scenario

end SecureZone
