import Mathlib.Data.List.Basic
import SecureZone.Bus.Scripted
import SecureZone.Proofs.AtRest
import SecureZone.Proofs.Moves
import SecureZone.Proofs.Outcome

/-!
# Transfers to memory

The traffic behind an interceptor is determined by the accesses in front of it. An aligned access
that finds the interceptor idle becomes one transfer of a whole word, under the mask that is in
force then, and its answer is made from the reply of the memory. A warm reset is passed on, and
everything else stays in front. A scripted memory hears exactly this, in order, and gives up one
queued word for each load.
-/

namespace SecureZone

open SecureZone.Action

/-! ## Words and strobes by their lanes -/

/-- The word that holds the given byte in each of its lanes. -/
def Word.ofLanes (byte : Nat → Byte) : Word := ofBytes ((List.range 4).map byte)

theorem Word.byte_ofLanes (byte : Nat → Byte) {lane : Nat} (hl : lane < 4) :
    (ofLanes byte).byte lane = byte lane := by
  rw [ofLanes, byte_ofBytes _ hl]
  simp [List.getD_eq_getElem?_getD, hl]

theorem Word.eq_ofLanes {w : Word} {byte : Nat → Byte} (h : ∀ lane < 4, w.byte lane = byte lane) :
    w = ofLanes byte := by
  apply ext_byte
  intro lane hl
  rw [h lane hl, byte_ofLanes byte hl]

/-- The strobe of the lanes that are covered. -/
def Strobe.ofLanes (covers : Nat → Bool) : Strobe :=
  BitVec.ofBoolListLE [covers 0, covers 1, covers 2, covers 3]

theorem Strobe.eq_ofLanes {strobe : Strobe} {covers : Nat → Bool}
    (h : ∀ lane < 4, strobe.Selects lane ↔ covers lane) : strobe = ofLanes covers := by
  apply BitVec.eq_of_getLsbD_eq
  intro lane hl
  have hbit : (ofLanes covers).getLsbD lane = covers lane := by
    rw [ofLanes, BitVec.getLsbD_ofBoolListLE]
    obtain rfl | rfl | rfl | rfl : lane = 0 ∨ lane = 1 ∨ lane = 2 ∨ lane = 3 := by omega
    all_goals rfl
  rw [hbit]
  exact Bool.eq_iff_iff.mpr (h lane hl)

theorem Strobe.forAccess_eq_ofLanes {size : Size} {a : Word} (h : size.Aligned a) :
    forAccess size a = ofLanes fun lane ↦ a.lane ≤ lane ∧ lane < a.lane + size.bytes := by
  apply eq_ofLanes
  intro lane hl
  rw [selects_forAccess h hl, decide_eq_true_iff]

/-- Clearing the two low bits rounds an address down to its word. -/
theorem Word.and_not_three (a : Word) : a &&& ~~~3 = a.container := by
  have hshift : a.container = (a >>> 2) <<< 2 := by
    apply BitVec.eq_of_toNat_eq
    have hlt := a.isLt
    rw [toNat_container, BitVec.toNat_shiftLeft, BitVec.toNat_ushiftRight,
      Nat.shiftRight_eq_div_pow, Nat.shiftLeft_eq]
    omega
  have hthree : ∀ i < 32, (3 : Word).getLsbD i = decide (i < 2) := by decide
  rw [hshift]
  apply BitVec.eq_of_getLsbD_eq
  intro i hi
  rw [BitVec.getLsbD_and, BitVec.getLsbD_not, hthree i hi, BitVec.getLsbD_shiftLeft,
    BitVec.getLsbD_ushiftRight, decide_eq_true hi, Bool.true_and]
  by_cases hlow : i < 2
  · rw [decide_eq_true hlow, Bool.not_true, Bool.and_false, Bool.false_and]
  · have hsum : 2 + (i - 2) = i := by omega
    rw [hsum, Bool.and_comm]

namespace Interceptor

theorem replicate_eq_ofLanes (size : Size) (data : Word) :
    replicate size data = .ofLanes fun lane ↦ data.byte (lane % size.bytes) := by
  apply Word.eq_ofLanes
  intro lane hl
  cases size with
  | byte =>
      have hlt : (data &&& Size.byte.mask).toNat < 256 :=
        Nat.lt_of_le_of_lt Nat.and_le_right (by decide)
      rw [replicate, Word.byte_mul_ones hlt hl, Word.byte_and_mask data (by decide), Size.bytes,
        Nat.mod_one]
  | half =>
      have hlt : (data &&& Size.half.mask).toNat < 65536 :=
        Nat.lt_of_le_of_lt Nat.and_le_right (by decide)
      have hmod : lane % 2 < Size.half.bytes := Nat.mod_lt _ (by decide)
      rw [replicate, Word.byte_mul_halves hlt hl, Word.byte_and_mask data hmod]
      rfl
  | word => rw [replicate, Size.bytes, Nat.mod_eq_of_lt hl]

theorem extract_eq_ofLanes (size : Size) (a data : Word) :
    extract size a data =
      .ofLanes fun lane ↦ if lane < size.bytes then data.byte (a.lane + lane) else 0 :=
  Word.eq_ofLanes fun lane _ ↦ byte_extract size a data lane

end Interceptor

/-! ## The scripted memory -/

namespace Scripted

def Call.isLoad : Call → Bool
  | .load _ _ => true
  | _ => false

/-- The device after some calls: it has noted them and has given up a queued word for each load. -/
def heard (calls : List Call) (s : Scripted) : Scripted :=
  { s with calls := s.calls ++ calls, queue := s.queue.drop (calls.countP Call.isLoad) }

/-- What the device replies to a call; only a load has a word to reply with. -/
def reply (s : Scripted) : Call → Except Fault Word
  | .load _ _ => s.queue.head?.elim s.loadAnswer .ok
  | .store _ _ _ | .storeLanes _ _ _ => s.storeAnswer.map fun _ ↦ 0
  | .warmReset => .ok 0

@[simp] theorem heard_nil (s : Scripted) : s.heard [] = s := by
  simp [heard]

theorem heard_append (first second : List Call) (s : Scripted) :
    s.heard (first ++ second) = (s.heard first).heard second := by
  simp [heard, List.drop_drop]

end Scripted

/-- The call that carries out a request on the memory. -/
def Request.call (request : Request) : Scripted.Call :=
  match request.direction with
  | .load => .load .word request.address
  | .store => .storeLanes request.address request.data request.strobe

namespace Interceptor

theorem gives_serve (request : Request) (s : Scripted) :
    Gives (serve request) s (s.reply request.call) (s.heard [request.call]) := by
  obtain ⟨direction, address, data, strobe⟩ := request
  obtain ⟨calls, queue, loadAnswer, storeAnswer⟩ := s
  cases direction with
  | load => cases queue <;> exact ⟨rfl, rfl⟩
  | store => exact Gives.map ⟨rfl, rfl⟩ _

variable {z : Interceptor Scripted}

/-- A whole access in front of a scripted memory is one call, and the reply completes it. -/
theorem gives_transact (request : Request) {call : Scripted.Call} {word : Word → Word}
    (h : Size.word.Aligned request.address) (hz : z.IsIdle)
    (hcall : (request.masked (z.masks request.address)).call = call)
    (hword : ∀ data, (Pending.of z.mode z.region request).returned data = word data) :
    Gives (transact request) z (((z.memory.reply call).mapError .memory).map word)
      { z with handshake := .initial, memory := z.memory.heard [call] } := by
  have hserve := gives_serve (request.masked (z.masks request.address)) z.memory
  rw [hcall] at hserve
  rcases hserved : served request z with ⟨fault | data, m, events⟩
  all_goals
    have hreply := hserve.answer_eq.symm.trans (congrArg Outcome.answer hserved)
    have hheard := hserve.state_eq.symm.trans (congrArg Outcome.state hserved)
    rw [hreply, hheard]
  · exact .of_apply_eq (transact_of_served_error h hz hserved)
  · have hdone := transact_of_served_ok h hz hserved
    rw [hword data] at hdone
    exact .of_apply_eq hdone

section

variable {a : Word} (h : Size.word.Aligned a) (hz : z.IsIdle) (data : Word) (strobe : Strobe)

include h hz

theorem gives_transact_load :
    Gives (transact ⟨.load, a, data, strobe⟩) z
      (((z.memory.reply (.load .word a)).mapError .memory).map (· ^^^ z.masks a))
      { z with handshake := .initial, memory := z.memory.heard [.load .word a] } :=
  gives_transact _ h hz rfl (Pending.returned_of z.mode z.region _)

theorem gives_transact_store :
    let call := Scripted.Call.storeLanes a (data ^^^ z.masks a) strobe
    Gives (transact ⟨.store, a, data, strobe⟩) z (((z.memory.reply call).mapError .memory).map id)
      { z with handshake := .initial, memory := z.memory.heard [call] } :=
  gives_transact _ h hz rfl (Pending.returned_of z.mode z.region _)

end

/-! ## Accesses and their transfers -/

/-- A call of the memory, and what its reply makes of the access. -/
structure Transfer where
  call : Scripted.Call
  answer : Except Fault Word → Except OpFailure Reply

/-- The answer of a core's access. A fault of the memory is handed on. -/
def busAnswer (reply : Word → Bus.Reply) (answer : Except Fault Word) : Except OpFailure Reply :=
  (answer.mapError .bus).map fun data ↦ .bus (reply data)

/-- The answer of a whole access. A fault of the memory is handed on. -/
def accessAnswer (word : Word → Word) (answer : Except Fault Word) : Except OpFailure Reply :=
  (answer.mapError fun fault ↦ .access (.memory fault)).map fun data ↦ .word (word data)

/-- The transfer that an operation becomes if the interceptor is idle, under the given masks. -/
def Op.transfer? (masks : Word → Word) : Op → Option Transfer
  | .bus (.load size a) =>
    if size.Aligned a then
      some ⟨.load .word (a &&& ~~~3), busAnswer fun data ↦
        .word (.ofLanes fun lane ↦
          if lane < size.bytes then (data ^^^ masks (a &&& ~~~3)).byte (a.lane + lane) else 0)⟩
    else none
  | .bus (.store size a data) =>
    if size.Aligned a then
      some ⟨.storeLanes (a &&& ~~~3)
        (.ofLanes (fun lane ↦ data.byte (lane % size.bytes)) ^^^ masks (a &&& ~~~3))
        (.ofLanes fun lane ↦ a.lane ≤ lane ∧ lane < a.lane + size.bytes),
        busAnswer fun _ ↦ .done⟩
    else none
  | .bus (.storeLanes a data strobe) =>
    if Size.word.Aligned a then
      some ⟨.storeLanes a (data ^^^ masks a) strobe, busAnswer fun _ ↦ .done⟩
    else none
  | .transact request =>
    if Size.word.Aligned request.address then
      match request.direction with
      | .load =>
        some ⟨.load .word request.address, accessAnswer (· ^^^ masks request.address)⟩
      | .store =>
        some ⟨.storeLanes request.address (request.data ^^^ masks request.address) request.strobe,
          accessAnswer fun _ ↦ 0⟩
    else none
  | _ => none

/-- The transfer that a step of a run becomes. -/
def transfer? {σ : Type} (e : Entry Op (Interceptor σ) OpFailure Reply) : Option Transfer :=
  if e.before.IsIdle then e.op.transfer? e.before.masks else none

/-- What a step of a run has the memory hear. -/
def heard? {σ : Type} (e : Entry Op (Interceptor σ) OpFailure Reply) : Option Scripted.Call :=
  match e.op with
  | .bus .warmReset => some .warmReset
  | _ => (transfer? e).map Transfer.call

def Op.IsAccess : Op → Prop
  | .bus .warmReset => False
  | .bus _ | .transact _ => True
  | _ => False

/-! ## One step -/

theorem gives_load {size : Size} {a : Word} (h : size.Aligned a) (hz : z.IsIdle) :
    Gives (load size a) z
      ((z.memory.reply (.load .word a.container)).map fun data ↦
        extract size a (data ^^^ z.masks a.container))
      { z with handshake := .initial, memory := z.memory.heard [.load .word a.container] } := by
  have haccess := gives_transact_load a.container_aligned hz 0 (.forAccess size a)
  rw [load, if_neg (not_not_intro h)]
  apply ((haccess.mapError (·.toFault .load)).map (extract size a)).of_eq
  cases z.memory.reply (.load .word a.container) <;> rfl

theorem gives_storeLanes {a : Word} (h : Size.word.Aligned a) (hz : z.IsIdle) (data : Word)
    (strobe : Strobe) :
    let call := Scripted.Call.storeLanes a (data ^^^ z.masks a) strobe
    Gives (storeLanes a data strobe) z ((z.memory.reply call).map fun _ ↦ ())
      { z with handshake := .initial, memory := z.memory.heard [call] } := by
  intro call
  have haccess := gives_transact_store h hz data strobe
  rw [storeLanes, if_neg (not_not_intro h)]
  apply ((haccess.mapError (·.toFault .store)).map fun _ ↦ ()).of_eq
  cases z.memory.reply call <;> rfl

/-- The access that a transfer is made for completes with what its reply makes of it. -/
theorem gives_step_of_transfer {op : Op} {t : Transfer} (hz : z.IsIdle)
    (ht : op.transfer? z.masks = some t) :
    Gives (step op) z (t.answer (z.memory.reply t.call))
      { z with handshake := .initial, memory := z.memory.heard [t.call] } := by
  cases op with
  | bus op =>
      cases op with
      | load size a =>
          rw [Op.transfer?, Option.ite_none_right_eq_some] at ht
          obtain ⟨h, hsome⟩ := ht
          obtain rfl := Option.some.inj hsome
          have hload := ((gives_load h hz).map Bus.Reply.word).mapError OpFailure.bus
          rw [Word.and_not_three]
          apply (hload.map Reply.bus).of_eq
          cases z.memory.reply (.load .word a.container) with
          | error fault => rfl
          | ok data =>
              exact congrArg (Except.ok ∘ Reply.bus ∘ Bus.Reply.word) (extract_eq_ofLanes size a _)
      | store size a data =>
          rw [Op.transfer?, Option.ite_none_right_eq_some] at ht
          obtain ⟨h, hsome⟩ := ht
          obtain rfl := Option.some.inj hsome
          have hstore := gives_storeLanes a.container_aligned hz (replicate size data)
            (.forAccess size a)
          rw [← store_of_aligned h] at hstore
          rw [Word.and_not_three, ← replicate_eq_ofLanes, ← Strobe.forAccess_eq_ofLanes h]
          apply (((hstore.map fun _ ↦ Bus.Reply.done).mapError OpFailure.bus).map Reply.bus).of_eq
          cases z.memory.reply _ <;> rfl
      | storeLanes a data strobe =>
          rw [Op.transfer?, Option.ite_none_right_eq_some] at ht
          obtain ⟨h, hsome⟩ := ht
          obtain rfl := Option.some.inj hsome
          have hstore := gives_storeLanes h hz data strobe
          apply (((hstore.map fun _ ↦ Bus.Reply.done).mapError OpFailure.bus).map Reply.bus).of_eq
          cases z.memory.reply _ <;> rfl
      | warmReset => cases ht
  | transact request =>
      rw [Op.transfer?, Option.ite_none_right_eq_some] at ht
      obtain ⟨h, hsome⟩ := ht
      obtain ⟨direction, a, data, strobe⟩ := request
      cases direction with
      | load =>
          obtain rfl := Option.some.inj hsome
          have haccess := gives_transact_load h hz data strobe
          apply ((haccess.mapError OpFailure.access).map Reply.word).of_eq
          cases z.memory.reply (.load .word a) <;> rfl
      | store =>
          obtain rfl := Option.some.inj hsome
          have haccess := gives_transact_store h hz data strobe
          apply ((haccess.mapError OpFailure.access).map Reply.word).of_eq
          rw [Scripted.reply]
          cases z.memory.storeAnswer <;> rfl
  | _ => cases ht

/-- An access that becomes no transfer fails and changes nothing. -/
theorem access_refused {σ : Type} [Bus σ] {z : Interceptor σ} {op : Op} (hop : op.IsAccess)
    (hnone : transfer? (.of step op z) = none) :
    (∃ failure, (step op z).answer = .error failure) ∧ (step op z).state = z := by
  rw [transfer?, Entry.of_before, Entry.of_op] at hnone
  cases op with
  | bus op =>
      have hreset : op ≠ .warmReset := by
        rintro rfl
        exact hop
      suffices hbus : (∃ fault, (Bus.step op z).answer = .error fault) ∧
          (Bus.step op z).state = z by
        obtain ⟨⟨fault, hanswer⟩, hstate⟩ := hbus
        have hstep := ((Gives.mk hanswer hstate).mapError OpFailure.bus).map Reply.bus
        exact ⟨⟨_, hstep.answer_eq⟩, hstep.state_eq⟩
      by_cases hz : z.IsIdle
      · rw [if_pos hz] at hnone
        cases op with
        | load size a =>
            have h : ¬ size.Aligned a := by simpa [Op.transfer?] using hnone
            rw [Bus.step, bus_load, map_apply, load_of_not_aligned h]
            exact ⟨⟨_, rfl⟩, rfl⟩
        | store size a data =>
            have h : ¬ size.Aligned a := by simpa [Op.transfer?] using hnone
            rw [Bus.step, bus_store, map_apply, store_of_not_aligned h]
            exact ⟨⟨_, rfl⟩, rfl⟩
        | storeLanes a data strobe =>
            have h : ¬ Size.word.Aligned a := by simpa [Op.transfer?] using hnone
            rw [Bus.step, bus_storeLanes, map_apply, storeLanes_of_not_aligned h]
            exact ⟨⟨_, rfl⟩, rfl⟩
        | warmReset => exact absurd rfl hreset
      · obtain ⟨fault, hfault⟩ : ∃ fault, refusal? op = some fault := by
          cases op with
          | warmReset => exact absurd rfl hreset
          | _ => exact ⟨_, rfl⟩
        exact ⟨⟨fault, answer_bus_step_of_busy hz hfault⟩, state_bus_step_of_busy hz hreset⟩
  | transact request =>
      suffices haccess : (∃ failure, (transact request z).answer = .error failure) ∧
          (transact request z).state = z by
        obtain ⟨⟨failure, hanswer⟩, hstate⟩ := haccess
        have hstep := ((Gives.mk hanswer hstate).mapError OpFailure.access).map Reply.word
        exact ⟨⟨_, hstep.answer_eq⟩, hstep.state_eq⟩
      by_cases hz : z.IsIdle
      · rw [if_pos hz] at hnone
        have h : ¬ Size.word.Aligned request.address := by
          intro h
          rw [Op.transfer?, if_pos h] at hnone
          cases hd : request.direction <;> simp [hd] at hnone
        rw [transact_of_not_aligned h]
        exact ⟨⟨_, rfl⟩, rfl⟩
      · obtain ⟨⟨violation, hanswer⟩, hstate⟩ := transact_busy hz request
        exact ⟨⟨_, hanswer⟩, hstate⟩
  | _ => exact absurd hop id

theorem memory_step_of_not_isAccess {σ : Type} [Bus σ] {op : Op} (hdirect : ¬ op.Bypasses)
    (hop : ¬ op.IsAccess) (hreset : op ≠ .bus .warmReset) (z : Interceptor σ) :
    (step op z).state.memory = z.memory := by
  cases op with
  | bus op =>
      cases op with
      | warmReset => exact absurd rfl hreset
      | _ => exact absurd trivial hop
  | issue request => rw [step, state_map, state_mapError, memory_issue]
  | complete data => rw [step, state_map, state_mapError, memory_complete]
  | abort => rw [step, state_map, perform_apply, memory_abort]
  | transact request => exact absurd trivial hop
  | region op => rw [step, state_map, onRegion, onPart_apply]
  | memory op => exact absurd trivial hdirect

/-- In one step the memory hears the transfer of an access, or a warm reset, or nothing. -/
theorem memory_step {op : Op} (hdirect : ¬ op.Bypasses) (z : Interceptor Scripted) :
    (step op z).state.memory = z.memory.heard (heard? (.of step op z)).toList := by
  by_cases hreset : op = .bus .warmReset
  · rw [hreset, step, Bus.step, state_map, state_mapError, state_map]
    rfl
  have hheard : heard? (.of step op z) = (transfer? (.of step op z)).map Transfer.call := by
    rw [heard?, Entry.of_op]
    split
    · exact absurd rfl hreset
    · rfl
  rw [hheard]
  cases ht : transfer? (.of step op z) with
  | some t =>
      rw [transfer?, Entry.of_before, Entry.of_op, Option.ite_none_right_eq_some] at ht
      rw [(gives_step_of_transfer ht.1 ht.2).state_eq, Option.map_some, Option.toList_some]
  | none =>
      rw [Option.map_none, Option.toList_none, Scripted.heard_nil]
      by_cases hop : op.IsAccess
      · rw [(access_refused hop ht).2]
      · exact memory_step_of_not_isAccess hdirect hop hreset z

/-! ## Runs -/

theorem memory_final {ops : List Op} (hops : ∀ op ∈ ops, ¬ op.Bypasses)
    (z : Interceptor Scripted) :
    (final step ops z).memory = z.memory.heard ((history step ops z).filterMap heard?) := by
  induction ops generalizing z with
  | nil => exact (Scripted.heard_nil _).symm
  | cons op ops ih =>
      rw [List.forall_mem_cons] at hops
      rw [final_cons, ih hops.2, memory_step hops.1, ← Scripted.heard_append, history_cons]
      congr 1
      cases hheard : heard? (.of step op z) with
      | none => rw [List.filterMap_cons_none hheard, Option.toList_none, List.nil_append]
      | some call => rw [List.filterMap_cons_some hheard, Option.toList_some, List.singleton_append]

/-- In any run that does not go past the interceptor, the memory hears one call for each aligned
access that starts on an idle interceptor and one for each warm reset, in order, and nothing else.
The reply to the call is what the access completes with. All other accesses fail and change
nothing. -/
theorem one_transfer_per_access (z : Interceptor Scripted) {ops : List Op}
    (hops : ∀ op ∈ ops, ¬ op.Bypasses) :
    (final step ops z).memory = z.memory.heard ((history step ops z).filterMap heard?) ∧
    ∀ before e after, history step ops z = before ++ e :: after →
      (∀ t, transfer? e = some t →
        e.outcome.answer = t.answer ((z.memory.heard (before.filterMap heard?)).reply t.call)) ∧
      (transfer? e = none → e.op.IsAccess →
        (∃ failure, e.outcome.answer = .error failure) ∧ e.outcome.state = e.before) := by
  refine ⟨memory_final hops z, ?_⟩
  intro before e after hsplit
  obtain ⟨earlier, rest, rfl, rfl, hrest⟩ := exists_of_history_eq_append step hsplit
  obtain ⟨op, later, rfl, rfl, -⟩ := exists_of_history_eq_cons step hrest.symm
  refine ⟨?_, fun hnone hop ↦ access_refused hop hnone⟩
  intro t ht
  have hearlier : ∀ op ∈ earlier, ¬ op.Bypasses :=
    fun op' hop' ↦ hops op' (List.mem_append_left _ hop')
  rw [transfer?, Entry.of_before, Entry.of_op, Option.ite_none_right_eq_some] at ht
  rw [← memory_final hearlier z]
  exact (gives_step_of_transfer ht.1 ht.2).answer_eq

/-- A byte is stored into the region, a load is refused while an access is in flight, and the next
one takes the queued word. -/
theorem transfers_around_an_issue :
    let start : Interceptor Scripted := new .address ⟨[], [7], .error ⟨.load, .access⟩, .ok ()⟩
    let ops : List Op := [.region (.setSize 8), .region (.setEnabled true),
      .bus (.store .byte 1 0xAB), .issue (.load 0 .full), .bus (.load .word 0), .abort,
      .bus (.load .half 8), .bus .warmReset, .bus (.load .half 3), .transact (.load 4 .full)]
    (∀ op ∈ ops, ¬ op.Bypasses) ∧
    (final step ops start).memory.calls = [.storeLanes 0 (0xABABABAB ^^^ 0xDEADBEEF) 0b0010,
      .load .word 8, .warmReset, .load .word 4] ∧
    (final step ops start).memory.queue = [] := by
  intro start ops
  have hops : ∀ op ∈ ops, ¬ op.Bypasses := by decide +revert
  refine ⟨hops, ?_⟩
  rw [(one_transfer_per_access start hops).1]
  decide +kernel +revert

end Interceptor
end SecureZone
