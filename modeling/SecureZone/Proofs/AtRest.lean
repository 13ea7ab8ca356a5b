import Mathlib.Data.List.Basic
import SecureZone.Interceptor.Operation
import SecureZone.Proofs.EncryptedMemory
import SecureZone.Proofs.Run

/-!
# Memory at rest

The memory behind an interceptor is determined by the successful stores. Each of its bytes is the
one that the last of them to select it left there, under the masks that were in force at that
store, however the region has changed since. A load takes off the masks that are in force at the
load.
-/

namespace SecureZone.Interceptor

open SecureZone.Action

/-- The operation goes to the memory directly and not through the interceptor. -/
def Op.Bypasses : Op → Prop
  | .memory _ => True
  | _ => False

instance : DecidablePred Op.Bypasses
  | .memory _ => isTrue trivial
  | .bus _ | .issue _ | .complete _ | .abort | .transact _ | .region _ => isFalse id

/-- The byte of plaintext that the operation stores at position `i` if it succeeds. -/
def Op.stored? : Op → Nat → Option Byte
  | .bus op, i => op.stored? i
  | .transact request, i =>
    match request.direction with
    | .load => none
    | .store => (Bus.Op.storeLanes request.address request.data request.strobe).stored? i
  | _, _ => none

/-- The position and the number of the bytes that the operation loads if it succeeds. -/
def Op.loads? : Op → Option (Word × Nat)
  | .bus (.load size a) => some (a, size.bytes)
  | .transact request =>
    match request.direction with
    | .load => some (request.address, 4)
    | .store => none
  | _ => none

def Reply.data? : Reply → Option Word
  | .bus (.word data) | .word data => some data
  | _ => none

/-- The byte that is left at position `i` by an operation with the given answer that stores `plain`
there: a success leaves it under the masks in force, and a failure leaves none. -/
def leaves? {ε α : Type} (z : Interceptor Ram) (answer : Except ε α) (plain : Option Byte)
    (i : Nat) : Option Byte :=
  match answer with
  | .ok _ => plain.map (· ^^^ byteMask z.masks i)
  | .error _ => none

/-- The byte that a step of a run leaves at position `i`, if it stores one there. -/
def left? (e : Entry Op (Interceptor Ram) OpFailure Reply) (i : Nat) : Option Byte :=
  leaves? e.before e.outcome.answer (e.op.stored? i) i

section

variable {ε ε' α β : Type} (z : Interceptor Ram) (answer : Except ε α) (plain : Option Byte)
  (i : Nat)

@[simp] theorem leaves?_map (f : α → β) :
    leaves? z (answer.map f) plain i = leaves? z answer plain i := by
  cases answer <;> rfl

@[simp] theorem leaves?_mapError (f : ε → ε') :
    leaves? z (answer.mapError f) plain i = leaves? z answer plain i := by
  cases answer <;> rfl

@[simp] theorem leaves?_none : leaves? z answer none i = none := by
  cases answer <;> rfl

end

/-! ## One step -/

theorem memory_issue {σ : Type} (request : Request) (z : Interceptor σ) :
    (issue request z).state.memory = z.memory := by
  by_cases h : Size.word.Aligned request.address
  · by_cases hz : z.IsIdle
    · rw [issue_of_isIdle h hz]
    · rw [issue_of_not_isIdle h hz]
  · rw [issue_of_not_aligned h]

theorem memory_complete {σ : Type} (data : Word) (z : Interceptor σ) :
    (complete data z).state.memory = z.memory := by
  by_cases hz : z.IsIdle
  · rw [complete_of_isIdle hz]
  · rw [complete_of_not_isIdle hz]

theorem memory_abort {σ : Type} (z : Interceptor σ) : (abort z).1.memory = z.memory := by
  by_cases hz : z.IsIdle
  · rw [abort_of_isIdle hz]
  · rw [abort_of_not_isIdle hz]

/-- An access fails and leaves the memory alone, or loads its word, or stores it. -/
theorem transact_cases (request : Request) (z : Interceptor Ram) :
    (∃ failure, (transact request z).answer = .error failure ∧
        (transact request z).state.memory = z.memory) ∨
      (Size.word.Aligned request.address ∧
        match request.direction with
        | .load =>
          (transact request z).answer =
              .ok (z.heldWord request.address ^^^ z.masks request.address) ∧
            (transact request z).state.memory = z.memory
        | .store =>
          (transact request z).answer = .ok 0 ∧
            (transact request z).state.memory =
              z.memory.setLanes request.address.toNat
                (request.data ^^^ z.masks request.address) request.strobe.lanes) := by
  by_cases h : Size.word.Aligned request.address
  · by_cases hz : z.IsIdle
    · cases hm : z.memory.refusal? .word request.address with
      | some cause =>
          obtain ⟨hanswer, hstate⟩ := transact_of_refused request h hz hm
          exact .inl ⟨_, hanswer, by rw [hstate]⟩
      | none =>
          refine .inr ⟨h, ?_⟩
          cases hd : request.direction with
          | load =>
              obtain ⟨hanswer, hstate⟩ := transact_load request h hz hd hm
              exact ⟨hanswer, by rw [hstate]⟩
          | store =>
              obtain ⟨hanswer, hstate⟩ := transact_store request h hz hd hm
              exact ⟨hanswer, by rw [hstate]⟩
    · rw [transact_of_not_isIdle h hz]
      exact .inl ⟨_, rfl, rfl⟩
  · rw [transact_of_not_aligned h]
    exact .inl ⟨_, rfl, rfl⟩

theorem byteAt_transact (request : Request) (z : Interceptor Ram) (i : Nat) :
    (transact request z).state.memory.byteAt i =
      (leaves? z (transact request z).answer (Op.stored? (.transact request) i) i).getD
        (z.memory.byteAt i) := by
  rcases transact_cases request z with ⟨failure, hanswer, hmemory⟩ | ⟨h, hdone⟩
  · rw [hanswer, hmemory]
    rfl
  · cases hd : request.direction with
    | load =>
        simp only [hd] at hdone
        rw [hdone.1, hdone.2]
        simp only [Op.stored?, hd, leaves?_none, Option.getD_none]
    | store =>
        simp only [hd] at hdone
        rw [hdone.1, hdone.2, byteAt_setLanes_masked z h]
        simp only [leaves?, Op.stored?, hd]

theorem byteAt_storeLanes (a data : Word) (strobe : Strobe) (z : Interceptor Ram) (i : Nat) :
    (storeLanes a data strobe z).state.memory.byteAt i =
      (leaves? z (storeLanes a data strobe z).answer
        ((Bus.Op.storeLanes a data strobe).stored? i) i).getD (z.memory.byteAt i) := by
  by_cases h : Size.word.Aligned a
  · rw [state_storeLanes h, answer_storeLanes h, leaves?_map, leaves?_mapError, byteAt_transact]
    rfl
  · rw [storeLanes_of_not_aligned h]
    rfl

theorem byteAt_store (size : Size) (a data : Word) (z : Interceptor Ram) (i : Nat) :
    (store size a data z).state.memory.byteAt i =
      (leaves? z (store size a data z).answer ((Bus.Op.store size a data).stored? i) i).getD
        (z.memory.byteAt i) := by
  by_cases h : size.Aligned a
  · rw [store_of_aligned h, byteAt_storeLanes, Bus.Op.stored?_replicate h]
  · rw [store_of_not_aligned h]
    rfl

theorem byteAt_load (size : Size) (a : Word) (z : Interceptor Ram) (i : Nat) :
    (load size a z).state.memory.byteAt i = z.memory.byteAt i := by
  by_cases h : size.Aligned a
  · rw [state_load h, byteAt_transact]
    simp only [Op.stored?, Request.load, leaves?_none, Option.getD_none]
  · rw [load_of_not_aligned h]

/-- One step changes the bytes that it leaves, and no others. -/
theorem byteAt_step {op : Op} (h : ¬ op.Bypasses) (z : Interceptor Ram) (i : Nat) :
    (step op z).state.memory.byteAt i = (left? (.of step op z) i).getD (z.memory.byteAt i) := by
  rw [left?, Entry.of_before, Entry.of_op, Entry.of_outcome]
  cases op with
  | bus op =>
      cases op with
      | load size a =>
          simp only [step, Bus.step, bus_load, state_map, state_mapError, Op.stored?,
            Bus.Op.stored?, leaves?_none, Option.getD_none]
          exact byteAt_load size a z i
      | store size a data =>
          simp only [step, Bus.step, bus_store, state_map, state_mapError, answer_map,
            answer_mapError, leaves?_map, leaves?_mapError, Op.stored?]
          exact byteAt_store size a data z i
      | storeLanes a data strobe =>
          simp only [step, Bus.step, bus_storeLanes, state_map, state_mapError, answer_map,
            answer_mapError, leaves?_map, leaves?_mapError, Op.stored?]
          exact byteAt_storeLanes a data strobe z i
      | warmReset =>
          simp only [step, Bus.step, state_map, state_mapError, Op.stored?, Bus.Op.stored?,
            leaves?_none, Option.getD_none]
          rfl
  | issue request =>
      simp only [step, state_map, state_mapError, memory_issue, Op.stored?, leaves?_none,
        Option.getD_none]
  | complete data =>
      simp only [step, state_map, state_mapError, memory_complete, Op.stored?, leaves?_none,
        Option.getD_none]
  | abort =>
      simp only [step, state_map, perform_apply, memory_abort, Op.stored?, leaves?_none,
        Option.getD_none]
  | transact request =>
      simp only [step, state_map, state_mapError, answer_map, answer_mapError, leaves?_map,
        leaves?_mapError]
      exact byteAt_transact request z i
  | region op =>
      simp only [step, state_map, onRegion, onPart_apply, Op.stored?, leaves?_none,
        Option.getD_none]
  | memory op => exact absurd trivial h

/-- A successful load returns the bytes of the memory with the masks in force taken off. -/
theorem byte_loaded {op : Op} {a : Word} {count : Nat} (hop : op.loads? = some (a, count))
    {z : Interceptor Ram} {reply : Reply} (hok : (step op z).answer = .ok reply) :
    a.toNat % count = 0 ∧
      ∃ data, reply.data? = some data ∧ ∀ j < 4, data.byte j =
        if j < count then z.memory.byteAt (a.toNat + j) ^^^ byteMask z.masks (a.toNat + j)
        else 0 := by
  cases op with
  | bus op =>
      cases op with
      | load size b =>
          obtain ⟨rfl, rfl⟩ : b = a ∧ size.bytes = count := by simpa [Op.loads?] using hop
          simp only [step, Bus.step, bus_load, answer_map, answer_mapError] at hok
          by_cases h : size.Aligned b
          · rw [answer_load h] at hok
            rcases transact_cases (.load b.container (.forAccess size b)) z with
              ⟨failure, hanswer, -⟩ | ⟨-, hanswer, -⟩
            · rw [hanswer] at hok
              cases hok
            · rw [hanswer] at hok
              cases hok
              exact ⟨h, _, rfl, fun j _ ↦ byte_extract_heldWord z h j⟩
          · rw [load_of_not_aligned h] at hok
            cases hok
      | _ => simp [Op.loads?] at hop
  | transact request =>
      simp only [step, answer_map, answer_mapError] at hok
      rcases transact_cases request z with ⟨failure, hanswer, -⟩ | ⟨h, hdone⟩
      · rw [hanswer] at hok
        cases hok
      · cases hd : request.direction with
        | load =>
            simp only [hd] at hdone
            obtain ⟨rfl, rfl⟩ : request.address = a ∧ 4 = count := by
              simpa [Op.loads?, hd] using hop
            rw [hdone.1] at hok
            cases hok
            refine ⟨h, _, rfl, fun j hj ↦ ?_⟩
            rw [if_pos hj]
            exact byte_heldWord z h hj
        | store => simp [Op.loads?, hd] at hop
  | _ => simp [Op.loads?] at hop

/-! ## Runs -/

/-- A byte of the memory is what the last step that left one there left. -/
theorem byteAt_final {ops : List Op} (hops : ∀ op ∈ ops, ¬ op.Bypasses) (z : Interceptor Ram)
    (i : Nat) :
    (final step ops z).memory.byteAt i =
      ((history step ops z).reverse.findSome? (left? · i)).getD (z.memory.byteAt i) := by
  refine view_final (fun z : Interceptor Ram ↦ z.memory.byteAt i) (left? · i) ?_ z
  intro op hop z
  exact byteAt_step (hops op hop) z i

theorem byteAt_final_of_left?_eq_none {ops : List Op} (hops : ∀ op ∈ ops, ¬ op.Bypasses)
    {z : Interceptor Ram} {i : Nat} (hleft : ∀ e ∈ history step ops z, left? e i = none) :
    (final step ops z).memory.byteAt i = z.memory.byteAt i := by
  rw [byteAt_final hops, List.findSome?_eq_none_iff.mpr, Option.getD_none]
  intro e he
  exact hleft e (List.mem_reverse.mp he)

/-- A word stored under some masks and loaded under others comes back with both. -/
theorem loaded_of_stored {store load : Op} {later : List Op} {w d : Word} {z : Interceptor Ram}
    {stored loaded : Reply}
    (hstore : ∀ lane < 4, store.stored? (w.toNat + lane) = some (d.byte lane))
    (hload : load.loads? = some (w, 4)) (hlater : ∀ op ∈ later, ¬ op.Bypasses)
    (hstored : (step store z).answer = .ok stored)
    (hleft : ∀ e ∈ history step later (step store z).state,
      ∀ lane < 4, left? e (w.toNat + lane) = none)
    (hloaded : (step load (final step later (step store z).state)).answer = .ok loaded) :
    loaded.data? =
      some (d ^^^ z.masks w ^^^ (final step later (step store z).state).masks w) := by
  obtain ⟨haligned, data, hdata, hbytes⟩ := byte_loaded hload hloaded
  have hw : Size.word.Aligned w := haligned
  have hdirect : ¬ store.Bypasses := by
    intro hb
    cases store with
    | memory op => simpa [Op.stored?] using hstore 0 (by decide)
    | _ => exact hb
  rw [hdata, Option.some.injEq]
  apply Word.ext_byte
  intro lane hl
  have hkept := byteAt_final_of_left?_eq_none hlater fun e he ↦ hleft e he lane hl
  have hcipher : (step store z).state.memory.byteAt (w.toNat + lane) =
      d.byte lane ^^^ (z.masks w).byte lane := by
    rw [byteAt_step hdirect, left?, Entry.of_outcome, Entry.of_op, Entry.of_before, hstored,
      hstore lane hl, leaves?, Option.map_some, Option.getD_some, byteMask_word _ hw hl]
  calc
    data.byte lane = (final step later (step store z).state).memory.byteAt (w.toNat + lane) ^^^
        ((final step later (step store z).state).masks w).byte lane := by
      rw [hbytes lane hl, if_pos hl, byteMask_word _ hw hl]
    _ = d.byte lane ^^^ (z.masks w).byte lane ^^^
        ((final step later (step store z).state).masks w).byte lane := by
      rw [hkept, hcipher]
    _ = (d ^^^ z.masks w ^^^ (final step later (step store z).state).masks w).byte lane := by
      rw [Word.byte_xor, Word.byte_xor]

/-- After any run that does not go past the interceptor, every byte of the memory is the initial
one or what the last successful store to select it left under the masks of that store; every
successful load takes off the masks of the load; and so a whole word that is stored and loaded
again comes back with the masks of both. -/
theorem memory_holds_last_stores (mode : Keystream.Mode) (ram : Ram) (ops : List Op)
    (hops : ∀ op ∈ ops, ¬ op.Bypasses) :
    let start : Interceptor Ram := new mode ram
    let z := final step ops start
    (∀ i, z.memory.byteAt i =
      ((history step ops start).reverse.findSome? (left? · i)).getD (ram.byteAt i)) ∧
    (∀ load a count reply, Op.loads? load = some (a, count) →
      (step load z).answer = .ok reply →
        ∃ data, reply.data? = some data ∧ ∀ j < 4, data.byte j =
          if j < count then
            z.memory.byteAt (a.toNat + j) ^^^
              byteMask (Keystream.mask z.mode z.region) (a.toNat + j)
          else 0) ∧
    (∀ store load later w d stored loaded,
      let y := final step later (step store z).state
      (∀ lane < 4, Op.stored? store (w.toNat + lane) = some (d.byte lane)) →
      Op.loads? load = some (w, 4) →
      (∀ op ∈ later, ¬ Op.Bypasses op) →
      (step store z).answer = .ok stored →
      (∀ e ∈ history step later (step store z).state,
        ∀ lane < 4, left? e (w.toNat + lane) = none) →
      (step load y).answer = .ok loaded →
        loaded.data? = some (d ^^^ Keystream.mask z.mode z.region w ^^^
          Keystream.mask y.mode y.region w)) := by
  intro start z
  refine ⟨?_, ?_, ?_⟩
  · intro i
    exact byteAt_final hops start i
  · intro load a count reply hload hok
    exact (byte_loaded hload hok).2
  · intro store load later w d stored loaded y hstore hload hlater hstored hleft hloaded
    exact loaded_of_stored hstore hload hlater hstored hleft hloaded

/-- A word that is stored while the region is enabled and loaded after it is disabled. -/
theorem word_loaded_as_it_lies :
    let ops : List Op := [.region (.setSize 8), .region (.setEnabled true)]
    let store : Op := .bus (.store .word 4 0xCAFEBABE)
    let later : List Op := [.region (.setEnabled false), .bus (.store .byte 0 1)]
    let load : Op := .bus (.load .word 4)
    let start : Interceptor Ram := new .address (.zeroed 8)
    let z := final step ops start
    let y := final step later (step store z).state
    (∀ op ∈ ops ++ store :: later, ¬ op.Bypasses) ∧
    (final step (ops ++ store :: later) start).memory.byteAt 4 = 0xBE ^^^ 0xEB ∧
    (step load y).answer = .ok (.bus (.word 0x14530455)) ∧
    some 0x14530455 = some (0xCAFEBABE ^^^ Keystream.mask z.mode z.region 4 ^^^
      Keystream.mask y.mode y.region 4) := by
  intro ops store later load start z y
  have hloaded : (step load y).answer = .ok (.bus (.word 0x14530455)) := by
    decide +kernel +revert
  have hops : ∀ op ∈ ops ++ store :: later, ¬ op.Bypasses := by decide +revert
  have hdirect : ∀ op ∈ ops, ¬ op.Bypasses := by decide +revert
  have hlater : ∀ op ∈ later, ¬ op.Bypasses := by decide +revert
  have hlanes : ∀ lane < 4, store.stored? ((4 : Word).toNat + lane) =
      some ((0xCAFEBABE : Word).byte lane) := by decide +revert
  have hstored : (step store z).answer = .ok (.bus .done) := by decide +kernel +revert
  have hleft : ∀ e ∈ history step later (step store z).state,
      ∀ lane < 4, left? e ((4 : Word).toNat + lane) = none := by decide +kernel +revert
  refine ⟨hops, ?_, hloaded, ?_⟩
  · rw [(memory_holds_last_stores .address (.zeroed 8) _ hops).1 4]
    decide +kernel +revert
  · exact (memory_holds_last_stores .address (.zeroed 8) ops hdirect).2.2 store load later 4
      0xCAFEBABE _ _ hlanes rfl hlater hstored hleft hloaded

end SecureZone.Interceptor
