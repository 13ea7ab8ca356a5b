import Mathlib.Data.List.Basic
import SecureZone.Proofs.Scenarios
import SecureZone.Proofs.Transparency

/-!
# Stacked interceptors

An interceptor is a bus, so it can stand in front of another one. Whatever device is behind it, as
long as the device passes word accesses on to a memory under some mask, an idle interceptor makes
another such device: the masks add up by exclusive or. In a stack of two the sum does not depend on
which of them comes first, and neither does anything that a core can see.
-/

namespace SecureZone

open SecureZone.Action

/-! ## Layers -/

/-- The configuration of an idle interceptor, apart from what is behind it. -/
structure Layer where
  mode : Keystream.Mode
  region : Region
  deriving DecidableEq, Repr

namespace Layer

variable {σ : Type}

/-- The idle interceptor with this configuration in front of a device. -/
def atop (layer : Layer) (memory : σ) : Interceptor σ :=
  ⟨layer.region, layer.mode, .initial, memory⟩

def mask (layer : Layer) : Word → Word := Keystream.mask layer.mode layer.region

/-- The layer after some operations on the bus: a warm reset resets its region, and no other
operation changes it. -/
def after (ops : List Bus.Op) (layer : Layer) : Layer :=
  if .warmReset ∈ ops then ⟨layer.mode, .initial⟩ else layer

@[simp] theorem after_nil (layer : Layer) : layer.after [] = layer :=
  if_neg List.not_mem_nil

theorem after_cons (op : Bus.Op) (ops : List Bus.Op) (layer : Layer) :
    layer.after (op :: ops) = (layer.after [op]).after ops := by
  simp only [after, List.mem_cons, List.not_mem_nil, or_false]
  by_cases hop : .warmReset = op <;> by_cases hops : .warmReset ∈ ops <;> simp [hop, hops]

@[simp] theorem mode_after (ops : List Bus.Op) (layer : Layer) :
    (layer.after ops).mode = layer.mode := by
  rw [after]
  split <;> rfl

end Layer

/-! ## Masked memories -/

namespace Bus.Op

/-- What an operation on the bus does to a memory whose words are masked. -/
def masked (mask : Word → Word) : Bus.Op → Action Ram Fault Bus.Reply
  | .load size a =>
    if ¬ size.Aligned a then .fail ⟨.load, .misaligned⟩
    else
      (fun data ↦ .word (Interceptor.extract size a (data ^^^ mask a.container))) <$>
        Ram.load .word a.container
  | .store size a data =>
    if ¬ size.Aligned a then .fail ⟨.store, .misaligned⟩
    else
      (fun _ ↦ .done) <$>
        Ram.storeLanes a.container (Interceptor.replicate size data ^^^ mask a.container)
          (.forAccess size a)
  | .storeLanes a data strobe =>
    if ¬ Size.word.Aligned a then .fail ⟨.store, .misaligned⟩
    else (fun _ ↦ .done) <$> Ram.storeLanes a (data ^^^ mask a) strobe
  | .warmReset => pure .done

/-- The address and the value of a store to all lanes of a word. -/
def wholeWord? : Bus.Op → Option (Word × Word)
  | .store .word a data => some (a, data)
  | .storeLanes a data strobe => if strobe = Strobe.full then some (a, data) else none
  | _ => none

theorem masked_store_word (mask : Word → Word) (a data : Word) :
    masked mask (.store .word a data) = masked mask (.storeLanes a data .full) := by
  rw [masked, masked]
  by_cases ha : Size.word.Aligned a
  · rw [if_neg (not_not_intro ha), if_neg (not_not_intro ha), Word.container_eq_self ha]
    rfl
  · rw [if_pos ha, if_pos ha]

/-- A store to all lanes that succeeds leaves the value in the memory under the mask. -/
theorem word?_masked {op : Bus.Op} {a data : Word} (hop : op.wholeWord? = some (a, data))
    (mask : Word → Word) {ram : Ram} (hok : (op.masked mask ram).answer = .ok .done) :
    (op.masked mask ram).state.word? a = some (data ^^^ mask a) := by
  have hlanes : masked mask op = masked mask (.storeLanes a data .full) := by
    cases op with
    | store size b d =>
        cases size with
        | word =>
            cases hop
            exact masked_store_word mask a data
        | byte | half => cases hop
    | storeLanes b d strobe =>
        rw [wholeWord?, Option.ite_none_right_eq_some] at hop
        obtain ⟨rfl, hsome⟩ := hop
        cases hsome
        rfl
    | load size b => cases hop
    | warmReset => cases hop
  rw [hlanes, masked] at hok ⊢
  by_cases ha : Size.word.Aligned a
  · rw [if_neg (not_not_intro ha)] at hok ⊢
    cases hm : ram.refusal? .word a with
    | some cause =>
        rw [answer_map, Ram.storeLanes_of_refused hm] at hok
        cases hok
    | none =>
        have hfit : a.toNat + 4 ≤ ram.size := (Ram.refusal?_eq_none_iff.mp hm).2
        rw [state_map, Ram.storeLanes_of_accepted hm, Ram.word?, Ram.window?, Ram.size_setLanes,
          if_pos hfit]
        exact congrArg some (Ram.ofBytes_setLanes_full ram a _)
  · rw [if_pos ha] at hok
    cases hok

end Bus.Op

/-- A device made around a memory that passes word accesses on to it, with its words masked. -/
structure Masks {σ : Type} [Bus σ] (mask : Word → Word) (device : Ram → σ) : Prop where
  load : ∀ {a : Word}, Size.word.Aligned a → ∀ ram,
    Gives (Bus.load .word a) (device ram) ((Ram.load .word a ram).answer.map (· ^^^ mask a))
      (device ram)
  storeLanes : ∀ {a : Word}, Size.word.Aligned a → ∀ data strobe ram,
    Gives (Bus.storeLanes a data strobe) (device ram)
      (Ram.storeLanes a (data ^^^ mask a) strobe ram).answer
      (device (Ram.storeLanes a (data ^^^ mask a) strobe ram).state)

theorem Ram.state_load (size : Size) (a : Word) (ram : Ram) : (load size a ram).state = ram := by
  cases hm : ram.refusal? size a with
  | some cause => rw [load_of_refused hm]
  | none => rw [load_of_accepted hm]

/-- A memory masks nothing. -/
theorem masks_ram : Masks (fun _ ↦ 0) (id : Ram → Ram) where
  load := by
    intro a _ ram
    have hzero : (· ^^^ 0 : Word → Word) = id := funext fun _ ↦ BitVec.xor_zero
    refine ⟨?_, Ram.state_load .word a ram⟩
    rw [hzero]
    cases hm : ram.refusal? .word a with
    | some cause => simp [Ram.load_of_refused hm, Except.map]
    | none => simp [Ram.load_of_accepted hm, Except.map]
  storeLanes := by
    intro a _ data strobe ram
    suffices hsame : ∀ sent, sent = data → Gives (Bus.storeLanes a data strobe) ram
        (Ram.storeLanes a sent strobe ram).answer (Ram.storeLanes a sent strobe ram).state from
      hsame _ BitVec.xor_zero
    rintro _ rfl
    exact gives_self _ _

namespace Interceptor

variable {σ : Type} [Bus σ]

/-- A whole access completes with what the device behind answers to the masked request. -/
theorem gives_transact_of_serve {z : Interceptor σ} (request : Request)
    (h : Size.word.Aligned request.address) (hz : z.IsIdle) {answer : Except Fault Word} {m : σ}
    (hserve : Gives (serve (request.masked (z.masks request.address))) z.memory answer m) :
    Gives (transact request) z
      ((answer.mapError .memory).map (Pending.of z.mode z.region request).returned)
      { z with handshake := .initial, memory := m } := by
  obtain ⟨hanswer, hstate⟩ := hserve
  rcases hserved : served request z with ⟨fault | data, m', events⟩
  all_goals
    rw [← hanswer, ← hstate, masks, ← served, hserved]
  · exact .of_apply_eq (transact_of_served_error h hz hserved)
  · exact .of_apply_eq (transact_of_served_ok h hz hserved)

end Interceptor

namespace Masks

open Interceptor

variable {σ : Type} [Bus σ] {mask : Word → Word} {device : Ram → σ}

theorem gives_load (h : Masks mask device) (layer : Layer) {size : Size} {a : Word}
    (ha : size.Aligned a) (ram : Ram) :
    Gives (Bus.load size a) (layer.atop (device ram))
      ((Ram.load .word a.container ram).answer.map fun data ↦
        extract size a (data ^^^ (mask a.container ^^^ layer.mask a.container)))
      (layer.atop (device ram)) := by
  have hserve := h.load a.container_aligned ram
  have haccess := gives_transact_of_serve (z := layer.atop (device ram))
    (.load a.container (.forAccess size a)) a.container_aligned rfl hserve
  rw [bus_load, Interceptor.load, if_neg (not_not_intro ha)]
  apply ((haccess.mapError (·.toFault .load)).map (extract size a)).of_eq
  cases (Ram.load .word a.container ram).answer with
  | error fault => rfl
  | ok data =>
      refine congrArg (Except.ok ∘ extract size a) ?_
      rw [Pending.returned_of, ← BitVec.xor_assoc]
      rfl

theorem gives_storeLanes (h : Masks mask device) (layer : Layer) {a : Word}
    (ha : Size.word.Aligned a) (data : Word) (strobe : Strobe) (ram : Ram) :
    Gives (Bus.storeLanes a data strobe) (layer.atop (device ram))
      (Ram.storeLanes a (data ^^^ (mask a ^^^ layer.mask a)) strobe ram).answer
      (layer.atop (device
        (Ram.storeLanes a (data ^^^ (mask a ^^^ layer.mask a)) strobe ram).state)) := by
  have hsum : data ^^^ (mask a ^^^ layer.mask a) = data ^^^ layer.mask a ^^^ mask a := by
    rw [BitVec.xor_comm (mask a), BitVec.xor_assoc]
  have hserve := (h.storeLanes ha (data ^^^ layer.mask a) strobe ram).map fun _ ↦ (0 : Word)
  have haccess := gives_transact_of_serve (z := layer.atop (device ram)) (.store a data strobe) ha
    rfl hserve
  rw [hsum, bus_storeLanes, Interceptor.storeLanes, if_neg (not_not_intro ha)]
  apply ((haccess.mapError (·.toFault .store)).map fun _ ↦ ()).of_eq
  cases (Ram.storeLanes a (data ^^^ layer.mask a ^^^ mask a) strobe ram).answer <;> rfl

/-- A layer in front of a device is a device again, and adds its own mask. -/
theorem atop (h : Masks mask device) (layer : Layer) :
    Masks (fun a ↦ mask a ^^^ layer.mask a) fun ram ↦ layer.atop (device ram) where
  load := by
    intro a ha ram
    apply (h.gives_load layer ha ram).of_eq
    simp only [Word.container_eq_self ha, extract_word ha]
  storeLanes := fun ha data strobe ram ↦ h.gives_storeLanes layer ha data strobe ram

/-- What a core does in front of a layer reaches the memory under both masks. -/
theorem gives_step (h : Masks mask device) (layer : Layer) {op : Bus.Op} (hop : op ≠ .warmReset)
    (ram : Ram) :
    Gives (Bus.step op) (layer.atop (device ram))
      (op.masked (fun a ↦ mask a ^^^ layer.mask a) ram).answer
      (layer.atop (device (op.masked (fun a ↦ mask a ^^^ layer.mask a) ram).state)) := by
  cases op with
  | load size a =>
      rw [Bus.step, Bus.Op.masked]
      by_cases ha : size.Aligned a
      · rw [if_neg (not_not_intro ha), answer_map, state_map, Ram.state_load]
        apply ((h.gives_load layer ha ram).map Bus.Reply.word).of_eq
        cases (Ram.load .word a.container ram).answer <;> rfl
      · rw [if_pos ha, bus_load, Interceptor.load, if_pos ha]
        exact (Gives.fail _ _).map _
  | store size a data =>
      rw [Bus.step, Bus.Op.masked]
      by_cases ha : size.Aligned a
      · rw [if_neg (not_not_intro ha), answer_map, state_map, bus_store, store_of_aligned ha]
        exact (h.gives_storeLanes layer a.container_aligned _ _ ram).map _
      · rw [if_pos ha, bus_store, Interceptor.store, if_pos ha]
        exact (Gives.fail _ _).map _
  | storeLanes a data strobe =>
      rw [Bus.step, Bus.Op.masked]
      by_cases ha : Size.word.Aligned a
      · rw [if_neg (not_not_intro ha), answer_map, state_map]
        exact (h.gives_storeLanes layer ha data strobe ram).map _
      · rw [if_pos ha, bus_storeLanes, Interceptor.storeLanes, if_pos ha]
        exact (Gives.fail _ _).map _
  | warmReset => exact absurd rfl hop

end Masks

/-! ## Stacks of two -/

namespace Layer

open Interceptor

variable (a b : Layer)

theorem masks_atop : Masks b.mask b.atop := by
  have hsum : (fun w ↦ 0 ^^^ b.mask w) = b.mask := funext fun _ ↦ BitVec.zero_xor
  have hatop := masks_ram.atop b
  rwa [hsum] at hatop

theorem gives_stacked_step (op : Bus.Op) (ram : Ram) :
    Gives (Bus.step op) (a.atop (b.atop ram)) (op.masked (fun w ↦ a.mask w ^^^ b.mask w) ram).answer
      ((a.after [op]).atop
        ((b.after [op]).atop (op.masked (fun w ↦ a.mask w ^^^ b.mask w) ram).state)) := by
  by_cases hop : op = .warmReset
  · subst hop
    exact Gives.map (Gives.perform _ _) _
  · have hkept : ∀ layer : Layer, layer.after [op] = layer := by
      intro layer
      exact if_neg fun hmem ↦ hop (List.mem_singleton.mp hmem).symm
    have hsum : (fun w ↦ b.mask w ^^^ a.mask w) = fun w ↦ a.mask w ^^^ b.mask w :=
      funext fun _ ↦ BitVec.xor_comm _ _
    have hstep := (masks_atop b).gives_step a hop ram
    rw [hsum] at hstep
    rw [hkept a, hkept b]
    exact hstep

/-- After any operations the two orders are stacks of the same layers over one memory. -/
theorem exists_final_stacked (ops : List Bus.Op) (ram : Ram) :
    ∃ ram', final Bus.step ops (a.atop (b.atop ram)) =
        (a.after ops).atop ((b.after ops).atop ram') ∧
      final Bus.step ops (b.atop (a.atop ram)) =
        (b.after ops).atop ((a.after ops).atop ram') := by
  induction ops generalizing a b ram with
  | nil => exact ⟨ram, by simp, by simp⟩
  | cons op ops ih =>
      have hsum : (fun w ↦ b.mask w ^^^ a.mask w) = fun w ↦ a.mask w ^^^ b.mask w :=
        funext fun _ ↦ BitVec.xor_comm _ _
      have hab := (gives_stacked_step a b op ram).state_eq
      have hba := (gives_stacked_step b a op ram).state_eq
      rw [hsum] at hba
      obtain ⟨ram', hfinal⟩ := ih (a.after [op]) (b.after [op])
        (op.masked (fun w ↦ a.mask w ^^^ b.mask w) ram).state
      refine ⟨ram', ?_⟩
      rw [final_cons, final_cons, hab, hba, after_cons op ops a, after_cons op ops b]
      exact hfinal

/-- In any run on the bus, two layers in front of a memory give the same answers and leave the same
memory in either order, and both stay idle. A word that is stored lies in the memory under the masks
of both; where two address-derived keystreams cover it, it lies there as it is. -/
theorem stacked_layers_commute (ram : Ram) (ops : List Bus.Op) (op : Bus.Op) :
    let ab := final Bus.step ops (a.atop (b.atop ram))
    let ba := final Bus.step ops (b.atop (a.atop ram))
    (ab.IsIdle ∧ ab.memory.IsIdle ∧ ba.IsIdle ∧ ba.memory.IsIdle) ∧
    ab.memory.memory.contents = ba.memory.memory.contents ∧
    (Bus.step op ab).answer = (Bus.step op ba).answer ∧
    ∀ w data, op.wholeWord? = some (w, data) → (Bus.step op ab).answer = .ok .done →
      (Bus.step op ab).state.memory.memory.word? w =
        some (data ^^^ (a.after ops).mask w ^^^ (b.after ops).mask w) ∧
      (a.mode = .address → b.mode = .address → (a.after ops).region.Contains w →
        (b.after ops).region.Contains w →
          (Bus.step op ab).state.memory.memory.word? w = some data) := by
  intro ab ba
  obtain ⟨ram', hab, hba⟩ := exists_final_stacked a b ops ram
  have hsum : (fun w ↦ (b.after ops).mask w ^^^ (a.after ops).mask w) =
      fun w ↦ (a.after ops).mask w ^^^ (b.after ops).mask w := funext fun _ ↦ BitVec.xor_comm _ _
  have hstep := gives_stacked_step (a.after ops) (b.after ops) op ram'
  have hstep' := gives_stacked_step (b.after ops) (a.after ops) op ram'
  rw [← hab] at hstep
  rw [← hba, hsum] at hstep'
  refine ⟨?_, ?_, hstep.answer_eq.trans hstep'.answer_eq.symm, ?_⟩
  · simp only [ab, ba, hab, hba]
    exact ⟨rfl, rfl, rfl, rfl⟩
  · simp only [ab, ba, hab, hba]
    rfl
  · intro w data hop hok
    have hheld : (Bus.step op ab).state.memory.memory.word? w =
        some (data ^^^ (a.after ops).mask w ^^^ (b.after ops).mask w) := by
      rw [hstep.answer_eq] at hok
      rw [hstep.state_eq, BitVec.xor_assoc]
      exact Bus.Op.word?_masked hop _ hok
    refine ⟨hheld, ?_⟩
    intro ha hb hina hinb
    have hmask (layer : Layer) (hmode : layer.mode = .address) (hin : layer.region.Contains w) :
        layer.mask w = w ^^^ Keystream.whitening := by
      rw [mask, Keystream.mask_of_contains _ hin, hmode, Keystream.keystream,
        Keystream.generate, Keystream.seed]
    rw [hheld, hmask _ (by rw [mode_after, ha]) hina,
      hmask _ (by rw [mode_after, hb]) hinb, BitVec.xor_assoc, BitVec.xor_self,
      BitVec.xor_zero]

/-- The regions overlap in the second half of the first one. A byte store and a load past the end
of the memory come before the word. -/
theorem overlapping_layers_cancel :
    let a : Layer := ⟨.address, 0, 16, true, .zero⟩
    let b : Layer := ⟨.address, 8, 8, true, .zero⟩
    let ops : List Bus.Op := [.store .byte 13 0xAB, .load .word 16]
    let ab := final Bus.step ops (a.atop (b.atop (Ram.zeroed 18)))
    let op : Bus.Op := .storeLanes 12 0xCAFEBABE .full
    a.region.Contains 12 ∧ b.region.Contains 12 ∧ (Bus.step op ab).answer = .ok .done ∧
    (Bus.step op ab).state.memory.memory.word? 12 = some 0xCAFEBABE := by
  intro a b ops ab op
  have hina : (a.after ops).region.Contains 12 := by decide +revert
  have hinb : (b.after ops).region.Contains 12 := by decide +revert
  have hok : (Bus.step op ab).answer = .ok .done := by decide +kernel +revert
  obtain ⟨-, -, -, hheld⟩ := stacked_layers_commute a b (.zeroed 18) ops op
  exact ⟨hina, hinb, hok, (hheld 12 0xCAFEBABE rfl hok).2 rfl rfl hina hinb⟩

end Layer

end SecureZone
