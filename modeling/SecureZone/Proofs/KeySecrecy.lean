import Mathlib.Data.List.Forall2
import SecureZone.Proofs.Ports
import SecureZone.Proofs.Twins

/-!
# Keys show through their fold alone

Two runs that give a device different key words are told apart by nothing that it answers, reports
or stores, as long as no operation reads a key back. In address mode the keys are not used at all,
and in key mode they enter a keystream folded into one word, so it is enough that the folded words
agree whenever an access is issued.
-/

namespace SecureZone

open SecureZone.Action

/-! ## Operations that set and read keys -/

/-- The number belongs to a key register. -/
def Csr.NamesKey (n : Word) : Prop := n ∈ KeySlot.all.map fun slot ↦ (key slot).number

instance (n : Word) : Decidable (Csr.NamesKey n) := inferInstanceAs (Decidable (_ ∈ _))

/-- The operations are the same up to key words that they set. -/
inductive Driver.Op.SameButKeys : Op → Op → Prop where
  | same (op : Op) : SameButKeys op op
  | setKeys (ks ks' : Keys) : SameButKeys (.setKeys ks) (.setKeys ks')
  | write {n : Word} (hn : Csr.NamesKey n) (v w : Word) : SameButKeys (.write n v) (.write n w)

/-- The answer of the operation is made from a key, or the new value of a key is. -/
def Driver.Op.ReadsKeys : Op → Prop
  | .keys => True
  | .read n | .setBits n _ | .clearBits n _ | .readAndClear n => Csr.NamesKey n
  | _ => False

@[inherit_doc Driver.Op.SameButKeys]
inductive Region.Op.SameButKeys : Op → Op → Prop where
  | same (op : Op) : SameButKeys op op
  | setKey (slot : KeySlot) (key key' : Word) : SameButKeys (.setKey slot key) (.setKey slot key')
  | setKeys (ks ks' : Keys) : SameButKeys (.setKeys ks) (.setKeys ks')
  | writeCsr {n : Word} (hn : Csr.NamesKey n) (v w : Word) :
    SameButKeys (.writeCsr n v) (.writeCsr n w)
  | driver {op op' : Driver.Op} (h : op.SameButKeys op') : SameButKeys (.driver op) (.driver op')

@[inherit_doc Driver.Op.ReadsKeys]
def Region.Op.ReadsKeys : Op → Prop
  | .snapshot => True
  | .readCsr n | .execCsr _ n _ => Csr.NamesKey n
  | .driver op => op.ReadsKeys
  | _ => False

@[inherit_doc Driver.Op.SameButKeys]
inductive Interceptor.Op.SameButKeys : Op → Op → Prop where
  | same (op : Op) : SameButKeys op op
  | region {op op' : Region.Op} (h : op.SameButKeys op') : SameButKeys (.region op) (.region op')

@[inherit_doc Driver.Op.ReadsKeys]
def Interceptor.Op.ReadsKeys : Op → Prop
  | .region op => op.ReadsKeys
  | _ => False

/-! ## Registers -/

namespace Region

def withKeys (r : Region) (ks : Keys) : Region := { r with keys := ks }

/-- The regions differ in their keys at most. -/
def keyless : Comparison Region Region := .ofStates fun r r' ↦ ∃ ks, r' = r.withKeys ks

/-- The values agree unless they are those of a key register. -/
def AgreeUnlessKey (n v w : Word) : Prop := Csr.NamesKey n ∨ v = w

theorem agreeUnlessKey_iff {csr : Csr} {v w : Word} :
    AgreeUnlessKey csr.number v w ↔ csr.Related (fun _ _ ↦ True) v w := by
  cases csr with
  | key slot =>
      have hkey : Csr.NamesKey (Csr.key slot).number := by cases slot <;> decide
      exact iff_of_true (.inl hkey) trivial
  | base | size | enable => exact or_iff_right (by decide)

variable {r r' : Region}

/-- Updates that report the same and, but for the keys, make the same change. -/
theorem alike_perform {ε : Type} (update update' : Update Region) (hr : keyless.States r r')
    (hupdate : ∀ s ks, (∃ ks', (update' (s.withKeys ks)).1 = (update s).1.withKeys ks') ∧
      (update s).2 = (update' (s.withKeys ks)).2) :
    keyless.Alike Eq (.perform update : Action Region ε Unit) (.perform update') r r' := by
  obtain ⟨ks, rfl⟩ := hr
  exact .perform (hupdate r ks).1 (hupdate r ks).2

theorem alike_put (csr : Csr) {v w : Word} (hvw : csr.Related (fun _ _ ↦ True) v w)
    (hr : keyless.States r r') : keyless.Alike Eq (put csr v) (put csr w) r r' := by
  obtain ⟨ks, rfl⟩ := hr
  cases csr with
  | base =>
      obtain rfl : v = w := hvw
      by_cases h : ValidBase v
      · exact .of_ok (if_pos h) (if_pos h) rfl ⟨ks, rfl⟩ rfl
      · exact .of_error (if_neg h) (if_neg h) ⟨ks, rfl⟩ rfl
  | size =>
      obtain rfl : v = w := hvw
      by_cases h : ValidSize v
      · exact .of_ok (if_pos h) (if_pos h) rfl ⟨ks, rfl⟩ rfl
      · exact .of_error (if_neg h) (if_neg h) ⟨ks, rfl⟩ rfl
  | enable =>
      obtain rfl : v = w := hvw
      exact .perform ⟨ks, rfl⟩ rfl
  | key slot => exact .perform ⟨ks.set slot w, rfl⟩ rfl

theorem alike_locate (n : Word) (hr : keyless.States r r') :
    keyless.Alike (fun csr csr' ↦ csr = csr' ∧ csr.number = n) (locate n) (locate n) r r' := by
  rw [locate]
  cases hn : Csr.ofNumber? n with
  | some csr => exact .pure hr ⟨rfl, Csr.number_of_ofNumber? hn⟩
  | none => exact .fail hr _

theorem alike_readCsr (n : Word) (hr : keyless.States r r') :
    keyless.Alike (AgreeUnlessKey n) (readCsr n) (readCsr n) r r' := by
  refine (alike_locate n hr).bind ?_
  rintro csr _ ⟨rfl, rfl⟩ s s' hs
  refine (Comparison.Alike.get hs).bind ?_
  rintro t _ ⟨ks, rfl⟩ u u' hu
  refine .pure hu (agreeUnlessKey_iff.mpr ?_)
  cases csr with
  | base | size | enable => rfl
  | key slot => exact trivial

theorem alike_writeCsr {n v w : Word} (hvw : AgreeUnlessKey n v w) (hr : keyless.States r r') :
    keyless.Alike Eq (writeCsr n v) (writeCsr n w) r r' := by
  refine (alike_locate n hr).bind ?_
  rintro csr _ ⟨rfl, rfl⟩ s s' hs
  exact (alike_put csr (agreeUnlessKey_iff.mp hvw) hs).mapError _

theorem alike_execCsr (instruction : Csr.Instruction) {n : Word} (hn : ¬ Csr.NamesKey n)
    (operand : Word) (hr : keyless.States r r') :
    keyless.Alike Eq (execCsr instruction n operand) (execCsr instruction n operand) r r' := by
  refine (alike_readCsr n hr).bind ?_
  rintro old old' hold s s' hs
  obtain rfl : old = old' := hold.resolve_left hn
  by_cases h : instruction = .readWrite ∨ operand ≠ 0
  · rw [if_pos h]
    exact (alike_writeCsr (.inr rfl) hs).bind fun _ _ _ _ _ ht ↦ .pure ht rfl
  · rw [if_neg h]
    exact .pure hs rfl

theorem alike_forDriver {α : Type} {R : α → α → Prop} {x y : Action Region Csr.Failure α}
    (h : keyless.Alike R x y r r') : keyless.Alike R (forDriver x) (forDriver y) r r' := by
  refine h.attempt.bind ?_
  rintro _ _ (⟨hab⟩ | failure) s s' hs
  · exact .pure hs hab
  · exact (Comparison.Alike.report hs rfl).bind fun _ _ _ _ _ ht ↦ .fail ht _

/-- The driver moves keys and does not look at them. -/
theorem ports_keyless : Driver.Ports keyless (fun _ _ ↦ True) where
  read csr _ _ h := (alike_forDriver (alike_readCsr csr.number h)).mono fun _ _ ↦
    agreeUnlessKey_iff.mp
  write csr _ _ _ _ _ _ hvw h := alike_forDriver (alike_writeCsr (agreeUnlessKey_iff.mpr hvw) h)
  setEnable h := alike_forDriver (alike_execCsr .readSet (by decide) _ h)
  clearEnable h := alike_forDriver (alike_execCsr .readClear (by decide) _ h)
  settle _ _ _ h := .perform h rfl

theorem alike_driver_step {op op' : Driver.Op} (hop : op.SameButKeys op') (hreads : ¬ op.ReadsKeys)
    (hr : keyless.States r r') :
    keyless.Alike Eq (Driver.step op) (Driver.step op') r r' := by
  cases hop with
  | setKeys ks ks' => exact (ports_keyless.setKeys (fun _ ↦ trivial) hr).map_eq _
  | write hn v w => exact (alike_forDriver (alike_writeCsr (.inl hn) hr)).map_eq _
  | same =>
      by_cases hdirect : op.IsDirect
      · cases op with
        | read n =>
            refine ((alike_forDriver (alike_readCsr n hr)).mono fun _ _ h ↦ ?_).map_eq _
            exact h.resolve_left hreads
        | write n v => exact (alike_forDriver (alike_writeCsr (.inr rfl) hr)).map_eq _
        | setBits n mask => exact (alike_forDriver (alike_execCsr _ hreads mask hr)).map_eq _
        | clearBits n mask | readAndClear n =>
            exact (alike_forDriver (alike_execCsr _ hreads _ hr)).map_eq _
        | settle cycles => exact (ports_keyless.settle cycles hr).map_eq _
        | _ => exact absurd hdirect id
      · refine ports_keyless.step hdirect (fun _ ↦ trivial) ?_ hr
        rintro rfl
        exact absurd trivial hreads

theorem alike_step {op op' : Op} (hop : op.SameButKeys op') (hreads : ¬ op.ReadsKeys)
    (hr : keyless.States r r') : keyless.Alike Eq (step op) (step op') r r' := by
  cases hop with
  | setKey slot key key' =>
      exact ((alike_put (.key slot) trivial hr).mapError .refused).map_eq _
  | setKeys ks ks' =>
      refine (alike_perform (setKeys ks) (setKeys ks') hr fun _ _ ↦ ?_).map_eq _
      exact ⟨⟨ks', rfl⟩, rfl⟩
  | writeCsr hn v w => exact ((alike_writeCsr (.inl hn) hr).mapError _).map_eq _
  | driver h => exact ((alike_driver_step h hreads hr).mapError _).map_eq _
  | same =>
      cases op with
      | setBase base => exact ((alike_put .base rfl hr).mapError _).map_eq _
      | setSize size => exact ((alike_put .size rfl hr).mapError _).map_eq _
      | setEnabled on =>
          refine (alike_perform (setEnabled on) (setEnabled on) hr fun _ ks ↦ ?_).map_eq _
          exact ⟨⟨ks, rfl⟩, rfl⟩
      | setKey slot key => exact ((alike_put (.key slot) trivial hr).mapError .refused).map_eq _
      | setKeys ks =>
          refine (alike_perform (setKeys ks) (setKeys ks) hr fun _ _ ↦ ?_).map_eq _
          exact ⟨⟨ks, rfl⟩, rfl⟩
      | reset => exact (alike_perform reset reset hr fun _ _ ↦ ⟨⟨.zero, rfl⟩, rfl⟩).map_eq _
      | snapshot => exact absurd trivial hreads
      | readCsr n =>
          refine (((alike_readCsr n hr).mono fun _ _ h ↦ ?_).mapError _).map_eq _
          exact h.resolve_left hreads
      | writeCsr n v => exact ((alike_writeCsr (.inr rfl) hr).mapError _).map_eq _
      | execCsr instruction n operand =>
          exact ((alike_execCsr instruction hreads operand hr).mapError _).map_eq _
      | driver op => exact ((alike_driver_step (.same op) hreads hr).mapError _).map_eq _

end Region

/-! ## Accesses -/

namespace Interceptor

variable {σ : Type}

def withKeys (z : Interceptor σ) (ks : Keys) : Interceptor σ :=
  { z with region := z.region.withKeys ks }

/-- The interceptors have the mode and differ in the keys of their regions at most. -/
def keyless (σ : Type) (mode : Keystream.Mode) : Comparison (Interceptor σ) (Interceptor σ) :=
  .ofStates fun z z' ↦ z.mode = mode ∧ ∃ ks, z' = z.withKeys ks

/-- Where keystreams are made from the keys, the folded keys agree. -/
def SameFold (mode : Keystream.Mode) (z z' : Interceptor σ) : Prop :=
  mode = .keys → z.region.keys.folded = z'.region.keys.folded

variable {mode : Keystream.Mode} {z z' : Interceptor σ}

theorem twins_keyless (σ : Type) (mode : Keystream.Mode) : Twins (keyless σ mode) where
  reports _ := rfl
  handshake_eq := by
    rintro z _ ⟨-, ks, rfl⟩
    rfl
  moved := by
    rintro z _ ⟨hmode, ks, rfl⟩ handshake
    exact ⟨hmode, ks, rfl⟩

/-- Equal keystreams make equal requests. -/
theorem pending_eq {request : Request} (hfold : SameFold mode z z')
    (hz : (keyless σ mode).States z z') :
    Pending.of z.mode z.region request = Pending.of z'.mode z'.region request := by
  obtain ⟨rfl, ks, rfl⟩ := hz
  have hkeystream : Keystream.keystream z.mode z.region request.address =
      Keystream.keystream z.mode (z.region.withKeys ks) request.address := by
    cases hmode : z.mode with
    | address => rfl
    | keys => exact hfold hmode
  rw [Pending.of, Keystream.within, hkeystream]
  rfl

theorem alike_issue {request : Request}
    (hfold : Size.word.Aligned request.address → z.IsIdle → SameFold mode z z')
    (hz : (keyless σ mode).States z z') :
    (keyless σ mode).Alike Eq (issue request) (issue request) z z' :=
  ((twins_keyless σ mode).issue hz fun ha hidle ↦ pending_eq (hfold ha hidle) hz).mono
    fun _ _ ↦ And.left

theorem alike_complete (data : Word) (hz : (keyless σ mode).States z z') :
    (keyless σ mode).Alike Eq (complete data) (complete data) z z' :=
  ((twins_keyless σ mode).complete hz (.of_eq False rfl)).mono fun _ _ h ↦ h.eq not_false

/-- The memories behind the two are the same, so whatever they do is the same. -/
theorem alike_onMemory {ε α : Type} (x : Action σ ε α) (hz : (keyless σ mode).States z z') :
    (keyless σ mode).Alike Eq (onMemory x) (onMemory x) z z' := by
  obtain ⟨rfl, ks, rfl⟩ := hz
  refine .onPart (.refl x z.memory) ?_ fun _ _ ↦ id
  rintro m _ rfl
  exact ⟨rfl, ks, rfl⟩

theorem alike_onRegion {ε α : Type} {x y : Action Region ε α}
    (h : Region.keyless.Alike Eq x y z.region z'.region) (hz : (keyless σ mode).States z z') :
    (keyless σ mode).Alike Eq (onRegion x) (onRegion y) z z' := by
  refine h.onPart ?_ fun _ _ ↦ id
  obtain ⟨rfl, _, rfl⟩ := hz
  rintro r _ ⟨ks, rfl⟩
  exact ⟨rfl, ks, rfl⟩

variable [Bus σ]

theorem alike_transact {request : Request}
    (hfold : Size.word.Aligned request.address → z.IsIdle → SameFold mode z z')
    (hz : (keyless σ mode).States z z') :
    (keyless σ mode).Alike Eq (transact request) (transact request) z z' := by
  -- Once the requests are equal the keys are out of play.
  refine ((twins_keyless σ mode).transact (p := False) hz
    (fun ha hidle ↦ pending_eq (hfold ha hidle) hz) fun f _ u v huv ↦ ?_).mono ?_
  · exact (alike_onMemory (serve f) huv).mono fun _ _ ↦ .of_eq False
  · exact fun _ _ h ↦ h.eq not_false

theorem alike_warmReset (hz : (keyless σ mode).States z z') :
    (keyless σ mode).Alike Eq (.perform Bus.warmReset : Action (Interceptor σ) Fault Unit)
      (.perform Bus.warmReset) z z' := by
  obtain ⟨rfl, ks, rfl⟩ := hz
  exact .perform ⟨rfl, .zero, rfl⟩ rfl

/-! ## Operations -/

/-- The request that an operation asks an interceptor to issue. -/
def Op.request? : Op → Option Request
  | .bus op => access? op
  | .issue request | .transact request => some request
  | .complete _ | .abort | .region _ | .memory _ => none

/-- From `z` the operation issues an access. -/
def Op.Issues (z : Interceptor σ) (op : Op) : Prop :=
  ∃ request ∈ op.request?, Size.word.Aligned request.address ∧ z.IsIdle

omit [Bus σ] in
instance (z : Interceptor σ) (op : Op) : Decidable (op.Issues z) :=
  inferInstanceAs (Decidable (∃ _ ∈ _, _))

theorem alike_step {op op' : Op} (hop : op.SameButKeys op') (hreads : ¬ op.ReadsKeys)
    (hfold : op.Issues z → SameFold mode z z') (hz : (keyless σ mode).States z z') :
    (keyless σ mode).Alike Eq (step op) (step op') z z' := by
  have hregion : Region.keyless.States z.region z'.region := by
    obtain ⟨-, ks, rfl⟩ := hz
    exact ⟨ks, rfl⟩
  cases hop with
  | region h =>
      exact (alike_onRegion ((Region.alike_step h hreads hregion).mapError _) hz).map_eq _
  | same =>
      cases op with
      | bus op =>
          have hstep :
              (keyless σ mode).Alike (EqUnless False) (Bus.step op) (Bus.step op) z z' := by
            refine alike_bus_step hz (fun request hrequest ↦ ?_) (alike_warmReset hz)
            refine (alike_transact (fun ha hidle ↦ hfold ?_) hz).mono fun _ _ ↦ .of_eq False
            exact ⟨request, hrequest, ha, hidle⟩
          exact ((hstep.mono fun _ _ h ↦ h.eq not_false).mapError _).map_eq _
      | issue request =>
          refine ((alike_issue (fun ha hidle ↦ hfold ?_) hz).mapError _).map_eq _
          exact ⟨request, rfl, ha, hidle⟩
      | complete data => exact ((alike_complete data hz).mapError _).map_eq _
      | abort => exact ((twins_keyless σ mode).abort hz).map_eq _
      | transact request =>
          refine ((alike_transact (fun ha hidle ↦ hfold ?_) hz).mapError _).map_eq _
          exact ⟨request, rfl, ha, hidle⟩
      | region op =>
          have hstep := Region.alike_step (.same op) hreads hregion
          exact (alike_onRegion (hstep.mapError _) hz).map_eq _
      | memory op => exact (alike_onMemory _ hz).map_eq _

/-- Two runs of a new interceptor that differ in the key words they set, and read none back, answer
the same, report the same and leave the same memory at every step. In key mode the exclusive or of
the four words has to be the same in both whenever an access is issued; in address mode nothing is
asked. -/
theorem keys_show_through_their_fold (mode : Keystream.Mode) (memory : σ) {ops ops' : List Op}
    (hops : List.Forall₂ Op.SameButKeys ops ops') (hreads : ∀ op ∈ ops, ¬ op.ReadsKeys)
    (hfold : mode = .keys →
      ∀ e ∈ (history step ops (new mode memory)).zip (history step ops' (new mode memory)),
        e.1.op.Issues e.1.before →
          let ks := e.1.before.region.keys
          let ks' := e.2.before.region.keys
          ks.key0 ^^^ ks.key1 ^^^ ks.key2 ^^^ ks.key3 =
            ks'.key0 ^^^ ks'.key1 ^^^ ks'.key2 ^^^ ks'.key3) :
    List.Forall₂
      (fun e e' ↦ e.outcome.answer = e'.outcome.answer ∧ e.outcome.events = e'.outcome.events ∧
        e.outcome.state.memory = e'.outcome.state.memory)
      (history step ops (new mode memory)) (history step ops' (new mode memory)) := by
  have htwins := (List.forall₂_and_left ops ops').mpr ⟨hreads, hops⟩
  have hnew : (keyless σ mode).States (new mode memory) (new mode memory) := ⟨rfl, .zero, rfl⟩
  refine Comparison.history_forall₂_of
    (fun e e' ↦ e.op.Issues e.before → SameFold mode e.before e'.before) hnew htwins ?_ ?_
  · exact fun e he hissues hmode ↦ hfold hmode e he hissues
  · rintro op op' z z' ⟨hread, hop⟩ hz hgiven
    have halike := alike_step hop hread hgiven hz
    refine ⟨halike.states, halike.answers.eq, halike.reports, ?_⟩
    obtain ⟨-, ks, hstate⟩ := halike.states
    exact (congrArg Interceptor.memory hstate).symm

/-- Different key words with the same fold. What the first store leaves in memory depends on the
fold, and on nothing else about the keys. -/
theorem keys_with_the_same_fold :
    let ops (ks : Keys) : List Op :=
      [.region (.setKeys ks), .region (.driver (.init 0 8 true)),
        .bus (.store .word 0 0xCAFEBABE), .bus (.load .half 2)]
    let z : Interceptor Ram := new .keys (.zeroed 16)
    let run (ks : Keys) := history step (ops ks) z
    (∀ e ∈ (run ⟨1, 2, 4, 8⟩).zip (run ⟨15, 0, 0, 0⟩), e.1.op.Issues e.1.before →
      e.1.before.region.keys.folded = e.2.before.region.keys.folded) ∧
    (run ⟨1, 2, 4, 8⟩).map (fun e ↦ (e.outcome.answer, e.outcome.events)) =
      (run ⟨15, 0, 0, 0⟩).map (fun e ↦ (e.outcome.answer, e.outcome.events)) ∧
    (run ⟨1, 2, 4, 8⟩).map (·.outcome.state.memory.word? 0) =
      [some 0, some 0, some 0xCAFEBAB1, some 0xCAFEBAB1] := by
  intro ops z run
  have hwords : (run ⟨1, 2, 4, 8⟩).map (·.outcome.state.memory.word? 0) =
      [some 0, some 0, some 0xCAFEBAB1, some 0xCAFEBAB1] := by
    decide +kernel +revert
  have hfold : ∀ e ∈ (run ⟨1, 2, 4, 8⟩).zip (run ⟨15, 0, 0, 0⟩), e.1.op.Issues e.1.before →
      e.1.before.region.keys.folded = e.2.before.region.keys.folded := by
    clear hwords
    decide +kernel +revert
  refine ⟨hfold, ?_, hwords⟩
  have hops : List.Forall₂ Op.SameButKeys (ops ⟨1, 2, 4, 8⟩) (ops ⟨15, 0, 0, 0⟩) :=
    .cons (.region (.setKeys _ _)) (.cons (.same _) (.cons (.same _) (.cons (.same _) .nil)))
  have hreads : ∀ op ∈ ops ⟨1, 2, 4, 8⟩, ¬ op.ReadsKeys := by
    simp [ops, Op.ReadsKeys, Region.Op.ReadsKeys, Driver.Op.ReadsKeys]
  have hsame := keys_show_through_their_fold .keys (Ram.zeroed 16) hops hreads fun _ ↦ hfold
  rw [← List.forall₂_eq_eq_eq, List.forall₂_map_left_iff, List.forall₂_map_right_iff]
  exact hsame.imp fun _ _ h ↦ Prod.ext h.1 h.2.1

end Interceptor

end SecureZone
