import SecureZone.Bus.Scripted
import SecureZone.Proofs.Lines
import SecureZone.Proofs.Run

/-!
# Recorded traffic

A scripted device records a line of text for each call. The fields of a line are read back as the
call that it was written for, and the lines of the whole text as all calls in order. So the text
tells apart any two sequences of operations, and what the device answers leaves no trace in it.
-/

namespace SecureZone

open SecureZone.Action Numeral Report Transcript

/-! ## Reading fields -/

namespace Report

/-- Fields, each with what comes behind it. -/
def weave (pieces : List (String × String)) : String :=
  String.join (pieces.map fun piece ↦ piece.1 ++ piece.2)

theorem fields_weave {pieces : List (String × String)}
    (h : ∀ piece ∈ pieces, IsField piece.1 ∧ IsGap piece.2) :
    fields (weave pieces) = pieces.map Prod.fst := by
  induction pieces with
  | nil => rfl
  | cons piece pieces ih =>
      rw [List.forall_mem_cons] at h
      rw [weave] at ih
      rw [weave, List.map_cons, String.join_cons, fields_append_gap h.1.2, ih h.2,
        fields_of_isField h.1.1, List.map_cons, List.singleton_append]

theorem isPlain_weave {pieces : List (String × String)}
    (h : ∀ piece ∈ pieces, IsPlain piece.1 ∧ IsPlain piece.2) : IsPlain (weave pieces) := by
  induction pieces with
  | nil => decide
  | cons piece pieces ih =>
      rw [List.forall_mem_cons] at h
      rw [weave, List.map_cons, String.join_cons, isPlain_append, isPlain_append]
      exact ⟨h.1, ih h.2⟩

end Report

def Size.ofName? (name : String) : Option Size := all.find? (·.name == name)

theorem Size.ofName?_name (size : Size) : ofName? size.name = some size := by
  cases size <;> rfl

theorem Size.isField_name (size : Size) : IsField size.name := by
  cases size <;> decide

def Strobe.ofText? (text : String) : Option Strobe :=
  ((List.range 16).map (BitVec.ofNat 4)).find? (·.text == text)

theorem Strobe.ofText?_text : ∀ strobe : Strobe, ofText? strobe.text = some strobe := by
  decide +kernel

theorem Strobe.isField_text : ∀ strobe : Strobe, IsField strobe.text := by
  decide +kernel

/-- The word that a field is the numeral of. -/
def Word.ofField? (field : String) : Option Word := (parseWord field).toOption

theorem Word.ofField?_hex (width : Nat) (w : Word) : ofField? (hex width w.toNat) = some w := by
  rw [ofField?, parseWord_hex]
  rfl

namespace Scripted

/-- The call that a line with the given fields was written for. -/
def Call.ofFields? : List String → Option Call
  | ["read", "RvSize", size, address] =>
    return .load (← Size.ofName? size) (← Word.ofField? address)
  | ["write", "RvSize", size, address, data] =>
    return .store (← Size.ofName? size) (← Word.ofField? address) (← Word.ofField? data)
  | ["write", "strobed", address, data, strobe] =>
    return .storeLanes (← Word.ofField? address) (← Word.ofField? data) (← Strobe.ofText? strobe)
  | ["warm", "reset"] => some .warmReset
  | _ => none

/-- The fields of the line of a call, each with the text between it and the next. -/
def Call.pieces : Call → List (String × String)
  | load size a => [("read", "("), ("RvSize", "::"), (size.name, ", "), (hex 0 a.toNat, ")")]
  | store size a d =>
    [("write", "("), ("RvSize", "::"), (size.name, ", "), (hex 0 a.toNat, ", "),
      (hex 0 d.toNat, ")")]
  | storeLanes a d strobe =>
    [("write", "_"), ("strobed", "("), (hex 0 a.toNat, ", "), (hex 0 d.toNat, ", "),
      (strobe.text, ")")]
  | warmReset => [("warm", "_"), ("reset", "()")]

theorem Call.line_eq_weave (call : Call) : call.line = weave call.pieces ++ "\n" := by
  cases call with
  | load size a =>
      change s!"read(RvSize::{size.name}, {hex 0 a.toNat})\n" = _
      rw [← String.toList_inj]
      simp [pieces, weave, toString_self]
  | store size a d =>
      change s!"write(RvSize::{size.name}, {hex 0 a.toNat}, {hex 0 d.toNat})\n" = _
      rw [← String.toList_inj]
      simp [pieces, weave, toString_self]
  | storeLanes a d strobe =>
      change s!"write_strobed({hex 0 a.toNat}, {hex 0 d.toNat}, {strobe.text})\n" = _
      rw [← String.toList_inj]
      simp [pieces, weave, toString_self]
  | warmReset => rfl

theorem Call.isField_and_isGap (call : Call) :
    ∀ piece ∈ call.pieces, IsField piece.1 ∧ IsGap piece.2 ∧ IsPlain piece.2 := by
  have hfixed : (∀ name ∈ ["read", "write", "strobed", "warm", "reset", "RvSize"], IsField name) ∧
      ∀ gap ∈ ["(", "::", ", ", ")", "_", "()"], IsGap gap ∧ IsPlain gap := by
    decide
  simp only [List.forall_mem_cons] at hfixed
  cases call <;>
    simp [pieces, hfixed, isField_hex, Size.isField_name, Strobe.isField_text]

theorem Call.ofFields?_pieces (call : Call) : ofFields? (call.pieces.map Prod.fst) = some call := by
  cases call with
  | load size a => simp [pieces, ofFields?, Size.ofName?_name, Word.ofField?_hex]
  | store size a d => simp [pieces, ofFields?, Size.ofName?_name, Word.ofField?_hex]
  | storeLanes a d strobe => simp [pieces, ofFields?, Strobe.ofText?_text, Word.ofField?_hex]
  | warmReset => rfl

/-- The calls that a text has a line for. -/
def calls? (text : String) : Option (List Call) :=
  (lines text).mapM fun line ↦ Call.ofFields? (fields line)

theorem calls?_transcript (calls : List Call) : calls? (transcript calls) = some calls := by
  induction calls with
  | nil => rfl
  | cons call calls ih =>
      have hpieces := call.isField_and_isGap
      have hplain : IsPlain (weave call.pieces) := isPlain_weave fun piece hpiece ↦
        ⟨isPlain_of_isField (hpieces piece hpiece).1, (hpieces piece hpiece).2.2⟩
      have hfields : fields (weave call.pieces) = call.pieces.map Prod.fst :=
        fields_weave fun piece hpiece ↦ ⟨(hpieces piece hpiece).1, (hpieces piece hpiece).2.1⟩
      rw [calls?, transcript] at ih
      rw [calls?, transcript, List.map_cons, String.join_cons, call.line_eq_weave,
        lines_append hplain, List.mapM_cons, hfields, call.ofFields?_pieces, ih]
      rfl

end Scripted

/-! ## Runs -/

/-- The call that an operation is for the device that carries it out. -/
def Bus.Op.call : Bus.Op → Scripted.Call
  | .load size a => .load size a
  | .store size a data => .store size a data
  | .storeLanes a data strobe => .storeLanes a data strobe
  | .warmReset => .warmReset

theorem Bus.Op.call_injective : Function.Injective Bus.Op.call := by
  intro op op' h
  cases op <;> cases op' <;> cases h <;> rfl

namespace Scripted

theorem calls_step (op : Bus.Op) (s : Scripted) :
    (Bus.step op s).state.calls = s.calls ++ [op.call] := by
  cases op with
  | load size a =>
      rw [Bus.step, state_map, bus_load]
      obtain ⟨calls, queue, loadAnswer, storeAnswer⟩ := s
      cases queue <;> rfl
  | store size a data =>
      rw [Bus.step, state_map]
      rfl
  | storeLanes a data strobe =>
      rw [Bus.step, state_map]
      rfl
  | warmReset => rfl

theorem calls_final (ops : List Bus.Op) (s : Scripted) :
    (final Bus.step ops s).calls = s.calls ++ ops.map Bus.Op.call := by
  induction ops generalizing s with
  | nil => exact (List.append_nil _).symm
  | cons op ops ih =>
      rw [final_cons, ih, calls_step, List.map_cons, List.append_assoc, List.singleton_append]

/-- Devices that have recorded nothing record the same text exactly for the same operations in the
same order, whatever they have to answer. -/
theorem recorded_text_identifies_traffic {s s' : Scripted} (hs : s.calls = []) (hs' : s'.calls = [])
    (ops ops' : List Bus.Op) :
    transcript (final Bus.step ops s).calls = transcript (final Bus.step ops' s').calls ↔
      ops = ops' := by
  rw [calls_final, calls_final, hs, hs', List.nil_append, List.nil_append]
  constructor
  · intro h
    have hcalls := congrArg calls? h
    rw [calls?_transcript, calls?_transcript] at hcalls
    exact List.map_injective_iff.mpr Bus.Op.call_injective (Option.some.inj hcalls)
  · rintro rfl
    rfl

/-- Two devices with different answers, and two stores whose numbers use the same digits. -/
theorem traffic_in_two_scripts :
    let s : Scripted := ⟨[], [7], .error ⟨.load, .access⟩, .error ⟨.store, .access⟩⟩
    let ops : List Bus.Op := [.load .half 0xDEADCAFE, .storeLanes 0x130 1 0b1111, .warmReset]
    s.calls = [] ∧ fresh.calls = [] ∧
    transcript (final Bus.step ops s).calls = transcript (final Bus.step ops fresh).calls ∧
    transcript (final Bus.step [.store .word 0x1 0x11] s).calls ≠
      transcript (final Bus.step [.store .word 0x11 0x1] fresh).calls := by
  intro s ops
  refine ⟨rfl, rfl, (recorded_text_identifies_traffic rfl rfl ops ops).mpr rfl, fun h ↦ ?_⟩
  have hops := (recorded_text_identifies_traffic rfl rfl _ _).mp h
  exact absurd hops (by decide)

end Scripted

end SecureZone
