import SecureZone.Transcript
import SecureZone.Proofs.PrintedNumbers

/-!
# Texts made of lines

A text that is written line by line is broken into just these lines, as long as none of them holds
a line feed or a return. Numbers are printed without either, so a report is known by its lines.
-/

namespace SecureZone.Transcript

open Numeral Report

/-- A text that can stand in one line. -/
def IsPlain (text : String) : Prop := text.toList.all fun c ↦ c ≠ '\n' ∧ c ≠ '\r'

instance (text : String) : Decidable (IsPlain text) := inferInstanceAs (Decidable (_ = _))

theorem isPlain_iff {text : String} :
    IsPlain text ↔ ∀ c ∈ text.toList, c ≠ '\n' ∧ c ≠ '\r' := by
  simp only [IsPlain, List.all_eq_true, decide_eq_true_eq]

@[simp] theorem isPlain_append {first second : String} :
    IsPlain (first ++ second) ↔ IsPlain first ∧ IsPlain second := by
  simp only [isPlain_iff, String.toList_append, List.forall_mem_append]

theorem isPlain_of_isField {text : String} (h : IsField text) : IsPlain text := by
  rw [isPlain_iff]
  intro c hc
  have hc := List.all_eq_true.mp h.2 c hc
  constructor
  · rintro rfl
    exact absurd hc (by decide)
  · rintro rfl
    exact absurd hc (by decide)

/-- Breaking a text into lines goes on behind a line that is already begun. -/
theorem breakLines_append {cs : List Char} (h : ∀ c ∈ cs, c ≠ '\n' ∧ c ≠ '\r')
    (rest line : List Char) (hline : ∀ c ∈ line.head?, c ≠ '\r') :
    breakLines (cs ++ '\n' :: rest) line =
      String.ofList (line.reverse ++ cs) :: breakLines rest [] := by
  induction cs generalizing line with
  | nil => rw [List.nil_append, breakLines_lineFeed hline, List.append_nil]
  | cons c cs ih =>
      rw [List.forall_mem_cons] at h
      have hnext : ∀ c' ∈ (c :: line).head?, c' ≠ '\r' := by
        intro c' hc'
        obtain rfl := Option.some.inj hc'
        exact h.1.2
      rw [List.cons_append, breakLines_cons h.1.1, ih h.2 _ hnext, List.reverse_cons,
        List.append_assoc, List.singleton_append]

theorem lines_append {line : String} (h : IsPlain line) (rest : String) :
    lines (line ++ "\n" ++ rest) = line :: lines rest := by
  have htext : (line ++ "\n" ++ rest).toList = line.toList ++ '\n' :: rest.toList := by
    simp
  rw [lines, htext, breakLines_append (isPlain_iff.mp h) _ [] (by simp), List.reverse_nil,
    List.nil_append, String.ofList_toList, lines]

end SecureZone.Transcript
