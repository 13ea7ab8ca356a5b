import Mathlib.Data.List.Basic
import SecureZone.Driver.Basic
import SecureZone.Proofs.Numerals

/-!
# Printed numbers read back

A number is printed in hexadecimal digits, padded or not, or in decimal digits, and each of these
texts is read as the number. So is a hexadecimal text that was written with capital letters, behind
more zeros or with underscores between the digits. The reports of a configuration put their numbers
between characters that are neither letters nor digits, so that the fields of a report can be told
apart and determine what was reported.
-/

namespace SecureZone

theorem toString_self (text : String) : toString text = text := rfl

namespace Numeral

/-! ## Printed digits -/

section

variable {radix : Nat} {c : Char} {cs : List Char} {d n : Nat}

theorem isDigit_digitChar (hd : d < radix) : IsDigit radix d.digitChar d := ⟨hd, .inl rfl⟩

theorem IsDigit.toUpper (hradix : radix ≤ 16) (h : IsDigit radix c d) :
    IsDigit radix c.toUpper d := by
  have hcapital : ∀ d < 16, d.digitChar.toUpper.toUpper = d.digitChar.toUpper := by decide
  obtain ⟨hd, rfl | rfl⟩ := h
  · exact ⟨hd, .inr rfl⟩
  · exact ⟨hd, .inr (hcapital d (hd.trans_le hradix))⟩

theorem IsDigit.isAlphanum (hradix : radix ≤ 16) (h : IsDigit radix c d) : c.isAlphanum := by
  have hdigit : ∀ d < 16, d.digitChar.isAlphanum ∧ d.digitChar.toUpper.isAlphanum := by decide
  obtain ⟨hlower, hupper⟩ := hdigit d (h.1.trans_le hradix)
  rcases h.2 with rfl | rfl
  · exact hlower
  · exact hupper

namespace Denotes

theorem exists_isDigit_of_mem (h : Denotes radix cs n) (hc : c ∈ cs) : ∃ d, IsDigit radix c d := by
  induction cs generalizing n with
  | nil => cases hc
  | cons c' cs ih =>
      obtain ⟨d, v, hd, hv, -⟩ := denotes_cons.mp h
      rcases List.mem_cons.mp hc with rfl | hc
      · exact ⟨d, hd⟩
      · exact ih hv hc

/-- One more digit on the right. -/
theorem concat (h : Denotes radix cs n) (hd : IsDigit radix c d) :
    Denotes radix (cs ++ [c]) (d + radix * n) := by
  obtain ⟨ds, hds, rfl⟩ := h
  refine ⟨ds ++ [d], List.rel_append hds (.cons hd .nil), ?_⟩
  rw [List.reverse_append, List.reverse_singleton, List.singleton_append, Nat.ofDigits_cons]

/-- Zeros on the left. -/
theorem padded (h : Denotes radix cs n) (hradix : 0 < radix) (zeros : Nat) :
    Denotes radix (List.replicate zeros '0' ++ cs) n := by
  induction zeros with
  | zero => exact h
  | succ zeros ih =>
      have hzero : IsDigit radix '0' 0 := isDigit_digitChar hradix
      rw [List.replicate_succ, List.cons_append]
      exact denotes_cons.mpr ⟨0, n, hzero, ih, by rw [Nat.zero_mul, Nat.zero_add]⟩

/-- Capital letters. -/
theorem capitalized (hradix : radix ≤ 16) (h : Denotes radix cs n) {cs' : List Char}
    (hcs : List.Forall₂ (fun c' c ↦ c' = c ∨ c' = c.toUpper) cs' cs) : Denotes radix cs' n := by
  induction hcs generalizing n with
  | nil => exact h
  | @cons c' c cs' cs hc hcs ih =>
      obtain ⟨d, v, hd, hv, rfl⟩ := denotes_cons.mp h
      have hd' : IsDigit radix c' d := by
        rcases hc with rfl | rfl
        · exact hd
        · exact hd.toUpper hradix
      exact denotes_cons.mpr ⟨d, v, hd', ih hv, by rw [hcs.length_eq]⟩

end Denotes

section

variable (hlo : 1 < radix)

include hlo

theorem denotes_toDigits (n : Nat) : Denotes radix (Nat.toDigits radix n) n := by
  have hempty : Denotes radix [] 0 := denotes_nil.mpr rfl
  induction n using Nat.strongRecOn with
  | ind n ih =>
      rw [Nat.toDigits_eq_if hlo]
      split_ifs with hn
      · exact hempty.concat (isDigit_digitChar hn)
      · have hlast := isDigit_digitChar (Nat.mod_lt n (Nat.zero_lt_of_lt hlo))
        have hall := (ih (n / radix) (Nat.div_lt_self (by omega) hlo)).concat hlast
        rwa [Nat.mod_add_div] at hall

theorem denotes_digits (width n : Nat) : Denotes radix (digits radix width n) n :=
  (denotes_toDigits hlo n).padded (Nat.zero_lt_of_lt hlo) _

end

end

/-! ## Texts that are read as a word -/

section

variable {w : Word}

/-- A body without a sign. -/
theorem parseWord_of_denotes {text : String} (hne : bodyOf text.toList ≠ [])
    (h : Denotes (radixOf text.toList) (bodyOf text.toList) w.toNat) : parseWord text = .ok w := by
  have hradix := radixOf_le text.toList
  have hno (c : Char) (hc : ¬ c.isAlphanum) : c ∉ bodyOf text.toList := by
    intro hmem
    obtain ⟨d, hd⟩ := h.exists_isDigit_of_mem hmem
    exact hc (hd.isAlphanum hradix)
  have hplus := hno '+' (by decide)
  have hminus := hno '-' (by decide)
  rw [parseWord_eq_ok_iff]
  generalize bodyOf text.toList = body at *
  refine ⟨?_, ?_⟩
  · simp only [List.mem_cons, List.not_mem_nil, or_false, not_or]
    refine ⟨hne, ?_, ?_⟩
    · rintro rfl
      exact hplus (List.mem_singleton_self _)
    · rintro rfl
      exact hminus (List.mem_singleton_self _)
  · unfold unsigned
    split
    · exact absurd List.mem_cons_self hplus
    · exact h

theorem parseWord_hexadecimal {x : Char} (hx : x = 'x' ∨ x = 'X') {cs : List Char}
    (hne : cs.filter (· ≠ '_') ≠ []) (h : Denotes 16 (cs.filter (· ≠ '_')) w.toNat) :
    parseWord (String.ofList ('0' :: x :: cs)) = .ok w := by
  have hannounced : Announced ('0' :: x :: cs) := by
    rcases hx with rfl | rfl
    · exact .inl ⟨cs, rfl⟩
    · exact .inr ⟨cs, rfl⟩
  apply parseWord_of_denotes
  · rwa [String.toList_ofList, bodyOf, if_pos hannounced]
  · rwa [String.toList_ofList, bodyOf, radixOf, if_pos hannounced, if_pos hannounced]

theorem toList_hex (width n : Nat) : (hex width n).toList = '0' :: 'x' :: digits 16 width n := by
  simp [hex]

theorem digits_ne_nil (radix width n : Nat) : digits radix width n ≠ [] :=
  List.append_ne_nil_of_right_ne_nil _ Nat.toDigits_ne_nil

theorem isAlphanum_of_mem_digits {width n : Nat} {c : Char} (hc : c ∈ digits 16 width n) :
    c.isAlphanum := by
  obtain ⟨d, hd⟩ := (denotes_digits (by decide) width n).exists_isDigit_of_mem hc
  exact hd.isAlphanum (le_refl 16)

theorem parseWord_hex (width : Nat) (w : Word) : parseWord (hex width w.toNat) = .ok w := by
  have hplain : (digits 16 width w.toNat).filter (· ≠ '_') = digits 16 width w.toNat := by
    rw [List.filter_eq_self]
    intro c hc
    refine decide_eq_true ?_
    rintro rfl
    exact absurd (isAlphanum_of_mem_digits hc) (by decide)
  have htext : hex width w.toNat = String.ofList ('0' :: 'x' :: digits 16 width w.toNat) := by
    rw [← toList_hex, String.ofList_toList]
  rw [htext]
  refine parseWord_hexadecimal (.inl rfl) ?_ ?_
  · rw [hplain]
    exact digits_ne_nil 16 width w.toNat
  · rw [hplain]
    exact denotes_digits (by decide) width w.toNat

theorem parseWord_decimal (w : Word) : parseWord (toString w.toNat) = .ok w := by
  have hdigits : Denotes 10 (Nat.toDigits 10 w.toNat) w.toNat := denotes_toDigits (by decide) _
  have htext : (toString w.toNat).toList = Nat.toDigits 10 w.toNat := Nat.toList_repr
  have hno (x : Char) (hx : ¬ ∃ d, IsDigit 10 x d) : ¬ ['0', x] <+: Nat.toDigits 10 w.toNat := by
    intro h
    exact hx (hdigits.exists_isDigit_of_mem (h.subset (by simp)))
  have hannounced : ¬ Announced (toString w.toNat).toList := by
    rw [htext]
    exact not_or.mpr ⟨hno 'x' (by decide), hno 'X' (by decide)⟩
  apply parseWord_of_denotes
  · rw [bodyOf, if_neg hannounced, htext]
    exact Nat.toDigits_ne_nil
  · rwa [bodyOf, radixOf, if_neg hannounced, if_neg hannounced, htext]

/-- The text announces a hexadecimal numeral and spells `n`: behind any zeros, with small or capital
letters and with underscores anywhere. -/
def Spells (text : List Char) (n : Nat) : Prop :=
  ∃ x cs zeros, (x = 'x' ∨ x = 'X') ∧ text = '0' :: x :: cs ∧
    List.Forall₂ (fun c' c ↦ c' = c ∨ c' = c.toUpper) (cs.filter (· ≠ '_'))
      (List.replicate zeros '0' ++ Nat.toDigits 16 n)

theorem parseWord_of_spells {text : String} (h : Spells text.toList w.toNat) :
    parseWord text = .ok w := by
  obtain ⟨x, cs, zeros, hx, htext, hcs⟩ := h
  have hdigits : Denotes 16 (Nat.toDigits 16 w.toNat) w.toNat := denotes_toDigits (by decide) _
  rw [← String.ofList_toList (s := text), htext]
  refine parseWord_hexadecimal hx ?_
    ((hdigits.padded (by decide) zeros).capitalized (le_refl 16) hcs)
  intro hempty
  rw [hempty, List.forall₂_nil_left_iff] at hcs
  exact List.append_ne_nil_of_right_ne_nil _ Nat.toDigits_ne_nil hcs

end

end Numeral

/-! ## Fields of a report -/

namespace Report

open Numeral

/-- The runs of letters and digits in a text. -/
def runs (cs : List Char) : List (List Char) :=
  (cs.splitOnP (!·.isAlphanum)).filter (!·.isEmpty)

theorem runs_append_cons (cs ds : List Char) {sep : Char} (h : !sep.isAlphanum) :
    runs (cs ++ sep :: ds) = runs cs ++ runs ds := by
  rw [runs, List.splitOnP_append_cons cs ds h, List.filter_append, ← runs, ← runs]

theorem runs_append_of_all {cs : List Char} (h : cs.all (!·.isAlphanum)) (ds : List Char) :
    runs (cs ++ ds) = runs ds := by
  induction cs with
  | nil => rfl
  | cons c cs ih =>
      rw [List.all_cons, Bool.and_eq_true] at h
      have hc := runs_append_cons [] (cs ++ ds) h.1
      rw [List.nil_append] at hc
      rw [List.cons_append, hc, ih h.2]
      rfl

/-- The fields of a text are its runs of letters and digits. -/
def fields (text : String) : List String := (runs text.toList).map String.ofList

/-- One or more characters that belong to no field. -/
def IsGap (text : String) : Prop := text.toList ≠ [] ∧ text.toList.all (!·.isAlphanum)

def IsField (text : String) : Prop := text.toList ≠ [] ∧ text.toList.all (·.isAlphanum)

instance (text : String) : Decidable (IsGap text) := inferInstanceAs (Decidable (_ ∧ _))

instance (text : String) : Decidable (IsField text) := inferInstanceAs (Decidable (_ ∧ _))

theorem fields_of_isField {text : String} (h : IsField text) : fields text = [text] := by
  have hsplit : text.toList.splitOnP (!·.isAlphanum) = [text.toList] :=
    List.splitOnP_eq_singleton fun c hc ↦ by simp [List.all_eq_true.mp h.2 c hc]
  simp [fields, runs, hsplit, h.1]

/-- The fields on both sides of a gap do not run into each other. -/
theorem fields_append_gap {gap : String} (h : IsGap gap) (text later : String) :
    fields (text ++ gap ++ later) = fields text ++ fields later := by
  obtain ⟨hne, hgap⟩ := h
  obtain ⟨sep, cs, hcs⟩ := List.exists_cons_of_ne_nil hne
  rw [hcs, List.all_cons, Bool.and_eq_true] at hgap
  rw [fields, fields, fields, ← List.map_append, String.toList_append, String.toList_append, hcs,
    List.append_assoc, List.cons_append, runs_append_cons _ _ hgap.1, runs_append_of_all hgap.2]

theorem isField_hex (width n : Nat) : IsField (hex width n) := by
  rw [IsField, toList_hex]
  refine ⟨List.cons_ne_nil _ _, List.all_eq_true.mpr ?_⟩
  rw [List.forall_mem_cons, List.forall_mem_cons]
  exact ⟨by decide, by decide, fun c hc ↦ isAlphanum_of_mem_digits hc⟩

theorem isField_decimal (n : Nat) : IsField (toString n) := by
  have htext : (toString n).toList = Nat.toDigits 10 n := Nat.toList_repr
  rw [IsField, htext]
  refine ⟨Nat.toDigits_ne_nil, List.all_eq_true.mpr fun c hc ↦ ?_⟩
  obtain ⟨d, hd⟩ := (denotes_toDigits (by decide) n).exists_isDigit_of_mem hc
  exact hd.isAlphanum (by decide)

theorem fields_config (c : Driver.Config) :
    fields c.text = ["SMZ", "Configuration", "Base", "Address", hex 8 c.base.toNat, "Region",
      "Size", hex 8 c.size.toNat, toString c.size.toNat, "bytes", "Status",
      if c.enabled then "ENABLED" else "DISABLED"] := by
  have htext : c.text = "SMZ Configuration:\n  Base Address" ++ ": " ++
      (hex 8 c.base.toNat ++ "\n  " ++ ("Region Size" ++ ":  " ++
        (hex 8 c.size.toNat ++ " (" ++ (toString c.size.toNat ++ " " ++
          ("bytes)\n  Status" ++ ":       " ++
            if c.enabled then "ENABLED" else "DISABLED"))))) := by
    rw [← String.toList_inj]
    simp [Driver.Config.text, toString_self]
  have hstatus : IsField (if c.enabled then "ENABLED" else "DISABLED") := by
    split_ifs <;> decide
  rw [htext, fields_append_gap (by decide), fields_append_gap (by decide),
    fields_append_gap (by decide), fields_append_gap (by decide), fields_append_gap (by decide),
    fields_append_gap (by decide), fields_of_isField (isField_hex _ _),
    fields_of_isField (isField_hex _ _), fields_of_isField (isField_decimal _),
    fields_of_isField hstatus]
  rfl

theorem fields_region (r : Region) :
    fields r.text = [hex 8 r.base.toNat, hex 0 r.size.toNat,
      if r.enabled then "enabled" else "disabled"] := by
  have htext : r.text = "" ++ "[" ++ (hex 8 r.base.toNat ++ ", +" ++
      (hex 0 r.size.toNat ++ ") " ++ if r.enabled then "enabled" else "disabled")) := by
    rw [← String.toList_inj]
    simp [Region.text, toString_self]
  have hstatus : IsField (if r.enabled then "enabled" else "disabled") := by
    split_ifs <;> decide
  rw [htext, fields_append_gap (by decide), fields_append_gap (by decide),
    fields_append_gap (by decide), fields_of_isField (isField_hex _ _),
    fields_of_isField (isField_hex _ _), fields_of_isField hstatus]
  rfl

theorem hex_inj {width : Nat} {v w : Word} (h : hex width v.toNat = hex width w.toNat) : v = w := by
  have hread := parseWord_hex width v
  rw [h, parseWord_hex] at hread
  exact (Except.ok.inj hread).symm

theorem state_inj {on off : String} (hne : on ≠ off) {b b' : Bool}
    (h : (if b then on else off) = if b' then on else off) : b = b' := by
  cases b <;> cases b'
  · rfl
  · exact absurd h.symm hne
  · exact absurd h hne
  · rfl

/-- Every way of printing a word is read as the word, and so are its hexadecimal texts in capital
letters, behind more zeros or with underscores. The fields of the report of a configuration are read
as its base and, in hexadecimal and in decimal, its size. So a report determines its configuration,
and the text of a region its bounds and its switch. -/
theorem printed_numbers_read_back :
    (∀ (width : Nat) (w : Word), parseWord (hex width w.toNat) = .ok w) ∧
    (∀ w : Word, parseWord (toString w.toNat) = .ok w) ∧
    (∀ (text : String) (w : Word), Spells text.toList w.toNat → parseWord text = .ok w) ∧
    (∀ c : Driver.Config, ∃ base size bytes,
      fields c.text = ["SMZ", "Configuration", "Base", "Address", base, "Region", "Size", size,
        bytes, "bytes", "Status", if c.enabled then "ENABLED" else "DISABLED"] ∧
      parseWord base = .ok c.base ∧ parseWord size = .ok c.size ∧ parseWord bytes = .ok c.size) ∧
    (∀ c d : Driver.Config, c.text = d.text → c = d) ∧
    ∀ r q : Region, r.text = q.text →
      r.base = q.base ∧ r.size = q.size ∧ r.enabled = q.enabled := by
  refine ⟨parseWord_hex, parseWord_decimal, fun _ _ ↦ parseWord_of_spells, ?_, ?_, ?_⟩
  · intro c
    exact ⟨_, _, _, fields_config c, parseWord_hex 8 _, parseWord_hex 8 _, parseWord_decimal _⟩
  · rintro ⟨base, size, enabled⟩ ⟨base', size', enabled'⟩ h
    have hfields := congrArg fields h
    simp only [fields_config, List.cons.injEq, true_and, and_true] at hfields
    obtain ⟨hbase, hsize, -, hstate⟩ := hfields
    rw [hex_inj hbase, hex_inj hsize, state_inj (by decide) hstate]
  · intro r q h
    have hfields := congrArg fields h
    simp only [fields_region, List.cons.injEq, and_true] at hfields
    obtain ⟨hbase, hsize, hstate⟩ := hfields
    exact ⟨hex_inj hbase, hex_inj hsize, state_inj (by decide) hstate⟩

/-- More zeros, capital letters and underscores. -/
example : parseWord "0X__00Be_eF_" = .ok 0xBEEF ∧
    (fields (Driver.Config.text ⟨0x10000, 0x1000, true⟩))[8]? = some "4096" := by
  decide +kernel

end Report

end SecureZone
