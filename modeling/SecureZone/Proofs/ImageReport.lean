import Mathlib.Data.Finset.Card
import Mathlib.Data.Finset.Range
import SecureZone.Proofs.Lines
import SecureZone.Scenario.Image

/-!
# The report of an image

The words that are read back are compared one after the other. At any point the count so far is the
number of places that agree with the image, and the mismatch kept is the first place that does not.
So the report passes exactly when every word is the one that was written, and otherwise its last
lines say how many are not, and where the first of them is. The counters are words, which is enough
for all lists that are shorter than the number of words.
-/

namespace SecureZone.Image

open Numeral Transcript

/-! ## Places that agree with the image -/

def AgreesAt (words : List Word) (i : Nat) : Prop := words[i]? = some (word i)

instance (words : List Word) (i : Nat) : Decidable (AgreesAt words i) :=
  inferInstanceAs (Decidable (_ = _))

def agreeing (words : List Word) : Finset Nat :=
  (Finset.range words.length).filter (AgreesAt words)

def differing (words : List Word) : Finset Nat :=
  (Finset.range words.length).filter fun i ↦ ¬ AgreesAt words i

/-- The first place that does not agree, with the word of the image and the word found there. -/
structure IsFirstMismatch (words : List Word) (m : Mismatch) : Prop where
  found : words[m.index]? = some m.actual
  expected : m.expected = word m.index
  differs : m.actual ≠ m.expected
  first : ∀ i < m.index, AgreesAt words i

section

variable {words : List Word} {a : Word} {i : Nat} {m m' : Mismatch}

theorem agreesAt_concat_of_lt (h : i < words.length) :
    AgreesAt (words ++ [a]) i ↔ AgreesAt words i := by
  rw [AgreesAt, AgreesAt, List.getElem?_append_left h]

theorem agreesAt_concat_length : AgreesAt (words ++ [a]) words.length ↔ a = word words.length := by
  rw [AgreesAt, List.getElem?_concat_length, Option.some.injEq]

theorem agreeing_concat :
    agreeing (words ++ [a]) =
      if a = word words.length then insert words.length (agreeing words) else agreeing words := by
  have hbefore : (Finset.range words.length).filter (AgreesAt (words ++ [a])) = agreeing words :=
    Finset.filter_congr fun i hi ↦ agreesAt_concat_of_lt (Finset.mem_range.mp hi)
  rw [agreeing, List.length_append, List.length_singleton, Finset.range_add_one,
    Finset.filter_insert, hbefore]
  exact if_congr agreesAt_concat_length rfl rfl

theorem card_agreeing_add_card_differing (words : List Word) :
    (agreeing words).card + (differing words).card = words.length := by
  rw [agreeing, differing, Finset.card_filter_add_card_filter_not, Finset.card_range]

namespace IsFirstMismatch

theorem index_lt (h : IsFirstMismatch words m) : m.index < words.length :=
  (List.getElem?_eq_some_iff.mp h.found).1

theorem concat (h : IsFirstMismatch words m) (a : Word) : IsFirstMismatch (words ++ [a]) m where
  found := (List.getElem?_append_left h.index_lt).trans h.found
  expected := h.expected
  differs := h.differs
  first i hi := (agreesAt_concat_of_lt (hi.trans h.index_lt)).mpr (h.first i hi)

end IsFirstMismatch

end

/-! ## The comparison so far -/

/-- What a comparison has to say after the given words. -/
structure Tells (c : Comparison) (words : List Word) : Prop where
  matched : c.matched = (agreeing words).card
  of_some : ∀ m, c.firstMismatch = some m → IsFirstMismatch words m
  of_none : c.firstMismatch = none → ∀ i < words.length, AgreesAt words i

namespace Tells

variable {c : Comparison} {words : List Word}

theorem matched_add (h : Tells c words) : c.matched + (differing words).card = words.length := by
  rw [h.matched, card_agreeing_add_card_differing]

section

variable {i a : Word}

private theorem lt_or_eq_of_lt_concat {k : Nat} (hk : k < (words ++ [a]).length) :
    k < words.length ∨ k = words.length := by
  rw [List.length_append, List.length_singleton] at hk
  omega

/-- One more word that agrees. -/
theorem concat_equal (h : Tells c words) (ha : a = word words.length)
    (hroom : words.length + 1 < 0x100000000) :
    Tells ⟨c.count + 1, c.firstMismatch⟩ (words ++ [a]) := by
  have hnew : words.length ∉ agreeing words := fun hmem ↦
    absurd (Finset.mem_range.mp (Finset.mem_filter.mp hmem).1) (lt_irrefl _)
  have hcount : (c.count + 1).toNat = c.matched + 1 := by
    have hsum := h.matched_add
    exact Word.toNat_add_one (by rw [← Comparison.matched]; omega)
  refine ⟨?_, fun m hm ↦ (h.of_some m hm).concat a, ?_⟩
  · rw [agreeing_concat, if_pos ha, Finset.card_insert_of_notMem hnew, ← h.matched]
    exact hcount
  · intro hnone k hk
    rcases lt_or_eq_of_lt_concat hk with hk | rfl
    · exact (agreesAt_concat_of_lt hk).mpr (h.of_none hnone k hk)
    · exact agreesAt_concat_length.mpr ha

/-- One more word that does not agree. -/
theorem concat_other (h : Tells c words) (hi : i.toNat = words.length)
    (ha : a ≠ word words.length) :
    Tells ⟨c.count, c.firstMismatch.or (some ⟨i, word words.length, a⟩)⟩ (words ++ [a]) := by
  refine ⟨?_, ?_, fun hnone ↦ ?_⟩
  · rw [agreeing_concat, if_neg ha, ← h.matched]
    rfl
  · intro m hm
    rcases Option.or_eq_some_iff.mp hm with hm | ⟨hnone, hm⟩
    · exact (h.of_some m hm).concat a
    · obtain rfl := Option.some.inj hm
      have hindex : (Mismatch.mk i (word words.length) a).index = words.length := hi
      refine ⟨?_, ?_, ha, fun k hk ↦ ?_⟩
      · rw [hindex, List.getElem?_concat_length]
      · rw [hindex]
      · rw [hindex] at hk
        exact (agreesAt_concat_of_lt hk).mpr (h.of_none hnone k hk)
  · exact absurd (Option.or_eq_none_iff.mp hnone).2 (Option.some_ne_none _)

end

theorem extend (h : Tells c words) {i : Word} (hi : i.toNat = words.length) (rest : List Word)
    (hroom : words.length + rest.length < 0x100000000) :
    Tells (c.extend i rest) (words ++ rest) := by
  induction rest generalizing c words i with
  | nil =>
      rw [List.append_nil, Comparison.extend_nil]
      exact h
  | cons a rest ih =>
      rw [List.length_cons] at hroom
      have hlength : (words ++ [a]).length = words.length + 1 := by
        rw [List.length_append, List.length_singleton]
      have hnext : (i + 1).toNat = (words ++ [a]).length := by
        rw [Word.toNat_add_one (by omega), hi, hlength]
      have hrest : (words ++ [a]).length + rest.length < 0x100000000 := by omega
      rw [List.append_cons]
      by_cases ha : a = word words.length
      · rw [Comparison.extend_cons_of_eq c (by rw [hi]; exact ha)]
        exact ih (h.concat_equal ha (by omega)) hnext hrest
      · rw [Comparison.extend_cons_of_ne c (by rw [hi]; exact ha), hi]
        exact ih (h.concat_other hi ha) hnext hrest

end Tells

def passLine : String := "PASS: image decrypted correctly"

def failLine (mismatches : Nat) : String := s!"FAIL: {mismatches} mismatches"

def Mismatch.lines (m : Mismatch) : List String :=
  [s!"  First mismatch at word {m.index}:", s!"    Expected: {hex 8 m.expected.toNat}",
    s!"    Got:      {hex 8 m.actual.toNat}"]

def Report.verdict (r : Report) : List String :=
  if r.Passed then [passLine]
  else failLine (r.words - r.comparison.matched) ::
    (r.comparison.firstMismatch.map Mismatch.lines).getD []

end SecureZone.Image
