import SecureZone.Bus.Ram
import SecureZone.Interceptor.Bus

/-!
# The image round trip

An image is written word by word through the interceptor, read back the same way and compared. The
first few words are also looked up in the memory itself, where those of the region are encrypted.
Places and matches are counted in words, like addresses. Sums of words wrap around here, as they do
where arithmetic is not checked; `compare?` is the comparison where it is.
-/

namespace SecureZone.Image

/-- Word `i` of the image. It repeats every 256 words. -/
def word (i : Nat) : Word :=
  let low := BitVec.ofNat 32 i &&& 0xFF
  0xAABB0000 ||| (low <<< 8) ||| low

def address (base : Word) (i : Nat) : Word := base + BitVec.ofNat 32 (4 * i)

structure Mismatch where
  place : Word
  expected : Word
  actual : Word
  deriving DecidableEq, Repr

def Mismatch.index (m : Mismatch) : Nat := m.place.toNat

/-- How many words agree with the image, and the first that does not. -/
structure Comparison where
  count : Word
  firstMismatch : Option Mismatch
  deriving DecidableEq, Repr

namespace Comparison

def matched (c : Comparison) : Nat := c.count.toNat

section

variable {m : Type → Type} [Monad m] (next : Word → m Word)

/-- Take in the word found at place `i`. -/
def add (c : Comparison) (i actual : Word) : m Comparison :=
  if actual = word i.toNat then (fun count ↦ { c with count }) <$> next c.count
  else pure { c with firstMismatch := c.firstMismatch.or (some ⟨i, word i.toNat, actual⟩) }

/-- Take in the words from place `i` on. The place is counted up before the next word is asked for,
also behind the last one. -/
def addFrom (c : Comparison) (i : Word) : List Word → m Comparison
  | [] => (fun _ ↦ c) <$> next i
  | actual :: rest => do
    let following ← next i
    let c ← c.add next i actual
    c.addFrom following rest

end

/-- Go on at place `i`, with counters that wrap around. -/
def extend (c : Comparison) (i : Word) (words : List Word) : Comparison :=
  Id.run (c.addFrom (fun w ↦ pure (w + 1)) i words)

/-- Go on at place `i`, with counters that are checked. -/
def extend? (c : Comparison) (i : Word) (words : List Word) : Option Comparison :=
  c.addFrom Word.next? i words

theorem extend_nil (c : Comparison) (i : Word) : c.extend i [] = c := rfl

theorem extend_cons_of_eq (c : Comparison) {i actual : Word} (h : actual = word i.toNat)
    (rest : List Word) :
    c.extend i (actual :: rest) = extend ⟨c.count + 1, c.firstMismatch⟩ (i + 1) rest := by
  simp [extend, addFrom, add, h]

theorem extend_cons_of_ne (c : Comparison) {i actual : Word} (h : actual ≠ word i.toNat)
    (rest : List Word) :
    c.extend i (actual :: rest) =
      extend ⟨c.count, c.firstMismatch.or (some ⟨i, word i.toNat, actual⟩)⟩ (i + 1) rest := by
  simp [extend, addFrom, add, h]

/-- Checked counters come to the same as long as the place behind the last word can be counted. The
count never gets ahead of the place. -/
theorem extend?_eq {c : Comparison} {i : Word} (hc : c.count.toNat ≤ i.toNat) (words : List Word) :
    c.extend? i words =
      if i.toNat + words.length + 1 < 0x100000000 then some (c.extend i words) else none := by
  induction words generalizing c i with
  | nil =>
      rw [extend?, addFrom, Word.next?, List.length_nil, Nat.add_zero]
      split <;> rfl
  | cons actual rest ih =>
      rw [List.length_cons]
      by_cases hnext : i.toNat + 1 < 0x100000000
      · have hi := Word.toNat_add_one hnext
        have hplace : i.next? = some (i + 1) := if_pos hnext
        have hsum : i.toNat + (rest.length + 1) + 1 = (i + 1).toNat + rest.length + 1 := by omega
        rw [hsum]
        by_cases h : actual = word i.toNat
        · have hroom : c.count.toNat + 1 < 0x100000000 := by omega
          have hcount : c.count.next? = some (c.count + 1) := if_pos hroom
          have hle : (c.count + 1).toNat ≤ (i + 1).toNat := by
            rw [Word.toNat_add_one hroom]
            omega
          have htail := @ih ⟨c.count + 1, c.firstMismatch⟩ (i + 1) hle
          rw [extend_cons_of_eq c h, ← htail]
          simp [extend?, addFrom, add, hplace, hcount, h]
        · have hle : c.count.toNat ≤ (i + 1).toNat := by omega
          have htail :=
            @ih ⟨c.count, c.firstMismatch.or (some ⟨i, word i.toNat, actual⟩)⟩ (i + 1) hle
          rw [extend_cons_of_ne c h, ← htail]
          simp [extend?, addFrom, add, hplace, h]
      · have hplace : i.next? = none := if_neg hnext
        rw [if_neg (by omega), extend?, addFrom, hplace]
        rfl

end Comparison

def compare (words : List Word) : Comparison := Comparison.extend ⟨0, none⟩ 0 words

def compare? (words : List Word) : Option Comparison := Comparison.extend? ⟨0, none⟩ 0 words

theorem compare?_eq (words : List Word) :
    compare? words = if words.length + 1 < 0x100000000 then some (compare words) else none := by
  have hzero : (0 : Word).toNat + words.length = words.length := Nat.zero_add _
  rw [compare?, Comparison.extend?_eq (Nat.le_refl _), hzero, compare]

structure Report where
  base : Word
  words : Nat
  comparison : Comparison
  /-- The first words of the image, each with the word that the memory holds for it. -/
  atRest : List (Word × Word)
  deriving DecidableEq, Repr

def Report.Passed (r : Report) : Prop := r.comparison.matched = r.words

instance (r : Report) : Decidable r.Passed := inferInstanceAs (Decidable (_ = _))

def samples : Nat := 4

/-- The leading words of an image at `base` as they lie in memory. -/
def atRest (ram : Ram) (base : Word) (words : Nat) : List (Word × Word) :=
  (List.range (min words samples)).filterMap fun i ↦
    (ram.word? (address base i)).map fun stored ↦ (word i, stored)

/-- Write an image of `words` words at `base`, read it back and compare. -/
def run (base : Word) (words : Nat) : Action (Interceptor Ram) Fault Report := do
  let _ ← .tabulate words fun i ↦ Bus.store .word (address base i) (word i)
  .report (.imageWritten words base)
  let readBack ← .tabulate words fun i ↦ Bus.load .word (address base i)
  let z ← .get
  return ⟨base, words, compare readBack, atRest z.memory base words⟩

def Mismatch.text (m : Mismatch) : String :=
  s!"  First mismatch at word {m.index}:\n" ++
    s!"    Expected: {Numeral.hex 8 m.expected.toNat}\n" ++
    s!"    Got:      {Numeral.hex 8 m.actual.toNat}\n"

def Report.text (r : Report) : String :=
  let sample (pair : Word × Word) :=
    s!"  Plaintext {Numeral.hex 8 pair.1.toNat} stored as {Numeral.hex 8 pair.2.toNat}\n"
  let verdict :=
    if r.Passed then "PASS: image decrypted correctly\n"
    else
      s!"FAIL: {r.words - r.comparison.matched} mismatches\n" ++
        (r.comparison.firstMismatch.map Mismatch.text).getD ""
  "Image round trip\n" ++
    s!"  Wrote and read {r.words} words at {Numeral.hex 8 r.base.toNat}\n" ++
    String.join (r.atRest.map sample) ++
    s!"  Matching words: {r.comparison.matched} / {r.words}\n" ++
    verdict

end SecureZone.Image
