import Mathlib.Data.List.Forall2
import Mathlib.Data.Nat.Digits.Defs
import Mathlib.Tactic.Ring
import SecureZone.Numeral.Reader

/-!
# What a numeral denotes

The value of a list of digits is that of positional notation, over unbounded numbers. The reader
takes the digits from the left and stops at the first one that is none or that takes the number past
its limit. So it finds the value exactly when all characters are digits and the value is within the
limit. It finds the number too large exactly when the digits in front of the first other character
are past the limit already, and whatever follows them then does not matter.
-/

namespace SecureZone.Numeral

/-! ## Digits -/

/-- `c` is the digit `d` of the radix, which may be a capital letter. -/
def IsDigit (radix : Nat) (c : Char) (d : Nat) : Prop :=
  d < radix ∧ (c = d.digitChar ∨ c = d.digitChar.toUpper)

instance (radix : Nat) (c : Char) : Decidable (∃ d, IsDigit radix c d) :=
  inferInstanceAs (Decidable (∃ d, d < radix ∧ (c = d.digitChar ∨ c = d.digitChar.toUpper)))

/-- The value of `cs` as digits of the radix is `n`. -/
def Denotes (radix : Nat) (cs : List Char) (n : Nat) : Prop :=
  ∃ ds, List.Forall₂ (IsDigit radix) cs ds ∧ n = Nat.ofDigits radix ds.reverse

/-- The digits at the front of `cs`, up to the first character that is none. -/
def leading (radix : Nat) (cs : List Char) : List Char :=
  cs.takeWhile fun c ↦ ∃ d, IsDigit radix c d

section

variable {radix : Nat} {c : Char} {cs : List Char} {d n : Nat}

@[simp] theorem denotes_nil : Denotes radix [] n ↔ n = 0 := by
  constructor
  · rintro ⟨ds, hds, rfl⟩
    cases hds
    rfl
  · rintro rfl
    exact ⟨[], .nil, rfl⟩

theorem denotes_cons : Denotes radix (c :: cs) n ↔
    ∃ d v, IsDigit radix c d ∧ Denotes radix cs v ∧ n = d * radix ^ cs.length + v := by
  have hvalue (d : Nat) (ds : List Nat) (h : List.Forall₂ (IsDigit radix) cs ds) :
      Nat.ofDigits radix (d :: ds).reverse =
        d * radix ^ cs.length + Nat.ofDigits radix ds.reverse := by
    rw [List.reverse_cons, Nat.ofDigits_append, Nat.ofDigits_singleton, List.length_reverse,
      h.length_eq, Nat.mul_comm, Nat.add_comm]
  constructor
  · rintro ⟨ds, hds, rfl⟩
    cases hds with
    | cons hd hds => exact ⟨_, _, hd, ⟨_, hds, rfl⟩, hvalue _ _ hds⟩
  · rintro ⟨d, v, hd, ⟨ds, hds, rfl⟩, rfl⟩
    exact ⟨d :: ds, .cons hd hds, (hvalue d ds hds).symm⟩

theorem leading_cons_of_isDigit (h : IsDigit radix c d) :
    leading radix (c :: cs) = c :: leading radix cs :=
  List.takeWhile_cons_of_pos (decide_eq_true ⟨d, h⟩)

theorem leading_cons_of_not (h : ∀ d, ¬ IsDigit radix c d) : leading radix (c :: cs) = [] :=
  List.takeWhile_cons_of_neg (by simpa using h)

theorem exists_denotes_leading (radix : Nat) (cs : List Char) :
    ∃ n, Denotes radix (leading radix cs) n := by
  induction cs with
  | nil => exact ⟨0, denotes_nil.mpr rfl⟩
  | cons c cs ih =>
      by_cases h : ∃ d, IsDigit radix c d
      · obtain ⟨d, hd⟩ := h
        obtain ⟨n, hn⟩ := ih
        rw [leading_cons_of_isDigit hd]
        exact ⟨_, denotes_cons.mpr ⟨d, n, hd, hn, rfl⟩⟩
      · rw [leading_cons_of_not (not_exists.mp h)]
        exact ⟨0, denotes_nil.mpr rfl⟩

/-- Every character of a numeral is a digit. -/
theorem leading_eq_self (h : Denotes radix cs n) : leading radix cs = cs := by
  induction cs generalizing n with
  | nil => rfl
  | cons c cs ih =>
      obtain ⟨d, v, hd, hv, -⟩ := denotes_cons.mp h
      rw [leading_cons_of_isDigit hd, ih hv]

end

/-! ## Reading digits -/

section

variable {radix : Nat} (hradix : radix ≤ 16) {c : Char} {cs : List Char} {d : Nat}

include hradix

theorem digitValue?_eq_some_iff : digitValue? radix c = some d ↔ IsDigit radix c d := by
  have hle (a b : Char) : a ≤ b ↔ a.toNat ≤ b.toNat := UInt32.le_iff_toNat_le
  have hlower : ∀ d < 16, d.digitChar.toNat = if d < 10 then 48 + d else 87 + d := by decide
  have hupper : ∀ d < 16, d.digitChar.toUpper.toNat = if d < 10 then 48 + d else 55 + d := by
    decide
  rw [digitValue?, Option.filter_eq_some_iff, IsDigit, and_comm, decide_eq_true_iff]
  refine and_congr_right fun hd ↦ ?_
  rw [← Char.toNat_inj, ← Char.toNat_inj, hlower d (hd.trans_le hradix),
    hupper d (hd.trans_le hradix)]
  simp only [hle, Char.reduceToNat]
  split_ifs <;> simp only [Option.some.injEq, false_iff] <;> omega

theorem digitValue?_eq_none_iff : digitValue? radix c = none ↔ ∀ d, ¬ IsDigit radix c d := by
  rw [Option.eq_none_iff_forall_ne_some]
  exact forall_congr' fun d ↦ not_congr (digitValue?_eq_some_iff hradix)

variable {limit n : Nat} {overflow : Flaw}

/-- The reader goes through the leading digits and puts them behind those of `n`. If that passes the
limit, nothing else counts; otherwise what follows them has to be the end. -/
theorem readDigits_eq (hn : n ≤ limit) {v : Nat} (hv : Denotes radix (leading radix cs) v) :
    readDigits radix limit overflow cs n =
      if limit < n * radix ^ (leading radix cs).length + v then .error overflow
      else if leading radix cs = cs then .ok (n * radix ^ (leading radix cs).length + v)
      else .error .invalidDigit := by
  induction cs generalizing n v with
  | nil =>
      obtain rfl := denotes_nil.mp hv
      simp [readDigits, leading, Nat.not_lt.mpr hn]
  | cons c cs ih =>
      rw [readDigits]
      by_cases h : ∃ d, IsDigit radix c d
      · obtain ⟨d₀, hd₀⟩ := h
        rw [leading_cons_of_isDigit hd₀] at hv ⊢
        obtain ⟨d, w, hd, hw, rfl⟩ := denotes_cons.mp hv
        have hshift : n * radix ^ (c :: leading radix cs).length +
            (d * radix ^ (leading radix cs).length + w) =
              (n * radix + d) * radix ^ (leading radix cs).length + w := by
          rw [List.length_cons]
          ring
        simp only [(digitValue?_eq_some_iff hradix).mpr hd, hshift, List.cons.injEq, true_and]
        by_cases hover : limit < n * radix + d
        · -- A number that is too large only grows with the digits that follow.
          have hpos : 0 < radix ^ (leading radix cs).length := Nat.pow_pos (Nat.zero_lt_of_lt hd.1)
          have hgrows := Nat.le_mul_of_pos_right (n * radix + d) hpos
          rw [if_pos hover, if_pos (by omega)]
        · rw [if_neg hover]
          exact ih (Nat.le_of_not_lt hover) hw
      · rw [leading_cons_of_not (not_exists.mp h)] at hv ⊢
        obtain rfl := denotes_nil.mp hv
        simp only [(digitValue?_eq_none_iff hradix).mpr (not_exists.mp h)]
        simp [Nat.not_lt.mpr hn]

end

/-! ## Words -/

/-- What is left of the body of a numeral without its plus sign. -/
def unsigned : List Char → List Char
  | '+' :: cs => cs
  | cs => cs

/-- A text that announces a hexadecimal numeral. -/
def Announced (text : List Char) : Prop := ['0', 'x'] <+: text ∨ ['0', 'X'] <+: text

instance (text : List Char) : Decidable (Announced text) := inferInstanceAs (Decidable (_ ∨ _))

def radixOf (text : List Char) : Nat := if Announced text then 16 else 10

/-- The numeral in a text: without its announcement and underscores if it is hexadecimal. -/
def bodyOf (text : List Char) : List Char :=
  if Announced text then (text.drop 2).filter (· ≠ '_') else text

theorem radixAndDigits_eq (text : List Char) :
    radixAndDigits text = (radixOf text, bodyOf text) := by
  unfold radixAndDigits
  split
  · rfl
  · rfl
  · rename_i hx hX
    have h : ¬ Announced text := by
      rintro (⟨cs, rfl⟩ | ⟨cs, rfl⟩)
      · exact hx cs rfl
      · exact hX cs rfl
    rw [radixOf, bodyOf, if_neg h, if_neg h]

theorem radixOf_le (text : List Char) : radixOf text ≤ 16 := by
  unfold radixOf
  split_ifs <;> decide

section

variable {radix : Nat} (hradix : radix ≤ 16) {body : List Char}

theorem readWord_of_sign (h : body = ['+'] ∨ body = ['-']) :
    readWord radix body = .error .invalidDigit := by
  rcases h with rfl | rfl <;> rfl

/-- Nothing, or a sign alone. -/
theorem readWord_of_mem (radix : Nat) (h : body ∈ [[], ['+'], ['-']]) :
    readWord radix body = .error .empty ∨ readWord radix body = .error .invalidDigit := by
  simp only [List.mem_cons, List.not_mem_nil, or_false] at h
  rcases h with rfl | hsign
  · exact .inl rfl
  · exact .inr (readWord_of_sign hsign)

theorem readWord_eq (h : body ∉ [[], ['+'], ['-']]) :
    readWord radix body =
      BitVec.ofNat 32 <$> readDigits radix 0xFFFFFFFF .tooLarge (unsigned body) 0 := by
  simp only [List.mem_cons, List.not_mem_nil, or_false, not_or] at h
  unfold readWord
  split
  · exact absurd rfl h.1
  · exact absurd rfl h.2.1
  · exact absurd rfl h.2.2
  · rfl
  · rename_i hplus
    have hunsigned : unsigned body = body := by
      unfold unsigned
      split
      · exact absurd rfl (hplus _)
      · rfl
    rw [hunsigned]

include hradix

theorem readWord_of_leading (h : body ∉ [[], ['+'], ['-']]) {v : Nat}
    (hv : Denotes radix (leading radix (unsigned body)) v) :
    readWord radix body =
      if 0x100000000 ≤ v then .error .tooLarge
      else if leading radix (unsigned body) = unsigned body then .ok (BitVec.ofNat 32 v)
      else .error .invalidDigit := by
  rw [readWord_eq h, readDigits_eq hradix (Nat.zero_le _) hv, Nat.zero_mul, Nat.zero_add]
  by_cases hlarge : 0x100000000 ≤ v
  · rw [if_pos hlarge, if_pos (Nat.lt_of_succ_le hlarge)]
    rfl
  · rw [if_neg hlarge, if_neg (by omega)]
    split_ifs <;> rfl

theorem readWord_eq_ok_iff {w : Word} :
    readWord radix body = .ok w ↔
      body ∉ [[], ['+'], ['-']] ∧ Denotes radix (unsigned body) w.toNat := by
  by_cases h : body ∈ [[], ['+'], ['-']]
  · refine iff_of_false ?_ fun hok ↦ hok.1 h
    rcases readWord_of_mem radix h with hbody | hbody <;> simp [hbody]
  · rw [and_iff_right h]
    constructor
    · intro hok
      obtain ⟨v, hv⟩ := exists_denotes_leading radix (unsigned body)
      rw [readWord_of_leading hradix h hv] at hok
      split_ifs at hok with hlarge hall
      obtain rfl := Except.ok.inj hok
      rw [hall] at hv
      rwa [BitVec.toNat_ofNat, Nat.mod_eq_of_lt (Nat.lt_of_not_le hlarge)]
    · intro hw
      have hall := leading_eq_self hw
      rw [readWord_of_leading hradix h (hall.symm ▸ hw), if_neg (Nat.not_le.mpr w.isLt),
        if_pos hall, BitVec.ofNat_toNat, BitVec.setWidth_eq]

theorem readWord_eq_tooLarge_iff :
    readWord radix body = .error .tooLarge ↔ body ∉ [[], ['+'], ['-']] ∧
      ∃ n, Denotes radix (leading radix (unsigned body)) n ∧ 0x100000000 ≤ n := by
  by_cases h : body ∈ [[], ['+'], ['-']]
  · refine iff_of_false ?_ fun hlarge ↦ hlarge.1 h
    rcases readWord_of_mem radix h with hbody | hbody <;> simp [hbody]
  · rw [and_iff_right h]
    constructor
    · intro herror
      obtain ⟨v, hv⟩ := exists_denotes_leading radix (unsigned body)
      refine ⟨v, hv, Nat.le_of_not_lt fun hlt ↦ ?_⟩
      rw [readWord_of_leading hradix h hv, if_neg (Nat.not_le.mpr hlt)] at herror
      split_ifs at herror
      cases herror
    · rintro ⟨v, hv, hlarge⟩
      rw [readWord_of_leading hradix h hv, if_pos hlarge]

theorem readWord_eq_invalidDigit_iff :
    readWord radix body = .error .invalidDigit ↔ body = ['+'] ∨ body = ['-'] ∨
      body ≠ [] ∧ (∀ w : Word, ¬ Denotes radix (unsigned body) w.toNat) ∧
        ¬ ∃ n, Denotes radix (leading radix (unsigned body)) n ∧ 0x100000000 ≤ n := by
  by_cases hsign : body = ['+'] ∨ body = ['-']
  · rw [← or_assoc]
    exact iff_of_true (readWord_of_sign hsign) (.inl hsign)
  · rw [← or_assoc, or_iff_right hsign]
    constructor
    · intro herror
      have hne : body ≠ [] := by
        rintro rfl
        cases herror
      have h : body ∉ [[], ['+'], ['-']] := by simpa [hne] using hsign
      refine ⟨hne, fun w hw ↦ ?_, fun hlarge ↦ ?_⟩
      · cases herror.symm.trans ((readWord_eq_ok_iff hradix).mpr ⟨h, hw⟩)
      · cases herror.symm.trans ((readWord_eq_tooLarge_iff hradix).mpr ⟨h, hlarge⟩)
    · rintro ⟨hne, hno, hsmall⟩
      have h : body ∉ [[], ['+'], ['-']] := by simpa [hne] using hsign
      obtain ⟨v, hv⟩ := exists_denotes_leading radix (unsigned body)
      have hlt : v < 0x100000000 := Nat.lt_of_not_le fun hle ↦ hsmall ⟨v, hv, hle⟩
      rw [readWord_of_leading hradix h hv, if_neg (Nat.not_le.mpr hlt), if_neg]
      intro hall
      rw [hall] at hv
      refine hno (BitVec.ofNat 32 v) ?_
      rwa [BitVec.toNat_ofNat, Nat.mod_eq_of_lt hlt]

theorem readWord_eq_empty_iff : readWord radix body = .error .empty ↔ body = [] := by
  constructor
  · intro herror
    by_contra hne
    by_cases hsign : body = ['+'] ∨ body = ['-']
    · cases herror.symm.trans (readWord_of_sign hsign)
    · have h : body ∉ [[], ['+'], ['-']] := by simpa [hne] using hsign
      obtain ⟨v, hv⟩ := exists_denotes_leading radix (unsigned body)
      rw [readWord_of_leading hradix h hv] at herror
      split_ifs at herror <;> cases herror
  · rintro rfl
    rfl

theorem readWord_ne_tooSmall : readWord radix body ≠ .error .tooSmall := by
  by_cases h : body ∈ [[], ['+'], ['-']]
  · rcases readWord_of_mem radix h with hbody | hbody <;> simp [hbody]
  · obtain ⟨v, hv⟩ := exists_denotes_leading radix (unsigned body)
    rw [readWord_of_leading hradix h hv]
    split_ifs <;> exact nofun

end

theorem parseWord_eq (text : String) :
    parseWord text =
      (readWord (radixOf text.toList) (bodyOf text.toList)).mapError (⟨text, ·⟩) := by
  rw [parseWord, radixAndDigits_eq]

theorem parseWord_eq_ok_iff {text : String} {w : Word} :
    parseWord text = .ok w ↔ bodyOf text.toList ∉ [[], ['+'], ['-']] ∧
      Denotes (radixOf text.toList) (unsigned (bodyOf text.toList)) w.toNat := by
  rw [← readWord_eq_ok_iff (radixOf_le _), parseWord_eq]
  cases readWord (radixOf text.toList) (bodyOf text.toList) <;> simp [Except.mapError]

theorem parseWord_eq_error_iff {text : String} {e : WordFlaw} :
    parseWord text = .error e ↔
      e.text = text ∧ readWord (radixOf text.toList) (bodyOf text.toList) = .error e.flaw := by
  rw [parseWord_eq]
  obtain ⟨t, flaw⟩ := e
  cases readWord (radixOf text.toList) (bodyOf text.toList) <;> simp [Except.mapError, eq_comm]

/-- A text is read as a word exactly when its body is a numeral of the radix that it announces, with
an optional plus sign and a value below 2^32, and the word is that value. It is empty or a sign
without digits, or the digits at its front are past the largest word, or else a character is no
digit. The message quotes the text as it was given and says which of these it was. -/
theorem parseWord_reads_numerals (text : String) :
    let radix := radixOf text.toList
    let body := bodyOf text.toList
    let cs := unsigned body
    let TooLarge := ∃ n, Denotes radix (leading radix cs) n ∧ 0x100000000 ≤ n
    (∀ w : Word, parseWord text = .ok w ↔
      body ∉ [[], ['+'], ['-']] ∧ Denotes radix cs w.toNat) ∧
    (parseWord text = .error ⟨text, .empty⟩ ↔ body = []) ∧
    (parseWord text = .error ⟨text, .tooLarge⟩ ↔ body ∉ [[], ['+'], ['-']] ∧ TooLarge) ∧
    (parseWord text = .error ⟨text, .invalidDigit⟩ ↔
      body = ['+'] ∨ body = ['-'] ∨
        body ≠ [] ∧ (∀ w : Word, ¬ Denotes radix cs w.toNat) ∧ ¬ TooLarge) ∧
    ∀ e, parseWord text = .error e →
      e.text = text ∧ e.flaw ∈ [.empty, .tooLarge, .invalidDigit] ∧
        e.message = s!"'{text}' is not a 32-bit value: {e.flaw.message}" ∧
        (e.flaw = .empty → e.flaw.message = "cannot parse integer from empty string") ∧
        (e.flaw = .tooLarge → e.flaw.message = "number too large to fit in target type") ∧
        (e.flaw = .invalidDigit → e.flaw.message = "invalid digit found in string") := by
  intro radix body cs TooLarge
  have hradix := radixOf_le text.toList
  have herror (flaw : Flaw) : parseWord text = .error ⟨text, flaw⟩ ↔
      readWord radix body = .error flaw := parseWord_eq_error_iff.trans (and_iff_right rfl)
  refine ⟨fun w ↦ parseWord_eq_ok_iff, ?_, ?_, ?_, ?_⟩
  · exact (herror .empty).trans (readWord_eq_empty_iff hradix)
  · exact (herror .tooLarge).trans (readWord_eq_tooLarge_iff hradix)
  · exact (herror .invalidDigit).trans (readWord_eq_invalidDigit_iff hradix)
  · rintro ⟨_, flaw⟩ he
    obtain ⟨rfl, hflaw⟩ := parseWord_eq_error_iff.mp he
    refine ⟨rfl, ?_, rfl, ?_, ?_, ?_⟩
    · cases flaw with
      | empty | tooLarge | invalidDigit => simp
      | tooSmall => exact absurd hflaw (readWord_ne_tooSmall hradix)
    · rintro rfl
      rfl
    · rintro rfl
      rfl
    · rintro rfl
      rfl

/-- Underscores go before the sign is looked at, and an overflow hides what follows it. -/
example : parseWord "0x_+_1f" = .ok 31 ∧
    parseWord "4294967296g" = .error ⟨"4294967296g", .tooLarge⟩ ∧
    parseWord "4294967295g" = .error ⟨"4294967295g", .invalidDigit⟩ := by
  decide +kernel

end SecureZone.Numeral
