import Mathlib.Data.List.Basic
import SecureZone.Emulator.CommandLine
import SecureZone.Proofs.PrintedNumbers

/-!
# Command lines for settings

All settings can be asked for: a command line that spells out every one of them, each as one
argument with its value behind an equals sign, is read as just these settings.
-/

namespace SecureZone

/-! ## Numbers of the count option -/

namespace Numeral

/-- A decimal numeral of the signed range without a sign. -/
theorem readSigned_of_denotes {cs : List Char} {n : Nat} (hne : cs ≠ []) (h : Denotes 10 cs n)
    (hn : n ≤ 0x7FFFFFFFFFFFFFFF) : readSigned cs = .ok n := by
  have hno (c : Char) (hc : ¬ c.isAlphanum) : c ∉ cs := by
    intro hmem
    obtain ⟨d, hd⟩ := h.exists_isDigit_of_mem hmem
    exact hc (hd.isAlphanum (by decide))
  have hplus := hno '+' (by decide)
  have hminus := hno '-' (by decide)
  have hall := leading_eq_self h
  have hread : readDigits 10 0x7FFFFFFFFFFFFFFF .tooLarge cs 0 = .ok n := by
    rw [readDigits_eq (by decide) (Nat.zero_le _) (hall.symm ▸ h), if_pos hall, Nat.zero_mul,
      Nat.zero_add, if_neg (Nat.not_lt.mpr hn)]
  unfold readSigned
  split
  · exact absurd rfl hne
  · exact absurd (List.mem_singleton_self _) hplus
  · exact absurd (List.mem_singleton_self _) hminus
  · exact absurd List.mem_cons_self hminus
  · exact absurd List.mem_cons_self hplus
  · change Int.ofNat <$> readDigits 10 0x7FFFFFFFFFFFFFFF .tooLarge cs 0 = .ok (n : Int)
    rw [hread]
    rfl

end Numeral

namespace CommandLine

open Numeral

theorem parseCount_decimal (w : Word) : parseCount (toString w.toNat) = .ok w := by
  have hw := w.isLt
  have hdigits : Denotes 10 (Nat.toDigits 10 w.toNat) w.toNat := denotes_toDigits (by decide) _
  have htext : (toString w.toNat).toList = Nat.toDigits 10 w.toNat := Nat.toList_repr
  have hrange : 0 ≤ (w.toNat : Int) ∧ (w.toNat : Int) ≤ 0xFFFFFFFF := by omega
  rw [parseCount, htext, readSigned_of_denotes Nat.toDigits_ne_nil hdigits (by omega)]
  simp only [if_pos hrange, BitVec.ofInt_natCast, BitVec.ofNat_toNat, BitVec.setWidth_eq]

/-! ## Options as arguments -/

theorem Flag.ofName?_name (flag : Flag) : ofName? flag.name = some flag := by
  cases flag <;> rfl

/-- An option with its value, and the setting that it asks for. -/
structure Spelling where
  flag : Flag
  text : String
  setting : Setting

namespace Spelling

def argument (o : Spelling) : String := "--" ++ o.flag.name ++ "=" ++ o.text

/-- The value is read as the setting. -/
def Reads (o : Spelling) : Prop := o.flag.read o.text = .ok o.setting

/-- The option as it is entered when it was read. -/
def entry (o : Spelling) : Flag × Option Setting := (o.flag, some o.setting)

variable {o : Spelling} (given : List (Flag × Option Setting))

theorem long_argument (h : o.Reads) :
    Scan.long ⟨given, .free, false⟩ o.argument o.flag.name (some o.text) =
      .ok ⟨given ++ [o.entry], .free, false⟩ := by
  have hhelp : o.flag.name ≠ "help" := by
    cases o.flag <;> decide
  unfold Scan.long
  rw [if_neg hhelp, Flag.ofName?_name]
  change o.flag.read o.text >>= _ = _
  rw [h]
  rfl

theorem next_argument (h : o.Reads) :
    Scan.next ⟨given, .free, false⟩ o.argument = .ok ⟨given ++ [o.entry], .free, false⟩ := by
  have hspan : (o.flag.name.toList ++ '=' :: o.text.toList).span (· ≠ '=') =
      (o.flag.name.toList, '=' :: o.text.toList) := by
    cases o.flag <;> rfl
  have hargument : o.argument.toList =
      '-' :: '-' :: (o.flag.name.toList ++ '=' :: o.text.toList) := by
    simp [argument]
  change Scan.free ⟨given, .free, false⟩ o.argument = _
  unfold Scan.free
  rw [hargument]
  split
  · rename_i hnone
    simp at hnone
  · rename_i cs _ hcs
    obtain rfl : o.flag.name.toList ++ '=' :: o.text.toList = cs := by simpa using hcs
    rw [hspan]
    change Scan.long _ _ (String.ofList o.flag.name.toList) (some (String.ofList o.text.toList)) = _
    rw [String.ofList_toList, String.ofList_toList, long_argument given h]
  · rename_i hshort
    simp at hshort
  · rename_i hlong _
    exact absurd rfl (hlong _)

theorem foldlM_argument {os : List Spelling} (h : ∀ o ∈ os, o.Reads) :
    (os.map argument).foldlM Scan.next ⟨given, .free, false⟩ =
      .ok ⟨given ++ os.map entry, .free, false⟩ := by
  induction os generalizing given with
  | nil =>
      rw [List.map_nil, List.map_nil, List.append_nil]
      rfl
  | cons o os ih =>
      rw [List.forall_mem_cons] at h
      have hrest := ih (given ++ [o.entry]) h.2
      rw [List.append_assoc, List.singleton_append] at hrest
      rw [List.map_cons, List.foldlM_cons, next_argument given h.1]
      exact hrest

end Spelling

/-! ## The command line of settings -/

/-- All settings, with addresses and keys in hexadecimal digits. -/
def spellings (s : Settings) : List Spelling :=
  [⟨.base, hex 8 s.base.toNat, .base s.base⟩, ⟨.size, hex 8 s.size.toNat, .size s.size⟩,
    ⟨.mode, s.mode.name, .mode s.mode⟩] ++
  KeySlot.all.map (fun slot ↦ ⟨.key, hex 8 (s.keys.get slot).toNat, .key (s.keys.get slot)⟩) ++
  [⟨.words, toString s.words.toNat, .words s.words⟩,
    ⟨.ramSize, hex 8 s.ramSize.toNat, .ramSize s.ramSize⟩]

/-- A command line that spells out all settings. -/
def arguments (s : Settings) : List String := (spellings s).map Spelling.argument

theorem reads_spellings (s : Settings) : ∀ o ∈ spellings s, o.Reads := by
  have hcount : Flag.words.read (toString s.words.toNat) = .ok (.words s.words) := by
    rw [Flag.read, parseCount_decimal]
    rfl
  have hword (flag : Flag) (w : Word) (setting : Word → Setting)
      (hflag : ∀ text, flag.read text = ((parseWord text).mapError .badWord).map setting) :
      flag.read (hex 8 w.toNat) = .ok (setting w) := by
    rw [hflag, parseWord_hex]
    rfl
  have hmode : Flag.mode.read s.mode.name = .ok (.mode s.mode) := by
    cases s.mode <;> rfl
  simp only [spellings, List.forall_mem_append, List.forall_mem_map, List.forall_mem_cons,
    Spelling.Reads]
  exact ⟨⟨⟨hword .base _ .base fun _ ↦ rfl, hword .size _ .size fun _ ↦ rfl, hmode,
    List.forall_mem_nil _⟩, fun slot _ ↦ hword .key _ .key fun _ ↦ rfl⟩, hcount,
    hword .ramSize _ .ramSize fun _ ↦ rfl, List.forall_mem_nil _⟩

theorem finish_spellings (s : Settings) :
    Scan.finish ⟨(spellings s).map Spelling.entry, .free, false⟩ =
      .ok ((spellings s).map Spelling.setting) := rfl

/-- The settings that are spelled out are those that are read. -/
theorem parse_arguments (s : Settings) : parse (arguments s) = .ok ⟨s, some .info⟩ := by
  have hscan : (arguments s).foldlM Scan.next Scan.start =
      .ok ⟨(spellings s).map Spelling.entry, .free, false⟩ :=
    Spelling.foldlM_argument [] (reads_spellings s)
  rw [parse, hscan]
  simp only [bind, Except.bind, finish_spellings]
  rfl

end CommandLine

end SecureZone
