import Mathlib.Data.List.Basic
import SecureZone.Emulator.Usage
import SecureZone.Proofs.CommandLines
import SecureZone.Proofs.Registers
import SecureZone.Proofs.Scenarios

/-!
# The verdict of a run

The settings alone decide what becomes of a run: how far it gets, what it answers and prints, and
the exit status. The driver refuses a bad region before anything is printed; after that only an
image or a check that leaves the memory is an error. The image always comes back, so a run that gets
to its end fails its checks in one case only, where the region masks the word at address 0.
-/

namespace SecureZone.Emulator

open SecureZone.Action

inductive Verdict where
  | badBase
  | badSize
  | imageOutside
  | memoryTooSmall
  | finished (passed : Bool)
  deriving DecidableEq, Repr

/-- A region at address 0 has a keystream that is not zero there. -/
def MasksZero (s : Settings) : Prop :=
  s.mode = .address ∨ s.keys.key0 ^^^ s.keys.key1 ^^^ s.keys.key2 ^^^ s.keys.key3 ≠ 0

instance (s : Settings) : Decidable (MasksZero s) := inferInstanceAs (Decidable (_ ∨ _))

namespace Verdict

/-- What becomes of a run with these settings, with all bounds as unbounded numbers. -/
def ofSettings (s : Settings) : Verdict :=
  if s.base.toNat % 4 ≠ 0 then .badBase
  else if ¬ s.size.toNat.isPowerOfTwo then .badSize
  else if 0 < s.words.toNat ∧ s.ramSize.toNat < s.base.toNat + 4 * s.words.toNat then .imageOutside
  else if s.ramSize.toNat < 4 then .memoryTooSmall
  else .finished (decide (¬ (s.base = 0 ∧ MasksZero s)))

def answer (s : Settings) : Verdict → Except Failure Bool
  | badBase => .error (.configuring s.base s.size .invalidAlignment)
  | badSize => .error (.configuring s.base s.size .invalidSize)
  | imageOutside => .error (.image ⟨.store, .access⟩)
  | memoryTooSmall => .error (.passthrough ⟨.store, .access⟩)
  | finished passed => .ok passed

def status : Verdict → UInt32
  | finished true => 0
  | finished false => 1
  | badBase | badSize | imageOutside | memoryTooSmall => 2

end Verdict

/-! ## What is printed -/

/-- The region that the driver sets up. -/
def configuredRegion (s : Settings) : Region := ⟨s.base, s.size, true, s.keys⟩

def configReport (s : Settings) : String := (Driver.Config.mk s.base s.size true).text ++ "\n\n"

def imageReport (s : Settings) : String :=
  (Image.faithful s.mode (configuredRegion s) s.base s.words.toNat).text ++ "\n"

def passthroughReport (s : Settings) : Passthrough.Report :=
  ⟨0, Passthrough.word,
    some (Passthrough.word ^^^ Keystream.mask s.mode (configuredRegion s) 0)⟩

def Verdict.printed (s : Settings) : Verdict → String
  | badBase | badSize => ""
  | imageOutside => configReport s
  | memoryTooSmall => configReport s ++ imageReport s
  | finished _ => configReport s ++ imageReport s ++ (passthroughReport s).text

/-! ## The parts of a run -/

theorem gives_print {ε : Type} (text : String) (t : Session) :
    Gives (print text : Action Session ε Unit) t (.ok ()) { t with printed := t.printed ++ text } :=
  Gives.modify _ t

theorem gives_onZone {ε α : Type} {x : Action (Interceptor Ram) ε α} {answer : Except ε α}
    {z : Interceptor Ram} (t : Session) (hx : Gives x t.zone answer z) :
    Gives (onZone x) t answer { t with zone := z } :=
  hx.onPart _

theorem gives_onDriver {α : Type} {x : Action Region Driver.Failure α}
    {answer : Except Driver.Failure α} {r : Region} (t : Session)
    (hx : Gives x t.zone.region answer r) :
    Gives (onDriver x) t answer { t with zone := { t.zone with region := r } } :=
  gives_onZone t (hx.onPart _)

section

variable (s : Settings)

/-- The session when the keys are loaded. -/
def keyed : Session :=
  ⟨⟨{ Region.initial with keys := s.keys }, s.mode, .initial, .zeroed s.ramSize.toNat⟩, ""⟩

/-- The interceptor when the region is set up. -/
def armed : Interceptor Ram := ⟨configuredRegion s, s.mode, .initial, .zeroed s.ramSize.toNat⟩

/-- The passthrough check, which comes last. -/
def checkPlain (image : Image.Report) : Action Session Failure Bool := do
  let passthrough ← (onZone (Passthrough.run plainAddress)).mapError .passthrough
  print passthrough.text
  return image.Passed ∧ passthrough.Passed

/-- The two checks, which follow the configuration. -/
def checks : Action Session Failure Bool := do
  let image ← (onZone (Image.run s.base s.words.toNat)).mapError .image
  print s!"{image.text}\n"
  checkPlain image

theorem gives_loadKeys : Gives (onDriver (Driver.setKeys s.keys)) (start s) (.ok ()) (keyed s) :=
  gives_onDriver (start s) (Driver.gives_setKeys _ s.keys)

variable {s}

theorem gives_body_of_refused {failure : Driver.Failure}
    (h : Driver.validate s.base s.size = .error failure) :
    Gives (body s) (start s) (.error (.configuring s.base s.size failure)) (keyed s) := by
  have hinit : Gives (onDriver (Driver.init s.base s.size true)) (keyed s) (.error failure)
      (keyed s) := gives_onDriver (keyed s) (Driver.gives_init_refused h true _)
  rw [body]
  refine (Gives.report _ _).bind (((gives_loadKeys s).mapError _).bind ?_)
  exact (hinit.mapError (Failure.configuring s.base s.size)).bind_error _

/-- Once the region is set up the configuration is printed and the checks begin. -/
theorem gives_body_of_valid (hbase : Region.ValidBase s.base) (hsize : Region.ValidSize s.size)
    {answer : Except Failure Bool} {t : Session}
    (hchecks : Gives (checks s) ⟨armed s, configReport s⟩ answer t) :
    Gives (body s) (start s) answer t := by
  have hinit : Gives (onDriver (Driver.init s.base s.size true)) (keyed s) (.ok ())
      ⟨armed s, ""⟩ := gives_onDriver (keyed s) (Driver.gives_init _ hbase hsize true)
  have hconfig : Gives (onDriver Driver.config) ⟨armed s, ""⟩ (.ok ⟨s.base, s.size, true⟩)
      ⟨armed s, ""⟩ := gives_onDriver ⟨armed s, ""⟩ (Driver.gives_config _)
  have hprint : Gives (print s!"{(Driver.Config.mk s.base s.size true).text}\n\n" :
      Action Session Failure Unit) ⟨armed s, ""⟩ (.ok ()) ⟨armed s, configReport s⟩ := by
    have hgives := gives_print (ε := Failure)
      s!"{(Driver.Config.mk s.base s.size true).text}\n\n" ⟨armed s, ""⟩
    rwa [String.empty_append] at hgives
  rw [body]
  refine (Gives.report _ _).bind (((gives_loadKeys s).mapError _).bind ?_)
  refine (hinit.mapError _).bind ((hconfig.mapError _).bind ?_)
  exact hprint.bind hchecks

/-! ## The two checks -/

theorem gives_checks_of_imageOutside (hbase : Size.word.Aligned s.base)
    (hwords : 0 < s.words.toNat) (hout : s.ramSize.toNat < s.base.toNat + 4 * s.words.toNat) :
    ∃ u, Gives (checks s) ⟨armed s, configReport s⟩ (.error (.image ⟨.store, .access⟩))
      ⟨u, configReport s⟩ := by
  have hidle : (armed s).IsIdle := rfl
  have hover : ¬ Image.Fits (armed s).memory.size s.base s.words.toNat :=
    fun h ↦ absurd ((Image.fits_iff s.ramSize.isLt).mp h hwords) (Nat.not_le.mpr hout)
  obtain ⟨k, hk, hbefore, hfirst⟩ := (Image.fits_or_first_outside _ _ _).resolve_left hover
  obtain ⟨u, himage, -⟩ := Image.run_of_first_outside hidle hbase hk hbefore hfirst
  have hzone := gives_onZone ⟨armed s, configReport s⟩ himage
  refine ⟨u, ?_⟩
  rw [checks]
  exact (hzone.mapError Failure.image).bind_error _

/-- An image that fits comes back and is reported, and the passthrough check goes on from there. -/
theorem gives_checks_of_fits (hbase : Size.word.Aligned s.base)
    (hfit : 0 < s.words.toNat → s.base.toNat + 4 * s.words.toNat ≤ s.ramSize.toNat) :
    ∃ u, Image.Holds (armed s) s.base s.words.toNat u ∧
      ∀ answer t, Gives (checkPlain (Image.faithful s.mode (configuredRegion s) s.base
          s.words.toNat)) ⟨u, configReport s ++ imageReport s⟩ answer t →
        Gives (checks s) ⟨armed s, configReport s⟩ answer t := by
  have hidle : (armed s).IsIdle := rfl
  obtain ⟨u, himage, hu⟩ :=
    Image.run_of_fits hidle (fun _ ↦ hbase) ((Image.fits_iff s.ramSize.isLt).mpr hfit)
  have hzone := gives_onZone ⟨armed s, configReport s⟩ himage
  refine ⟨u, hu, fun answer t hplain ↦ ?_⟩
  rw [checks]
  exact (hzone.mapError Failure.image).bind ((gives_print _ _).bind hplain)

/-- Address 0 is in the region when it is the base of the region. -/
theorem contains_zero_iff (hsize : Region.ValidSize s.size) :
    (configuredRegion s).Contains 0 ↔ s.base = 0 := by
  obtain ⟨k, hk⟩ := hsize
  have hpos : 0 < s.size.toNat := by
    rw [hk]
    exact Nat.two_pow_pos k
  have hzero : (0 : Word).toNat = 0 := rfl
  rw [Region.contains_iff, ← BitVec.toNat_inj, hzero]
  simp only [configuredRegion, true_and]
  omega

theorem keystream_zero_ne_zero_iff :
    Keystream.keystream s.mode (configuredRegion s) 0 ≠ 0 ↔ MasksZero s := by
  cases hm : s.mode with
  | address =>
      have hkey : Keystream.keystream .address (configuredRegion s) 0 = Keystream.whitening :=
        BitVec.zero_xor
      exact iff_of_true (by rw [hkey]; decide) (.inl hm)
  | keys =>
      have hmode : s.mode ≠ .address := by rw [hm]; decide
      exact (or_iff_right hmode).symm

theorem mask_zero_eq_zero_iff (hsize : Region.ValidSize s.size) :
    Keystream.mask s.mode (configuredRegion s) 0 = 0 ↔ ¬ (s.base = 0 ∧ MasksZero s) := by
  by_cases hbase : s.base = 0
  · rw [Keystream.mask_of_contains _ ((contains_zero_iff hsize).mpr hbase),
      ← keystream_zero_ne_zero_iff, and_iff_right hbase, not_not]
  · rw [Keystream.mask_of_not_contains _ (mt (contains_zero_iff hsize).mp hbase)]
    exact iff_of_true rfl fun h ↦ hbase h.1

theorem plainAddress_aligned : Size.word.Aligned plainAddress := by decide

section

variable {u : Interceptor Ram} {n : Nat} {image : Image.Report}
  (hu : Image.Holds (armed s) s.base n u)

include hu

theorem gives_checkPlain_of_small (hsmall : s.ramSize.toNat < 4) (printed : String) :
    ∃ v, Gives (checkPlain image) ⟨u, printed⟩ (.error (.passthrough ⟨.store, .access⟩))
      ⟨v, printed⟩ := by
  have hout : u.memory.size < plainAddress.toNat + 4 := by
    rw [hu.size_eq]
    exact hsmall
  obtain ⟨v, hrun⟩ := Passthrough.run_of_not_fits plainAddress_aligned hu.isIdle hout
  have hzone := gives_onZone ⟨u, printed⟩ hrun
  refine ⟨v, ?_⟩
  rw [checkPlain]
  exact (hzone.mapError Failure.passthrough).bind_error _

theorem gives_checkPlain_of_room (himage : image.Passed) (hsize : Region.ValidSize s.size)
    (hroom : 4 ≤ s.ramSize.toNat) (printed : String) :
    ∃ v, Gives (checkPlain image) ⟨u, printed⟩ (.ok (decide (¬ (s.base = 0 ∧ MasksZero s))))
      ⟨v, printed ++ (passthroughReport s).text⟩ := by
  have hfit : plainAddress.toNat + 4 ≤ u.memory.size := by
    rw [hu.size_eq]
    exact hroom
  obtain ⟨v, hrun⟩ := Passthrough.run_of_fits plainAddress_aligned hu.isIdle hfit
  rw [hu.masks_eq] at hrun
  have hzone := gives_onZone ⟨u, printed⟩ hrun
  have hpassed : (image.Passed ∧ (passthroughReport s).Passed) ↔
      ¬ (s.base = 0 ∧ MasksZero s) := by
    rw [← mask_zero_eq_zero_iff hsize, passthroughReport, Passthrough.passed_iff]
    exact and_iff_right himage
  refine ⟨v, ?_⟩
  rw [← decide_eq_decide.mpr hpassed, checkPlain]
  exact (hzone.mapError Failure.passthrough).bind ((gives_print _ _).bind (Gives.pure _ _))

end

end

/-! ## The whole run -/

theorem gives_body (s : Settings) :
    ∃ t, Gives (body s) (start s) ((Verdict.ofSettings s).answer s) t ∧
      t.printed = (Verdict.ofSettings s).printed s := by
  rw [Verdict.ofSettings]
  by_cases hbase : s.base.toNat % 4 ≠ 0
  · have hrefused : Driver.validate s.base s.size = .error .invalidAlignment := by
      rw [Driver.validate_eq]
      exact if_pos hbase
    rw [if_pos hbase]
    exact ⟨keyed s, gives_body_of_refused hrefused, rfl⟩
  rw [if_neg hbase]
  have hvalidBase : Region.ValidBase s.base := not_not.mp hbase
  by_cases hsize : ¬ s.size.toNat.isPowerOfTwo
  · have hrefused : Driver.validate s.base s.size = .error .invalidSize := by
      rw [Driver.validate_eq, if_neg (not_not_intro hvalidBase)]
      exact if_pos hsize
    rw [if_pos hsize]
    exact ⟨keyed s, gives_body_of_refused hrefused, rfl⟩
  rw [if_neg hsize]
  have hvalidSize : Region.ValidSize s.size := not_not.mp hsize
  by_cases hout : 0 < s.words.toNat ∧ s.ramSize.toNat < s.base.toNat + 4 * s.words.toNat
  · obtain ⟨u, hchecks⟩ := gives_checks_of_imageOutside hvalidBase hout.1 hout.2
    rw [if_pos hout]
    exact ⟨_, gives_body_of_valid hvalidBase hvalidSize hchecks, rfl⟩
  rw [if_neg hout]
  obtain ⟨u, hu, hchecks⟩ := gives_checks_of_fits hvalidBase (by omega)
  by_cases hsmall : s.ramSize.toNat < 4
  · obtain ⟨v, hplain⟩ := gives_checkPlain_of_small hu hsmall (configReport s ++ imageReport s)
    rw [if_pos hsmall]
    exact ⟨_, gives_body_of_valid hvalidBase hvalidSize (hchecks _ _ hplain), rfl⟩
  · obtain ⟨v, hplain⟩ := gives_checkPlain_of_room hu (Image.faithful_passed _ _ _ s.words.isLt)
      hvalidSize (by omega) (configReport s ++ imageReport s)
    rw [if_neg hsmall]
    exact ⟨_, gives_body_of_valid hvalidBase hvalidSize (hchecks _ _ hplain), rfl⟩

theorem Verdict.runStatus_answer (s : Settings) (v : Verdict) :
    CommandLine.runStatus (v.answer s) = v.status := by
  cases v with
  | finished passed => cases passed <;> rfl
  | _ => rfl

/-- For all settings, the run answers and prints what the settings say, and so does the exit status
of every command line that asks for them. There is such a command line for all settings. -/
theorem run_follows_verdict (s : Settings) :
    (run s).answer = (Verdict.ofSettings s).answer s ∧
    (run s).state.printed = (Verdict.ofSettings s).printed s ∧
    (∀ args i, CommandLine.parse args = .ok i → i.settings = s →
      CommandLine.exitStatus args = (Verdict.ofSettings s).status) ∧
    CommandLine.parse (CommandLine.arguments s) = .ok ⟨s, some .info⟩ := by
  obtain ⟨t, hbody, hprinted⟩ := gives_body s
  refine ⟨hbody.answer_eq, ?_, ?_, CommandLine.parse_arguments s⟩
  · rw [run, hbody.state_eq, hprinted]
  · rintro args i hparse rfl
    have hrun : (run i.settings).answer = (Verdict.ofSettings i.settings).answer i.settings :=
      hbody.answer_eq
    rw [CommandLine.exitStatus, CommandLine.ending, hparse]
    simp only [CommandLine.runEnding, hrun, Verdict.runStatus_answer]

/-- Two equal keys cancel, so that a region over address 0 passes all the same. With one key it does
not, and a region of nine bytes is an error. -/
theorem run_with_cancelling_keys :
    let s : Settings := ⟨0, 8, .keys, ⟨0x5A, 0x5A, 0, 0⟩, 1, 4⟩
    let args := ["--base", "0", "--size=8", "--mode=keys", "--key", "0x5A", "--key=90",
      "--ram-size", "4", "--words=1"]
    let single := ["--base=0", "--mode=keys", "--key=1"]
    let nine := ["--size=9", "--words", "0"]
    (run s).answer = .ok true ∧
    (CommandLine.parse args = .ok ⟨s, some .info⟩ ∧ CommandLine.exitStatus args = 0) ∧
    (CommandLine.parse single = .ok ⟨⟨0, 0x1000, .keys, ⟨1, 0, 0, 0⟩, 196, 0x20000⟩, some .info⟩ ∧
      CommandLine.exitStatus single = 1) ∧
    CommandLine.parse nine = .ok ⟨⟨0x10000, 9, .address, .zero, 0, 0x20000⟩, some .info⟩ ∧
      CommandLine.exitStatus nine = 2 := by
  intro s args single nine
  have hparse : CommandLine.parse args = .ok ⟨s, some .info⟩ := by decide +kernel +revert
  have hparseSingle : CommandLine.parse single =
      .ok ⟨⟨0, 0x1000, .keys, ⟨1, 0, 0, 0⟩, 196, 0x20000⟩, some .info⟩ := by
    decide +kernel +revert
  have hparseNine : CommandLine.parse nine =
      .ok ⟨⟨0x10000, 9, .address, .zero, 0, 0x20000⟩, some .info⟩ := by
    decide +kernel +revert
  have hverdict : Verdict.ofSettings s = .finished true := by decide +kernel +revert
  obtain ⟨hanswer, -, hstatus, -⟩ := run_follows_verdict s
  rw [hverdict] at hanswer hstatus
  refine ⟨hanswer, ⟨hparse, hstatus _ _ hparse rfl⟩, ⟨hparseSingle, ?_⟩, hparseNine, ?_⟩
  · exact ((run_follows_verdict _).2.2.1 _ _ hparseSingle rfl).trans (by decide +kernel)
  · exact ((run_follows_verdict _).2.2.1 _ _ hparseNine rfl).trans (by decide +kernel)

end SecureZone.Emulator
