import Mathlib.Data.List.Basic
import SecureZone.Proofs.Atomicity
import SecureZone.Proofs.Comparison
import SecureZone.Proofs.Programming

/-!
# Two ports for one driver

The driver reaches its register file through a few instructions on known registers. If two register
files are alike on each of these, whole operations of the driver are alike on them too. The key
words may be related in any way, as the driver only moves them; base and size have to be valid where
they are written.
-/

namespace SecureZone

open SecureZone.Action

/-- The values agree, or they are key words and `K` relates them. -/
def Csr.Related (K : Word → Word → Prop) : Csr → Word → Word → Prop
  | .key _, v, w => K v w
  | .base, v, w | .size, v, w | .enable, v, w => v = w

namespace Driver

variable {φ ψ : Type} [CsrFile φ] [CsrFile ψ]

/-- The instructions that the driver uses are alike on two register files. -/
structure Ports (c : Comparison φ ψ) (K : Word → Word → Prop) : Prop where
  read (csr : Csr) {s : φ} {t : ψ} (hst : c.States s t) :
    c.Alike (csr.Related K) (CsrFile.read csr.number) (CsrFile.read csr.number) s t
  write (csr : Csr) {v w : Word} {s : φ} {t : ψ} (hcsr : csr ≠ .enable)
    (hv : Region.Accepts csr v) (hvw : csr.Related K v w) (hst : c.States s t) :
    c.Alike Eq (CsrFile.write csr.number v) (CsrFile.write csr.number w) s t
  setEnable {s : φ} {t : ψ} (hst : c.States s t) :
    c.Alike Eq (CsrFile.setBits Csr.enable.number enableBit)
      (CsrFile.setBits Csr.enable.number enableBit) s t
  clearEnable {s : φ} {t : ψ} (hst : c.States s t) :
    c.Alike Eq (CsrFile.clearBits Csr.enable.number enableBit)
      (CsrFile.clearBits Csr.enable.number enableBit) s t
  settle (cycles : Word) {s : φ} {t : ψ} (hst : c.States s t) :
    c.Alike Eq (.perform (CsrFile.settle cycles) : Action φ Failure Unit)
      (.perform (CsrFile.settle cycles)) s t

namespace Ports

variable {c : Comparison φ ψ} {K : Word → Word → Prop} (ports : Ports c K) {s : φ} {t : ψ}

include ports

theorem enable (hst : c.States s t) : c.Alike Eq enable enable s t :=
  (ports.setEnable hst).bind fun _ _ _ _ _ h ↦ .pure h rfl

theorem disable (hst : c.States s t) : c.Alike Eq disable disable s t :=
  (ports.clearEnable hst).bind fun _ _ _ _ _ h ↦ .pure h rfl

theorem enable_if (on : Bool) (hst : c.States s t) :
    c.Alike Eq (if on then Driver.enable else pure ()) (if on then Driver.enable else pure ())
      s t := by
  cases on with
  | true => exact ports.enable hst
  | false => exact .pure hst rfl

theorem isEnabled (hst : c.States s t) : c.Alike Eq isEnabled isEnabled s t :=
  (ports.read .enable hst).map fun _ _ h ↦ congrArg hasEnable h

theorem program {base size : Word} (hbase : Region.ValidBase base)
    (hsize : Region.ValidSize size) (hst : c.States s t) :
    c.Alike Eq (program base size) (program base size) s t := by
  refine (ports.disable hst).bind fun _ _ _ s₁ t₁ h₁ ↦ ?_
  refine (ports.settle settleCycles h₁).bind fun _ _ _ s₂ t₂ h₂ ↦ ?_
  refine (ports.write .base nofun hbase rfl h₂).bind fun _ _ _ s₃ t₃ h₃ ↦ ?_
  exact ports.write .size nofun hsize rfl h₃

theorem init (base size : Word) (on : Bool) (hst : c.States s t) :
    c.Alike Eq (init base size on) (init base size on) s t := by
  refine Comparison.Alike.bind_ofExcept hst fun _ hv ↦ ?_
  obtain ⟨hbase, hsize⟩ := valid_of_validate hv
  exact (ports.program hbase hsize hst).bind fun _ _ _ _ _ h ↦ ports.enable_if on h

theorem reconfigure (base size : Word) (hst : c.States s t) :
    c.Alike Eq (reconfigure base size) (reconfigure base size) s t := by
  refine Comparison.Alike.bind_ofExcept hst fun _ hv ↦ ?_
  obtain ⟨hbase, hsize⟩ := valid_of_validate hv
  refine (ports.isEnabled hst).bind ?_
  rintro on _ rfl s₁ t₁ h₁
  exact (ports.program hbase hsize h₁).bind fun _ _ _ _ _ h ↦ ports.enable_if on h

theorem config (hst : c.States s t) : c.Alike Eq config config s t := by
  refine (ports.read .base hst).bind ?_
  rintro base _ rfl s₁ t₁ h₁
  refine (ports.read .size h₁).bind ?_
  rintro size _ rfl s₂ t₂ h₂
  refine (ports.isEnabled h₂).bind ?_
  rintro on _ rfl s₃ t₃ h₃
  exact .pure h₃ rfl

theorem setKeys {ks ks' : Keys} (hkeys : ∀ slot, K (ks.get slot) (ks'.get slot))
    (hst : c.States s t) : c.Alike Eq (setKeys ks) (setKeys ks') s t := by
  refine .forEach (fun slot s t h ↦ ?_) hst
  exact ports.write (.key slot) nofun trivial (hkeys slot) h

theorem keys (hst : c.States s t) :
    c.Alike (fun ks ks' ↦ ∀ slot, K (ks.get slot) (ks'.get slot)) keys keys s t := by
  refine (ports.read (.key .key0) hst).bind fun v₀ w₀ h₀ _ _ hst ↦ ?_
  refine (ports.read (.key .key1) hst).bind fun v₁ w₁ h₁ _ _ hst ↦ ?_
  refine (ports.read (.key .key2) hst).bind fun v₂ w₂ h₂ _ _ hst ↦ ?_
  refine (ports.read (.key .key3) hst).bind fun v₃ w₃ h₃ _ _ hst ↦ ?_
  refine .pure hst fun slot ↦ ?_
  cases slot with
  | key0 => exact h₀
  | key1 => exact h₁
  | key2 => exact h₂
  | key3 => exact h₃

/-- An operation of the driver itself, with the same arguments, is alike on the two. -/
theorem step {op : Op} (hdirect : ¬ op.IsDirect) (hK : ∀ key, K key key)
    (hkeys : op = .keys → ∀ v w, K v w → v = w) (hst : c.States s t) :
    c.Alike Eq (step op) (step op) s t := by
  cases op with
  | init base size on => exact (ports.init base size on hst).map_eq _
  | reconfigure base size => exact (ports.reconfigure base size hst).map_eq _
  | enable => exact (ports.enable hst).map_eq _
  | disable => exact (ports.disable hst).map_eq _
  | isEnabled => exact (ports.isEnabled hst).map_eq _
  | config => exact (ports.config hst).map_eq _
  | setKeys ks => exact (ports.setKeys (fun slot ↦ hK _) hst).map_eq _
  | keys =>
      refine (ports.keys hst).map fun ks ks' h ↦ congrArg Reply.keys ?_
      exact Keys.eq_of_get_eq fun slot ↦ hkeys rfl _ _ (h slot)
  | read number | write number value | setBits number mask | clearBits number mask
  | readAndClear number | settle cycles => exact absurd trivial hdirect

end Ports

end Driver

end SecureZone
