import Mathlib.Data.List.Basic
import SecureZone.Proofs.Ledger

/-!
# Saving and restoring the registers

What its registers show determines a region. The shown values can be written into any other register
file, in any order and as often as one likes: a write touches no register but its own, and what a
register came to show it also takes. The exception is the size of a region that was never given one.
It shows as zero, which the register of the size refuses, so that the other file keeps its own size.
-/

namespace SecureZone.Region

open SecureZone.Action

/-! ## Single registers -/

theorem eq_of_get_eq {r q : Region} (h : ∀ csr, r.get csr = q.get csr) : r = q := by
  obtain ⟨base, size, enabled, keys⟩ := r
  obtain ⟨base', size', enabled', keys'⟩ := q
  have hbase : base = base' := h .base
  have hsize : size = size' := h .size
  have hflag : (if enabled then 1 else 0 : Word) = if enabled' then 1 else 0 := h .enable
  have hkeys : keys = keys' := Keys.eq_of_get_eq fun slot ↦ h (.key slot)
  have henabled : enabled = enabled' := by
    cases enabled <;> cases enabled' <;> first | rfl | cases hflag
  rw [hbase, hsize, hkeys, henabled]

theorem shown_get (r : Region) (csr : Csr) : shown csr (r.get csr) = r.get csr := by
  cases csr with
  | enable =>
      rw [Region.get]
      split_ifs <;> rfl
  | base | size | key slot => rfl

theorem withValue_comm (r : Region) {csr other : Csr} (h : csr ≠ other) (v w : Word) :
    (r.withValue csr v).withValue other w = (r.withValue other w).withValue csr v := by
  apply eq_of_get_eq
  intro third
  by_cases hcsr : csr = third
  · subst hcsr
    rw [get_withValue_of_ne _ h.symm, get_withValue_self, get_withValue_self]
  · by_cases hother : other = third
    · subst hother
      rw [get_withValue_self, get_withValue_of_ne _ hcsr, get_withValue_self]
    · rw [get_withValue_of_ne _ hother, get_withValue_of_ne _ hcsr, get_withValue_of_ne _ hcsr,
        get_withValue_of_ne _ hother]

section

variable (r : Region) {csr other : Csr} {value : Word}

theorem gives_writeCsr_refused {refusal : Refusal} (h : refusal? csr value = some refusal) :
    Gives (writeCsr csr.number value) r (.error (.refused refusal)) r := by
  rw [writeCsr]
  exact (gives_locate r csr).bind ((gives_put_refused r csr h).mapError _)

theorem accepts_of_writeCsr (h : (writeCsr csr.number value r).answer = .ok ()) :
    Accepts csr value := by
  rw [← refusal?_eq_none_iff, Option.eq_none_iff_forall_ne_some]
  intro refusal hrefusal
  rw [(gives_writeCsr_refused r hrefusal).answer_eq] at h
  cases h

theorem gives_step_writeCsr (h : refusal? csr value = none) :
    Gives (step (.writeCsr csr.number value)) r (.ok .done) (r.withValue csr value) :=
  ((gives_writeCsr r csr (refusal?_eq_none_iff.mp h)).mapError _).map _

theorem gives_step_writeCsr_refused {refusal : Refusal} (h : refusal? csr value = some refusal) :
    Gives (step (.writeCsr csr.number value)) r (.error (.csr (.refused refusal))) r :=
  ((gives_writeCsr_refused r h).mapError _).map _

end

/-! ## All registers -/

/-- The instructions that write what the registers show in `s`. -/
def restoring (s : Region) (order : List Csr) : List Op :=
  order.map fun csr ↦ .writeCsr csr.number (s.get csr)

section

variable (s t : Region)

theorem get_step_restoring (csr other : Csr) :
    (step (.writeCsr csr.number (s.get csr)) t).state.get other =
      if other = csr ∧ refusal? csr (s.get csr) = none then s.get csr else t.get other := by
  cases h : refusal? csr (s.get csr) with
  | none =>
      rw [(gives_step_writeCsr t h).state_eq]
      by_cases hother : other = csr
      · rw [hother, if_pos ⟨rfl, rfl⟩, get_withValue_self, shown_get]
      · rw [if_neg fun hboth ↦ hother hboth.1, get_withValue_of_ne t (Ne.symm hother)]
  | some refusal =>
      rw [(gives_step_writeCsr_refused t h).state_eq, if_neg fun hboth ↦ nomatch hboth.2]

/-- The registers that were written show what they show in `s`, unless they refused it. -/
theorem get_final_restoring (order : List Csr) (csr : Csr) :
    (final step (restoring s order) t).get csr =
      if csr ∈ order ∧ refusal? csr (s.get csr) = none then s.get csr else t.get csr := by
  induction order generalizing t with
  | nil => exact (if_neg fun hboth ↦ nomatch hboth.1).symm
  | cons first order ih =>
      rw [restoring, List.map_cons, ← restoring, final_cons, ih, get_step_restoring]
      by_cases hfirst : csr = first
      · subst hfirst
        by_cases h : refusal? csr (s.get csr) = none <;> simp [h]
      · simp [hfirst]

theorem answer_of_mem_restoring {order : List Csr} {e : Entry Op Region Failure Reply}
    (he : e ∈ history step (restoring s order) t) :
    ∃ csr ∈ order, e.op = .writeCsr csr.number (s.get csr) ∧ e.outcome.answer =
      match refusal? csr (s.get csr) with
      | none => .ok .done
      | some refusal => .error (.csr (.refused refusal)) := by
  obtain ⟨op, hop, u, rfl⟩ := exists_of_mem_history step he
  obtain ⟨csr, hcsr, rfl⟩ := List.mem_map.mp hop
  refine ⟨csr, hcsr, rfl, ?_⟩
  cases h : refusal? csr (s.get csr) with
  | none => exact (gives_step_writeCsr u h).answer_eq
  | some refusal => exact (gives_step_writeCsr_refused u h).answer_eq

end

/-- What a register shows after any run it also takes, but for a size that is still zero. -/
theorem refusal?_get {log : List (Csr × Word)} {s : Region} (hs : Accounts log s) (csr : Csr) :
    refusal? csr (s.get csr) = if csr = .size ∧ s.size = 0 then some (.badSize 0) else none := by
  by_cases hcsr : csr = .size
  · subst hcsr
    rcases hs.size_cases with ⟨hzero, -⟩ | ⟨hvalid, -⟩
    · rw [if_pos ⟨rfl, hzero⟩, Region.get, hzero]
      rfl
    · rw [if_neg fun hboth ↦ ne_zero_of_validSize hvalid hboth.2]
      exact if_pos hvalid
  · rw [if_neg fun hboth ↦ hcsr hboth.1]
    cases csr with
    | base => exact if_pos hs.validBase
    | size => exact absurd rfl hcsr
    | enable | key slot => rfl

theorem gives_two_writes (r : Region) {csr other : Csr} {v w : Word} (hv : Accepts csr v)
    (hw : Accepts other w) :
    Gives (do writeCsr csr.number v; writeCsr other.number w) r (.ok ())
      ((r.withValue csr v).withValue other w) :=
  (gives_writeCsr r csr hv).bind (gives_writeCsr _ other hw)

/-- After any operations on a new region, what its seven registers show can be written into any
other register file, in any order and repeatedly. Every write succeeds and the file ends up equal,
unless the region has no size yet: then exactly the writes of the size fail, and the file keeps its
own. Writes to two registers that were accepted anywhere can be made in either order, and files that
read alike are equal. -/
theorem registers_save_and_restore (ops : List Op) (t : Region) (order : List Csr)
    (hall : ∀ csr, csr ∈ order) :
    let s := final step ops initial
    let entries := history step (restoring s order) t
    let restored := final step (restoring s order) t
    (∀ csr, (readCsr csr.number s).answer = .ok (s.get csr)) ∧
    (s.size ≠ 0 → (∀ e ∈ entries, e.outcome.answer = .ok .done) ∧ restored = s) ∧
    (s.size = 0 →
      (∀ e ∈ entries, e.outcome.answer =
        if e.op = .writeCsr Csr.size.number 0 then .error (.csr (.refused (.badSize 0)))
        else .ok .done) ∧
      restored = { s with size := t.size }) ∧
    (∀ csr other : Csr, csr ≠ other → ∀ (v w : Word) (p q : Region),
      (writeCsr csr.number v p).answer = .ok () → (writeCsr other.number w q).answer = .ok () →
      ∀ r, ∃ u, Gives (do writeCsr csr.number v; writeCsr other.number w) r (.ok ()) u ∧
        Gives (do writeCsr other.number w; writeCsr csr.number v) r (.ok ()) u) ∧
    ∀ p q : Region, (∀ csr : Csr, (readCsr csr.number p).answer = (readCsr csr.number q).answer) →
      p = q := by
  intro s entries restored
  have hs : Accounts (ledger ops) s := accounts_ledger ops
  have hread (r : Region) (csr : Csr) := (gives_readCsr r csr).answer_eq
  have hget (csr : Csr) : restored.get csr =
      if csr = .size ∧ s.size = 0 then t.get csr else s.get csr := by
    refine (get_final_restoring s t order csr).trans ?_
    rw [refusal?_get hs]
    by_cases h : csr = .size ∧ s.size = 0
    · rw [if_pos h, if_pos h, if_neg fun hboth ↦ nomatch hboth.2]
    · rw [if_neg h, if_neg h, if_pos ⟨hall csr, rfl⟩]
  refine ⟨hread s, ?_, ?_, ?_, ?_⟩
  · intro hsize
    refine ⟨fun e he ↦ ?_, eq_of_get_eq fun csr ↦ ?_⟩
    · obtain ⟨csr, -, -, hanswer⟩ := answer_of_mem_restoring s t he
      rwa [refusal?_get hs, if_neg fun h ↦ hsize h.2] at hanswer
    · rw [hget, if_neg fun h ↦ hsize h.2]
  · intro hsize
    refine ⟨fun e he ↦ ?_, eq_of_get_eq fun csr ↦ ?_⟩
    · obtain ⟨csr, -, hop, hanswer⟩ := answer_of_mem_restoring s t he
      rw [hanswer, hop, refusal?_get hs]
      by_cases hcsr : csr = .size
      · subst hcsr
        rw [if_pos ⟨rfl, hsize⟩, if_pos (by rw [Region.get, hsize])]
      · have hother : Op.writeCsr csr.number (s.get csr) ≠ .writeCsr Csr.size.number 0 :=
          fun heq ↦ hcsr (Csr.number_inj (Op.writeCsr.inj heq).1)
        rw [if_neg fun h ↦ hcsr h.1, if_neg hother]
    · rw [hget]
      cases csr <;> simp [hsize, Region.get]
  · intro csr other hne v w p q hv hw r
    have hv := accepts_of_writeCsr p hv
    have hw := accepts_of_writeCsr q hw
    refine ⟨_, gives_two_writes r hv hw, ?_⟩
    rw [withValue_comm r hne]
    exact gives_two_writes r hw hv
  · intro p q h
    refine eq_of_get_eq fun csr ↦ ?_
    have hcsr := h csr
    rw [hread, hread] at hcsr
    exact Except.ok.inj hcsr

/-- A region that the driver set up, restored over one that no operations lead to, and a region
without a size. -/
theorem restored_over_other_registers :
    let order : List Csr :=
      [.key .key3, .size, .base, .size, .enable, .key .key0, .key .key1, .key .key2]
    let t : Region := ⟨3, 5, false, ⟨1, 2, 3, 4⟩⟩
    (∀ csr, csr ∈ order) ∧
    final step (restoring ⟨0x10000, 0x1000, true, ⟨0, 0, 7, 0⟩⟩ order) t =
      ⟨0x10000, 0x1000, true, ⟨0, 0, 7, 0⟩⟩ ∧
    final step (restoring ⟨8, 0, false, .zero⟩ order) t = ⟨8, 5, false, .zero⟩ := by
  intro order t
  have hall : ∀ csr, csr ∈ order := by
    intro csr
    rcases csr with _ | _ | _ | slot
    · decide
    · decide
    · decide
    · cases slot <;> decide
  refine ⟨hall, ?_, ?_⟩
  · have hsaved := registers_save_and_restore
      [.driver (.init 0x10000 0x1000 true), .setKey .key2 7] t order hall
    exact (hsaved.2.1 (by decide)).2
  · have hsaved := registers_save_and_restore [.setBase 8] t order hall
    exact (hsaved.2.2.1 (by decide)).2

end SecureZone.Region
