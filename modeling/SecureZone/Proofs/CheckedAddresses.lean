import Mathlib.Data.List.Range
import Mathlib.Data.List.ReduceOption
import SecureZone.Proofs.Scenarios

/-!
# The addresses of an image

Nothing bounds the number of words of an image, and the addresses are sums of 32-bit words. Here the
image is written, read and compared once more with every sum and product checked, and the two runs
are the same: a loop that is still going has stored all words before, so they lie in the memory, and
the memory ends below the last address. The accesses themselves add nothing: a region takes its base
off an address only where that is no larger, and a lane shifts by less than a word.
-/

namespace SecureZone

/-! ## Equal runs -/

namespace Action

variable {σ ε ε' α β : Type}

theorem bind_congr_at {x y : Action σ ε α} {f g : α → Action σ ε β} {s : σ} (hxy : x s = y s)
    (hfg : ∀ a t, Gives y s (.ok a) t → f a t = g a t) : (x >>= f) s = (y >>= g) s := by
  rw [bind_apply, bind_apply, hxy]
  rcases hy : y s with ⟨e | a, t, events⟩
  · rfl
  · rw [Outcome.andThen_ok, Outcome.andThen_ok, hfg a t (.of_apply_eq hy)]

theorem mapError_bind (x : Action σ ε α) (next : α → Action σ ε β) (f : ε → ε') :
    (x >>= next).mapError f = x.mapError f >>= fun a ↦ (next a).mapError f := by
  funext s
  rw [bind_apply, mapError, bind_apply, mapError]
  rcases x s with ⟨e | a, t, events⟩
  · rfl
  · rfl

theorem mapError_tabulate (n : Nat) (body : Nat → Action σ ε α) (f : ε → ε') :
    (tabulate n body).mapError f = tabulate n fun i ↦ (body i).mapError f := by
  induction n generalizing body with
  | zero => rfl
  | succ n ih =>
      rw [tabulate_succ, tabulate_succ, mapError_bind]
      congr 1
      funext a
      rw [mapError_bind, ih]
      rfl

theorem tabulate_pure (n : Nat) (value : Nat → α) :
    (tabulate n fun i ↦ pure (value i) : Action σ ε (List α)) =
      pure ((List.range n).map value) := by
  induction n generalizing value with
  | zero => rfl
  | succ n ih =>
      rw [tabulate_succ, pure_bind, ih, pure_bind, List.range_succ_eq_map, List.map_cons,
        List.map_map]
      rfl

section

variable {body body' : Nat → Action σ ε α} {n : Nat} {s : σ} (Inv : Nat → σ → Prop)

/-- Two loops run alike if their turns do in all states that the loop can reach. -/
theorem tabulate_congr (hs : Inv 0 s) (hbody : ∀ i < n, ∀ t, Inv i t → body i t = body' i t)
    (hturn : ∀ i < n, ∀ t a u, Inv i t → Gives (body' i) t (.ok a) u → Inv (i + 1) u) :
    tabulate n body s = tabulate n body' s := by
  induction n generalizing body body' s Inv with
  | zero => rfl
  | succ n ih =>
      rw [tabulate_succ, tabulate_succ]
      refine bind_congr_at (hbody 0 (Nat.succ_pos n) s hs) fun a t hfirst ↦ ?_
      have ht := hturn 0 (Nat.succ_pos n) s a t hs hfirst
      refine bind_congr_at (ih (fun i ↦ Inv (i + 1)) ht ?_ ?_) fun _ _ _ ↦ rfl
      · exact fun i hi ↦ hbody (i + 1) (Nat.succ_lt_succ hi)
      · exact fun i hi ↦ hturn (i + 1) (Nat.succ_lt_succ hi)

end

/-- Turns that come after a failure change nothing. -/
theorem tabulate_eq_of_error {body : Nat → Action σ ε α} {k n : Nat} {s : σ} {e : ε} (hk : k ≤ n)
    (h : (tabulate k body s).answer = .error e) : tabulate n body s = tabulate k body s := by
  induction k generalizing n body s e with
  | zero => cases h
  | succ k ih =>
      obtain ⟨m, rfl⟩ : ∃ m, n = m + 1 := ⟨n - 1, by omega⟩
      rw [tabulate_succ] at h
      rw [tabulate_succ, tabulate_succ]
      refine bind_congr_at rfl fun a t hfirst ↦ ?_
      cases hrest : (tabulate k (fun i ↦ body (i + 1)) t).answer with
      | ok as =>
          have hloop : Gives (tabulate k fun i ↦ body (i + 1)) t (.ok as) _ := ⟨hrest, rfl⟩
          have hdone : Gives (body 0 >>= fun a ↦ tabulate k (fun i ↦ body (i + 1)) >>= fun as ↦
              pure (a :: as)) s (.ok (a :: as)) _ := hfirst.bind (hloop.bind (Gives.pure _ _))
          cases hdone.answer_eq.symm.trans h
      | error e' =>
          exact bind_congr_at (ih (Nat.le_of_succ_le_succ hk) hrest) fun _ _ _ ↦ rfl

end Action

namespace Image

open SecureZone.Action SecureZone.Interceptor

/-! ## Checked arithmetic -/

/-- Why a run with checked arithmetic ends early. -/
inductive Stop where
  | fault (fault : Fault)
  | overflow
  deriving DecidableEq, Repr

/-- The word that stands for a number, if 32 bits hold it. -/
def narrow? (m : Nat) : Option Word := if m < 0x100000000 then some (BitVec.ofNat 32 m) else none

/-- The address of word `i`, if neither the offset nor the sum overflows. -/
def address? (base : Word) (i : Nat) : Option Word := do
  let offset ← narrow? (4 * i)
  narrow? (base.toNat + offset.toNat)

def checked {σ α : Type} : Option α → Action σ Stop α
  | some a => pure a
  | none => .fail .overflow

def atAddress {σ α : Type} (base : Word) (i : Nat) (access : Word → Action σ Stop α) :
    Action σ Stop α := do
  let a ← checked (address? base i)
  access a

/-- `run` with checked arithmetic. -/
def runChecked (base : Word) (words : Nat) : Action (Interceptor Ram) Stop Report := do
  let _ ← .tabulate words fun i ↦
    atAddress base i fun a ↦ (Bus.store .word a (word i)).mapError .fault
  .report (.imageWritten words base)
  let readBack ← .tabulate words fun i ↦
    atAddress base i fun a ↦ (Bus.load .word a).mapError .fault
  let comparison ← checked (compare? readBack)
  let z ← .get
  let atRest ← .tabulate (min words samples) fun i ↦
    atAddress base i fun a ↦ pure ((z.memory.word? a).map fun stored ↦ (word i, stored))
  return ⟨base, words, comparison, atRest.reduceOption⟩

theorem narrow?_of_lt {m : Nat} (h : m < 0x100000000) : narrow? m = some (BitVec.ofNat 32 m) :=
  if_pos h

theorem address?_of_lt {base : Word} {i : Nat} (h : base.toNat + 4 * i < 0x100000000) :
    address? base i = some (address base i) := by
  have hoffset : (BitVec.ofNat 32 (4 * i)).toNat = 4 * i := by
    rw [BitVec.toNat_ofNat]
    omega
  rw [address?, narrow?_of_lt (by omega), Option.bind_eq_bind, Option.bind_some, hoffset,
    narrow?_of_lt h, ← toNat_address h, BitVec.ofNat_toNat, BitVec.setWidth_eq]

theorem checked_some {σ α : Type} (a : α) : (checked (some a) : Action σ Stop α) = pure a := rfl

theorem atAddress_of_lt {σ α : Type} {base : Word} {i : Nat} {access : Word → Action σ Stop α}
    (h : base.toNat + 4 * i < 0x100000000) : atAddress base i access = access (address base i) := by
  rw [atAddress, address?_of_lt h, checked_some, pure_bind]

theorem tabulate_atAddress {σ α : Type} {base : Word} {n : Nat}
    (access : Nat → Word → Action σ Stop α) (h : ∀ i < n, base.toNat + 4 * i < 0x100000000) :
    (tabulate n fun i ↦ atAddress base i (access i)) =
      tabulate n fun i ↦ access i (address base i) := by
  funext s
  refine tabulate_congr (fun _ _ ↦ True) trivial (fun i hi t _ ↦ ?_) fun _ _ _ _ _ _ _ ↦ trivial
  rw [atAddress_of_lt (h i hi)]

/-! ## What a run has reached -/

section

variable {size i n : Nat} {base : Word} {t z : Interceptor Ram}

/-- A memory of `size` bytes holds the first `i` words of an image at `base`. -/
structure Reached (size : Nat) (base : Word) (i : Nat) (t : Interceptor Ram) : Prop where
  size_eq : t.memory.size = size
  room : 0 < i → base.toNat + 4 * i ≤ size

namespace Reached

theorem start (z : Interceptor Ram) (base : Word) : Reached z.memory.size base 0 z :=
  ⟨rfl, fun h ↦ absurd h (Nat.lt_irrefl 0)⟩

/-- The next address is still one of 32 bits. -/
theorem next_lt (h : Reached size base i t) (hsize : size < 0x100000000) :
    base.toNat + 4 * i < 0x100000000 := by
  rcases Nat.eq_zero_or_pos i with rfl | hi
  · exact base.isLt
  · exact Nat.lt_of_le_of_lt (h.room hi) hsize

theorem lt (h : Reached size base n t) (hsize : size < 0x100000000) (hi : i < n) :
    base.toNat + 4 * i < 0x100000000 := by
  have hroom := h.room (Nat.zero_lt_of_lt hi)
  omega

/-- A word that was stored lies in the memory. -/
theorem store {a : Unit} {u : Interceptor Ram} (h : Reached size base i t)
    (hsize : size < 0x100000000)
    (hstore : Gives (Bus.store .word (address base i) (word i)) t (.ok a) u) :
    Reached size base (i + 1) u := by
  rcases store_word_cases t (address base i) (word i) with ⟨ha, ht, hfit⟩ | ⟨fault, v, hfault⟩
  · obtain ⟨y, hdone, hy⟩ := gives_store_word ha ht hfit (word i)
    obtain rfl : y = u := hdone.state_eq.symm.trans hstore.state_eq
    rw [toNat_address (h.next_lt hsize), h.size_eq] at hfit
    exact ⟨hy.size_eq.trans h.size_eq, fun _ ↦ by omega⟩
  · cases hfault.answer_eq.symm.trans hstore.answer_eq

end Reached

/-- The write loop with `k` words. -/
def writes (base : Word) (k : Nat) : Action (Interceptor Ram) Fault (List Unit) :=
  tabulate k fun i ↦ Bus.store .word (address base i) (word i)

theorem Reached.writes {done : List Unit} (hsize : z.memory.size < 0x100000000)
    (h : Gives (writes base n) z (.ok done) t) : Reached z.memory.size base n t :=
  (tabulate_of_ok (Reached z.memory.size base) (.start z base)
    (fun _ _ _ _ _ hi hstore ↦ hi.store hsize hstore) h).2

theorem writesChecked_eq (z : Interceptor Ram) (hsize : z.memory.size < 0x100000000) (base : Word)
    (n : Nat) :
    tabulate n (fun i ↦ atAddress base i fun a ↦ (Bus.store .word a (word i)).mapError .fault) z =
      (writes base n).mapError Stop.fault z := by
  rw [writes, mapError_tabulate]
  refine tabulate_congr (Reached z.memory.size base) (.start z base) (fun i _ t ht ↦ ?_) ?_
  · rw [atAddress_of_lt (ht.next_lt hsize)]
  · exact fun i _ t a u ht hstore ↦ ht.store hsize hstore.of_mapError

theorem mapError_run (base : Word) (n : Nat) :
    (run base n).mapError Stop.fault = do
      let _ ← (writes base n).mapError Stop.fault
      .report (.imageWritten n base)
      let readBack ← .tabulate n fun i ↦ (Bus.load .word (address base i)).mapError .fault
      let z ← .get
      return ⟨base, n, compare readBack, atRest z.memory base n⟩ := by
  rw [run, mapError_bind]
  congr 1
  funext _
  rw [mapError_bind]
  congr 1
  funext _
  rw [mapError_bind, mapError_tabulate]
  rfl

end

/-- With checked arithmetic the run is the same. -/
theorem runChecked_eq (z : Interceptor Ram) (hsize : z.memory.size < 0x100000000) (base : Word)
    (n : Nat) : runChecked base n z = (run base n).mapError .fault z := by
  rw [mapError_run, runChecked]
  refine bind_congr_at (writesChecked_eq z hsize base n) fun done t hwrites ↦ ?_
  -- From here on the whole image lies in the memory.
  have ht : Reached z.memory.size base n t := .writes hsize hwrites.of_mapError
  have hall (i : Nat) (hi : i < n) : base.toNat + 4 * i < 0x100000000 := ht.lt hsize hi
  have hsamples (i : Nat) (hi : i < min n samples) : base.toNat + 4 * i < 0x100000000 :=
    hall i (Nat.lt_of_lt_of_le hi (Nat.min_le_left _ _))
  refine bind_congr_at rfl fun _ _ _ ↦ ?_
  rw [tabulate_atAddress _ hall]
  refine bind_congr_at rfl fun readBack u hread ↦ ?_
  obtain ⟨hlength, -⟩ :=
    tabulate_of_ok (fun _ _ ↦ True) trivial (fun _ _ _ _ _ _ _ ↦ trivial) hread
  have hcounters : readBack.length + 1 < 0x100000000 := by
    have hroom := ht.room
    omega
  rw [compare?_eq, if_pos hcounters, checked_some, pure_bind]
  refine bind_congr_at rfl fun v w _ ↦ ?_
  rw [tabulate_atAddress _ hsamples, tabulate_pure, pure_bind, List.reduceOption,
    List.filterMap_map]
  rfl

/-- The write loop ends at the latest with the first word that leaves the memory. -/
theorem run_of_outside {z : Interceptor Ram} (hsize : z.memory.size < 0x100000000) {base : Word}
    {n k : Nat} (hk : k < n) (hout : z.memory.size < base.toNat + 4 * (k + 1)) :
    ∃ fault, (writes base (k + 1) z).answer = .error fault ∧
      run base n z =
        ⟨.error fault, (writes base (k + 1) z).state, (writes base (k + 1) z).events⟩ := by
  cases hwrites : (writes base (k + 1) z).answer with
  | ok done =>
      have hlast : Reached z.memory.size base (k + 1) _ := .writes hsize ⟨hwrites, rfl⟩
      exact absurd (hlast.room (Nat.succ_pos k)) (Nat.not_le.mpr hout)
  | error fault =>
      have hloop : writes base n z = writes base (k + 1) z := tabulate_eq_of_error hk hwrites
      refine ⟨fault, rfl, ?_⟩
      rw [run, ← writes, bind_apply, hloop]
      rcases hstop : writes base (k + 1) z with ⟨e | done, u, events⟩
      · rw [hstop] at hwrites
        cases hwrites
        rfl
      · rw [hstop] at hwrites
        cases hwrites

/-- In any state and configuration, a run with every product and sum checked is the run itself and
never overflows, however many words the image has. Every turn that the write loop comes to has its
address in 32 bits, and once it is through so have all turns of the later loops. The write loop
fails at the latest with the first word that does not fit, and the run fails with it. -/
theorem checked_run_never_overflows (z : Interceptor Ram) (hsize : z.memory.size < 0x100000000)
    (base : Word) (n : Nat) :
    runChecked base n z = (run base n).mapError .fault z ∧
    (runChecked base n z).answer ≠ .error .overflow ∧
    (∀ k ≤ n, ∀ done, (writes base k z).answer = .ok done → ∀ i < n, i ≤ k →
      4 * i < 0x100000000 ∧ base.toNat + 4 * i < 0x100000000) ∧
    (∀ k < n, z.memory.size < base.toNat + 4 * (k + 1) →
      ∃ fault, (writes base (k + 1) z).answer = .error fault ∧
        run base n z =
          ⟨.error fault, (writes base (k + 1) z).state, (writes base (k + 1) z).events⟩) := by
  have hrun := runChecked_eq z hsize base n
  refine ⟨hrun, ?_, ?_, fun k hk hout ↦ run_of_outside hsize hk hout⟩
  · rw [hrun, answer_mapError]
    cases (run base n z).answer with
    | ok r => exact fun h ↦ nomatch h
    | error fault => exact fun h ↦ nomatch h
  · intro k _ done hdone i _ hi
    have hk : Reached z.memory.size base k _ := .writes hsize ⟨hdone, rfl⟩
    have hnext := hk.next_lt hsize
    exact ⟨by omega, by omega⟩

/-- An image of as many words as a word can count, two words below the end of the addresses, in a
memory that ends in the middle of the last word. -/
theorem image_at_the_end_of_the_addresses :
    let z : Interceptor Ram := ⟨.initial, .address, .initial, .zeroed 0xFFFFFFFE⟩
    z.memory.size < 0x100000000 ∧
    (runChecked 0xFFFFFFF8 0xFFFFFFFF z).answer = .error (.fault ⟨.store, .access⟩) := by
  intro z
  have hsize : z.memory.size < 0x100000000 := by decide +revert
  have hout : z.memory.size < (0xFFFFFFF8 : Word).toNat + 4 * (1 + 1) := by decide +revert
  have hsecond : (writes 0xFFFFFFF8 2 z).answer = .error ⟨.store, .access⟩ := by
    decide +kernel +revert
  refine ⟨hsize, ?_⟩
  obtain ⟨hrun, -, -, hend⟩ := checked_run_never_overflows z hsize 0xFFFFFFF8 0xFFFFFFFF
  obtain ⟨fault, hwrites, hstop⟩ := hend 1 (by decide) hout
  obtain rfl : fault = ⟨.store, .access⟩ := Except.error.inj (hwrites.symm.trans hsecond)
  rw [hrun, answer_mapError, hstop]
  rfl

end Image

end SecureZone
