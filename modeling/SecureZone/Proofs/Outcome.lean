import Mathlib.Data.List.Basic
import SecureZone.Action

/-!
# Outcomes without their events

What an action answers and what it leaves behind follow from the same facts about its parts; the
events do not enter. An action is atomic from a state when a failure leaves that state as it was.
-/

namespace SecureZone.Action

variable {ι σ τ ε ε' α β : Type}

/-- From `s` the action answers `answer` and leaves `t` behind. -/
structure Gives (x : Action σ ε α) (s : σ) (answer : Except ε α) (t : σ) : Prop where
  answer_eq : (x s).answer = answer
  state_eq : (x s).state = t

theorem gives_self (x : Action σ ε α) (s : σ) : Gives x s (x s).answer (x s).state := ⟨rfl, rfl⟩

namespace Gives

variable {x : Action σ ε α} {s t u : σ}

theorem of_eq {answer answer' : Except ε α} (hx : Gives x s answer t) (h : answer = answer') :
    Gives x s answer' t :=
  ⟨hx.answer_eq.trans h, hx.state_eq⟩

theorem of_apply_eq {answer : Except ε α} {events : List Event} (hx : x s = ⟨answer, t, events⟩) :
    Gives x s answer t :=
  ⟨congrArg Outcome.answer hx, congrArg Outcome.state hx⟩

theorem pure (a : α) (s : σ) : Gives (Pure.pure a : Action σ ε α) s (.ok a) s := ⟨rfl, rfl⟩

theorem fail (e : ε) (s : σ) : Gives (Action.fail e : Action σ ε α) s (.error e) s := ⟨rfl, rfl⟩

theorem get (s : σ) : Gives (Action.get : Action σ ε σ) s (.ok s) s := ⟨rfl, rfl⟩

theorem modify (f : σ → σ) (s : σ) : Gives (Action.modify f : Action σ ε Unit) s (.ok ()) (f s) :=
  ⟨rfl, rfl⟩

theorem report (event : Event) (s : σ) :
    Gives (Action.report event : Action σ ε Unit) s (.ok ()) s := ⟨rfl, rfl⟩

theorem perform (update : Update σ) (s : σ) :
    Gives (Action.perform update : Action σ ε Unit) s (.ok ()) (update s).1 := ⟨rfl, rfl⟩

theorem ofExcept (answer : Except ε α) (s : σ) : Gives (Action.ofExcept answer) s answer s :=
  ⟨rfl, rfl⟩

theorem bind {a : α} {next : α → Action σ ε β} {answer : Except ε β} (hx : Gives x s (.ok a) t)
    (hnext : Gives (next a) t answer u) : Gives (x >>= next) s answer u := by
  obtain ⟨hanswer, hstate⟩ := hx
  rw [← hstate] at hnext
  rcases hxs : x s with ⟨answer', t', events⟩
  rw [hxs] at hanswer hnext
  cases hanswer
  have happly : (x >>= next) s = (next a t').after events := by
    rw [bind_apply, hxs, Outcome.andThen_ok]
  exact ⟨by rw [happly]; exact hnext.answer_eq, by rw [happly]; exact hnext.state_eq⟩

theorem bind_error {e : ε} (hx : Gives x s (.error e) t) (next : α → Action σ ε β) :
    Gives (x >>= next) s (.error e) t := by
  obtain ⟨hanswer, hstate⟩ := hx
  rcases hxs : x s with ⟨answer', t', events⟩
  rw [hxs] at hanswer hstate
  cases hanswer
  have happly : (x >>= next) s = ⟨.error e, t', events⟩ := by
    rw [bind_apply, hxs, Outcome.andThen_error]
  exact ⟨by rw [happly], by rw [happly]; exact hstate⟩

theorem of_bind {next : α → Action σ ε β} {b : β} (h : Gives (x >>= next) s (.ok b) u) :
    ∃ a t, Gives x s (.ok a) t ∧ Gives (next a) t (.ok b) u := by
  cases ha : (x s).answer with
  | ok a =>
      have hboth : Gives (x >>= next) s _ _ :=
        Gives.bind ⟨ha, rfl⟩ (gives_self (next a) (x s).state)
      refine ⟨a, (x s).state, ⟨ha, rfl⟩, ?_, ?_⟩
      · exact hboth.answer_eq.symm.trans h.answer_eq
      · exact hboth.state_eq.symm.trans h.state_eq
  | error e =>
      have hfirst : Gives (x >>= next) s (.error e) (x s).state := Gives.bind_error ⟨ha, rfl⟩ next
      cases hfirst.answer_eq.symm.trans h.answer_eq

theorem map {answer : Except ε α} (hx : Gives x s answer t) (f : α → β) :
    Gives (f <$> x) s (answer.map f) t :=
  ⟨by rw [answer_map, hx.answer_eq], by rw [state_map, hx.state_eq]⟩

theorem mapError {answer : Except ε α} (hx : Gives x s answer t) (f : ε → ε') :
    Gives (x.mapError f) s (answer.mapError f) t :=
  ⟨by rw [answer_mapError, hx.answer_eq], by rw [state_mapError, hx.state_eq]⟩

theorem of_mapError {f : ε → ε'} {a : α} (h : Gives (x.mapError f) s (.ok a) t) :
    Gives x s (.ok a) t := by
  obtain ⟨hanswer, hstate⟩ := h
  refine ⟨?_, hstate⟩
  rw [answer_mapError] at hanswer
  cases hx : (x s).answer with
  | ok b =>
      rw [hx] at hanswer
      cases hanswer
      rfl
  | error e =>
      rw [hx] at hanswer
      cases hanswer

theorem attempt {answer : Except ε α} (hx : Gives x s answer t) :
    Gives (x.attempt : Action σ ε' _) s (.ok answer) t :=
  ⟨congrArg Except.ok hx.answer_eq, hx.state_eq⟩

theorem onPart {part : τ → σ} {w : τ} {answer : Except ε α} (hx : Gives x (part w) answer t)
    (replace : τ → σ → τ) : Gives (x.onPart part replace) w answer (replace w t) :=
  ⟨hx.answer_eq, congrArg (replace w) hx.state_eq⟩

end Gives

/-! ## Loops -/

section

variable {body : Nat → Action σ ε α} {n : Nat} {s : σ}

/-- If every turn keeps the invariant and answers with its value, so does the whole loop. -/
theorem tabulate_of_turns (value : Nat → α) (Inv : Nat → σ → Prop) (hs : Inv 0 s)
    (hturn : ∀ i < n, ∀ t, Inv i t → ∃ u, Gives (body i) t (.ok (value i)) u ∧ Inv (i + 1) u) :
    ∃ u, Gives (tabulate n body) s (.ok ((List.range n).map value)) u ∧ Inv n u := by
  induction n generalizing body value Inv s with
  | zero => exact ⟨s, Gives.pure [] s, hs⟩
  | succ n ih =>
      obtain ⟨t, hbody, ht⟩ := hturn 0 (Nat.succ_pos n) s hs
      have hlater : ∀ i < n, ∀ t, Inv (i + 1) t →
          ∃ u, Gives (body (i + 1)) t (.ok (value (i + 1))) u ∧ Inv (i + 1 + 1) u :=
        fun i hi ↦ hturn (i + 1) (Nat.succ_lt_succ hi)
      obtain ⟨u, hrest, hu⟩ := ih (fun i ↦ value (i + 1)) (fun i ↦ Inv (i + 1)) ht hlater
      refine ⟨u, ?_, hu⟩
      rw [tabulate_succ, List.range_succ_eq_map, List.map_cons, List.map_map]
      exact hbody.bind (hrest.bind (Gives.pure _ u))

/-- The first turn that fails ends the loop with its error, in the state that it leaves behind. -/
theorem tabulate_of_failing_turn {k : Nat} {e : ε} (value : Nat → α) (Inv : Nat → σ → Prop)
    {After : σ → Prop} (hk : k < n) (hs : Inv 0 s)
    (hturn : ∀ i < k, ∀ t, Inv i t → ∃ u, Gives (body i) t (.ok (value i)) u ∧ Inv (i + 1) u)
    (hfail : ∀ t, Inv k t → ∃ u, Gives (body k) t (.error e) u ∧ After u) :
    ∃ u, Gives (tabulate n body) s (.error e) u ∧ After u := by
  induction k generalizing n body value Inv s with
  | zero =>
      obtain ⟨m, rfl⟩ : ∃ m, n = m + 1 := ⟨n - 1, by omega⟩
      obtain ⟨u, hbody, hu⟩ := hfail s hs
      refine ⟨u, ?_, hu⟩
      rw [tabulate_succ]
      exact hbody.bind_error _
  | succ k ih =>
      obtain ⟨m, rfl⟩ : ∃ m, n = m + 1 := ⟨n - 1, by omega⟩
      obtain ⟨t, hbody, ht⟩ := hturn 0 (Nat.succ_pos k) s hs
      have hlater : ∀ i < k, ∀ t, Inv (i + 1) t →
          ∃ u, Gives (body (i + 1)) t (.ok (value (i + 1))) u ∧ Inv (i + 1 + 1) u :=
        fun i hi ↦ hturn (i + 1) (Nat.succ_lt_succ hi)
      obtain ⟨u, hrest, hu⟩ :=
        ih (fun i ↦ value (i + 1)) (fun i ↦ Inv (i + 1)) (Nat.lt_of_succ_lt_succ hk) ht hlater hfail
      refine ⟨u, ?_, hu⟩
      rw [tabulate_succ]
      exact hbody.bind (hrest.bind_error _)

/-- A loop that succeeds has made all its turns. -/
theorem tabulate_of_ok (Inv : Nat → σ → Prop) {as : List α} {u : σ} (hs : Inv 0 s)
    (hturn : ∀ i < n, ∀ t a u, Inv i t → Gives (body i) t (.ok a) u → Inv (i + 1) u)
    (h : Gives (tabulate n body) s (.ok as) u) : as.length = n ∧ Inv n u := by
  induction n generalizing body s Inv as with
  | zero =>
      obtain ⟨hanswer, rfl⟩ := h
      cases hanswer
      exact ⟨rfl, hs⟩
  | succ n ih =>
      rw [tabulate_succ] at h
      obtain ⟨a, t, hfirst, hrest⟩ := h.of_bind
      obtain ⟨bs, v, hlater, hanswer, rfl⟩ := hrest.of_bind
      cases hanswer
      have ht := hturn 0 (Nat.succ_pos n) s a t hs hfirst
      obtain ⟨hlength, hv⟩ := ih (fun i ↦ Inv (i + 1)) ht
        (fun i hi ↦ hturn (i + 1) (Nat.succ_lt_succ hi)) hlater
      exact ⟨congrArg (· + 1) hlength, hv⟩

/-- A loop over a list in two parts is one loop after the other. -/
theorem forEach_append (body : ι → Action σ ε Unit) (first second : List ι) :
    forEach body (first ++ second) = forEach body first >>= fun _ ↦ forEach body second := by
  induction first with
  | nil => rfl
  | cons a as ih =>
      rw [List.cons_append, forEach, forEach, ih, bind_assoc]

/-- If every turn succeeds and keeps the invariant, which knows the elements that are done, so does
the whole loop. -/
theorem forEach_of_turns {body : ι → Action σ ε Unit} {as : List ι} {s : σ}
    (Inv : List ι → σ → Prop) (hs : Inv [] s)
    (hturn : ∀ done, ∀ a ∈ as, ∀ t, Inv done t →
      ∃ u, Gives (body a) t (.ok ()) u ∧ Inv (done ++ [a]) u) :
    ∃ u, Gives (forEach body as) s (.ok ()) u ∧ Inv as u := by
  induction as generalizing s Inv with
  | nil => exact ⟨s, Gives.pure () s, hs⟩
  | cons a as ih =>
      obtain ⟨t, hbody, ht⟩ := hturn [] a List.mem_cons_self s hs
      have hlater : ∀ done, ∀ b ∈ as, ∀ t, Inv (a :: done) t →
          ∃ u, Gives (body b) t (.ok ()) u ∧ Inv (a :: (done ++ [b])) u :=
        fun done b hb ↦ hturn (a :: done) b (List.mem_cons_of_mem a hb)
      obtain ⟨u, hrest, hu⟩ := ih (fun done ↦ Inv (a :: done)) ht hlater
      exact ⟨u, hbody.bind hrest, hu⟩

end

/-! ## Atomic actions -/

/-- From `s` the action succeeds, or it fails and leaves `s` as it was. -/
def AtomicFrom (x : Action σ ε α) (s : σ) : Prop :=
  ∀ e, (x s).answer = .error e → (x s).state = s

namespace AtomicFrom

variable {x : Action σ ε α} {s : σ}

theorem of_state_eq (hx : (x s).state = s) : AtomicFrom x s := fun _ _ ↦ hx

theorem of_answer_eq {a : α} (hx : (x s).answer = .ok a) : AtomicFrom x s := by
  intro e he
  rw [hx] at he
  cases he

theorem of_refused {e : ε} {events : List Event} (hx : x s = ⟨.error e, s, events⟩) :
    AtomicFrom x s :=
  of_state_eq (congrArg Outcome.state hx)

theorem of_accepted {a : α} {t : σ} {events : List Event} (hx : x s = ⟨.ok a, t, events⟩) :
    AtomicFrom x s :=
  of_answer_eq (congrArg Outcome.answer hx)

theorem map (hx : AtomicFrom x s) (f : α → β) : AtomicFrom (f <$> x) s := by
  intro e he
  rw [answer_map] at he
  rw [state_map]
  cases ha : (x s).answer with
  | ok a => simp [ha, Except.map] at he
  | error e' => exact hx e' ha

theorem mapError (hx : AtomicFrom x s) (f : ε → ε') : AtomicFrom (x.mapError f) s := by
  intro e he
  rw [answer_mapError] at he
  rw [state_mapError]
  cases ha : (x s).answer with
  | ok a => simp [ha, Except.mapError] at he
  | error e' => exact hx e' ha

theorem onPart {part : τ → σ} {replace : τ → σ → τ} {w : τ} (hx : AtomicFrom x (part w))
    (hback : replace w (part w) = w) : AtomicFrom (x.onPart part replace) w := by
  intro e he
  rw [onPart_apply, hx e he, hback]

/-- Looking first and acting then is atomic if the acting is. -/
theorem bind_of_state_eq {next : α → Action σ ε β} (hx : (x s).state = s)
    (hnext : ∀ a, AtomicFrom (next a) s) : AtomicFrom (x >>= next) s := by
  intro e he
  cases ha : (x s).answer with
  | ok a =>
      have hboth : Gives (x >>= next) s (next a s).answer (next a s).state :=
        Gives.bind ⟨ha, hx⟩ (gives_self (next a) s)
      rw [hboth.answer_eq] at he
      rw [hboth.state_eq]
      exact hnext a e he
  | error e' => exact (Gives.bind_error ⟨ha, hx⟩ next).state_eq

/-- What comes after an atomic action and cannot fail leaves the whole atomic. -/
theorem bind_of_succeeds {next : α → Action σ ε β} (hx : AtomicFrom x s)
    (hnext : ∀ a t, ∃ b, (next a t).answer = .ok b) : AtomicFrom (x >>= next) s := by
  intro e he
  cases ha : (x s).answer with
  | ok a =>
      obtain ⟨b, hb⟩ := hnext a (x s).state
      have hboth : Gives (x >>= next) s (.ok b) (next a (x s).state).state :=
        Gives.bind ⟨ha, rfl⟩ ⟨hb, rfl⟩
      rw [hboth.answer_eq] at he
      cases he
  | error e' =>
      have hfirst : Gives (x >>= next) s (.error e') (x s).state := Gives.bind_error ⟨ha, rfl⟩ next
      rw [hfirst.state_eq]
      exact hx e' ha

end AtomicFrom

end SecureZone.Action
