import SecureZone.Event

/-!
# Actions

An action on a state answers with a value or an error, leaves a state behind in either case and
reports events, oldest first. Failing does not undo what was done before; an operation that leaves
the state alone when it fails does so by its own order of steps. An update is an action that cannot
fail and has no answer.
-/

namespace SecureZone

structure Outcome (σ ε α : Type) where
  answer : Except ε α
  state : σ
  events : List Event

def Action (σ ε α : Type) : Type := σ → Outcome σ ε α

abbrev Update (σ : Type) : Type := σ → σ × List Event

namespace Outcome

variable {σ ε α β : Type}

def after (events : List Event) (o : Outcome σ ε α) : Outcome σ ε α :=
  ⟨o.answer, o.state, events ++ o.events⟩

/-- Go on with `next` from a successful outcome. -/
def andThen (o : Outcome σ ε α) (next : α → Action σ ε β) : Outcome σ ε β :=
  match o.answer with
  | .ok a => (next a o.state).after o.events
  | .error e => ⟨.error e, o.state, o.events⟩

@[simp] theorem andThen_ok (a : α) (s : σ) (events : List Event) (next : α → Action σ ε β) :
    (Outcome.mk (.ok a) s events).andThen next = (next a s).after events := rfl

@[simp] theorem andThen_error (e : ε) (s : σ) (events : List Event) (next : α → Action σ ε β) :
    (Outcome.mk (.error e) s events).andThen next = ⟨.error e, s, events⟩ := rfl

@[simp] theorem after_mk (events later : List Event) (answer : Except ε α) (s : σ) :
    (Outcome.mk answer s later).after events = ⟨answer, s, events ++ later⟩ := rfl

@[simp] theorem state_after (events : List Event) (o : Outcome σ ε α) :
    (o.after events).state = o.state := rfl

@[simp] theorem after_nil (o : Outcome σ ε α) : o.after [] = o := rfl

@[simp] theorem after_after (first second : List Event) (o : Outcome σ ε α) :
    (o.after second).after first = o.after (first ++ second) := by
  simp [after]

theorem andThen_after (events : List Event) (o : Outcome σ ε α) (next : α → Action σ ε β) :
    (o.after events).andThen next = (o.andThen next).after events := by
  obtain ⟨answer, s, later⟩ := o
  cases answer with
  | ok a => simp
  | error e => rfl

end Outcome

namespace Action

variable {σ τ ε ε' α β γ : Type}

protected def pure (a : α) : Action σ ε α := fun s ↦ ⟨.ok a, s, []⟩

protected def bind (x : Action σ ε α) (next : α → Action σ ε β) : Action σ ε β :=
  fun s ↦ (x s).andThen next

instance : Monad (Action σ ε) where
  pure := Action.pure
  bind := Action.bind

@[simp] theorem pure_apply (a : α) (s : σ) : (pure a : Action σ ε α) s = ⟨.ok a, s, []⟩ := rfl

@[simp] theorem bind_apply (x : Action σ ε α) (next : α → Action σ ε β) (s : σ) :
    (x >>= next) s = (x s).andThen next := rfl

theorem map_apply (f : α → β) (x : Action σ ε α) (s : σ) :
    (f <$> x) s = ⟨(x s).answer.map f, (x s).state, (x s).events⟩ := by
  change (x s).andThen _ = _
  obtain ⟨answer, t, events⟩ := x s
  cases answer with
  | ok a =>
      change Outcome.after events ⟨.ok (f a), t, []⟩ = _
      simp [Except.map]
  | error e => rfl

theorem id_map' (x : Action σ ε α) : id <$> x = x := by
  funext s
  rw [map_apply]
  obtain ⟨answer, t, events⟩ := x s
  cases answer <;> rfl

theorem bind_assoc' (x : Action σ ε α) (f : α → Action σ ε β) (g : β → Action σ ε γ) :
    x >>= f >>= g = x >>= fun a ↦ f a >>= g := by
  funext s
  simp only [bind_apply]
  obtain ⟨answer, t, events⟩ := x s
  cases answer with
  | ok a => simp [Outcome.andThen_after]
  | error e => rfl

instance : LawfulMonad (Action σ ε) := .mk' _ id_map' (fun _ _ ↦ rfl) bind_assoc'

def fail (e : ε) : Action σ ε α
  | s => ⟨.error e, s, []⟩

def report (event : Event) : Action σ ε Unit
  | s => ⟨.ok (), s, [event]⟩

def get : Action σ ε σ
  | s => ⟨.ok s, s, []⟩

def modify (f : σ → σ) : Action σ ε Unit
  | s => ⟨.ok (), f s, []⟩

def perform (update : Update σ) : Action σ ε Unit
  | s => ⟨.ok (), (update s).1, (update s).2⟩

def ofExcept (answer : Except ε α) : Action σ ε α
  | s => ⟨answer, s, []⟩

def mapError (f : ε → ε') (x : Action σ ε α) : Action σ ε' α
  | s => let o := x s; ⟨o.answer.mapError f, o.state, o.events⟩

/-- Keep the error of `x` as a value. -/
def attempt (x : Action σ ε α) : Action σ ε' (Except ε α)
  | s => let o := x s; ⟨.ok o.answer, o.state, o.events⟩

/-- Run an action of a part on the whole. -/
def onPart (part : τ → σ) (replace : τ → σ → τ) (x : Action σ ε α) : Action τ ε α
  | t => let o := x (part t); ⟨o.answer, replace t o.state, o.events⟩

section

variable (x : Action σ ε α) (s : σ)

@[simp] theorem answer_map (f : α → β) : ((f <$> x) s).answer = (x s).answer.map f := by
  rw [map_apply]

@[simp] theorem state_map (f : α → β) : ((f <$> x) s).state = (x s).state := by
  rw [map_apply]

@[simp] theorem events_map (f : α → β) : ((f <$> x) s).events = (x s).events := by
  rw [map_apply]

@[simp] theorem answer_mapError (f : ε → ε') :
    (x.mapError f s).answer = (x s).answer.mapError f := rfl

@[simp] theorem state_mapError (f : ε → ε') : (x.mapError f s).state = (x s).state := rfl

@[simp] theorem events_mapError (f : ε → ε') : (x.mapError f s).events = (x s).events := rfl

@[simp] theorem fail_apply (e : ε) : (fail e : Action σ ε α) s = ⟨.error e, s, []⟩ := rfl

@[simp] theorem report_apply (event : Event) :
    (report event : Action σ ε Unit) s = ⟨.ok (), s, [event]⟩ := rfl

@[simp] theorem perform_apply (update : Update σ) :
    (perform update : Action σ ε Unit) s = ⟨.ok (), (update s).1, (update s).2⟩ := rfl

@[simp] theorem attempt_apply :
    (x.attempt : Action σ ε' _) s = ⟨.ok (x s).answer, (x s).state, (x s).events⟩ := rfl

@[simp] theorem onPart_apply (part : τ → σ) (replace : τ → σ → τ) (t : τ) :
    x.onPart part replace t =
      ⟨(x (part t)).answer, replace t (x (part t)).state, (x (part t)).events⟩ := rfl

end

/-- Run `body` on each element in turn, up to the first failure. -/
def forEach (body : α → Action σ ε Unit) : List α → Action σ ε Unit
  | [] => pure ()
  | a :: as => do
    body a
    forEach body as

/-- Continue `tabulate` at index `i`, given the values and the events so far, newest first. -/
def tabulateFrom (body : Nat → Action σ ε α) :
    Nat → Nat → List α → List Event → σ → Outcome σ ε (List α)
  | 0, _, values, events, s => ⟨.ok values.reverse, s, events.reverse⟩
  | n + 1, i, values, events, s =>
    match body i s with
    | ⟨.ok a, s', new⟩ => tabulateFrom body n (i + 1) (a :: values) (new.reverse ++ events) s'
    | ⟨.error e, s', new⟩ => ⟨.error e, s', (new.reverse ++ events).reverse⟩

/-- Run `body` on the indices below `n` in turn and collect the answers. The first failure ends the
run. -/
def tabulate (n : Nat) (body : Nat → Action σ ε α) : Action σ ε (List α) :=
  tabulateFrom body n 0 [] []

theorem tabulateFrom_eq (body : Nat → Action σ ε α) (n i : Nat) (values : List α)
    (events : List Event) (s : σ) :
    tabulateFrom body n i values events s =
      ⟨(tabulateFrom body n i [] [] s).answer.map (values.reverse ++ ·),
        (tabulateFrom body n i [] [] s).state,
        events.reverse ++ (tabulateFrom body n i [] [] s).events⟩ := by
  induction n generalizing i values events s with
  | zero => simp [tabulateFrom, Except.map]
  | succ n ih =>
      rw [tabulateFrom, tabulateFrom]
      rcases body i s with ⟨a | a, t, new⟩
      · simp [Except.map]
      · simp only [ih (i + 1) (a :: values), ih (i + 1) [a]]
        rcases (tabulateFrom body n (i + 1) [] [] t).answer with e | as <;> simp [Except.map]

theorem tabulateFrom_shift (body : Nat → Action σ ε α) (n i : Nat) (values : List α)
    (events : List Event) (s : σ) :
    tabulateFrom (fun j ↦ body (j + 1)) n i values events s =
      tabulateFrom body n (i + 1) values events s := by
  induction n generalizing i values events s with
  | zero => rfl
  | succ n ih =>
      rw [tabulateFrom, tabulateFrom]
      rcases body (i + 1) s with ⟨a | a, t, new⟩
      · rfl
      · exact ih (i + 1) _ _ _

@[simp] theorem tabulate_zero (body : Nat → Action σ ε α) : tabulate 0 body = pure [] := rfl

theorem tabulate_succ (n : Nat) (body : Nat → Action σ ε α) :
    tabulate (n + 1) body = do
      let a ← body 0
      let as ← tabulate n fun i ↦ body (i + 1)
      return a :: as := by
  funext s
  rw [tabulate, tabulateFrom, bind_apply]
  rcases body 0 s with ⟨e | a, t, new⟩
  · simp
  · rw [Outcome.andThen_ok, bind_apply]
    simp only [tabulate, tabulateFrom_shift]
    rw [tabulateFrom_eq]
    rcases tabulateFrom body n 1 [] [] t with ⟨e | as, u, later⟩ <;> simp [Except.map]

end Action

end SecureZone
