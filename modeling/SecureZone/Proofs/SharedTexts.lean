import Mathlib.Data.List.DropRight
import Mathlib.Data.List.GetD
import Mathlib.Logic.Relation
import SecureZone.Proofs.Run
import SecureZone.Transcript

/-!
# Shared texts

Handles show one text exactly if they come from one another by cloning. That text is what was
written through any of them since one of them was last taken from, so that what was taken and what
is left make up everything that was written. A step on one text leaves all others alone.

Where a handle points never changes, so the steps of a run can be sorted by the text that they are
on, and what a run makes of a text is a fold over the steps on it.
-/

namespace SecureZone.Transcript

open SecureZone.Action

/-! ## Runs on existing handles -/

/-- A step as an action, which cannot fail. -/
def action (op : Op) : Action Transcript Empty Reply :=
  fun t ↦ ⟨.ok (t.step op).2, (t.step op).1, []⟩

@[simp] theorem state_action (op : Op) (t : Transcript) : (action op t).state = (t.step op).1 := rfl

abbrev Step := Entry Op Transcript Empty Reply

def Has (t : Transcript) (h : Nat) : Prop := h < t.buffers.length

instance (t : Transcript) (h : Nat) : Decidable (t.Has h) := inferInstanceAs (Decidable (_ < _))

def Op.handle? : Op → Option Nat
  | .fresh => none
  | .clone h | .write h _ | .writeLine h _ | .take h | .read h | .lines h | .isEmpty h => some h

/-- The handle of the step exists. -/
def Allows (t : Transcript) (op : Op) : Prop := ∀ h ∈ op.handle?, t.Has h

instance (t : Transcript) (op : Op) : Decidable (t.Allows op) :=
  inferInstanceAs (Decidable (∀ h ∈ op.handle?, t.Has h))

/-- A run whose steps are on handles that exist by then. -/
def OnHandles (ops : List Op) (t : Transcript) : Prop :=
  ∀ e ∈ history action ops t, e.before.Allows e.op

instance (ops : List Op) (t : Transcript) : Decidable (OnHandles ops t) :=
  inferInstanceAs (Decidable (∀ e ∈ history action ops t, e.before.Allows e.op))

theorem onHandles_cons {op : Op} {ops : List Op} {t : Transcript} :
    OnHandles (op :: ops) t ↔ t.Allows op ∧ OnHandles ops (t.step op).1 :=
  List.forall_mem_cons

/-- Every handle points to a text. -/
def Consistent (t : Transcript) : Prop := ∀ h, t.Has h → t.bufferOf h < t.texts.length

section

variable {t : Transcript} {op : Op} {ops : List Op} {h : Nat}

theorem length_buffers_step (t : Transcript) (op : Op) :
    t.buffers.length ≤ (t.step op).1.buffers.length := by
  cases op <;> simp [step, setView]

theorem Has.step (hh : t.Has h) (op : Op) : (t.step op).1.Has h :=
  hh.trans_le (length_buffers_step t op)

theorem bufferOf_step (hh : t.Has h) (op : Op) : (t.step op).1.bufferOf h = t.bufferOf h := by
  cases op with
  | fresh => exact List.getD_append _ _ _ _ hh
  | clone => exact List.getD_append _ _ _ _ hh
  | _ => rfl

/-- A handle points to the same text for good. -/
theorem bufferOf_final (hh : t.Has h) (ops : List Op) :
    (final action ops t).bufferOf h = t.bufferOf h := by
  refine (final_of_preserved (fun u : Transcript ↦ u.Has h ∧ u.bufferOf h = t.bufferOf h)
    ⟨hh, rfl⟩ ?_).2
  rintro op - u ⟨hu, hbuffer⟩
  exact ⟨hu.step op, (bufferOf_step hu op).trans hbuffer⟩

/-- The handles behind a step are those in front of it and the one that it makes. -/
theorem has_step_cases (hh : (t.step op).1.Has h) :
    t.Has h ∨ h = t.buffers.length ∧
      ((op = .fresh ∧ (t.step op).1.bufferOf h = t.texts.length) ∨
        ∃ x, op = .clone x ∧ (t.step op).1.bufferOf h = t.bufferOf x) := by
  by_cases hold : t.Has h
  · exact .inl hold
  · rw [Has] at hh hold
    cases op with
    | fresh =>
        obtain rfl : h = t.buffers.length := by
          simp only [step, List.length_append, List.length_singleton] at hh
          omega
        exact .inr ⟨rfl, .inl ⟨rfl, by simp [step, bufferOf]⟩⟩
    | clone x =>
        obtain rfl : h = t.buffers.length := by
          simp only [step, List.length_append, List.length_singleton] at hh
          omega
        exact .inr ⟨rfl, .inr ⟨x, rfl, by simp [step, bufferOf]⟩⟩
    | _ => exact absurd hh hold

theorem length_texts_step (t : Transcript) (op : Op) :
    t.texts.length ≤ (t.step op).1.texts.length := by
  cases op <;> simp [step, setView]

theorem Consistent.step (ht : t.Consistent) (hop : t.Allows op) : (t.step op).1.Consistent := by
  have hlength := length_texts_step t op
  intro h hh
  rcases has_step_cases hh with hold | ⟨-, ⟨rfl, hbuffer⟩ | ⟨x, rfl, hbuffer⟩⟩
  · rw [bufferOf_step hold]
    exact (ht h hold).trans_le hlength
  · rw [hbuffer]
    simp [Transcript.step]
  · rw [hbuffer]
    exact (ht x (hop x rfl)).trans_le hlength

theorem consistent_initial : initial.Consistent := by
  intro h hh
  obtain rfl : h = 0 := Nat.lt_one_iff.mp hh
  decide

end

/-! ## Sharing -/

/-- Two handles point to the same text. -/
def Shares (t : Transcript) (h h' : Nat) : Prop := t.bufferOf h = t.bufferOf h'

instance (t : Transcript) (h h' : Nat) : Decidable (t.Shares h h') :=
  inferInstanceAs (Decidable (_ = _))

/-- A step made the first handle by cloning the second. -/
def ClonedFrom (past : List Step) (h h' : Nat) : Prop :=
  ∃ e ∈ past, e.op = .clone h' ∧ e.outcome.answer = .ok (.handle h)

/-- Handles that share a text come from one another by cloning. -/
def Connected (past : List Step) (t : Transcript) : Prop :=
  ∀ h h', t.Has h → t.Has h' → t.Shares h h' → Relation.EqvGen (ClonedFrom past) h h'

section

variable {t : Transcript} {op : Op} {ops : List Op} {past : List Step} {h h' : Nat}

theorem Connected.step (hpast : Connected past t) (ht : t.Consistent) (hop : t.Allows op) :
    Connected (past ++ [.of action op t]) (t.step op).1 := by
  have hmono {x y : Nat} (hxy : Relation.EqvGen (ClonedFrom past) x y) :
      Relation.EqvGen (ClonedFrom (past ++ [.of action op t])) x y := by
    refine hxy.mono ?_
    rintro x y ⟨e, he, hclone⟩
    exact ⟨e, List.mem_append_left _ he, hclone⟩
  -- a handle that the step makes against one that was there
  have hnew {x y : Nat} (hx : x = t.buffers.length) (hmakes : (op = .fresh ∧
      (t.step op).1.bufferOf x = t.texts.length) ∨
        ∃ z, op = .clone z ∧ (t.step op).1.bufferOf x = t.bufferOf z)
      (hy : t.Has y) (hshares : (t.step op).1.Shares x y) :
      Relation.EqvGen (ClonedFrom (past ++ [.of action op t])) x y := by
    rw [Shares, bufferOf_step hy] at hshares
    rcases hmakes with ⟨rfl, hbuffer⟩ | ⟨z, rfl, hbuffer⟩
    · exact absurd (hshares.symm.trans hbuffer) (ht y hy).ne
    · have hz : Relation.EqvGen (ClonedFrom past) z y :=
        hpast z y (hop z rfl) hy (hbuffer.symm.trans hshares)
      have hclone : ClonedFrom (past ++ [.of action (.clone z) t]) x z := by
        subst hx
        exact ⟨_, List.mem_append_right _ (List.mem_singleton_self _), rfl, rfl⟩
      exact (Relation.EqvGen.rel x z hclone).trans _ _ _ (hmono hz)
  intro x y hx hy hshares
  rcases has_step_cases hx with holdx | ⟨hx, hmakesx⟩
  · rcases has_step_cases hy with holdy | ⟨hy, hmakesy⟩
    · rw [Shares, bufferOf_step holdx, bufferOf_step holdy] at hshares
      exact hmono (hpast x y holdx holdy hshares)
    · exact (hnew hy hmakesy holdx hshares.symm).symm
  · rcases has_step_cases hy with holdy | ⟨hy, -⟩
    · exact hnew hx hmakesx holdy hshares
    · rw [hx, hy]
      exact .refl _

theorem Connected.run (hpast : Connected past t) (ht : t.Consistent) (hops : OnHandles ops t) :
    Connected (past ++ history action ops t) (final action ops t) := by
  induction ops generalizing past t with
  | nil => rwa [history_nil, List.append_nil]
  | cons op ops ih =>
      rw [onHandles_cons] at hops
      rw [history_cons, final_cons, List.append_cons]
      exact ih (hpast.step ht hops.1) (ht.step hops.1) hops.2

theorem connected_initial : Connected [] initial := by
  intro h h' hh hh' _
  obtain rfl : h = 0 := Nat.lt_one_iff.mp hh
  obtain rfl : h' = 0 := Nat.lt_one_iff.mp hh'
  exact .refl 0

/-- A clone shares the text of its source for good. -/
theorem shares_of_clonedFrom (hops : OnHandles ops t)
    (hclone : ClonedFrom (history action ops t) h h') : (final action ops t).Shares h h' := by
  induction ops generalizing t with
  | nil =>
      obtain ⟨e, he, -⟩ := hclone
      cases he
  | cons op ops ih =>
      rw [onHandles_cons] at hops
      obtain ⟨e, he, hop, hanswer⟩ := hclone
      rw [history_cons, List.mem_cons] at he
      rcases he with rfl | he
      · obtain rfl : op = .clone h' := hop
        obtain rfl : t.buffers.length = h := by
          injection hanswer with hreply
          injection hreply
        have hsource : t.Has h' := hops.1 h' rfl
        have hmade : (t.step (.clone h')).1.Has t.buffers.length := by
          simp [Has, Transcript.step]
        have hbuffer : (t.step (.clone h')).1.bufferOf t.buffers.length = t.bufferOf h' := by
          simp [Transcript.step, bufferOf]
        rw [final_cons, state_action, Shares, bufferOf_final hmade, hbuffer,
          bufferOf_final (hsource.step _), bufferOf_step hsource]
      · exact ih hops.2 ⟨e, he, hop, hanswer⟩

theorem shares_of_eqvGen (hops : OnHandles ops t)
    (hjoined : Relation.EqvGen (ClonedFrom (history action ops t)) h h') :
    (final action ops t).Shares h h' := by
  induction hjoined with
  | rel x y hclone => exact shares_of_clonedFrom hops hclone
  | refl x => rfl
  | symm x y _ ih => exact ih.symm
  | trans x y z _ _ ihxy ihyz => exact ihxy.trans ihyz

end

/-! ## What a step makes of a text -/

def textAt (t : Transcript) (b : Nat) : String := t.texts.getD b ""

/-- What a step writes. -/
def Op.written : Op → String
  | .write _ text => text
  | .writeLine _ text => text ++ "\n"
  | _ => ""

def Op.Takes : Op → Prop
  | .take _ => True
  | _ => False

instance : DecidablePred Op.Takes
  | .take _ => .isTrue trivial
  | .fresh | .clone _ | .write _ _ | .writeLine _ _ | .read _ | .lines _ | .isEmpty _ =>
    .isFalse id

/-- What a step that is on a text leaves of it. -/
def Op.leave (op : Op) (text : String) : String := if op.Takes then "" else text ++ op.written

/-- What was taken in a step. -/
def taken (e : Step) : String :=
  match e.op, e.outcome.answer with
  | .take _, .ok (.text text) => text
  | _, _ => ""

/-- The step is on the text of buffer `b`. -/
def Concerns (b : Nat) (e : Step) : Prop := ∃ h ∈ e.op.handle?, e.before.bufferOf h = b

instance (b : Nat) : DecidablePred (Concerns b) :=
  fun e ↦ inferInstanceAs (Decidable (∃ h ∈ e.op.handle?, e.before.bufferOf h = b))

section

variable {t : Transcript} {op : Op} {ops : List Op} {h h' b : Nat}

theorem textAt_setView (hh : t.bufferOf h < t.texts.length) (text : String) (b : Nat) :
    (t.setView h text).textAt b = if t.bufferOf h = b then text else t.textAt b := by
  rw [textAt, setView, List.getD_eq_getElem?_getD, List.getElem?_set, if_pos hh, textAt,
    List.getD_eq_getElem?_getD]
  split_ifs <;> rfl

theorem textAt_fresh (t : Transcript) (b : Nat) : (t.step .fresh).1.textAt b = t.textAt b := by
  rw [textAt, textAt, step, List.getD_eq_getElem?_getD, List.getD_eq_getElem?_getD]
  rcases Nat.lt_trichotomy b t.texts.length with hlt | rfl | hgt
  · rw [List.getElem?_append_left hlt]
  · rw [List.getElem?_concat_length, List.getElem?_eq_none le_rfl]
    rfl
  · have hlength : (t.texts ++ [""]).length ≤ b := by simpa using Nat.succ_le_of_lt hgt
    rw [List.getElem?_eq_none hlength, List.getElem?_eq_none hgt.le]

theorem concerns_iff (hop : op.handle? = some h) :
    Concerns b (.of action op t) ↔ t.bufferOf h = b := by
  simp [Concerns, hop]

/-- The texts behind a step on a handle are as if what it leaves had been put there. -/
theorem textAt_step_of_handle (ht : t.Consistent) (hop : t.Allows op) (hh : op.handle? = some h)
    (b : Nat) : (t.step op).1.textAt b = (t.setView h (op.leave (t.view h))).textAt b := by
  have hsame : t.textAt b = (t.setView h (t.view h ++ "")).textAt b := by
    rw [String.append_empty, textAt_setView (ht h (hop h hh))]
    split_ifs with hb
    · rw [← hb]
      rfl
    · rfl
  cases op with
  | fresh => cases hh
  | write x text =>
      obtain rfl := Option.some.inj hh
      rfl
  | writeLine x text =>
      obtain rfl := Option.some.inj hh
      rw [step, String.append_assoc]
      rfl
  | take x =>
      obtain rfl := Option.some.inj hh
      rfl
  | _ => exact hsame

theorem textAt_step (ht : t.Consistent) (hop : t.Allows op) (b : Nat) :
    (t.step op).1.textAt b =
      if Concerns b (.of action op t) then op.leave (t.textAt b) else t.textAt b := by
  cases hh : op.handle? with
  | none =>
      obtain rfl : op = .fresh := by
        cases op <;> first | rfl | cases hh
      rw [textAt_fresh]
      exact (if_neg fun ⟨x, hx, _⟩ ↦ by cases hx).symm
  | some h =>
      rw [textAt_step_of_handle ht hop hh, textAt_setView (ht h (hop h hh)),
        if_congr (concerns_iff hh) rfl rfl]
      split_ifs with hb
      · rw [← hb]
        rfl
      · rfl

/-- What a step on a text takes from it and what it leaves make up what was there and what the step
writes. -/
theorem taken_append_leave (hb : Concerns b (.of action op t)) :
    taken (.of action op t) ++ op.leave (t.textAt b) = t.textAt b ++ op.written := by
  by_cases htakes : op.Takes
  · cases op with
    | take x =>
        obtain rfl : t.bufferOf x = b := (concerns_iff rfl).mp hb
        rw [Op.leave, if_pos htakes]
        rfl
    | _ => exact absurd htakes id
  · have hnone : taken (.of action op t) = "" := by
      cases op with
      | take x => exact absurd trivial htakes
      | _ => rfl
    rw [Op.leave, if_neg htakes, hnone, String.empty_append]

end

/-! ## What a run makes of a text -/

def written (es : List Step) : String := String.join (es.map (·.op.written))

def takings (es : List Step) : String := String.join (es.map taken)

/-- What steps on a text leave of it. -/
def leave (es : List Step) (text : String) : String := es.foldl (fun text e ↦ e.op.leave text) text

@[simp] theorem written_nil : written [] = "" := rfl

theorem written_cons (e : Step) (es : List Step) : written (e :: es) = e.op.written ++ written es :=
  String.join_cons

theorem written_concat (es : List Step) (e : Step) :
    written (es ++ [e]) = written es ++ e.op.written := by
  rw [written, List.map_append, String.join_append, ← written, List.map_singleton,
    String.join_cons, String.join_nil, String.append_empty]

theorem takings_cons (e : Step) (es : List Step) : takings (e :: es) = taken e ++ takings es :=
  String.join_cons

theorem leave_concat (es : List Step) (e : Step) (text : String) :
    leave (es ++ [e]) text = e.op.leave (leave es text) := by
  rw [leave, List.foldl_append]
  rfl

/-- Of a text that was empty there is left what was written since it was last taken. -/
theorem leave_empty (es : List Step) :
    leave es "" = written (es.rtakeWhile fun e ↦ ¬ e.op.Takes) := by
  induction es using List.reverseRecOn with
  | nil => rfl
  | append_singleton es e ih =>
      rw [leave_concat, ih, Op.leave]
      split_ifs with htakes
      · rw [List.rtakeWhile_concat_neg _ _ _ (by simpa using htakes), written_nil]
      · rw [List.rtakeWhile_concat_pos _ _ _ (by simpa using htakes), written_concat]

section

variable {t : Transcript} {ops : List Op}

theorem textAt_final (ht : t.Consistent) (hops : OnHandles ops t) (b : Nat) :
    (final action ops t).textAt b =
      leave ((history action ops t).filter (Concerns b)) (t.textAt b) := by
  induction ops generalizing t with
  | nil => rfl
  | cons op ops ih =>
      rw [onHandles_cons] at hops
      rw [final_cons, history_cons, state_action, ih (ht.step hops.1) hops.2,
        textAt_step ht hops.1]
      by_cases hb : Concerns b (.of action op t)
      · rw [if_pos hb, List.filter_cons_of_pos (by simp [hb])]
        rfl
      · rw [if_neg hb, List.filter_cons_of_neg (by simp [hb])]

theorem takings_append_textAt (ht : t.Consistent) (hops : OnHandles ops t) (b : Nat) :
    takings ((history action ops t).filter (Concerns b)) ++ (final action ops t).textAt b =
      t.textAt b ++ written ((history action ops t).filter (Concerns b)) := by
  induction ops generalizing t with
  | nil => exact String.empty_append.trans String.append_empty.symm
  | cons op ops ih =>
      rw [onHandles_cons] at hops
      have hrest := ih (ht.step hops.1) hops.2
      rw [textAt_step ht hops.1] at hrest
      rw [final_cons, history_cons, state_action]
      by_cases hb : Concerns b (.of action op t)
      · rw [if_pos hb] at hrest
        rw [List.filter_cons_of_pos (by simp [hb]), takings_cons, written_cons,
          String.append_assoc, hrest, ← String.append_assoc, taken_append_leave hb,
          String.append_assoc]
        rfl
      · rw [if_neg hb] at hrest
        rw [List.filter_cons_of_neg (by simp [hb]), hrest]

end

/-! ## The steps on the text of a handle -/

/-- The steps on the text that a handle points to in `t`. -/
def through (t : Transcript) (h : Nat) (past : List Step) : List Step :=
  past.filter fun e ↦ ∃ x ∈ e.op.handle?, t.Shares h x

section

variable {t : Transcript} {op : Op} {ops : List Op} {h h' : Nat}

/-- A handle points at the end of a run to the text that a step of it was on. -/
theorem bufferOf_of_mem_history {e : Step} (hops : OnHandles ops t)
    (he : e ∈ history action ops t) (hh : h ∈ e.op.handle?) :
    (final action ops t).bufferOf h = e.before.bufferOf h := by
  induction ops generalizing t with
  | nil => cases he
  | cons op ops ih =>
      have hrun := onHandles_cons.mp hops
      rw [history_cons, List.mem_cons] at he
      rcases he with rfl | he
      · exact bufferOf_final (hrun.1 h hh) (op :: ops)
      · exact ih hrun.2 he

theorem through_final (hops : OnHandles ops t) (h : Nat) :
    (final action ops t).through h (history action ops t) =
      (history action ops t).filter (Concerns ((final action ops t).bufferOf h)) := by
  refine List.filter_congr fun e he ↦ decide_eq_decide.mpr ?_
  refine exists_congr fun x ↦ and_congr_right fun hx ↦ ?_
  rw [Shares, bufferOf_of_mem_history hops he hx, eq_comm]

theorem view_step_of_not_shares (ht : t.Consistent) (hop : t.Allows op) (hh : t.Has h)
    (hother : ∀ x ∈ op.handle?, ¬ t.Shares x h) : (t.step op).1.view h = t.view h := by
  have hnot : ¬ Concerns (t.bufferOf h) (.of action op t) := by
    rintro ⟨x, hx, hshares⟩
    exact hother x hx hshares
  have htext := textAt_step ht hop (t.bufferOf h)
  rw [if_neg hnot] at htext
  rw [view, bufferOf_step hh]
  exact htext

theorem view_step_of_shares (ht : t.Consistent) (hop : t.Allows op) (hh' : t.Has h')
    (hh : op.handle? = some h) (hshares : t.Shares h h') :
    (t.step op).1.view h' = op.leave (t.view h') := by
  have htext := textAt_step ht hop (t.bufferOf h')
  rw [if_pos ((concerns_iff hh).mpr hshares)] at htext
  rw [view, bufferOf_step hh']
  exact htext

/-- Handles share a text exactly if they show the same from now on, whatever is done. -/
theorem shares_iff_forall_view (ht : t.Consistent) (hh : t.Has h) (hh' : t.Has h') :
    t.Shares h h' ↔ ∀ later, OnHandles later t →
      (final action later t).view h = (final action later t).view h' := by
  constructor
  · intro hshares later _
    rw [view, view, bufferOf_final hh, bufferOf_final hh', hshares]
  · intro hall
    by_contra hnot
    have hop : t.Allows (.write h "x") := fun x hx ↦ Option.some.inj hx ▸ hh
    have hnow : t.view h = t.view h' := hall [] (List.forall_mem_nil _)
    have hnext := hall [.write h "x"] (onHandles_cons.mpr ⟨hop, List.forall_mem_nil _⟩)
    have hwritten := view_step_of_shares ht hop hh rfl rfl
    have hother := view_step_of_not_shares ht hop hh' fun x hx ↦ Option.some.inj hx ▸ hnot
    have hsame : t.view h ++ "x" = t.view h :=
      hwritten.symm.trans (hnext.trans (hother.trans hnow.symm))
    have hlength := congrArg String.length hsame
    rw [String.length_append] at hlength
    exact absurd hlength (by simp)

end

/-- After any run on existing handles, two handles share a text exactly if they come from one
another by cloning, and exactly if they will show the same for good. A handle shows what was written
through the handles that share its text since one of them was last taken from. That is what taking
returns, and it leaves all of them empty; reading, breaking into lines and asking for emptiness
change nothing; and no step on another text is seen. What was taken from a text and what is left of
it make up all that was written, in order. -/
theorem clones_share_one_text {ops : List Op} (hops : OnHandles ops initial) :
    let t := final action ops initial
    let past := history action ops initial
    (∀ h h', t.Has h → t.Has h' →
      (t.Shares h h' ↔ Relation.EqvGen (ClonedFrom past) h h') ∧
      (t.Shares h h' ↔ ∀ later, OnHandles later t →
        (final action later t).view h = (final action later t).view h')) ∧
    (∀ h, t.Has h →
      t.view h = written ((t.through h past).rtakeWhile fun e ↦ ¬ e.op.Takes) ∧
      takings (t.through h past) ++ t.view h = written (t.through h past)) ∧
    (∀ h, t.Has h →
      (t.step (.take h)).2 = .text (t.view h) ∧
      (∀ h', t.Has h' → t.Shares h h' → (t.step (.take h)).1.view h' = "") ∧
      t.step (.read h) = (t, .text (t.view h)) ∧
      t.step (.lines h) = (t, .lines (lines (t.view h))) ∧
      t.step (.isEmpty h) = (t, .flag (t.view h).isEmpty)) ∧
    ∀ op, t.Allows op → ∀ h', t.Has h' → (∀ h ∈ op.handle?, ¬ t.Shares h h') →
      (t.step op).1.view h' = t.view h' := by
  intro t past
  have hempty (b : Nat) : initial.textAt b = "" := by
    cases b <;> rfl
  have ht : t.Consistent := final_of_preserved_on Consistent consistent_initial hops
    fun op u hu hop ↦ hu.step hop
  refine ⟨fun h h' hh hh' ↦ ⟨⟨?_, shares_of_eqvGen hops⟩, shares_iff_forall_view ht hh hh'⟩,
    fun h hh ↦ ⟨?_, ?_⟩, fun h hh ↦ ⟨rfl, fun h' hh' hshares ↦ ?_, rfl, rfl, rfl⟩,
    fun op hop h' hh' ↦ view_step_of_not_shares ht hop hh'⟩
  · exact connected_initial.run consistent_initial hops h h' hh hh'
  · have htext := textAt_final consistent_initial hops (t.bufferOf h)
    rw [hempty, leave_empty] at htext
    rw [through_final hops]
    exact htext
  · have hledger := takings_append_textAt consistent_initial hops (t.bufferOf h)
    rw [hempty, String.empty_append] at hledger
    rw [through_final hops]
    exact hledger
  · have hop : t.Allows (.take h) := fun x hx ↦ Option.some.inj hx ▸ hh
    exact view_step_of_shares ht hop hh' rfl hshares

/-- A chain of clones, a text of its own beside it, and a take in between. -/
theorem texts_of_two_clones :
    let ops : List Op := [.write 0 "a", .clone 0, .fresh, .writeLine 1 "b", .clone 2, .write 3 "x",
      .take 0, .clone 1, .write 4 "c"]
    let t := final action ops initial
    let past := history action ops initial
    OnHandles ops initial ∧
    Relation.EqvGen (ClonedFrom past) 0 4 ∧ ¬ Relation.EqvGen (ClonedFrom past) 0 3 ∧
    t.view 0 = "c" ∧ t.view 2 = "x" ∧ takings (t.through 1 past) ++ t.view 1 = "ab\nc" := by
  intro ops t past
  have hops : OnHandles ops initial := by decide +kernel +revert
  have hshares : t.Shares 0 4 ∧ ¬ t.Shares 0 3 := by decide +kernel +revert
  have hleft : written ((t.through 0 past).rtakeWhile fun e ↦ ¬ e.op.Takes) = "c" ∧
      written ((t.through 2 past).rtakeWhile fun e ↦ ¬ e.op.Takes) = "x" := by
    decide +kernel +revert
  have hall : written (t.through 1 past) = "ab\nc" := by decide +kernel +revert
  have hhas : ∀ h < 5, t.Has h := by decide +kernel +revert
  have h0 := hhas 0 (by decide)
  obtain ⟨hsharing, htexts, -⟩ := clones_share_one_text hops
  refine ⟨hops, ?_, ?_, ?_, ?_, ?_⟩
  · exact (hsharing 0 4 h0 (hhas 4 (by decide))).1.mp hshares.1
  · exact mt (hsharing 0 3 h0 (hhas 3 (by decide))).1.mpr hshares.2
  · exact (htexts 0 h0).1.trans hleft.1
  · exact (htexts 2 (hhas 2 (by decide))).1.trans hleft.2
  · exact (htexts 1 (hhas 1 (by decide))).2.trans hall

end SecureZone.Transcript
