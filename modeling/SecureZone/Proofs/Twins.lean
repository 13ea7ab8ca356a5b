import Mathlib.Data.List.Basic
import SecureZone.Proofs.Comparison
import SecureZone.Proofs.Moves

/-!
# Twin interceptors

Two interceptors are twins when their handshakes are in the same state and the comparison does not
mind how the handshakes go on from there. Twins that latch the same access complete and drop it
alike, and if their memories serve it alike, the whole access is alike.
-/

namespace SecureZone.Interceptor

open SecureZone.Action Comparison

variable {σ τ : Type}

structure Twins (c : Comparison (Interceptor σ) (Interceptor τ)) : Prop where
  reports (events : List Event) : c.Reports events events
  handshake_eq {z : Interceptor σ} {z' : Interceptor τ} (hz : c.States z z') :
    z.handshake = z'.handshake
  moved {z : Interceptor σ} {z' : Interceptor τ} (hz : c.States z z') (handshake : Handshake) :
    c.States { z with handshake := handshake } { z' with handshake := handshake }

namespace Twins

variable {c : Comparison (Interceptor σ) (Interceptor τ)} (twins : Twins c) {request : Request}
  {z : Interceptor σ} {z' : Interceptor τ} {p : Prop}

include twins

theorem isIdle_iff (hz : c.States z z') : z.IsIdle ↔ z'.IsIdle := by
  rw [IsIdle, IsIdle, twins.handshake_eq hz]

theorem issue (hz : c.States z z')
    (hlatch : Size.word.Aligned request.address → z.IsIdle →
      Pending.of z.mode z.region request = Pending.of z'.mode z'.region request) :
    c.Alike (fun f f' ↦ f = f' ∧ f.direction = request.direction) (issue request) (issue request)
      z z' := by
  by_cases ha : Size.word.Aligned request.address
  · by_cases hidle : z.IsIdle
    · have hissue := issue_of_isIdle ha ((twins.isIdle_iff hz).mp hidle)
      rw [← hlatch ha hidle] at hissue
      refine .of_ok (issue_of_isIdle ha hidle) hissue ⟨rfl, ?_⟩ (twins.moved hz _) (twins.reports _)
      rw [Pending.forwarded_of, Request.masked_direction]
    · have hbusy := mt (twins.isIdle_iff hz).mpr hidle
      exact .of_error (issue_of_not_isIdle ha hidle) (issue_of_not_isIdle ha hbusy) hz
        (twins.reports _)
  · exact .of_error (issue_of_not_aligned ha z) (issue_of_not_aligned ha z') hz (twins.reports _)

theorem complete {data data' : Word} (hz : c.States z z') (hdata : EqUnless p data data') :
    c.Alike (EqUnless p) (complete data) (complete data') z z' := by
  by_cases hidle : z.IsIdle
  · exact .of_error (complete_of_isIdle hidle data)
      (complete_of_isIdle ((twins.isIdle_iff hz).mp hidle) data') hz (twins.reports _)
  · have hcomplete := complete_of_not_isIdle (mt (twins.isIdle_iff hz).mpr hidle) data'
    rw [← twins.handshake_eq hz] at hcomplete
    exact .of_ok (complete_of_not_isIdle hidle data) hcomplete (hdata.map _) (twins.moved hz _)
      c.reports_nil

theorem abort {ε : Type} (hz : c.States z z') :
    c.Alike Eq (.perform abort : Action (Interceptor σ) ε Unit) (.perform abort) z z' := by
  by_cases hidle : z.IsIdle
  · have hleft := abort_of_isIdle hidle
    have hright := abort_of_isIdle ((twins.isIdle_iff hz).mp hidle)
    refine .perform ?_ ?_
    · rw [hleft, hright]
      exact hz
    · rw [hleft, hright]
      exact c.reports_nil
  · have hleft := abort_of_not_isIdle hidle
    have hright := abort_of_not_isIdle (mt (twins.isIdle_iff hz).mpr hidle)
    refine .perform ?_ ?_
    · rw [hleft, hright]
      exact twins.moved hz _
    · rw [hleft, hright]
      exact twins.reports _

variable [Bus σ] [Bus τ]

/-- Whatever excuses the words that the memories serve excuses the words of the access. -/
theorem transact (hz : c.States z z')
    (hlatch : Size.word.Aligned request.address → z.IsIdle →
      Pending.of z.mode z.region request = Pending.of z'.mode z'.region request)
    (hserve : ∀ f : Request, f.direction = request.direction → ∀ u v, c.States u v →
      c.Alike (EqUnless p) (onMemory (serve f)) (onMemory (serve f)) u v) :
    c.Alike (EqUnless p) (transact request) (transact request) z z' := by
  refine (twins.issue hz hlatch).bind ?_
  rintro f _ ⟨rfl, hf⟩ z₁ z₁' h₁
  refine (hserve f hf z₁ z₁' h₁).attempt.bind ?_
  rintro _ _ (⟨hdata⟩ | fault) z₂ z₂' h₂
  · exact twins.complete h₂ hdata
  · refine (Alike.report h₂ (twins.reports _)).bind fun _ _ _ z₃ z₃' h₃ ↦ ?_
    exact (twins.abort h₃).bind fun _ _ _ z₄ z₄' h₄ ↦ .fail h₄ _

end Twins

/-! ## Accesses of a core -/

section

variable [Bus σ] [Bus τ] {c : Comparison (Interceptor σ) (Interceptor τ)} {p : Prop}
  {z : Interceptor σ} {z' : Interceptor τ}

/-- The access that the operation becomes, if it becomes one, is alike on both sides. -/
def AlikeAccess (c : Comparison (Interceptor σ) (Interceptor τ)) (p : Prop) (op : Bus.Op)
    (z : Interceptor σ) (z' : Interceptor τ) : Prop :=
  ∀ request, access? op = some request →
    c.Alike (EqUnless p) (transact request) (transact request) z z'

theorem alike_load {size : Size} {a : Word} (hz : c.States z z')
    (h : AlikeAccess c p (.load size a) z z') :
    c.Alike (EqUnless p) (load size a) (load size a) z z' := by
  rw [load, load]
  by_cases ha : size.Aligned a
  · rw [if_neg (not_not_intro ha), if_neg (not_not_intro ha)]
    exact ((h _ (if_pos ha)).mapError _).map fun _ _ hw ↦ hw.map _
  · rw [if_pos ha, if_pos ha]
    exact .fail hz _

theorem alike_storeLanes {a data : Word} {strobe : Strobe} (hz : c.States z z')
    (h : AlikeAccess c p (.storeLanes a data strobe) z z') :
    c.Alike Eq (storeLanes a data strobe) (storeLanes a data strobe) z z' := by
  rw [storeLanes, storeLanes]
  by_cases ha : Size.word.Aligned a
  · rw [if_neg (not_not_intro ha), if_neg (not_not_intro ha)]
    exact ((h _ (if_pos ha)).mapError _).map fun _ _ _ ↦ rfl
  · rw [if_pos ha, if_pos ha]
    exact .fail hz _

theorem alike_store {size : Size} {a data : Word} (hz : c.States z z')
    (h : AlikeAccess c p (.store size a data) z z') :
    c.Alike Eq (store size a data) (store size a data) z z' := by
  rw [store, store]
  by_cases ha : size.Aligned a
  · rw [if_neg (not_not_intro ha), if_neg (not_not_intro ha)]
    refine alike_storeLanes (p := p) hz fun request hrequest ↦ h request ?_
    rw [← hrequest, access?, access?, if_pos ha, if_pos a.container_aligned]
  · rw [if_pos ha, if_pos ha]
    exact .fail hz _

/-- A warm reset is not an access and has to be looked at by itself. -/
theorem alike_bus_step {op : Bus.Op} (hz : c.States z z') (h : AlikeAccess c p op z z')
    (hreset : c.Alike Eq (.perform Bus.warmReset : Action (Interceptor σ) Fault Unit)
      (.perform Bus.warmReset) z z') :
    c.Alike (EqUnless p) (Bus.step op) (Bus.step op) z z' := by
  cases op with
  | load size a => exact (alike_load hz h).map fun _ _ hw ↦ hw.map _
  | store size a data => exact (alike_store hz h).map fun _ _ _ ↦ .inr rfl
  | storeLanes a data strobe => exact (alike_storeLanes hz h).map fun _ _ _ ↦ .inr rfl
  | warmReset => exact hreset.map fun _ _ _ ↦ .inr rfl

end

end SecureZone.Interceptor
