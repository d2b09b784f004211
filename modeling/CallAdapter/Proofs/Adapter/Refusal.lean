import CallAdapter.Proofs.Adapter.Signature
import CallAdapter.Proofs.Conversion.Failure

/-!
# How lining up fails

A shape that does not fit a member is a mismatch, and a captured value that does not convert is one
too. What is left to fail are comparisons of types and operations on the captured value, and these
raise exceptions: lining a shape up with a member raises no fault (`failsOnly_planSignature`).
-/

namespace CallAdapter

open Program

namespace FailsOnly

variable {α β : Type} {bad : Failure → Prop}

/-- A mismatch is no failure. -/
theorem matchBind {x : MatchM α} {f : α → MatchM β} (hx : FailsOnly bad x.run)
    (hf : ∀ a, FailsOnly bad (f a).run) : FailsOnly bad (x >>= f).run := by
  refine .bind hx fun made => ?_
  cases made with
  | error m => exact .pure _
  | ok a => exact hf a

theorem lift {x : PlanM α} (hx : FailsOnly bad x) : FailsOnly bad (liftM x : MatchM α).run :=
  .bind hx fun _ => .pure _

end FailsOnly

/-- An exception, and no fault. -/
def Failure.IsException : Failure → Prop
  | .fault _ => False
  | .exception _ _ => True

theorem isException_of_eq_typeError (e : Failure) (h : e = .typeError) : e.IsException :=
  h ▸ trivial

section Refusal

variable {Γ : Program}

theorem failsOnly_planSlot (i : Nat) (g d : Ty) :
    FailsOnly (· = .typeError) (Γ.planSlot i g d).run := by
  rw [planSlot_eq]
  refine .matchBind (.lift (failsOnly_plan _ _)) fun plan => ?_
  split
  · exact .pure _
  · exact .pure _

theorem failsOnly_planSlots (i : Nat) (gs ds : List Ty) :
    FailsOnly (· = .typeError) (Γ.planSlots i gs ds).run := by
  induction gs generalizing i ds with
  | nil => exact .pure _
  | cons g gs ih =>
    cases ds with
    | nil => exact .pure _
    | cons d ds =>
      exact .matchBind (failsOnly_planSlot i g d) fun _ => .matchBind (ih _ _) fun _ => .pure _

theorem failsOnly_planLayer (S S' : Shape) :
    FailsOnly (· = .typeError) (Γ.planLayer S S') := by
  unfold planLayer
  split
  · exact .pure _
  · refine .bind (failsOnly_planSlots _ _ _) fun made => ?_
    cases made with
    | error m => exact .pure _
    | ok slots => exact .bind (failsOnly_planResult _ _) fun _ => .pure _

theorem failsOnly_lineUp (shape : Shape) (t : Target) (remaining : List Ty)
    (captured : Option Capture) :
    FailsOnly (· = .typeError) (Γ.lineUp shape t remaining captured).run := by
  unfold lineUp
  refine .matchBind (failsOnly_planSlots _ _ _) fun slots => ?_
  refine .matchBind (.lift (failsOnly_planResult _ _)) fun result => ?_
  split
  · exact .pure _
  · exact .pure _

/-- A captured value whose cast fails is a mismatch. -/
theorem failsOnly_capture (h : Heap) (t : Target) (declared : Ty) (bound : Value) :
    FailsOnly Failure.IsException (Γ.capture h t declared bound).run := by
  have hplan : ∀ {s d : Ty}, FailsOnly Failure.IsException (liftM (Γ.plan s d) : MatchM Plan).run :=
    fun {s d} => (FailsOnly.lift (failsOnly_plan s d)).mono isException_of_eq_typeError
  unfold capture
  split
  · exact .matchBind hplan fun _ => .pure _
  refine .matchBind hplan fun plan => ?_
  split
  · have hcast := failsCasting_applyPlan (Γ := Γ) h plan bound
    split
    · exact .matchBind hplan fun _ => .pure _
    · rename_i f hf
      rw [hf] at hcast
      obtain ⟨valueType, targetType, hkind⟩ := hcast
      rw [hkind]
      exact .pure _
    · rename_i e hno he
      rw [he] at hcast
      refine Keeps.throw ?_
      cases e with
      | fault f => exact absurd rfl (hno f)
      | exception kind text => trivial
  · exact .pure _

/-- Lining a shape up with a member raises no fault. -/
theorem failsOnly_planSignature (h : Heap) (shape : Shape) (t : Target) (bound : Value) :
    FailsOnly Failure.IsException (Γ.planSignature h shape t bound).run := by
  have hlineUp : ∀ remaining captured,
      FailsOnly Failure.IsException (Γ.lineUp shape t remaining captured).run :=
    fun _ _ => (failsOnly_lineUp shape t _ _).mono isException_of_eq_typeError
  unfold planSignature
  split
  · split
    · exact hlineUp _ _
    · exact .pure _
  split
  · exact .pure _
  split
  · exact .matchBind (failsOnly_capture h t _ bound) fun _ => hlineUp _ _
  · exact .pure _

end Refusal

end CallAdapter
