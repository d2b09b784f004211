import CallAdapter.Proofs.Conversion.Derivation

/-!
# How planning and converting fail

Planning a conversion fails, if at all, because types cannot be compared (`failsOnly_planNormal`).
Converting a value fails with a failed cast, or with an exception of the operation that was carried
out (`failsCasting_applyPlan`).
-/

namespace CallAdapter

open Program

/-- Whatever the planner, the computation fails in one of the given ways, if at all. -/
def FailsOnly {α : Type} (bad : Failure → Prop) (x : PlanM α) : Prop :=
  Keeps (fun _ => True) x (OutcomeIs (fun _ => True) bad)

namespace FailsOnly

variable {α β : Type} {bad bad' : Failure → Prop}

theorem mono {x : PlanM α} (hx : FailsOnly bad x) (hbad : ∀ e, bad e → bad' e) :
    FailsOnly bad' x :=
  Keeps.mono hx fun r hr => by
    cases r with
    | ok a => trivial
    | error e => exact hbad e hr

theorem pure (a : α) : FailsOnly bad (Pure.pure a : PlanM α) := Keeps.pure trivial

theorem bind {x : PlanM α} {f : α → PlanM β} (hx : FailsOnly bad x)
    (hf : ∀ a, FailsOnly bad (f a)) : FailsOnly bad (x >>= f) :=
  Keeps.bind hx (fun _ he => he) fun a _ => hf a

theorem mapM {as : List α} {f : α → PlanM β} (hf : ∀ a, FailsOnly bad (f a)) :
    FailsOnly bad (as.mapM f) := by
  induction as with
  | nil => exact .pure []
  | cons a as ih =>
    rw [List.mapM_cons]
    exact .bind (hf a) fun _ => .bind ih fun _ => .pure _

end FailsOnly

section Planning

variable {Γ : Program} {bad : Failure → Prop}

theorem failsOnly_remembered {memo : Memo} {make : Ty → Ty → PlanM Plan}
    (hmake : ∀ s d, FailsOnly bad (make s d)) (s d : Ty) :
    FailsOnly bad (remembered memo make s d) := by
  unfold remembered
  refine Keeps.get_bind fun p _ => ?_
  split
  · split
    · exact FailsOnly.pure _ p trivial
    · refine FailsOnly.bind (hmake s d) (fun plan => ?_) p trivial
      exact Keeps.modify_bind (fun _ h => h) (Keeps.pure trivial)
  · exact hmake s d p trivial

theorem failsOnly_intoUnion {sub : Ty → PlanM Plan} (hsub : ∀ m, FailsOnly bad (sub m))
    (ms : List Ty) (found : Option Operation) : FailsOnly bad (intoUnion sub ms found) := by
  induction ms generalizing found with
  | nil => cases found <;> exact .pure _
  | cons m ms ih =>
    unfold intoUnion
    refine .bind (hsub m) fun p => ?_
    split
    · exact .pure _
    · exact .pure _
    · exact ih _
    · exact ih _

theorem failsOnly_verdict {sub : Ty → Ty → PlanM Plan}
    (hsub : ∀ s d, FailsOnly (· = .typeError) (sub s d)) (s d : Ty) :
    FailsOnly (· = .typeError) (Γ.verdict sub s d) := by
  unfold verdict
  split
  · exact .pure _
  · rename_i e hdirect
    have hplans : Γ.Plans NoReuse s d (.error e) := .direct hdirect
    exact Keeps.throw (eq_typeError_of_plans hplans e rfl)
  · split
    · exact .bind (.mapM fun m => .bind (hsub m d) fun _ => .pure _) fun _ => .pure _
    · exact failsOnly_intoUnion (hsub s) _ _

/-- Planning fails, if at all, because types cannot be compared. -/
theorem failsOnly_planNormal (depth : Nat) (s d : Ty) :
    FailsOnly (· = .typeError) (Γ.planNormal depth s d) := by
  induction depth generalizing s d with
  | zero => exact .pure _
  | succ depth ih =>
    unfold planNormal
    refine .bind (failsOnly_verdict (fun s d => ?_) s d) fun _ => .pure _
    exact failsOnly_remembered ih _ _

theorem failsOnly_plan (s d : Ty) : FailsOnly (· = .typeError) (Γ.plan s d) :=
  failsOnly_remembered (failsOnly_planNormal planDepth) _ _

theorem failsOnly_planResult (s d : Ty) : FailsOnly (· = .typeError) (Γ.planResult s d) := by
  refine failsOnly_remembered (fun s d => ?_) _ _
  unfold resultPlan
  split
  · exact .pure _
  · split
    · exact .pure _
    · exact failsOnly_plan s d

end Planning

/-! ## Conversions -/

/-- A failed cast, or an exception. -/
def Failure.IsCast : Failure → Prop
  | .fault f => ∃ valueType targetType, f.kind = .cast valueType targetType
  | .exception _ _ => True

/-- What fails, if at all, with a failed cast or an exception. -/
def FailsCasting {α : Type} : Except Failure α → Prop := OutcomeIs (fun _ => True) Failure.IsCast

section Conversions

variable {Γ : Program}

theorem FailsCasting.ok {α : Type} (a : α) : FailsCasting (.ok a) := trivial

theorem FailsCasting.exception {α : Type} (kind : ExceptionKind) (text : Option String) :
    FailsCasting (.error (.exception kind text) : Except Failure α) := trivial

theorem FailsCasting.map {α β : Type} {f : α → β} {r : Except Failure α} (h : FailsCasting r) :
    FailsCasting (r.map f) := by
  cases r with
  | ok a => exact .ok _
  | error e => exact h

theorem failsCasting_castFailureWith {v : Value} {d : Ty} {message : String} :
    FailsCasting (.error (Γ.castFailureWith v d message) : Except Failure Value) :=
  ⟨_, _, rfl⟩

theorem failsCasting_castFailureShowing {h : Heap} {v : Value} {d : Ty} {wrong : String} :
    FailsCasting (.error (Γ.castFailureShowing h v d wrong) : Except Failure Value) := by
  unfold castFailureShowing
  split
  · exact failsCasting_castFailureWith
  · exact .exception _ _

theorem failsCasting_castFailure {v : Value} {d : Ty} :
    FailsCasting (.error (Γ.castFailure v d) : Except Failure Value) :=
  ⟨_, _, rfl⟩

theorem failsCasting_binaryOf (q : Rat) : FailsCasting (NumericRule.binaryOf q) := by
  unfold NumericRule.binaryOf
  dsimp only
  split
  · exact .ok _
  · exact .exception _ _

theorem failsCasting_applyScalar (rule : NumericRule) (s : Scalar) :
    FailsCasting (rule.applyScalar s) := by
  cases rule with
  | toInt =>
    refine .map ?_
    unfold NumericRule.intOf
    repeat' split
    all_goals first | exact .ok _ | exact .exception _ _
  | toFloat =>
    refine .map ?_
    unfold NumericRule.floatOf
    repeat' split
    all_goals first | exact .ok _ | exact .exception _ _ | exact failsCasting_binaryOf _
  | toDecimal =>
    refine .map ?_
    unfold NumericRule.decimalOf
    repeat' split
    all_goals first | exact .ok _ | exact .exception _ _
  | toFraction =>
    refine .map ?_
    unfold NumericRule.fractionOf
    repeat' split
    all_goals first | exact .ok _ | exact .exception _ _
  | quotient =>
    refine .map ?_
    unfold NumericRule.quotientOf
    repeat' split
    all_goals first | exact .ok _ | exact .exception _ _

theorem failsCasting_convertNumber (h : Heap) (rule : NumericRule) (v : Value) :
    FailsCasting (Γ.convertNumber h rule v) := by
  unfold convertNumber
  split
  · exact .map (failsCasting_applyScalar rule _)
  · unfold NumericRule.refusal
    repeat' split
    all_goals exact .exception _ _

theorem failsCasting_enumMember? (h : Heap) (c : ClassRef) (v : Value) :
    FailsCasting (Γ.enumMember? h c v) := by
  have hsearch : ∀ v, FailsCasting (enumMember?.search Γ h c v) := by
    intro v
    unfold enumMember?.search
    extract_lets members signals
    split
    · exact .exception _ _
    · exact .ok _
  unfold enumMember?
  split
  · split
    · exact .ok _
    · exact hsearch _
  · exact hsearch _

theorem failsCasting_runOperation {h : Heap} {unboxing : Ty → Value → Except Failure Value}
    (hunboxing : ∀ d v, FailsCasting (unboxing d v)) (op : Operation) (v : Value) :
    FailsCasting (Γ.runOperation h unboxing op v) := by
  induction op with
  | keep | constant => exact .ok _
  | numeric rule d =>
    have hnumber := failsCasting_convertNumber (Γ := Γ) h rule v
    unfold runOperation
    split
    · exact .ok _
    · rename_i e he
      split
      · exact failsCasting_castFailureShowing
      · exact he ▸ hnumber
  | lookup c =>
    unfold runOperation
    split
    · exact .ok _
    · exact failsCasting_castFailureShowing
    · rename_i e he
      have hfound := failsCasting_enumMember? (Γ := Γ) h c v
      rw [he] at hfound
      exact hfound
  | lookupNone => exact failsCasting_castFailureShowing
  | refuseNone => exact failsCasting_castFailureWith
  | cast d =>
    unfold runOperation
    split
    · exact .ok _
    · exact failsCasting_castFailure
  | unbox d => exact hunboxing d v
  | test member hit miss ihhit ihmiss =>
    unfold runOperation
    dsimp only
    split
    · split
      · exact ihhit
      · exact ihmiss
    · split
      · exact ihhit
      · exact ihmiss
  | refuse => exact failsCasting_castFailure

theorem failsCasting_unboxed (h : Heap) (d : Ty) (v : Value) : FailsCasting (Γ.unboxed h d v) := by
  unfold unboxed
  dsimp only
  split
  · exact failsCasting_castFailure
  · split
    · rename_i e he
      have hplan := (failsOnly_planNormal (Γ := Γ) planDepth (.cls (Γ.classOf v)) d
        ⟨false, [], []⟩ trivial).2
      obtain rfl : e = .typeError := by
        change OutcomeIs _ _ (Γ.freshPlan (.cls (Γ.classOf v)) d) at hplan
        rw [he] at hplan
        exact hplan
      exact .exception _ _
    · split
      · split
        · exact failsCasting_runOperation (fun _ _ => failsCasting_castFailure) _ _
        · exact .ok _
      · exact failsCasting_castFailure

/-- A conversion fails with a failed cast or another exception. -/
theorem failsCasting_applyPlan (h : Heap) (p : Plan) (v : Value) :
    FailsCasting (Γ.applyPlan h p v) := by
  unfold applyPlan
  split
  · exact .ok _
  · split
    · exact failsCasting_runOperation (failsCasting_unboxed h) _ _
    · exact .ok _

end Conversions

end CallAdapter
