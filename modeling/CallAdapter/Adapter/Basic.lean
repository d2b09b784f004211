import CallAdapter.Adapter.Slot

/-!
# Adapters

An `Adapter` makes a member, another adapter, or any callable value answer calls of a shape. It is
data: what it does when it is called follows from its plans and is defined in
`CallAdapter.Adapter.Invocation`. Late-typed callers check their arguments against the declared
types of one member when they are called: `Invoker` for any member, `InstanceCreator` for
constructors.
-/

namespace CallAdapter

/-- The conversions between the shape of an adapter and the shape of what it adapts. -/
structure Layer where
  shape : Shape
  slots : List Slot
  result : Plan

inductive Adapter
  | member (plan : SignaturePlan)
  /-- Adapts another adapter; `source` is the reference to it. -/
  | overAdapter (layer : Layer) (source : Value) (inner : Adapter)
  /-- Adapts a callable value. -/
  | overCallable (layer : Layer) (source : Value)

namespace Adapter

def shape : Adapter → Shape
  | member p => p.shape
  | overAdapter l _ _ | overCallable l _ => l.shape

/-- The member that the adapter invokes directly. -/
def target? : Adapter → Option Target
  | member p => some p.target
  | _ => none

/-- The value captured at build time. -/
def bound : Adapter → Value
  | member p => p.bound
  | _ => .unbound

def source : Adapter → Value
  | member _ => .none
  | overAdapter _ v _ | overCallable _ v => v

def arity (a : Adapter) : Nat := a.shape.arity

end Adapter

/-- How a late-typed caller takes an argument. -/
inductive LateArgument
  /-- A cell is handed over; any other value is converted and put into a fresh cell. -/
  | cell (plan : Plan)
  | value (plan : Plan)

/-- A member with a conversion for each argument of unknown type. -/
structure LateCall where
  target : Target
  arguments : List LateArgument

structure Invoker where
  call : LateCall
  /-- The conversion of the receiver, for members that take one. -/
  receiver : Option Plan

structure InstanceCreator where
  call : LateCall

def LateCall.arity (c : LateCall) : Nat := c.arguments.length

/-- The declared types that a late-typed caller checks: parameters and the assigned value. -/
def Target.argumentTypes (t : Target) : List Ty :=
  t.params.map (·.type) ++ (if t.kind.isSetter then [t.assigned.getD .null] else [])

/-- A member that has to be stated; `role` says what it is wanted as. -/
def Target.stated (role : String) : Option Target → Except Failure Target
  | some t => .ok t
  | none => .error (.fault (.argumentNull "member" (role ++ " is None")))

namespace Program

variable (Γ : Program)

/-- The adapter that lets a member answer calls of a shape, if they fit. A member with open type
variables fits no shape. -/
def adapterFor (h : Heap) (shape : Option Shape) (t : Option Target) (bound : Value) :
    PlanM (Option Adapter) := do
  match shape with
  | none => throw (.fault (.argumentNull "shape" "target shape is None"))
  | some shape =>
    match Target.stated "member" t with
    | .error e => throw e
    | .ok t =>
      if t.isGeneric then pure none
      else
        match ← (Γ.planSignature h shape t bound).run with
        | .ok plan => pure (some (.member plan))
        | .error _ => pure none

/-- Plans the layer from a shape to the shape of what is adapted, if they fit. -/
def planLayer (shape inner : Shape) : PlanM (Option Layer) := do
  if inner.arity ≠ shape.arity then pure none
  else
    match ← (Γ.planSlots 0 shape.params inner.params).run with
    | .error _ => pure none
    | .ok slots =>
      let result ← Γ.planResult inner.returns shape.returns
      pure (if result.isPossible then some ⟨shape, slots, result⟩ else none)

def lateArgument (declared : Ty) : PlanM LateArgument := do
  if declared.isCell then pure (.cell (← Γ.planByRef .any declared))
  else pure (.value (← Γ.plan .any declared))

def lateCall (t : Target) : PlanM LateCall := do
  pure ⟨t, ← t.argumentTypes.mapM Γ.lateArgument⟩

def invoker (t : Target) : PlanM Invoker := do
  let call ← Γ.lateCall t
  let receiver ← if t.takesReceiver then some <$> Γ.plan .any t.receiverType else pure none
  pure ⟨call, receiver⟩

/-- A constructor that is called with arguments of unknown type. -/
def instanceCreator (t : Target) : PlanM InstanceCreator := do
  if t.kind = .constructor then pure ⟨← Γ.lateCall t⟩
  else throw (.exception .valueError (some (t.describe ++ " is not a constructor")))

end Program

end CallAdapter
