import CallAdapter.World

/-!
# Invocation

What adapters do when they are called. An adapter checks the number of arguments, produces every
input of the member from its slot, invokes the member, and converts the result. When no input
needs work the arguments go to the member as they are; `SignaturePlan.runGeneral` is the same call
written through the slots.

How values are called and attributes are accessed comes from a `Runtime`, so that nothing here
depends on how member bodies run.
-/

namespace CallAdapter

namespace Program

variable (Γ : Program)

/-- The content of a reference cell. -/
def cellContent? (h : Heap) : Value → Option Value
  | .object c addr => if Γ.derives c (.builtin .cell) then h.attr? addr "value" else none
  | _ => none

def isCellValue (v : Value) : Bool := Γ.derives (Γ.classOf v) (.builtin .cell)

/-- Applies a plan to a value in the current heap. -/
def converting (p : Plan) (v : Value) : Eval Value := do
  Eval.lift (Γ.applyPlan (← Eval.heap) p v)

/-- The content of a value that a slot expects to be a cell. -/
def contentOf (v : Value) : Eval Value := do
  match Γ.cellContent? (← Eval.heap) v with
  | some w => pure w
  | none => throw .attributeError

def notACell (v : Value) : Failure :=
  let given := Γ.className v
  .fault (.castWith given .cell ("expected a Ref cell, got " ++ given.name))

/-- Produces the input of a slot from the value at its source. -/
def marshal (s : Slot) (v : Value) : Eval Value := do
  match s.mode with
  | .value => Γ.converting s.plan v
  | .temporary => Eval.newCell (← Γ.converting s.plan v)
  | .passThrough => if Γ.isCellValue v then pure v else throw (Γ.notACell v)
  | .copyFromCell =>
    if Γ.isCellValue v then Eval.newCell (← Γ.converting s.plan (← Γ.contentOf v))
    else throw (Γ.notACell v)
  | .dereference =>
    if Γ.isCellValue v then Γ.converting s.plan (← Γ.contentOf v) else throw (Γ.notACell v)

/-- Produces all inputs in order; the first that fails ends the call. -/
def marshalAll (slots : List Slot) (bound : Value) (args : List Value) : Eval (List Value) :=
  slots.mapM fun s => Γ.marshal s <|
    match s.source with
    | .bound => bound
    | .argument i => args[i]?.getD .none

/-- The elements that a value gives when it is iterated over. -/
def elements? (h : Heap) : Value → Option (List Value)
  | .tuple vs | .set _ vs => some vs
  | .dict kvs => some (kvs.map (·.1))
  | .scalar (.str s) => some (s.toList.map fun c => .str (String.ofList [c]))
  | .scalar (.bytes bs) => some (bs.map fun b => .int b.toNat)
  | .object _ addr =>
    match h.payloadAt addr with
    | .items vs => some vs
    | .value (.tuple vs) | .value (.set _ vs) => some vs
    | .value (.dict kvs) => some (kvs.map (·.1))
    | .value (.scalar (.str s)) => some (s.toList.map fun c => .str (String.ofList [c]))
    | _ => none
  | .type (.cls (.declared c)) =>
    match Γ.info? c with
    | some i => if i.members.isEmpty then none else some (i.members.map fun m => .member c m.1)
    | none => none
  | _ => none

/-- Arguments of a call by position and by name. -/
structure CallArguments where
  positional : List Value := []
  keywords : List (String × Value) := []

/-- Distributes inputs over a call: the elements of a variadic input become arguments of their
own, and a keyword input goes by its name. -/
def spread (h : Heap) : List Parameter → List Value → Except Failure CallArguments
  | p :: ps, v :: vs => do
    let here : CallArguments ← match p.kind with
      | .positional => .ok { positional := [v] }
      | .keyword => .ok { keywords := [(p.name, v)] }
      | .variadic =>
        match Γ.elements? h v with
        | some es => .ok { positional := es }
        | none => .error .typeError
    let rest ← spread h ps vs
    .ok ⟨here.positional ++ rest.positional, here.keywords ++ rest.keywords⟩
  | _, _ => .ok {}

end Program

/-- The failed call of a member of instances without a receiver. -/
def Target.nullReceiver (t : Target) : Failure :=
  .fault
    { kind := .nullReceiver
      message := "instance member " ++ t.name ++ " invoked without a receiver"
      member := some t.name
      container := t.declaring.map Ty.name }

/-- The refused assignment of a member. -/
def Target.denied (t : Target) (cause : String) : Failure :=
  .fault
    { kind := .accessDenied
      message := "cannot assign " ++ t.name ++ ": " ++ cause
      member := some t.name
      container := t.declaring.map Ty.name }

namespace Target

/-- Whether the inputs are arguments of a call one by one. -/
def isPlain (t : Target) : Bool := t.params.all fun p => p.kind == .positional

/-- The value whose attributes a static field is. -/
def owner (t : Target) : Value := Value.ofTy (t.declaring.getD .null).origin

end Target

namespace Runtime

variable (Γ : Program) (rt : Runtime)

/-- Runs an assignment; one that a frozen instance refuses is denied. -/
def assigning (t : Target) (assign : Eval Unit) : Eval Value := do
  tryCatch assign fun e =>
    match e with
    | .exception (.frozenField name) _ =>
      throw (t.denied ("cannot assign to field " ++ Text.quoted name))
    | e => throw e
  pure .none

/-- Invokes a member on a receiver, if it takes one, and its other inputs. -/
def invokeMember (t : Target) (receiver : Value) (values : List Value) : Eval Value := do
  let receivers := if t.takesReceiver then [receiver] else []
  match t.kind, t.impl with
  | .procedure, .callable f | .constructor, .callable f =>
    if t.isPlain then rt.call f (receivers ++ values) []
    else
      let args ← Eval.lift (Γ.spread (← Eval.heap) t.params values)
      rt.call f (receivers ++ args.positional) args.keywords
  | .propertyGetter, .callable f => rt.call f receivers []
  | .propertySetter, .callable f =>
    assigning t (do let _ ← rt.call f (receivers ++ values.getLast?.toList) [])
  | .fieldGetter, .attribute name =>
    rt.getAttr (if t.takesReceiver then receiver else t.owner) name
  | .fieldSetter, .attribute name =>
    assigning t
      (rt.setAttr (if t.takesReceiver then receiver else t.owner) name
        (values.getLast?.getD .none))
  | _, _ => throw .typeError

end Runtime

namespace SignaturePlan

/-- Whether arguments can go to the member as they are. -/
def isDirect (p : SignaturePlan) : Bool :=
  p.bound.isUnbound && !p.target.kind.isAccessor && p.slots.all Slot.isTrivial &&
    !p.result.needsOperation && !p.result.discard && p.target.isPlain

variable (Γ : Program) (rt : Runtime)

/-- Hands the arguments to the member as they are. -/
def runDirect (p : SignaturePlan) (args : List Value) : Eval Value :=
  if p.target.takesReceiver && (args.head?.getD .none).isNone then throw p.target.nullReceiver
  else
    match p.target.impl with
    | .callable f => rt.call f args []
    | .attribute _ => throw .typeError

/-- Produces every input from its slot, invokes the member and converts the result. -/
def runGeneral (p : SignaturePlan) (args : List Value) : Eval Value := do
  let values ← Γ.marshalAll p.slots p.bound args
  let raw ←
    if p.target.takesReceiver then
      let receiver := values.head?.getD .none
      if receiver.isNone then throw p.target.nullReceiver
      else rt.invokeMember Γ p.target receiver values.tail
    else rt.invokeMember Γ p.target .none values
  Γ.converting p.result raw

def run (p : SignaturePlan) (args : List Value) : Eval Value :=
  if p.nullReceiver then throw p.target.nullReceiver
  else if p.isDirect then p.runDirect rt args
  else p.runGeneral Γ rt args

end SignaturePlan

namespace Adapter

variable (Γ : Program) (rt : Runtime)

/-- The failed call with a wrong number of arguments. -/
def arityMismatch (a : Adapter) (got : Nat) : Failure :=
  .fault
    { kind := .arityMismatch a.arity got
      message := "thunk " ++ a.shape.text ++ " takes " ++ toString a.arity ++
        " argument(s), got " ++ toString got
      member := a.target?.map (·.name)
      shape := some a.shape.text }

/-- Calls an adapter. -/
def call : Adapter → List Value → Eval Value
  | member p, args =>
    if args.length = p.shape.arity then p.run Γ rt args
    else throw ((member p).arityMismatch args.length)
  | overAdapter l source inner, args => do
    if args.length = l.shape.arity then
      let values ← Γ.marshalAll l.slots .unbound args
      Γ.converting l.result (← call inner values)
    else throw ((overAdapter l source inner).arityMismatch args.length)
  | overCallable l source, args => do
    if args.length = l.shape.arity then
      let values ← Γ.marshalAll l.slots .unbound args
      Γ.converting l.result (← rt.call source values [])
    else throw ((overCallable l source).arityMismatch args.length)

end Adapter

namespace LateCall

variable (Γ : Program)

/-- The failed call with a wrong number of arguments. -/
def arityMismatch (c : LateCall) (got : Nat) : Failure :=
  .fault
    { kind := .arityMismatch c.arity got
      message := c.target.name ++ " takes " ++ toString c.arity ++ " argument(s), got " ++
        toString got
      member := some c.target.name }

/-- Converts an argument to its declared type. -/
def convert : LateArgument → Value → Eval Value
  | .cell plan, v =>
    if Γ.isCellValue v then pure v
    else do Eval.newCell (← Γ.converting plan v)
  | .value plan, v => Γ.converting plan v

def values (c : LateCall) (args : List Value) : Eval (List Value) :=
  if args.length = c.arity then (c.arguments.zip args).mapM fun x => convert Γ x.1 x.2
  else throw (c.arityMismatch args.length)

end LateCall

namespace Invoker

variable (Γ : Program) (rt : Runtime)

/-- Calls the member on a receiver, which members without one ignore. -/
def invoke (i : Invoker) (receiver : Value) (args : List Value) : Eval Value := do
  let values ← i.call.values Γ args
  match i.receiver with
  | none => rt.invokeMember Γ i.call.target .none values
  | some plan =>
    if receiver.isNone then throw i.call.target.nullReceiver
    else rt.invokeMember Γ i.call.target (← Γ.converting plan receiver) values

end Invoker

/-- Calls the constructor. -/
def InstanceCreator.create (Γ : Program) (rt : Runtime) (c : InstanceCreator)
    (args : List Value) : Eval Value := do
  rt.invokeMember Γ c.call.target .none (← c.call.values Γ args)

end CallAdapter
