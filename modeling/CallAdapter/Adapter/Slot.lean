import CallAdapter.Shape

/-!
# Slots

How the parameters of a shape line up with the inputs of a member: receiver, declared parameters,
and the value that a setter assigns. `planSignature` makes one `Slot` per input and a plan for the
result, or gives the first reason why shape and member do not fit.

A slot between two reference cells with an identity plan hands over the caller's own cell. Every
other slot that fills a cell parameter makes a fresh cell, so that nothing is written back.
-/

namespace CallAdapter

inductive SlotMode
  /-- The value is converted and handed over. -/
  | value
  /-- The caller's cell is handed over. -/
  | passThrough
  /-- A fresh cell around the converted content of the caller's cell. -/
  | copyFromCell
  /-- A fresh cell around the converted value. -/
  | temporary
  /-- The converted content of the caller's cell is handed over. -/
  | dereference
  deriving DecidableEq, Repr

namespace SlotMode

/-- The mode of a slot, from which of its two sides are cells. -/
def of (given declared isIdentity : Bool) : SlotMode :=
  match given, declared with
  | true, true => if isIdentity then passThrough else copyFromCell
  | false, true => temporary
  | true, false => dereference
  | false, false => value

def word : SlotMode → String
  | value => "VALUE"
  | passThrough => "PASS_THROUGH"
  | copyFromCell => "COPY_FROM_REF"
  | temporary => "TEMP"
  | dereference => "DEREF"

theorem of_eq_passThrough_iff (g d i : Bool) :
    of g d i = passThrough ↔ g = true ∧ d = true ∧ i = true := by
  cases g <;> cases d <;> cases i <;> simp [of]

end SlotMode

/-- Where the value of a slot comes from. -/
inductive SlotSource
  /-- The value that was captured when the adapter was built. -/
  | bound
  | argument (index : Nat)
  deriving DecidableEq, Repr

/-- How one input of a member is produced. -/
structure Slot where
  source : SlotSource
  plan : Plan
  mode : SlotMode := .value

/-- A slot that hands its value over untouched. -/
def Slot.isTrivial (s : Slot) : Bool := s.mode == .value && !s.plan.needsOperation

/-- Why a shape does not fit a member. -/
inductive Mismatch
  /-- A value is bound to a member without inputs. -/
  | nothingToBind (target : Target)
  | argumentCount (target : Target) (expected given : Nat)
  | slot (index : Nat) (given declared : Ty)
  | boundType (given declared : Ty)
  | boundRejected (message : String)
  | result (given wanted : Ty)

def Mismatch.reason : Mismatch → String
  | nothingToBind t => t.describe ++ " has nothing to bind a value to"
  | argumentCount t expected given =>
    t.describe ++ " needs " ++ toString expected ++ " argument(s), shape has " ++ toString given
  | slot i given declared =>
    "slot " ++ toString i ++ ": cannot convert " ++ given.name ++ " to " ++ declared.name
  | boundType given declared =>
    "bound " ++ given.name ++ " does not convert to " ++ declared.name
  | boundRejected message => "bound value rejected: " ++ message
  | result given wanted =>
    "result " ++ given.name ++ " does not convert to " ++ wanted.name

namespace Target

def receiverType (t : Target) : Ty := t.declaring.getD .any

/-- The declared types of everything that the member consumes, in the order of a call. -/
def inputs (t : Target) : List Ty :=
  (if t.takesReceiver then [t.receiverType] else []) ++ t.params.map (·.type) ++
    (if t.kind.isSetter then [t.assigned.getD .null] else [])

theorem length_inputs (t : Target) : t.inputs.length = t.slotCount := by
  unfold inputs slotCount
  split <;> split <;> simp

end Target

/-- Every decision for one shape, member and bound value. -/
structure SignaturePlan where
  shape : Shape
  target : Target
  slots : List Slot
  result : Plan
  /-- The captured value, already converted. -/
  bound : Value := .unbound
  /-- The absent value was bound as the receiver: every call fails. -/
  nullReceiver : Bool := false

def SignaturePlan.plans (p : SignaturePlan) : List Plan := p.slots.map (·.plan) ++ [p.result]

/-- Planning that may find that shape and member do not fit. -/
abbrev MatchM := ExceptT Mismatch PlanM

/-- A value captured at build time with the slot that hands it over. -/
structure Capture where
  slot : Slot
  value : Value
  nullReceiver : Bool

namespace Program

variable (Γ : Program)

/-- Plans a slot from the type of a shape's parameter to a declared type. -/
def planSlot (index : Nat) (given declared : Ty) : MatchM Slot := do
  let plan ← if given.isCell || declared.isCell then Γ.planByRef given declared
    else Γ.plan given declared
  if plan.isPossible then
    pure ⟨.argument index, plan, SlotMode.of given.isCell declared.isCell plan.isIdentity⟩
  else throw (.slot index given declared)

/-- Plans the slots of all parameters, from the given index on. -/
def planSlots : (index : Nat) → (given declared : List Ty) → MatchM (List Slot)
  | index, given :: gs, declared :: ds => do
    let slot ← Γ.planSlot index given declared
    let slots ← planSlots (index + 1) gs ds
    pure (slot :: slots)
  | _, _, _ => pure []

variable (h : Heap)

/-- Converts a bound value to the first input of a member. A cell input gets a fresh cell around
the converted value on every call. -/
def capture (t : Target) (declared : Ty) (bound : Value) : MatchM Capture := do
  if bound.isNone && t.takesReceiver then
    pure ⟨⟨.bound, ← Γ.plan .none .any, .value⟩, .none, true⟩
  else
    let element := if declared.isCell then declared.cellElement else declared
    let plan ← Γ.planValue bound element
    if plan.isPossible then
      match Γ.applyPlan h plan bound with
      | .ok v =>
        let mode := if declared.isCell then .temporary else .value
        pure ⟨⟨.bound, ← Γ.plan .any .any, mode⟩, v, false⟩
      | .error (.fault f) =>
        match f.kind with
        | .cast _ _ => throw (.boundRejected f.message)
        | _ => throwThe Failure (.fault f)
      | .error e => throwThe Failure e
    else throw (.boundType (Γ.className bound) declared)

/-- Lines the parameters of a shape up with the inputs of a member that are left after a captured
one, and plans the result. -/
def lineUp (shape : Shape) (t : Target) (remaining : List Ty) (captured : Option Capture) :
    MatchM SignaturePlan := do
  let slots ← Γ.planSlots 0 shape.params remaining
  let result ← Γ.planResult t.result shape.returns
  if result.isPossible then
    pure
      { shape := shape, target := t
        slots := (captured.map (·.slot)).toList ++ slots
        result := result
        bound := (captured.map (·.value)).getD .unbound
        nullReceiver := (captured.map (·.nullReceiver)).getD false }
  else throw (.result t.result shape.returns)

/-- Lines a shape up with a member. A bound value takes the place of the first input. -/
def planSignature (shape : Shape) (t : Target) (bound : Value) : MatchM SignaturePlan :=
  if bound.isUnbound then
    if shape.arity = t.inputs.length then Γ.lineUp shape t t.inputs none
    else throw (.argumentCount t t.inputs.length shape.arity)
  else
    match t.inputs with
    | [] => throw (.nothingToBind t)
    | declared :: remaining =>
      if shape.arity = remaining.length then do
        let captured ← Γ.capture h t declared bound
        Γ.lineUp shape t remaining (some captured)
      else throw (.argumentCount t remaining.length shape.arity)

end Program

end CallAdapter
