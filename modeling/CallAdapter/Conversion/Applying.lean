import CallAdapter.Conversion.Planner

/-!
# Applying a plan to one value after another

A plan is made once and applied to many values. Each unboxing in it keeps something of its own: a
planner without tables, and the plans it made for the classes of the values that came by.
`Program.applyEach` applies a plan to a sequence of values with that memory, and notes for each
value which decisions were left to it on the way to its result.
-/

namespace CallAdapter

/-- A decision that an operation leaves to the value. -/
inductive Dispatch
  /-- The member of a union that the value belongs to. -/
  | union
  /-- The plan for the value's class. -/
  | unboxing
  deriving DecidableEq, Repr

/-- A step from an operation to one inside it. -/
inductive Step
  | hit
  | miss
  /-- Into the plan that an unboxing made for a class. -/
  | planned (c : Cls)
  deriving DecidableEq, Repr

/-- What an unboxing keeps. -/
structure Unboxer where
  planner : Planner := ⟨false, [], []⟩
  plans : List (Cls × Plan) := []

/-- A plan in use: the planner that it came from, what its unboxings keep, each found by the steps
that lead to it, and the decisions that were left to the value at hand. -/
structure Usage where
  planner : Planner
  unboxers : List Step → Unboxer := fun _ => {}
  entered : List Dispatch := []

/-- Applying a plan uses what was kept when it was applied before. -/
abbrev ApplyM := ExceptT Failure (StateM Usage)

namespace Usage

def enter (s : Usage) (d : Dispatch) : Usage := { s with entered := s.entered ++ [d] }

def setUnboxer (s : Usage) (way : List Step) (u : Unboxer) : Usage :=
  { s with unboxers := fun w => if w = way then u else s.unboxers w }

end Usage

/-- What came out for a value, and the decisions that were left to it. -/
structure Applied where
  outcome : Except Failure Value
  entered : List Dispatch

namespace Program

variable (Γ : Program)

/-- The plan of an unboxing for a class: the one that it kept, or one that it makes and keeps. -/
def planForClass (dest : Ty) (c : Cls) (u : Unboxer) : Except Failure Plan × Unboxer :=
  match u.plans.find? fun e => decide (e.1 = c) with
  | some e => (.ok e.2, u)
  | none =>
    let (made, planner) := (Γ.planNormal planDepth (.cls c) dest).run.run u.planner
    match made with
    | .error e => (.error e, { u with planner := planner })
    | .ok plan => (.ok plan, ⟨planner, u.plans ++ [(c, plan)]⟩)

/-- The plan for a class of the unboxing that the steps lead to. -/
def classPlan (way : List Step) (dest : Ty) (c : Cls) : ApplyM Plan := do
  let s ← get
  let (answer, u) := Γ.planForClass dest c (s.unboxers way)
  set (s.setUnboxer way u)
  MonadExcept.ofExcept answer

variable (h : Heap)

/-- Runs an operation on a value. The tests of one union are one decision, so that those after the
first are made `within` it. -/
def runKeeping (unboxing : List Step → Ty → Value → ApplyM Value) :
    (within : Bool) → List Step → Operation → Value → ApplyM Value
  | within, way, .test member hit miss, v => do
    if !within then modify (·.enter .union)
    let belongs := if member.isVoid then v.isNone else Γ.isInstanceOf h v member == some true
    if belongs then runKeeping unboxing false (way ++ [.hit]) hit v
    else runKeeping unboxing true (way ++ [.miss]) miss v
  | _, way, .unbox dest, v => do
    modify (·.enter .unboxing)
    unboxing way dest v
  | _, _, op, v =>
    MonadExcept.ofExcept (Γ.runOperation h (fun d w => .error (Γ.castFailure w d)) op v)

/-- Goes on with a value of unknown type by the plan for its class. Unboxings may be entered from
one another up to a depth. -/
def unboxKeeping : (depth : Nat) → List Step → Ty → Value → ApplyM Value
  | 0, _, _, _ => throw (.exception .recursion none)
  | depth + 1, way, dest, v => do
    let c := Γ.classOf v
    if (Ty.cls c).isTop then throw (Γ.castFailure v dest)
    else
      let plan ← Γ.classPlan way dest c
      if plan.isPossible then
        match plan.operation? with
        | some op => Γ.runKeeping h (unboxKeeping depth) false (way ++ [.planned c]) op v
        | none => pure v
      else throw (Γ.castFailure v dest)

/-- Applies a plan to a value, with what it kept from others. -/
def applyKeeping (depth : Nat) (p : Plan) (v : Value) : ApplyM Value :=
  if p.discard then pure .none
  else
    match p.operation? with
    | some op => Γ.runKeeping h (Γ.unboxKeeping h depth) false [] op v
    | none => pure v

/-- Applies a plan to values in turn, each in the heap of its time. -/
def applyEach (depth : Nat) (p : Plan) : List (Heap × Value) → Usage → List Applied × Usage
  | [], s => ([], s)
  | (h, v) :: vs, s =>
    let (outcome, s) := (Γ.applyKeeping h depth p v).run.run { s with entered := [] }
    let (rest, s') := applyEach depth p vs s
    (⟨outcome, s.entered⟩ :: rest, s')

end Program

end CallAdapter
