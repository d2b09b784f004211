import CallAdapter.Conversion.Plan

/-!
# Planning conversions

`Planner.plan` decides how a source type reaches a destination type, and `Planner.planResult`
does the same for results, where "nothing is returned" has rules of its own. A planner may keep
the plans it made: they are then looked up under equality of types, so a later request with
another spelling is answered with the plan that was made first.

The rules for two types are in `Program.direct?` and `Program.verdict`. A union on either side is
decided member by member, which asks the planner again for types without a union on that side.
-/

namespace CallAdapter

/-- Plans by the pair of types that they were made for. -/
abbrev PlanTable := List ((Ty × Ty) × Plan)

namespace PlanTable

def position? (t : PlanTable) (src dst : Ty) : Option Nat :=
  t.findIdx? fun e => e.1.1.same src && e.1.2.same dst

def find (t : PlanTable) (src dst : Ty) : Option Plan :=
  (t.find? fun e => e.1.1.same src && e.1.2.same dst).map (·.2)

def insert (t : PlanTable) (src dst : Ty) (p : Plan) : PlanTable := t ++ [((src, dst), p)]

end PlanTable

structure Planner where
  memoize : Bool
  plans : PlanTable := []
  results : PlanTable := []

/-- The two tables of a planner: plans of value slots, and plans of results. -/
inductive Memo
  | plans
  | results
  deriving DecidableEq, Repr

namespace Planner

def table (p : Planner) : Memo → PlanTable
  | .plans => p.plans
  | .results => p.results

/-- Adds a plan to one of the tables. -/
def keep (p : Planner) (memo : Memo) (src dst : Ty) (plan : Plan) : Planner :=
  match memo with
  | .plans => { p with plans := p.plans.insert src dst plan }
  | .results => { p with results := p.results.insert src dst plan }

end Planner

/-- Planning reads and extends the tables of a planner; comparing two types can fail. -/
abbrev PlanM := ExceptT Failure (StateM Planner)

namespace Program

variable (Γ : Program)

/-- Widening inside the numeric tower, which needs no operation. -/
def numericWidening : List (Builtin × Builtin) :=
  [(.int, .float), (.int, .complex), (.float, .complex)]

/-- The numeric conversions that change the representation, in the order of preference. -/
def numericRules : List ((Builtin × Builtin) × NumericRule) :=
  [((.float, .int), .toInt), ((.int, .decimal), .toDecimal), ((.float, .decimal), .toDecimal),
    ((.decimal, .int), .toInt), ((.decimal, .float), .toFloat), ((.int, .fraction), .toFraction),
    ((.float, .fraction), .toFraction), ((.decimal, .fraction), .toFraction),
    ((.fraction, .int), .toInt), ((.fraction, .float), .toFloat),
    ((.fraction, .decimal), .quotient)]

/-- The look-up of an enumeration. -/
def lookupIn (dest : Ty) : Operation :=
  match dest with
  | .cls (.declared c) => .lookup c
  | t => .lookupNone t

/-- How one class converts to another. -/
def classVerdict (src dst : Ty) : Verdict :=
  let from? (b : Builtin) : Bool := Γ.isSubclass src (.builtin b)
  let to? (b : Builtin) : Bool := match dst with
    | .cls c => decide (c = .builtin b)
    | _ => false
  if Γ.isSubclass src dst then .widen
  else if numericWidening.any fun w => from? w.1 && to? w.2 then .widen
  else
    match numericRules.find? fun r => to? r.1.2 && from? r.1.1 with
    | some r => .convert (.numeric r.2 dst)
    | none =>
      let isBool := match src with
        | .cls (.builtin .bool) => true
        | _ => false
      if Γ.isEnum dst && from? .int && !isBool then .convert (lookupIn dst)
      else if Γ.isSubclass dst src then .convert (.cast dst)
      -- an unrelated class may still implement an interface, or be registered for it
      else if Γ.isAbstractType src || Γ.isAbstractType dst then .convert (.cast dst)
      else .impossible

/-- How types convert when at least one of them has arguments. -/
def aliasVerdict (src dst : Ty) : Verdict :=
  let s := src.origin
  let d := dst.origin
  if !(s.isClass && d.isClass) then .impossible
  else if !dst.isAlias then
    -- the arguments of the source are forgotten
    if Γ.isSubclass s d then .widen
    else if Γ.isSubclass d s || Γ.isAbstractType s then .convert (.cast dst)
    else .impossible
  else if !src.isAlias then
    -- arguments cannot be checked without walking the value
    if Γ.isSubclass s d || Γ.isSubclass d s then .convert (.cast dst)
    else .impossible
  else if !Ty.sameAll src.args dst.args then .impossible
  else if Γ.isSubclass s d then .widen
  else if Γ.isSubclass d s then .convert (.cast dst)
  else .impossible

/-- What a union does with a value that belongs to one of its members. -/
def branch (dst member : Ty) (v : Verdict) (miss : Operation) : Operation :=
  let hit := match v with
    | .identity | .widen => .keep
    | .convert op => op
    | .impossible => if member.isVoid then .refuseNone dst else .refuse dst
  .test member hit miss

/-- The verdict on a union as a source, from the verdicts on its members. -/
def fromUnion (dst : Ty) (branches : List (Ty × Verdict)) : Verdict :=
  if branches.all fun b => b.2.isImplicit then .widen
  else if !branches.any fun b => b.2.isPossible then .impossible
  else .convert (branches.foldr (fun b miss => branch dst b.1 b.2 miss) (.refuse dst))

/-- The verdict on a union as a destination: the first member reached untouched settles it, else
the first member that is reached by an operation. -/
def intoUnion (sub : Ty → PlanM Plan) : List Ty → Option Operation → PlanM Verdict
  | [], some op => pure (.convert op)
  | [], none => pure .impossible
  | m :: ms, found => do
    let p ← sub m
    match p.verdict with
    | .identity | .widen => pure .widen
    | .convert op => intoUnion sub ms (found.or (some op))
    | .impossible => intoUnion sub ms found

/-- The rules for a pair of types that need no look at members; none where the members of a union
decide. -/
def direct? (src dst : Ty) : Option (Except Failure Verdict) :=
  if Ty.refusesPlanning src dst then some (.error .typeError)
  else if src.same dst then some (.ok .identity)
  else if dst.isTop then some (.ok .widen)
  else if src.isVoid then some (.ok (if dst.isOptional then .widen else .impossible))
  else if dst.isVoid then some (.ok .impossible)
  else if src.isTop then some (.ok (.convert (.unbox dst)))
  else if src.isUnion || dst.isUnion then none
  else if src.isAlias || dst.isAlias then some (.ok (Γ.aliasVerdict src dst))
  else if src.isClass && dst.isClass then some (.ok (Γ.classVerdict src dst))
  else some (.ok .impossible)

/-- The rules for a pair of types. Members of unions are asked for through `sub`. -/
def verdict (sub : Ty → Ty → PlanM Plan) (src dst : Ty) : PlanM Verdict :=
  match Γ.direct? src dst with
  | some (.ok v) => pure v
  | some (.error e) => throw e
  | none =>
    if src.isUnion then do
      let branches ← src.unionMembers.mapM fun m => do pure (m, (← sub m dst).verdict)
      pure (fromUnion dst branches)
    else intoUnion (sub src) dst.unionMembers none

/-- Answers from a table, or makes the plan and keeps it. -/
def remembered (memo : Memo) (make : Ty → Ty → PlanM Plan) (src dst : Ty) : PlanM Plan := do
  let p ← get
  if p.memoize && src.hashable && dst.hashable then
    match (p.table memo).find src dst with
    | some plan => pure plan
    | none =>
      let plan ← make src dst
      modify fun q => q.keep memo src dst plan
      pure plan
  else make src dst

/-- Plans a pair of normal types. Each union on the way costs one level, and there are at most
two of them. -/
def planNormal : (depth : Nat) → Ty → Ty → PlanM Plan
  | 0, src, dst => pure (.of src dst .impossible)
  | depth + 1, src, dst => do
    let v ← Γ.verdict (fun s d => remembered .plans (planNormal depth) s.normalize d.normalize) src dst
    pure (.of src dst v)

/-- The levels that planning needs: a union on either side, and the types below. -/
def planDepth : Nat := 3

/-- Plans a value slot. -/
def plan (src dst : Ty) : PlanM Plan :=
  remembered .plans (Γ.planNormal planDepth) src.normalize dst.normalize

/-- The plan of a planner that keeps nothing, for types in normal form. -/
def freshPlan (src dst : Ty) : Except Failure Plan :=
  (Γ.planNormal planDepth src dst |>.run ⟨false, [], []⟩).1

/-- Numeric value types have a zero; every other type has the absent value. -/
def defaultValue (t : Ty) : Value :=
  match t.normalize with
  | .cls (.builtin .bool) => .bool false
  | .cls (.builtin .int) => .int 0
  | .cls (.builtin .float) => .scalar (.float Binary64.zero)
  | .cls (.builtin .complex) => .scalar (.complex Binary64.zero Binary64.zero)
  | .cls (.builtin .decimal) => .scalar (.decimal Decimal.zero)
  | .cls (.builtin .fraction) => .scalar (.fraction 0)
  | _ => .none

/-- Plans a result: nothing wanted drops it, and nothing returned gives the default value. -/
def resultPlan (src dst : Ty) : PlanM Plan :=
  if dst.isVoid then
    pure (if src.isVoid then .of src dst .identity else .of src dst .widen true)
  else if src.isVoid then pure (.of src dst (.convert (.constant (defaultValue dst))))
  else Γ.plan src dst

/-- Plans a member's result into the result of a shape, keeping the plan like any other. -/
def planResult (src dst : Ty) : PlanM Plan :=
  remembered .results Γ.resultPlan src.normalize dst.normalize

/-- Plans a slot for reference cells on their content types. -/
def planByRef (src dst : Ty) : PlanM Plan :=
  Γ.plan src.content dst.content

/-- Plans a value at hand. -/
def planValue (v : Value) (dst : Ty) : PlanM Plan := Γ.plan (Γ.className v) dst

variable (h : Heap)

/-- Goes on with a value of unknown type: plans from its class, which is never unknown itself. A
bare object has no class to go on from, and the class `any` has no instances (`Runtime.make_any`). -/
def unboxed (dest : Ty) (v : Value) : Except Failure Value :=
  let c := Γ.classOf v
  if (Ty.cls c).isTop then .error (Γ.castFailure v dest)
  else
    match Γ.freshPlan (.cls c) dest with
    | .error e => .error e
    | .ok p =>
      if p.isPossible then
        match p.operation? with
        | some op => Γ.runOperation h (fun d w => .error (Γ.castFailure w d)) op v
        | none => .ok v
      else .error (Γ.castFailure v dest)

/-- Applies a plan to a value. -/
def applyPlan (p : Plan) (v : Value) : Except Failure Value :=
  if p.discard then .ok .none
  else
    match p.operation? with
    | some op => Γ.runOperation h (Γ.unboxed h) op v
    | none => .ok v

end Program

/-- What a planner may be asked for: a value slot, a result, a slot for reference cells, or a value
at hand. -/
inductive PlanRequest
  | types (src dst : Ty)
  | result (src dst : Ty)
  | content (src dst : Ty)
  | value (v : Value) (dst : Ty)

/-- Answers a request. -/
def Program.planFor (Γ : Program) : PlanRequest → PlanM Plan
  | .types src dst => Γ.plan src dst
  | .result src dst => Γ.planResult src dst
  | .content src dst => Γ.planByRef src dst
  | .value v dst => Γ.planValue v dst

namespace Planner

/-- Where a planner keeps a plan, so that two requests answered from one place are known to give
one plan. -/
inductive Place
  | plan (index : Nat)
  | result (index : Nat)
  deriving DecidableEq, Repr

/-- The place of the answer to a request that was made. -/
def place? (Γ : Program) (p : Planner) : PlanRequest → Option Place
  | .result src dst =>
    if src.normalize.isVoid || dst.normalize.isVoid then
      if p.memoize then (p.results.position? src.normalize dst.normalize).map .result else none
    else kept src dst
  | .types src dst => kept src dst
  | .content src dst => kept src.content dst.content
  | .value v dst => kept (Γ.className v) dst
where
  kept (src dst : Ty) : Option Place :=
    if p.memoize then (p.plans.position? src.normalize dst.normalize).map .plan else none

end Planner

end CallAdapter
