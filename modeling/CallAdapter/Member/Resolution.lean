import CallAdapter.Adapter.Slot

/-!
# Resolution by name

`resolve` finds the member of a container that a name means for a shape. Procedures are tried
first, then properties, then fields; the first category with a member that fits settles it. Within
a category static members come before members of instances, a bound value searches instances only,
and binding the absent value searches static members only. Of the members that fit, the one with
the fewest operations wins, then the one with the fewest widenings, then the earliest.

Members with open type variables are never chosen. When nothing fits, `NotFound` says why.
-/

namespace CallAdapter

inductive NotFoundReason
  | memberNotFound
  /-- A property or field exists but lacks the accessor that the shape asks for. -/
  | noSuchAccessor
  /-- Only members with open type variables were found, or the container has some. -/
  | openGeneric
  deriving DecidableEq, Repr

def NotFoundReason.word : NotFoundReason → String
  | memberNotFound => "MEMBER_NOT_FOUND"
  | noSuchAccessor => "NO_SUCH_ACCESSOR"
  | openGeneric => "OPEN_GENERIC"

structure NotFound where
  reason : NotFoundReason
  name : String
  container : String
  detail : String

structure Resolution where
  target : Target
  plan : SignaturePlan
  bound : Value

/-- The number of operations and of widenings in a list of plans; the first number weighs more. -/
structure Cost where
  explicit : Nat
  widen : Nat
  deriving DecidableEq, Repr

namespace Cost

def of (plans : List Plan) : Cost :=
  ⟨plans.countP fun p => p.kind == .explicitConvert,
    plans.countP fun p => p.kind == .implicitWiden && !p.discard⟩

/-- Lexicographic order. -/
def lt (a b : Cost) : Bool :=
  a.explicit < b.explicit || (a.explicit == b.explicit && a.widen < b.widen)

end Cost

/-- The first of the cheapest candidates. -/
def cheapest? {α : Type} (cost : α → Cost) : List α → Option α
  | [] => none
  | a :: as =>
    match cheapest? cost as with
    | none => some a
    | some b => if (cost b).lt (cost a) then some b else some a

theorem cheapest?_mem {α : Type} {cost : α → Cost} {as : List α} {a : α}
    (h : cheapest? cost as = some a) : a ∈ as := by
  induction as generalizing a with
  | nil => simp [cheapest?] at h
  | cons b bs ih =>
    unfold cheapest? at h
    split at h
    · simp_all
    · rename_i c hc
      split at h
      · obtain rfl := Option.some.inj h
        exact List.mem_cons_of_mem _ (ih hc)
      · simp_all

/-- What was seen while no member fitted. -/
structure SearchTrace where
  accessorMissing : Bool := false
  genericSkipped : Bool := false
  mismatches : List Mismatch := []

namespace SearchTrace

/-- Why nothing was found. -/
def reason (t : SearchTrace) : NotFoundReason :=
  if t.accessorMissing then .noSuchAccessor
  else if t.genericSkipped && t.mismatches.isEmpty then .openGeneric
  else .memberNotFound

def detail (t : SearchTrace) : String :=
  String.intercalate "; " (t.mismatches.map Mismatch.reason)

end SearchTrace

/-- A search plans signatures and notes what it sees. -/
abbrev SearchM := StateT SearchTrace PlanM

namespace Program

variable (Γ : Program) (h : Heap)

/-- The candidates that a shape fits, with their plans. -/
def viable (shape : Shape) (bound : Value) : List Target → SearchM (List Resolution)
  | [] => pure []
  | t :: ts => do
    if t.isGeneric then
      modify fun s => { s with genericSkipped := true }
      viable shape bound ts
    else
      match ← (Γ.planSignature h shape t bound).run with
      | .error m =>
        modify fun s => { s with mismatches := s.mismatches ++ [m] }
        viable shape bound ts
      | .ok plan => do
        let rest ← viable shape bound ts
        pure (⟨t, plan, bound⟩ :: rest)

/-- The best of the candidates that a shape fits. -/
def pick (shape : Shape) (bound : Value) (candidates : List Target) :
    SearchM (Option Resolution) := do
  pure (cheapest? (fun r => Cost.of r.plan.plans) (← Γ.viable h shape bound candidates))

/-- Searches one category: which scopes are tried, and in which order. A member of instances needs
an input for the receiver. -/
def pickScoped (shape : Shape) (bound : Value) (needsReceiver : Bool) (candidates : List Target) :
    SearchM (Option Resolution) := do
  let statics := candidates.filter (·.isStatic)
  let instances := candidates.filter fun t => !t.isStatic
  if bound.isNone then Γ.pick h shape .unbound statics
  else if !bound.isUnbound then Γ.pick h shape bound instances
  else
    match ← Γ.pick h shape .unbound statics with
    | some r => pure (some r)
    | none =>
      if needsReceiver && shape.arity == 0 then pure none
      else Γ.pick h shape .unbound instances

/-- The accessors that exist; a missing one is noted. -/
def accessors (found : List (Option Target)) : SearchM (List Target) := do
  if found.any Option.isNone then modify fun s => { s with accessorMissing := true }
  pure (found.filterMap id)

/-- Tries a category unless an earlier one gave a result or the mask leaves it out. -/
def orElseCategory (found : Option Resolution) (searched : Bool)
    (search : SearchM (Option Resolution)) : SearchM (Option Resolution) :=
  match found with
  | some r => pure (some r)
  | none => if searched then search else pure none

/-- Searches all categories of a mask in their order. -/
def searchMembers (source : MemberSource) (container : Ty) (name : String) (shape : Shape)
    (members binding : SearchMask) (bound : Value) : SearchM (Option Resolution) := do
  let setter := shape.returnsVoid
  let found ← orElseCategory none (members.has .invokeMethod) do
    Γ.pickScoped h shape bound true (← liftExcept (source.procedures container name binding))
  let found ← orElseCategory found
    (members.has (if setter then .setProperty else .getProperty)) do
      let infos ← liftExcept (source.properties container name binding)
      Γ.pickScoped h shape bound false (← accessors (infos.map (·.accessor setter)))
  orElseCategory found (members.has (if setter then .setField else .getField)) do
    let infos ← liftExcept (source.fields container name binding)
    Γ.pickScoped h shape bound false (← accessors (infos.map (·.accessor setter)))
where
  liftExcept {α : Type} (x : Except Failure α) : SearchM α :=
    match x with
    | .ok a => pure a
    | .error e => throw e

/-- Finds the member that a name means for a shape. -/
def resolve (source : MemberSource) (constructorName : String) (container : Ty) (name : String)
    (shape : Shape) (options : Option SearchMask) (bound : Value) :
    PlanM (Except NotFound Resolution) := do
  if Γ.isOpen container then
    pure (.error ⟨.openGeneric, name, container.name, "container has unbound type parameters"⟩)
  else
    let (members, binding) := SearchMask.split options
    let search : SearchM (Option Resolution) :=
      match Text.fold name == Text.fold constructorName with
      | true => do
        Γ.pick h shape bound
          (← searchMembers.liftExcept (source.constructors container binding))
      | false => Γ.searchMembers h source container name shape members binding bound
    let (found, trace) ← search.run {}
    match found with
    | some r => pure (.ok r)
    | none => pure (.error ⟨trace.reason, name, container.name, trace.detail⟩)

/-- Resolves a request of which each part has to be stated. -/
def resolveStated (source : MemberSource) (constructorName : String) (container : Ty)
    (name : Option String) (shape : Option Shape) (options : Option SearchMask) (bound : Value) :
    PlanM (Except NotFound Resolution) :=
  match container, name, shape with
  | .null, _, _ => throw (.fault (.argumentNull "container" "container is None"))
  | _, none, _ => throw (.fault (.argumentNull "name" "member name is None"))
  | _, _, none => throw (.fault (.argumentNull "shape" "target shape is None"))
  | c, some n, some s => Γ.resolve h source constructorName c n s options bound

end Program

end CallAdapter
