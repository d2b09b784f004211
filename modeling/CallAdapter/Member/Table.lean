import CallAdapter.Member.Basic

/-!
# Member tables

Members that are declared by hand. A container may be a type or any token that can be a key, and a
name may have several procedures with different signatures. The answers to a query come in the
order of registration, so a registration only ever appends to the answers for its container.
-/

namespace CallAdapter

/-- A registered member with the name it is found by. -/
structure TableEntry (α : Type) where
  container : Ty
  name : String
  member : α

/-- A parameter as it is declared: a bare type, or all of it. -/
inductive ParameterSpec
  | type (t : Ty)
  | parameter (p : Parameter)

structure MemberTable where
  procedures : List (TableEntry Target) := []
  constructors : List (TableEntry Target) := []
  properties : List (TableEntry PropertyInfo) := []
  fields : List (TableEntry FieldInfo) := []
  /-- Procedures by what they run, the latest registration first. -/
  handles : List (Value × Target) := []

/-- Names the parameters that are declared by type alone after their position. -/
def ParameterSpec.toParameters (specs : List ParameterSpec) : List Parameter :=
  specs.mapIdx fun i s =>
    match s with
    | type t => ⟨"arg" ++ toString i, t.normalize, .positional⟩
    | parameter p => p

/-- The container as the place where a member is declared; the absent value is none. -/
def Ty.asDeclaring : Ty → Option Ty
  | null => Option.none
  | t => some t

/-- The name of a constructor that is registered for a container. -/
def Ty.constructorName : Ty → String
  | cls c => c.name
  | applied (.native c) _ => c.name
  | text s => s
  | t => t.shown

namespace MemberTable

def empty : MemberTable := {}

/-- Registrations and queries fail where the container cannot be a key. -/
def checkKey (container : Ty) : Except Failure Unit :=
  if container.hashable then .ok () else .error .typeError

/-- The visibility that was declared, else the one that the name has. -/
def visibility (declared : Option Bool) (name : String) : Bool :=
  declared.getD (isPublicName name)

def registerProcedure (t : MemberTable) (container : Ty) (name : String) (impl : Value)
    (params : List ParameterSpec) (result : Ty) (isStatic : Bool) (declared : Option Bool) :
    Except Failure (Target × MemberTable) := do
  let target := Target.marked
    { kind := .procedure, name := name, declaring := container.asDeclaring, isStatic := isStatic
      params := ParameterSpec.toParameters params, result := result.normalize
      isPublic := visibility declared name, impl := .callable impl }
  checkKey container
  pure (target,
    { t with
      procedures := t.procedures ++ [⟨container, name, target⟩]
      handles := (impl, target) :: t.handles })

def registerConstructor (t : MemberTable) (container : Ty) (impl : Value)
    (params : List ParameterSpec) (declared : Option Bool) :
    Except Failure (Target × MemberTable) := do
  let name := container.constructorName
  let target := Target.marked
    { kind := .constructor, name := name, declaring := container.asDeclaring, isStatic := false
      params := ParameterSpec.toParameters params, result := container
      isPublic := declared.getD true, impl := .callable impl }
  checkKey container
  pure (target, { t with constructors := t.constructors ++ [⟨container, name, target⟩] })

/-- Registers a property by its accessors, of which one may be missing. -/
def registerProperty (t : MemberTable) (container : Ty) (name : String) (type : Ty)
    (getter setter : Option Value) (isStatic : Bool) (declared : Option Bool) :
    Except Failure (PropertyInfo × MemberTable) := do
  if getter.isNone && setter.isNone then
    throw (.exception .valueError
      (some ("property " ++ Text.quoted name ++ " needs a getter or a setter")))
  let isPublic := visibility declared name
  let type := type.normalize
  let accessor (kind : MemberKind) (impl : Value) : Target :=
    { kind := kind, name := name, declaring := container.asDeclaring, isStatic := isStatic
      result := if kind.isSetter then .none else type
      assigned := if kind.isSetter then some type else none
      isPublic := isPublic, impl := .callable impl }
  let info : PropertyInfo :=
    { name := name, declaring := container, type := type, isStatic := isStatic
      getter := getter.map (accessor .propertyGetter)
      setter := setter.map (accessor .propertySetter), isPublic := isPublic }
  checkKey container
  pure (info, { t with properties := t.properties ++ [⟨container, name, info⟩] })

def registerField (t : MemberTable) (container : Ty) (name : String) (type : Ty)
    (isStatic readOnly : Bool) (declared : Option Bool) :
    Except Failure (FieldInfo × MemberTable) := do
  let info : FieldInfo :=
    { name := name, declaring := container, type := type.normalize, isStatic := isStatic
      readOnly := readOnly, isPublic := visibility declared name }
  checkKey container
  pure (info, { t with fields := t.fields ++ [⟨container, name, info⟩] })

/-- The members of a container whose entries pass a test, in the order of registration. -/
def select {α : Type} (entries : List (TableEntry α)) (container : Ty)
    (admits : TableEntry α → Bool) : Except Failure (List α) := do
  checkKey container
  pure ((entries.filter fun e => e.container.same container && admits e).map (·.member))

/-- The members of a table as a source. -/
def source (t : MemberTable) : MemberSource where
  procedures c n b := select t.procedures c fun e =>
    b.nameMatches e.name n && b.admits e.member.isStatic e.member.isPublic
  constructors c b := select t.constructors c fun e => b.admits false e.member.isPublic
  properties c n b := select t.properties c fun e =>
    b.nameMatches e.name n && b.admits e.member.isStatic e.member.isPublic
  fields c n b := select t.fields c fun e =>
    b.nameMatches e.name n && b.admits e.member.isStatic e.member.isPublic
  describe x _ :=
    match x with
    | .described m => .ok (some m)
    | .value v => .ok ((t.handles.find? fun e => e.1.identical v).map fun e => .target e.2)

theorem select_append {α : Type} (es fs : List (TableEntry α)) (c : Ty)
    (p : TableEntry α → Bool) (h : c.hashable = true) :
    select (es ++ fs) c p =
      (select es c p >>= fun xs => (select fs c p).map (xs ++ ·)) := by
  simp [select, checkKey, h, Except.map, bind, Except.bind, pure, Except.pure]

end MemberTable

end CallAdapter
