import CallAdapter.Member.Search
import CallAdapter.Conversion.Planner

/-!
# Members

Descriptions of the members of a container. A `Target` is a concrete member that can be invoked:
a procedure, a constructor, or one accessor of a property or a field. Properties and fields are
described before an accessor is chosen, and `accessor` chooses one. Descriptions are immutable.
-/

namespace CallAdapter

inductive MemberKind
  | procedure
  | constructor
  | propertyGetter
  | propertySetter
  | fieldGetter
  | fieldSetter
  deriving DecidableEq, Repr

namespace MemberKind

def isSetter : MemberKind → Bool
  | propertySetter | fieldSetter => true
  | _ => false

def isAccessor : MemberKind → Bool
  | procedure | constructor => false
  | _ => true

/-- The word for the kind in descriptions. -/
def word : MemberKind → String
  | procedure => "procedure"
  | constructor => "constructor"
  | propertyGetter => "property_getter"
  | propertySetter => "property_setter"
  | fieldGetter => "field_getter"
  | fieldSetter => "field_setter"

end MemberKind

inductive ParameterKind
  | positional
  /-- One slot for a tuple, whose elements are spread over the call. -/
  | variadic
  | keyword
  deriving DecidableEq, Repr

structure Parameter where
  name : String
  type : Ty
  kind : ParameterKind := .positional

namespace Parameter

def byRef (p : Parameter) : Bool := p.type.isCell

/-- The content type of a parameter for reference cells, else its type. -/
def elementType (p : Parameter) : Ty := if p.byRef then p.type.cellElement else p.type

end Parameter

/-- What a member runs: something to call, or the name of an attribute. -/
inductive Implementation
  | callable (v : Value)
  | attribute (name : String)

structure Target where
  kind : MemberKind
  name : String
  /-- The container that declares the member; free functions have none. -/
  declaring : Option Ty
  isStatic : Bool
  /-- The parameters without the receiver and without the value that a setter assigns. -/
  params : List Parameter := []
  result : Ty := Ty.none
  /-- The type of the value that a setter assigns. -/
  assigned : Option Ty := Option.none
  isPublic : Bool := true
  impl : Implementation
  isGeneric : Bool := false

namespace Target

/-- Whether the first input is a receiver. Constructors belong to instances but have none. -/
def takesReceiver (t : Target) : Bool := !t.isStatic && t.kind != .constructor

/-- The number of inputs of an unbound adapter. -/
def slotCount (t : Target) : Nat :=
  t.params.length + (if t.takesReceiver then 1 else 0) + (if t.kind.isSetter then 1 else 0)

/-- The type variables that the member still has to bind. -/
def openVars (t : Target) : List TypeVar :=
  Ty.distinctVars <|
    t.params.flatMap (fun p => p.type.freeVars) ++ t.result.freeVars ++
      ((t.assigned.map Ty.freeVars).getD [])

/-- Marks a member with open type variables. -/
def marked (t : Target) : Target :=
  if t.openVars.isEmpty then t else { t with isGeneric := true }

def ownerName (t : Target) : String := ((t.declaring.map Ty.name).getD "<free>")

def describe (t : Target) : String :=
  let scope := if t.isStatic then "static" else "instance"
  let head := scope ++ " " ++ t.kind.word ++ " " ++ t.ownerName ++ "." ++ t.name
  if t.kind.isSetter then head ++ " = " ++ ((t.assigned.map Ty.name).getD "None")
  else
    let params := String.intercalate ", " (t.params.map fun p => p.type.name)
    head ++ "(" ++ params ++ ") -> " ++ t.result.name

theorem isGeneric_marked (t : Target) :
    t.marked.isGeneric = (t.isGeneric || !t.openVars.isEmpty) := by
  unfold marked; split <;> simp_all

end Target

structure PropertyInfo where
  name : String
  declaring : Ty
  type : Ty
  isStatic : Bool := false
  getter : Option Target := Option.none
  setter : Option Target := Option.none
  isPublic : Bool := true

def PropertyInfo.accessor (p : PropertyInfo) (setter : Bool) : Option Target :=
  if setter then p.setter else p.getter

structure FieldInfo where
  name : String
  declaring : Ty
  type : Ty
  isStatic : Bool := false
  readOnly : Bool := false
  isPublic : Bool := true
  isGeneric : Bool := false

/-- The accessor of a field; a field that is read only has no setter. -/
def FieldInfo.accessor (f : FieldInfo) (setter : Bool) : Option Target :=
  if setter && f.readOnly then none
  else if setter then
    some { kind := .fieldSetter, name := f.name, declaring := some f.declaring,
           isStatic := f.isStatic, assigned := some f.type, isPublic := f.isPublic,
           impl := .attribute f.name, isGeneric := f.isGeneric }
  else
    some { kind := .fieldGetter, name := f.name, declaring := some f.declaring,
           isStatic := f.isStatic, result := f.type, isPublic := f.isPublic,
           impl := .attribute f.name, isGeneric := f.isGeneric }

/-- A member as it is described: invocable, or with its accessor still to be chosen. -/
inductive Member
  | target (t : Target)
  | property (p : PropertyInfo)
  | field (f : FieldInfo)

/-- What a caller may hand over as a direct handle on a member. -/
inductive Handle
  | described (m : Member)
  | value (v : Value)

/-- Answers queries for members by container and name. Queries fail where a container cannot be
looked up. -/
structure MemberSource where
  procedures : (container : Ty) → (name : String) → SearchMask → Except Failure (List Target)
  constructors : (container : Ty) → SearchMask → Except Failure (List Target)
  properties : (container : Ty) → (name : String) → SearchMask →
    Except Failure (List PropertyInfo)
  fields : (container : Ty) → (name : String) → SearchMask → Except Failure (List FieldInfo)
  /-- The description of a handle, or nothing where it is no handle on a member. -/
  describe : Handle → (container : Option Ty) → Except Failure (Option Member)

end CallAdapter
