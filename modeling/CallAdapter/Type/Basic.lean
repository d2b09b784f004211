import CallAdapter.Value.Scalar

/-!
# Types

Annotations as data. A type is a class, a union in one of two spellings, an alias (a class or
form with arguments), a type variable, or one of the marks that annotations may hold: the absent
annotation, text that was not resolved, a forward reference, a parameter list. Any other object
used where a type or a container is expected is a token.

Types are built from their parts by `Ty.union`, `Ty.applied` and the functions of the sibling
modules; what a type means for values is decided elsewhere, from the classes of the program.
-/

namespace CallAdapter

/-- A declared class: the name it is looked up by, and the qualified name that is printed. -/
structure ClassRef where
  name : String
  qualname : String
  deriving DecidableEq, Repr, Inhabited

inductive Cls
  | builtin (b : Builtin)
  | declared (c : ClassRef)
  deriving DecidableEq, Repr, Inhabited

/-- A type variable: one of the program, or the content variable of reference cells. -/
inductive TypeVar
  | named (name : String)
  | cellContent
  deriving DecidableEq, Repr, Inhabited

def TypeVar.name : TypeVar → String
  | named n => n
  | cellContent => "T"

/-- Functions and the objects that wrap functions in a class. -/
inductive Callee
  /-- A declared function, by its place in the program. -/
  | function (id : Nat)
  | staticMethod (id : Nat)
  | classMethod (id : Nat)
  | property (getter setter : Option Nat)
  | cachedProperty (id : Nat)
  /-- A function of the language, by name. -/
  | builtin (name : String)
  /-- A method of a builtin class, taking its receiver first. -/
  | builtinMethod (owner : Builtin) (name : String)
  /-- A read-only property of a builtin class. -/
  | builtinProperty (owner : Builtin) (name : String)
  /-- The storage of an attribute inside instances. -/
  | slot (owner : Cls) (name : String)
  /-- An attribute that a builtin class computes. -/
  | computed (owner : Builtin) (name : String)
  deriving DecidableEq, Repr, Inhabited

/-- An object used in the place of a type: plain data, a reference, or a sequence of tokens. -/
inductive Token
  | scalar (s : Scalar)
  /-- An object of the heap, with the text that messages show. -/
  | object (c : Cls) (addr : Nat) (shown : String)
  /-- A member of an enumeration, with the text that messages show. -/
  | member (c : ClassRef) (name : String) (shown : String)
  /-- A function or a wrapper of one, with the text that messages show. -/
  | code (f : Callee) (shown : String)
  | tuple (ts : List Token)
  | list (ts : List Token)
  /-- Any other object, known by its text alone. -/
  | other (shown : String)
  deriving Inhabited

/-- Forms of the annotation language that stand without arguments. -/
inductive Form
  | classVar
  | final
  | list
  | union
  | literal
  | concatenate
  deriving DecidableEq, Repr

/-- What an alias gives arguments to. -/
inductive Head
  /-- A subscripted class that keeps its arguments as they were written. -/
  | native (c : Cls)
  /-- A class with type parameters; absent and text arguments are converted. -/
  | generic (c : Cls)
  | list
  | callable
  | classVar
  | final
  /-- A type with a remark. What a remark says is left out, as if all were one. -/
  | annotated
  | literal
  | concatenate
  deriving DecidableEq, Repr

inductive Ty
  /-- The absent annotation. -/
  | null
  | cls (c : Cls)
  | form (f : Form)
  /-- Text that stands for a type and was not resolved. -/
  | text (s : String)
  /-- A reference by text inside another type, which is never resolved. -/
  | forward (s : String)
  | var (v : TypeVar)
  | params (name : String)
  | union (pipe : Bool) (members : List Ty)
  | applied (head : Head) (args : List Ty)
  /-- The parameter list of a call signature. -/
  | list (ts : List Ty)
  | ellipsis
  | token (t : Token)

instance : Inhabited Ty := ⟨.null⟩

/-- The class or form that an alias gives arguments to. -/
def Head.origin : Head → Ty
  | .native c | .generic c => .cls c
  | .list => .cls (.builtin .list)
  | .callable => .cls (.builtin .callable)
  | .classVar => .form .classVar
  | .final => .form .final
  | .annotated => .cls (.builtin .annotatedForm)
  | .literal => .form .literal
  | .concatenate => .form .concatenate

namespace Ty

abbrev builtin (b : Builtin) : Ty := cls (.builtin b)

/-- The class of the absent value; as a result it means that nothing is returned. -/
abbrev none : Ty := builtin .none

abbrev object : Ty := builtin .object

abbrev any : Ty := builtin .any

abbrev cell : Ty := builtin .cell

/-- A type that says nothing is returned. -/
def isVoid : Ty → Bool
  | cls (.builtin .none) => true
  | _ => false

/-- A type that every value has. -/
def isTop : Ty → Bool
  | cls (.builtin .object) | cls (.builtin .any) => true
  | _ => false

def isUnion : Ty → Bool
  | union _ _ => true
  | _ => false

/-- What stands behind a type with arguments, or behind a form that stands for a class. -/
def origin? : Ty → Option Ty
  | applied h _ => some h.origin
  | union false _ => some (form .union)
  | union true _ => some (builtin .pipeUnion)
  | form .list => some (builtin .list)
  | cls (.builtin .generic) => some (builtin .generic)
  | _ => Option.none

/-- The arguments of an alias or the members of a union. -/
def args : Ty → List Ty
  | applied _ as => as
  | union _ ms => ms
  | _ => []

/-- The type without its arguments. -/
def origin (t : Ty) : Ty := t.origin?.getD t

/-- A class that stands for itself. -/
def isClass : Ty → Bool
  | cls (.builtin .generic) => false
  | cls _ => true
  | _ => false

def isAlias (t : Ty) : Bool := t.origin?.isSome && !t.isUnion

/-- The members of a union, in the order of its spelling. -/
def unionMembers : Ty → List Ty := args

def isOptional (t : Ty) : Bool := t.isUnion && t.unionMembers.any isVoid

/-- A reference cell type, with or without its content type. -/
def isCell : Ty → Bool
  | cls (.builtin .cell) => true
  | applied h _ =>
    match h.origin with
    | cls (.builtin .cell) => true
    | _ => false
  | _ => false

theorem isTop_iff (t : Ty) : t.isTop = true ↔ t = object ∨ t = any := by
  unfold isTop; split <;> simp_all

theorem isVoid_iff (t : Ty) : t.isVoid = true ↔ t = none := by
  unfold isVoid; split <;> simp_all

theorem isAlias_alias (h : Head) (as : List Ty) : (applied h as).isAlias = true := rfl

theorem isClass_union (p : Bool) (ms : List Ty) : (union p ms).isClass = false := rfl

end Ty

end CallAdapter
