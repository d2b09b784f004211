import CallAdapter.Fault
import CallAdapter.Type.Subscription
import CallAdapter.Value.BuiltinEntries

/-!
# Programs

The functions and classes that adapters are built for, as data. A function has parameters with
annotations as they were written and a body of statements; a class has its linear order of
ancestors, its own namespace in the order of its body, its own annotations, and the marks that
decide how it is instantiated and checked. A program does not change once it is loaded.
-/

namespace CallAdapter

structure Param where
  name : String
  type : Option Ty
  passing : Passing
  default : Option Value

/-- Expressions of member bodies. -/
inductive Expr
  | value (v : Value)
  | arg (name : String)
  | attr (e : Expr) (name : String)
  | add (a b : Expr)
  | list (es : List Expr)
  | tuple (es : List Expr)
  | set (es : List Expr)
  | dict (keys values : List Expr)
  /-- A new reference cell. -/
  | cell (e : Expr)
  /-- A new object without attributes. -/
  | fresh
  /-- A call, which for a class makes an instance. -/
  | call (f : Expr) (es : List Expr)
  | classNamed (name : String)
  /-- The entry of a class's own namespace, without binding. -/
  | entry (e : Expr) (name : String)
  /-- The function's name and its arguments without the receiver. -/
  | echo

instance : Inhabited Expr := ⟨.fresh⟩

inductive Stmt
  | ret (e : Expr)
  | assign (target : Expr) (name : String) (e : Expr)
  | raise (f : Failure)

inductive Body
  | block (stmts : List Stmt)
  /-- Stores each parameter in the attribute of its name, and each constant in its own. -/
  | storeAll (constants : List (String × Value))
  /-- Compares the named attributes of two instances of one class. -/
  | compare (fields : List String)
  /-- The text that messages show for the receiver. -/
  | describe
  /-- Initialises an instance of a class that implements a protocol, by the first function that
  the class inherits for it and that is no protocol's own. -/
  | inheritInit

structure Function where
  name : String
  qualname : String
  params : List Param
  returns : Option Ty
  body : Body
  abstract : Bool
  /-- Whether further signatures were declared for the name. -/
  overloaded : Bool
  /-- Whether the first parameter is a receiver, which an echo leaves out. -/
  hasReceiver : Bool

/-- The annotations by parameter name; the result goes by the name `return`. -/
def Function.annotations (f : Function) : List (String × Ty) :=
  (f.params.filterMap fun p => p.type.map fun t => (p.name, t)) ++
    match f.returns with
    | some t => [("return", t)]
    | none => []

/-- A field of a record class. -/
structure RecordField where
  name : String
  type : Ty
  default : Option Value
  init : Bool
  keywordOnly : Bool

structure ClassInfo where
  ref : ClassRef
  /-- The class itself followed by its ancestors. -/
  mro : List Cls
  /-- The bases as they were spelled. -/
  bases : List Ty
  /-- Type parameters, for classes that derive from the generic class. -/
  parameters : Option (List TypeVar)
  namespaceEntries : List (String × Value)
  annotations : List (String × Ty)
  /-- Names that still lack an implementation. -/
  missing : List String
  isProtocol : Bool
  isRuntime : Bool
  /-- For record classes, whether instances are frozen. -/
  frozen : Option Bool
  fields : List RecordField
  /-- The attributes that instances can store besides a namespace of their own. -/
  slots : Option (List String)
  /-- Names and values of an enumeration's members. -/
  members : List (String × Value)

/-- The bases of a class where one of them has arguments; other classes keep no record of them. -/
def ClassInfo.spelledBases (i : ClassInfo) : Option (List Ty) :=
  if i.bases.any Ty.isAlias then some i.bases else none

/-- What evaluating an annotation that is text comes to. -/
inductive Evaluation
  | denotes (t : Ty)
  /-- It is no expression, a name in it is unknown, or its parts do not fit. -/
  | unknown
  /-- It fails in another way. -/
  | raises (kind : ExceptionKind)

structure Program where
  classes : List ClassInfo
  functions : Array Function
  /-- Classes registered for an interface, in both orders of declaration. -/
  registrations : List (Cls × Cls)
  /-- What texts come to that are no types in the notation of types. -/
  foreign : String → Evaluation := fun _ => .unknown

namespace Program

def empty : Program where
  classes := []
  functions := #[]
  registrations := []

variable (Γ : Program)

def info? (c : ClassRef) : Option ClassInfo := Γ.classes.find? fun i => decide (i.ref = c)

def function? (id : Nat) : Option Function := Γ.functions[id]?

def classNamed? (name : String) : Option ClassRef :=
  (Γ.classes.find? fun i => i.ref.name == name).map (·.ref)

/-- The class itself and its ancestors, in the order of attribute lookup. -/
def mro : Cls → List Cls
  | .builtin b => b.ancestry.map .builtin
  | .declared c =>
    match Γ.info? c with
    | some i => i.mro
    | none => [.declared c, .builtin .object]

/-- The type parameters that a class declares or inherits. -/
def parameters : Cls → List TypeVar
  | .builtin .cell => [.cellContent]
  | .builtin _ => []
  | .declared c =>
    ((Γ.mro (.declared c)).findSome? fun
      | .declared d => (Γ.info? d).bind (·.parameters)
      | .builtin .cell => some [.cellContent]
      | .builtin _ => none).getD []

/-- Whether subscripting the class makes an alias of the annotation language. -/
def isGeneric (c : Cls) : Bool :=
  (Γ.mro c).any fun
    | .builtin .generic => true
    | _ => false

/-- The entries of a class's own namespace. -/
def entries : Cls → List (String × Value)
  | .builtin b => b.entries
  | .declared c => ((Γ.info? c).map (·.namespaceEntries)).getD []

/-- The first entry of a name along the ancestors, with the class that holds it. -/
def findEntry (c : Cls) (name : String) : Option (Cls × Value) :=
  (Γ.mro c).findSome? fun k =>
    ((Γ.entries k).find? fun e => e.1 == name).map fun e => (k, e.2)

/-- Whether a class names parameters although it does not derive from the generic class. -/
def claimsParameters (c : Cls) : Bool :=
  match Γ.findEntry c "__parameters__" with
  | some (_, .tuple vs) => !vs.isEmpty
  | _ => false

/-- Whether a class or alias still has type parameters to bind. -/
def isOpen (t : Ty) : Bool :=
  match t with
  | .cls c => !(Γ.parameters c).isEmpty || Γ.claimsParameters c
  | _ => !t.freeVars.isEmpty

/-- Binds every type parameter that is still open to any type. -/
def close (t : Ty) : Ty :=
  match t with
  | .cls c =>
    let ps := Γ.parameters c
    if ps.isEmpty then t else .applied (.generic c) (ps.map fun _ => .any)
  | _ => t.substitute (t.freeVars.map fun v => (v, .any))

/-- A type as what stands before the bracket of a subscription; none when it takes no arguments. -/
def subject? : Ty → Option Subject
  | .cls (.builtin .annotatedForm) => some (.head .annotated)
  | .cls c => some (.head (if Γ.isGeneric c then .generic c else .native c))
  | .form .classVar => some (.head .classVar)
  | .form .final => some (.head .final)
  | .form .list => some (.head .list)
  | .form .literal => some (.head .literal)
  | .form .concatenate => some (.head .concatenate)
  | .form .union => some .union
  | .applied h as => some (.type (.applied h as))
  | .union pipe ms => some (.type (.union pipe ms))
  | _ => none

/-- A type with arguments; none when it does not take them. -/
def subscript (t : Ty) (as : List Ty) : Option Ty := (Γ.subject? t).bind fun s => s.make as

theorem mro_builtin (b : Builtin) : Γ.mro (.builtin b) = b.ancestry.map .builtin := rfl

end Program

end CallAdapter
