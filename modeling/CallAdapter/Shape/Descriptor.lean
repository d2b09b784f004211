import CallAdapter.Program.Signature
import CallAdapter.Shape
import CallAdapter.Value.Text

/-!
# Shape descriptors

Shapes are read from descriptors that carry exactly one call signature: a callable type with a
fixed parameter list, a class with a single call function and no other public function, or a shape
itself. A shape with open type variables is refused. Any annotated callable value also has a shape,
if it takes a fixed number of arguments.
-/

namespace CallAdapter

/-- What a shape may be read from. -/
inductive Descriptor
  | absent
  | shape (s : Shape)
  | type (t : Ty)
  | value (v : Value)

/-- Whether the parameters of a signature are a fixed list. -/
def Signature.isFixed (s : Signature) : Bool :=
  s.params.all fun p => p.2 != .variadic && p.2 != .variadicKeyword

namespace Shape

/-- The type variables that a shape leaves open. -/
def openVars (s : Shape) : List TypeVar := (s.params ++ [s.returns]).flatMap Ty.freeVars

end Shape

namespace Program

variable (Γ : Program) (h : Heap)

def invalidShape {α : Type} (message shown : String) : Except Failure α :=
  .error (.fault (.invalidShape message shown))

/-- The shape of a callable type. -/
def shapeOfCallableType (t : Ty) : Except Failure Shape :=
  match t.args with
  | [.list ps, r] => .ok (Shape.make ps r)
  | _ => invalidShape (t.shown ++ " does not fix its parameter list") t.shown

/-- The shape that annotated parameters and result give. -/
def shapeOfSignature (s : Signature) (hints : List (String × Ty)) : Shape :=
  Shape.make (s.params.map fun p => (hint? hints p.1).getD .any)
    (if s.hasResult then (hint? hints "return").getD .any else .any)

/-- Classes whose functions are no call signatures. -/
def isDescriptorBase : Cls → Bool
  | .builtin b => b == .object || b == .generic || b == .protocol || b == .any
  | .declared _ => false

/-- The public functions of a class and its ancestors, besides the call function. -/
def otherFunctions (c : Cls) : List String :=
  ((Γ.mro c).filter fun k => !isDescriptorBase k).flatMap fun
    | .builtin b => b.publicFunctions
    | k => ((h.entries Γ k).filter fun e =>
        e.1 != "__call__" && !e.1.startsWith "_" &&
          match e.2 with
          | .code (.function _) | .code (.staticMethod _) | .code (.classMethod _) => true
          | _ => false).map (·.1)

/-- The nearest call entry of a class; the callable interface has one without a fixed list of
parameters. -/
def callEntry? (c : Cls) : Option (Option Value) :=
  ((Γ.mro c).filter fun k => !isDescriptorBase k).findSome? fun
    | .builtin .callable => some none
    | k => ((h.entries Γ k).find? fun e => e.1 == "__call__").map fun e => some e.2

/-- Sorts names and drops repetitions. -/
def sortedNames (names : List String) : List String :=
  (names.mergeSort (fun a b => decide (a ≤ b))).eraseDups

/-- The shape of a class with a single call function. -/
def shapeOfClass (c : Cls) : Except Failure Shape := do
  let shown := (Ty.cls c).name
  let varied : Except Failure Shape :=
    invalidShape (shown ++ ".__call__ has variable arity") shown
  let others := sortedNames (Γ.otherFunctions h c)
  let several : Except Failure Shape :=
    invalidShape (shown ++ " declares more than one call signature (" ++
      String.intercalate ", " others ++ ")") shown
  match Γ.callEntry? h c with
  | some (some (.code (.function id))) =>
    if !others.isEmpty then several
    else if ((Γ.function? id).map (·.overloaded)).getD false then
      invalidShape (shown ++ ".__call__ is overloaded") shown
    else
      match Γ.functionSignature id with
      | none => varied
      | some s =>
        let s : Signature := { s with params := s.params.tail }
        let hints ← Γ.readHints id
        if s.isFixed then .ok (shapeOfSignature s hints) else varied
  | some none => if others.isEmpty then varied else several
  | _ => invalidShape (shown ++ " declares no __call__ signature") shown

/-- Reads a shape from a descriptor. -/
def shapeOf : Descriptor → Except Failure Shape
  | .absent => .error (.fault (.argumentNull "shape" "target shape descriptor is None"))
  | .shape s => .ok s
  | .value v => refuse (Γ.valueText h v)
  | .type t => do
    let s ← match t with
      | .null => .error (.fault (.argumentNull "shape" "target shape descriptor is None"))
      | .cls c => Γ.shapeOfClass h c
      | .applied .callable _ | .applied (.native (.builtin .callable)) _ => shapeOfCallableType t
      | _ => refuse t.shown
    if s.openVars.isEmpty then .ok s
    else invalidShape ("shape " ++ s.text ++ " has unbound type parameters") s.text
where
  refuse (shown : String) : Except Failure Shape :=
    invalidShape (shown ++ " is not a functional descriptor") shown

/-- The annotations of a callable value; an instance has those of the nearest class with any. -/
def callableHints (v : Value) : Except Failure (List (String × Ty)) :=
  match v with
  | .code f | .method _ f =>
    match Callee.function? f with
    | some id => Γ.readHints id
    | none => .ok []
  | .type (.cls c) => Γ.readClassHints c
  | .object c _ =>
    match (Γ.mro c).find? fun k => !(Γ.classHints k).isEmpty with
    | some k => Γ.readClassHints k
    | none => .ok []
  | _ => .ok []

/-- The shape of an annotated callable value. -/
def shapeOfCallable (v : Value) : Except Failure Shape := do
  let shown := Γ.valueText h v
  match if Γ.isCallable v then Γ.signature? h v else none with
  | none => invalidShape ("cannot inspect signature of " ++ shown) shown
  | some s =>
    let hints ← Γ.callableHints v
    if s.isFixed then .ok (shapeOfSignature s hints)
    else
      invalidShape (shown ++ " has variable arity; a shape needs a fixed parameter list") shown

end Program

end CallAdapter
