import CallAdapter.Program.Subclass
import CallAdapter.Type.Notation

/-!
# Signatures

How functions, classes and other callable values take their arguments, and what their annotations
say. Annotations written as text are evaluated in the scope of the program's classes, all those of a
function or class or none: one text that means nothing leaves them all as they were written. There
are two readers. Members are read by one that takes a text as meaning nothing whenever it fails to
evaluate (`Program.functionHints`), shapes by one that lets other failures through
(`Program.readHints`).
-/

namespace CallAdapter

/-- Parameters in order, and whether the result is annotated. -/
structure Signature where
  params : ParameterList
  hasResult : Bool

namespace Signature

/-- The signature without its first parameter, which a receiver takes. A parameter that takes any
number of arguments stays, and a receiver that cannot be passed by position makes it invalid. -/
def bound? (s : Signature) : Option Signature :=
  match s.params with
  | (_, .positionalOnly) :: ps | (_, .positional) :: ps => some { s with params := ps }
  | (_, .variadic) :: _ => some s
  | _ => none

end Signature

namespace Program

variable (Γ : Program)

/-- What names in annotation texts mean. -/
def scope (locals : String → Option Ty) : Notation.Scope where
  lookup s :=
    match locals s with
    | some t => some t
    | none =>
      match Γ.classNamed? s with
      | some c => some (.cls (.declared c))
      | none => Notation.builtinNamed? s
  subscript := Γ.subscript

/-- What a text comes to as an annotation. -/
def evaluate (locals : String → Option Ty) (s : String) : Evaluation :=
  match Notation.resolve? (Γ.scope locals) s with
  | some t => .denotes t
  | none => Γ.foreign s

/-- Evaluates the texts among annotations, up to the first that does not denote a type. -/
def evaluateAll (locals : String → Option Ty) (as : List (String × Ty)) :
    Except (Option ExceptionKind) (List (String × Ty)) :=
  as.mapM fun a =>
    match a.2 with
    | .text s =>
      match Γ.evaluate locals s with
      | .denotes t => .ok (a.1, t)
      | .unknown => .error none
      | .raises kind => .error (some kind)
    | t => .ok (a.1, t)

/-- Annotations with their texts evaluated, or as they are where one does not denote a type. -/
def resolveAll (locals : String → Option Ty) (as : List (String × Ty)) : List (String × Ty) :=
  match Γ.evaluateAll locals as with
  | .ok bs => bs
  | .error _ => as

/-- Annotations with their texts evaluated, or as they are where one means nothing. -/
def readAll (locals : String → Option Ty) (as : List (String × Ty)) :
    Except Failure (List (String × Ty)) :=
  match Γ.evaluateAll locals as with
  | .ok bs => .ok bs
  | .error none => .ok as
  | .error (some kind) => .error (.exception kind none)

/-- The annotations of a function, as members are read. -/
def functionHints (id : Nat) : List (String × Ty) :=
  match Γ.function? id with
  | none => []
  | some f => Γ.resolveAll (fun _ => none) f.annotations

/-- The annotations of a function, as shapes are read. -/
def readHints (id : Nat) : Except Failure (List (String × Ty)) :=
  match Γ.function? id with
  | none => .ok []
  | some f => Γ.readAll (fun _ => none) f.annotations

/-- The type that a value is when it stands in an annotation. -/
def typeOfValue : Value → Ty
  | .none => .null
  | .type t => t
  | .scalar (.str s) => .text s
  | .scalar s => .token (.scalar s)
  | _ => .token (.other "")

/-- What names mean in the annotations of a class: they may be entries of its namespace. -/
def classLocals (i : ClassInfo) (s : String) : Option Ty :=
  (i.namespaceEntries.find? fun e => e.1 == s).map fun e => typeOfValue e.2

/-- A class's own annotations, as members are read. -/
def classHints : Cls → List (String × Ty)
  | .builtin .cell => [("value", .var .cellContent)]
  | .builtin _ => []
  | .declared c =>
    match Γ.info? c with
    | none => []
    | some i => Γ.resolveAll (classLocals i) i.annotations

/-- A class's own annotations, as shapes are read. -/
def readClassHints : Cls → Except Failure (List (String × Ty))
  | .builtin b => .ok (Γ.classHints (.builtin b))
  | .declared c =>
    match Γ.info? c with
    | none => .ok []
    | some i => Γ.readAll (classLocals i) i.annotations

def hint? (hints : List (String × Ty)) (name : String) : Option Ty :=
  (hints.find? fun x => x.1 == name).map (·.2)

/-- The parameters of a declared function. -/
def functionSignature (id : Nat) : Option Signature :=
  (Γ.function? id).map fun f =>
    ⟨f.params.map fun p => (p.name, p.passing), f.returns.isSome⟩

/-- The function that a callee runs, if it is a declared one. -/
def Callee.function? : Callee → Option Nat
  | .function id | .staticMethod id | .classMethod id => some id
  | _ => none

variable (h : Heap)

/-- The nearest declared definition of a class's own creation or initialisation function. A
builtin class that has one of its own hides those further away. -/
def nearestMaker (c : Cls) (name : String) : Option (Cls × Value) :=
  (Γ.mro c).findSome? fun
    | .builtin .object => none
    | k =>
      match (h.entries Γ k).find? fun e => e.1 == name with
      | some e => some (k, e.2)
      | none =>
        match k with
        | .builtin .cell => if name == "__init__" then some (k, .none) else none
        | .builtin b =>
          if name == "__new__" then
            if b.makesInstances || b.creationParameters.isSome then some (k, .none) else none
          else if b == .list || b == .dict || b == .set || b == .baseException then some (k, .none)
          else none
        | .declared _ => none

/-- How a class is called to make an instance; none where nothing states it. -/
def classSignature (c : Cls) : Option Signature :=
  if Γ.derives c (.builtin .enum) then some ⟨Builtin.enumParameters, false⟩
  else
    let stated : Option Signature :=
      match (Γ.mro c).findSome? fun
          | .builtin b => b.statedParameters
          | .declared _ => none with
      | some ps => some ⟨ps, false⟩
      | none =>
        if (Γ.mro c).any fun
            | .builtin b => b.makesInstances
            | .declared _ => false
        then none else some ⟨[], false⟩
    let fromInit : Option Signature :=
      match Γ.nearestMaker h c "__init__" with
      | some (_, .code (.function id)) => (Γ.functionSignature id).bind Signature.bound?
      | some (.builtin .cell, _) => some ⟨[("value", .positional)], false⟩
      | _ => stated
    match Γ.nearestMaker h c "__new__" with
    | some (_, .code f) =>
      match Callee.function? f with
      | some id => (Γ.functionSignature id).bind Signature.bound?
      | none => fromInit
    | some (.builtin b, _) =>
      match b.creationParameters with
      | some ps => some ⟨ps, false⟩
      | none => fromInit
    | _ => fromInit

/-- Whether a value can be called. -/
def isCallable (v : Value) : Bool :=
  match v with
  | .type (.cls _) => true
  | _ => Γ.offers (Γ.classOf v) .call

/-- The signature of a callable value; none where it has none. -/
def signature? : Value → Option Signature
  | .code f =>
    match f with
    | .function id | .staticMethod id => Γ.functionSignature id
    | .builtin name => (Builtin.functionParameters name).map fun ps => ⟨ps, false⟩
    | .builtinMethod b name => (b.methodParametersOf name).map fun ps => ⟨ps, false⟩
    | _ => none
  | .method _ f =>
    match f with
    | .function id | .classMethod id => (Γ.functionSignature id).bind Signature.bound?
    | .builtinMethod b name =>
      ((b.methodParametersOf name).map fun ps => (⟨ps, false⟩ : Signature)).bind Signature.bound?
    | _ => none
  | .type (.cls c) => Γ.classSignature h c
  | .type (.applied (.native _) _) => none
  | .type (.applied _ _) => some ⟨[("args", .variadic), ("kwargs", .variadicKeyword)], false⟩
  | .object (.builtin .invoker) _ =>
    some ⟨[("instance", .positional), ("args", .variadic)], false⟩
  | .object (.builtin .adapter) _ | .object (.builtin .creator) _
  | .object (.builtin .deferred) _ => some ⟨[("args", .variadic)], false⟩
  | v =>
    match h.findEntry Γ (Γ.classOf v) "__call__" with
    | some (_, .code (.function id)) => (Γ.functionSignature id).bind Signature.bound?
    | some (_, .code (.staticMethod id)) => Γ.functionSignature id
    | some (_, .code (.classMethod id)) => (Γ.functionSignature id).bind Signature.bound?
    | _ => none

end Program

end CallAdapter
