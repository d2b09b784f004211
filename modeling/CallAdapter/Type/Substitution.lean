import CallAdapter.Type.Normal

/-!
# Type variables

The variables that a type still has to bind, in the order of their first appearance, and their
replacement by types. Replacing rebuilds unions, so members that become equal merge.
-/

namespace CallAdapter

/-- Variables with the types they stand for. -/
abbrev Bindings := List (TypeVar × Ty)

namespace Bindings

def get? (m : Bindings) (v : TypeVar) : Option Ty :=
  (m.find? fun b => decide (b.1 = v)).map (·.2)

/-- Adds a binding unless the variable has one. -/
def setDefault (m : Bindings) (v : TypeVar) (t : Ty) : Bindings :=
  if (m.get? v).isSome then m else m ++ [(v, t)]

theorem get?_nil (v : TypeVar) : get? [] v = none := rfl

end Bindings

namespace Ty

/-- Keeps the first of equal variables, in order. -/
def distinctVars : List TypeVar → List TypeVar
  | [] => []
  | v :: vs => v :: (distinctVars vs).filter fun w => decide (w ≠ v)

mutual

/-- Every occurrence of a variable, from left to right. -/
def varOccurrences : Ty → List TypeVar
  | var v => [v]
  | applied .literal _ => []
  | applied _ as => varsOfAll as
  | union _ ms => varsOfAll ms
  | list ts => varsOfAll ts
  | _ => []

def varsOfAll : List Ty → List TypeVar
  | [] => []
  | t :: ts => varOccurrences t ++ varsOfAll ts

end

/-- The variables of a type, each once. A bare parameter list has none. -/
def freeVars : Ty → List TypeVar
  | list _ => []
  | t => distinctVars t.varOccurrences

mutual

/-- Whether a parameter variable stands somewhere in the type. -/
def hasParams : Ty → Bool
  | params _ => true
  | applied _ as => anyHasParams as
  | union _ ms => anyHasParams ms
  | list ts => anyHasParams ts
  | _ => false

def anyHasParams : List Ty → Bool
  | [] => false
  | t :: ts => hasParams t || anyHasParams ts

end

mutual

/-- Replaces variables inside a type. -/
def replaceVars (get : TypeVar → Option Ty) : Ty → Ty
  | var v => (get v).getD (var v)
  | applied .literal as => applied .literal as
  | applied h as => applied h (replaceAll get as)
  | union false ms => unionOf (replaceAll get ms)
  | union true ms => pipeOf (replaceAll get ms)
  | list ts => list (replaceAll get ts)
  | t => t

def replaceAll (get : TypeVar → Option Ty) : List Ty → List Ty
  | [] => []
  | t :: ts => replaceVars get t :: replaceAll get ts

end

/-- Replaces the variables of a type that have a binding. Inside another type the replacements are
converted as arguments are. A type with a parameter variable cannot be given arguments one by one
and stays as it is. -/
def substitute (t : Ty) (m : Bindings) : Ty :=
  if m.isEmpty then t
  else
    match t with
    | var v => (m.get? v).getD t
    | _ =>
      if t.freeVars.isEmpty then t
      else if t.hasParams then t
      else normalize (replaceVars (fun v => (m.get? v).map converted) t)

theorem substitute_nil (t : Ty) : t.substitute [] = t := rfl

end Ty

end CallAdapter
