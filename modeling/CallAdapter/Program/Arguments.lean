import CallAdapter.Program.Basic

/-!
# Arguments

How the arguments of a call reach the parameters of a function. Arguments by position fill the
parameters in order and what is left over goes to the variadic parameter; arguments by name fill
the parameters of their names and what is left over goes to the variadic keyword parameter; what
is still missing takes its default. A call that leaves something over or missing is a type error.
-/

namespace CallAdapter

/-- The values that parameters have in a body, in the order of declaration. -/
abbrev Environment := List (String × Value)

namespace Param

/-- Whether the parameter takes an argument by position. -/
def takesPosition (p : Param) : Bool := p.passing == .positionalOnly || p.passing == .positional

/-- Whether the parameter takes an argument by its name. -/
def takesName (p : Param) : Bool := p.passing == .positional || p.passing == .keyword

end Param

namespace Environment

def get? (env : Environment) (name : String) : Option Value :=
  (env.find? fun e => e.1 == name).map (·.2)

/-- The value of one parameter from what was given by position and by name. -/
def bindParam (byPosition byName : Environment) (extra : List Value) (unknown : Environment)
    (p : Param) : Except Failure Value :=
  let given (named : Bool) : Except Failure Value :=
    let byName := if named then byName.get? p.name else none
    match (byPosition.get? p.name).or (byName.or p.default) with
    | some v => .ok v
    | none => .error .typeError
  match p.passing with
  | .positionalOnly => given false
  | .positional | .keyword => given true
  | .variadic => .ok (.tuple extra)
  | .variadicKeyword => .ok (.dict (unknown.map fun e => (.str e.1, e.2)))

/-- Binds the arguments of a call to parameters. -/
def bind (params : List Param) (positional : List Value) (keywords : Environment) :
    Except Failure Environment := do
  let slots := params.filter Param.takesPosition
  let byPosition : Environment := (slots.map (·.name)).zip positional
  let extra := positional.drop slots.length
  let isNamed (e : String × Value) : Bool := params.any fun p => p.takesName && p.name == e.1
  let unknown := keywords.filter fun e => !isNamed e
  let twice := keywords.any fun e => isNamed e && (byPosition.get? e.1).isSome
  let takes (k : Passing) : Bool := params.any fun p => p.passing == k
  if !extra.isEmpty && !takes .variadic then throw .typeError
  if !unknown.isEmpty && !takes .variadicKeyword then throw .typeError
  if twice then throw .typeError
  params.mapM fun p => do
    pure (p.name, ← bindParam byPosition keywords extra unknown p)

theorem bind_nil : bind [] [] [] = .ok [] := rfl

end Environment

end CallAdapter
