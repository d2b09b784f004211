import CallAdapter.Program.Signature

/-!
# Containers

A container is a class or an alias of one. `Program.split` gives the class together with what its
type variables stand for: the arguments of the alias, and the arguments that parametrized bases
pass on along the way up. A variable that is already bound keeps its binding.
-/

namespace CallAdapter

namespace Program

variable (Γ : Program)

/-- The bases of a class as they were spelled, its own or its nearest ancestor's. -/
def spelledBases (c : Cls) : List Ty :=
  ((Γ.mro c).findSome? fun
    | .declared d => (Γ.info? d).bind (·.spelledBases)
    | .builtin .cell => some [.applied (.generic (.builtin .generic)) [.var .cellContent]]
    | .builtin _ => none).getD []

/-- Adds what the parametrized bases of a class bind, following at most `fuel` steps up. -/
def baseBindings : (fuel : Nat) → Cls → Bindings → Bindings
  | 0, _, m => m
  | fuel + 1, c, m =>
    (Γ.spelledBases c).foldl (fun m base =>
      match base.origin? with
      | some (.cls (.builtin .generic)) => m
      | some (.cls o) =>
        let args := base.args.map fun a => a.substitute m
        let m := ((Γ.parameters o).zip args).foldl (fun m b => m.setDefault b.1 b.2) m
        baseBindings fuel o m
      | _ => m) m

/-- The class behind a container, if there is one. -/
def containerClass (t : Ty) : Ty :=
  match t.origin? with
  | some (.cls o) => .cls o
  | _ => t

/-- Later bindings of a variable replace earlier ones in their place. -/
def zipBindings : List (TypeVar × Ty) → Bindings → Bindings
  | [], m => m
  | (v, t) :: bs, m =>
    let m' : Bindings :=
      if (m.get? v).isSome then m.map fun b => if b.1 = v then (v, t) else b else m ++ [(v, t)]
    zipBindings bs m'

/-- What the arguments of an alias stand for. -/
def argumentBindings (t : Ty) : Bindings :=
  match t.origin? with
  | some (.cls o) => zipBindings ((Γ.parameters o).zip t.args) []
  | _ => []

/-- The class of a container and the bindings that the container implies. -/
def split (t : Ty) : Ty × Bindings :=
  match containerClass t with
  | .cls c => (.cls c, Γ.baseBindings (Γ.classes.length + 2) c (Γ.argumentBindings t))
  | other => (other, Γ.argumentBindings t)

end Program

end CallAdapter
