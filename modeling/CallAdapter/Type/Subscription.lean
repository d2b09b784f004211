import CallAdapter.Type.Substitution

/-!
# Subscriptions

A type with arguments is made by a subscription: what stands before the bracket, with the arguments
as they were written. Classes with type parameters and the forms of the annotation language keep
the types they made. A subscription whose parts are the same as those of a kept one gives the very
type that was made then, in its spelling: the members of a union inside it stand in the order of the
first subscription, whatever the order of this one. Builtin classes keep nothing.

Only the types that a program writes are made here. Those that the library derives (normal forms,
replaced variables, the types of texts) are made anew each time.
-/

namespace CallAdapter

/-- What stands before the bracket. -/
inductive Subject
  | head (h : Head)
  | union
  /-- A type whose variables the arguments bind. -/
  | type (t : Ty)

/-- The functions of the annotation language that keep what they made, each on its own. -/
inductive Keeper
  | classes
  | aliases
  | lists
  | signatures
  | forms
  | remarks
  deriving DecidableEq

namespace Subject

def same : Subject → Subject → Bool
  | head h, head k => decide (h = k)
  | union, union => true
  | type t, type u => t.same u
  | _, _ => false

def hashable : Subject → Bool
  | type t => t.hashable
  | _ => true

/-- Where the types made for a subject are kept. A choice among plain values is kept by its values
and their classes in order, so the kept type is the one that would be made. -/
def keeper? : Subject → Option Keeper
  | head (.native _) | head .literal => none
  | head (.generic _) => some .classes
  | head .list => some .lists
  | head .callable => some .signatures
  | head .annotated => some .remarks
  | head .classVar | head .final | head .concatenate | union => some .forms
  | type (.applied (.native _) _) | type (.union true _) => none
  | type _ => some .aliases

/-- The parameters of a call signature as its alias keeps them. -/
def parameters : Ty → Ty
  | .list ps => .list (ps.map Ty.converted)
  | t => t

/-- A value of a choice among plain values, also where it was written as text. -/
def value : Ty → Ty
  | .null => .token (.other "None")
  | .text s => .token (.scalar (.str s))
  | t => t

/-- The type that a subscription makes; none when the subject does not take the arguments. -/
def make : Subject → List Ty → Option Ty
  | head (.native c), as => some (.applied (.native c) as)
  | head .literal, as => some (Ty.literalOf (as.map value))
  | head .annotated, as => some (.applied .annotated ((as.take 1).map Ty.converted))
  | head .callable, [ps, r] => some (.applied .callable [parameters ps, r.converted])
  | head .callable, _ => none
  | head h, as => some (.applied h (as.map Ty.converted))
  | union, as => some (Ty.unionOf (as.map Ty.converted))
  | type t, as =>
    if t.freeVars.isEmpty || t.hasParams || as.length != t.freeVars.length then none
    else some (t.replaceVars (Bindings.get? (t.freeVars.zip (as.map Ty.converted))))

end Subject

structure Subscription where
  subject : Subject
  args : List Ty

namespace Subscription

/-- Whether two subscriptions have the same parts. -/
def same (s t : Subscription) : Bool := s.subject.same t.subject && Ty.sameAll s.args t.args

/-- Where the type that a subscription makes is kept; none when it has parts that are no keys. -/
def keeper? (s : Subscription) : Option Keeper :=
  if s.subject.hashable && Ty.allHashable s.args then s.subject.keeper? else none

def make (s : Subscription) : Option Ty := s.subject.make s.args

/-- Whether a kept type was made by an equal subscription. -/
def made (s : Subscription) (e : Subscription × Ty) : Bool := e.1.same s

end Subscription

/-- Types with the subscriptions that made them, the last used first. -/
abbrev KeptTypes := List (Subscription × Ty)

namespace KeptTypes

/-- The number of types that are kept. -/
def capacity : Nat := 128

/-- The type of a subscription, and what is kept after it. -/
def answer (kept : KeptTypes) (s : Subscription) : Option Ty × KeptTypes :=
  match kept.find? s.made with
  | some e => (some e.2, (e :: kept.eraseP s.made).take capacity)
  | none =>
    match s.make with
    | some t => (some t, ((s, t) :: kept).take capacity)
    | none => (none, kept)

end KeptTypes

/-- The types that a program made so far. -/
abbrev Subscriptions := Keeper → KeptTypes

namespace Subscriptions

def empty : Subscriptions := fun _ => []

/-- The type of a subscription; none when its subject does not take the arguments. -/
def subscribe (s : Subscription) : StateM Subscriptions (Option Ty) := fun σ =>
  match s.keeper? with
  | none => (s.make, σ)
  | some k =>
    let (t, kept) := (σ k).answer s
    (t, fun j => if j = k then kept else σ j)

end Subscriptions

end CallAdapter
