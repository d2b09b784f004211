import CallAdapter.Member.Basic

/-!
# Call shapes

The calling contract that an adapter satisfies: ordered parameter types and a result type, all in
normal form. Two shapes are equal when their types are the same in order.
-/

namespace CallAdapter

structure Shape where
  params : List Ty
  returns : Ty

namespace Shape

/-- Builds a shape from types in any spelling. -/
def make (params : List Ty) (returns : Ty) : Shape := ⟨params.map Ty.normalize, returns.normalize⟩

def arity (s : Shape) : Nat := s.params.length

def returnsVoid (s : Shape) : Bool := s.returns.isVoid

/-- Whether the first parameter would be the receiver of a member of instances. -/
def hasReceiver (s : Shape) (isInstance : Bool) : Bool := isInstance && decide (1 ≤ s.arity)

def text (s : Shape) : String :=
  "(" ++ String.intercalate ", " (s.params.map Ty.name) ++ ") -> " ++ s.returns.name

def same (s t : Shape) : Bool := Ty.sameAll s.params t.params && s.returns.same t.returns

/-- Whether comparing the shapes is refused: types are compared in order, until two differ. -/
def refusesComparison (s t : Shape) : Bool :=
  Ty.refusesAny s.params t.params ||
    Ty.sameAll s.params t.params && Ty.refusesComparison s.returns t.returns

def hashable (s : Shape) : Bool := Ty.allHashable s.params && s.returns.hashable

theorem arity_make (params : List Ty) (returns : Ty) :
    (make params returns).arity = params.length := by simp [make, arity]

end Shape

end CallAdapter
