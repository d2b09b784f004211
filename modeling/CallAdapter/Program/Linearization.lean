/-!
# Linear orders of ancestors

`linearize?` merges the orders of several bases into one: it repeatedly takes the first head that
stands in no other tail. Every given order is kept, and where the orders contradict each other there
is no result.
-/

namespace CallAdapter

-- Sums start from the zero of the core library, whatever other instances are in scope.
attribute [local instance (high)] Zero.ofOfNat0

namespace Linearization

variable {α : Type} [DecidableEq α]

/-- A head that stands in no tail. -/
def nextHead? (orders : List (List α)) : Option α :=
  orders.findSome? fun
    | [] => none
    | a :: _ => if orders.any fun o => o.tail.contains a then none else some a

/-- Drops an element where it is the head. -/
def dropHead (a : α) : List α → List α
  | [] => []
  | b :: bs => if b = a then bs else b :: bs

/-- Merges orders, in at most `fuel` elements. -/
def merge : (fuel : Nat) → List (List α) → Option (List α)
  | 0, orders => if orders.all List.isEmpty then some [] else none
  | fuel + 1, orders =>
    if orders.all List.isEmpty then some []
    else do
      let a ← nextHead? orders
      let rest ← merge fuel (orders.map (dropHead a))
      some (a :: rest)

/-- The order of a class from the orders of its bases. -/
def linearize? (self : α) (bases : List (α × List α)) : Option (List α) :=
  let orders := bases.map (·.2) ++ [bases.map (·.1)]
  (merge (orders.map List.length).sum orders).map (self :: ·)

theorem linearize?_nil (self : α) : linearize? self [] = some [self] := by
  simp [linearize?, merge]

end Linearization

end CallAdapter
