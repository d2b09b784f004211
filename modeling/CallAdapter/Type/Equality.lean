import CallAdapter.Type.Basic

/-!
# Equality of types

Two types are the same when they describe the same choice: unions compare as sets of members in
either spelling, also inside aliases, choices among plain values as sets of values, each with its
class, and other aliases by what stands before the bracket and by their arguments. Planned
conversions are remembered under this equality. A type is usable as a key when no token inside it is
a mutable object.

Comparing types that are no keys can fail (`Ty.refusesComparison`). The types compared are taken to
be written apart: no part of one is the very object that stands in the other.
-/

namespace CallAdapter

namespace Token

mutual

/-- Equality of tokens as elements and keys compare: plain data by identity or value, references by
identity. -/
def same : Token → Token → Bool
  | scalar a, scalar b => decide (a = b) || a.equal b
  | object c a _, object d b _ => decide (c = d) && a == b
  | member c a _, member d b _ => decide (c = d) && a == b
  | code f _, code g _ => decide (f = g)
  | tuple as, tuple bs => sameAll as bs
  | list as, list bs => sameAll as bs
  | other a, other b => a == b
  | _, _ => false

def sameAll : List Token → List Token → Bool
  | [], [] => true
  | a :: as, b :: bs => same a b && sameAll as bs
  | _, _ => false

/-- Whether a token can be part of a key: lists and mutable builtin objects cannot. -/
def hashable : Token → Bool
  | scalar s => s.hashable
  | object (.builtin .list) _ _ | object (.builtin .cell) _ _ => false
  | list _ => false
  | tuple ts => allHashable ts
  | _ => true

def allHashable : List Token → Bool
  | [] => true
  | t :: ts => hashable t && allHashable ts

end

end Token

namespace Ty

/-- Whether two values of a choice are of one class, unless they are other objects than plain
data. -/
def ofOneClass : Ty → Ty → Bool
  | token (.scalar a), token (.scalar b) => decide (a.classOf = b.classOf)
  | _, _ => true

mutual

def same : Ty → Ty → Bool
  | null, null => true
  | cls c, cls d => decide (c = d)
  | form f, form g => decide (f = g)
  | text s, text t => s == t
  | forward s, forward t => s == t
  | var v, var w => decide (v = w)
  | params s, params t => s == t
  | union _ ms, union _ ns => allWithin false ms ns && ns.all fun n => someSame false ms n
  | applied h as, applied k bs =>
    decide (h = k) &&
      if h = .literal then allWithin true as bs && bs.all fun b => someSame true as b
      else sameAll as bs
  | list as, list bs => sameAll as bs
  | ellipsis, ellipsis => true
  | token a, token b => a.same b
  | _, _ => false

/-- Whether every type of the first list is the same as some type of the second; values also have
to be of one class. -/
def allWithin (values : Bool) : List Ty → List Ty → Bool
  | [], _ => true
  | m :: ms, ns =>
    (ns.any fun n => (!values || m.ofOneClass n) && same m n) && allWithin values ms ns

/-- Whether some type of the list is the same as `n`; values also have to be of one class. -/
def someSame (values : Bool) : List Ty → Ty → Bool
  | [], _ => false
  | m :: ms, n => (!values || m.ofOneClass n) && same m n || someSame values ms n

def sameAll : List Ty → List Ty → Bool
  | [], [] => true
  | a :: as, b :: bs => same a b && sameAll as bs
  | _, _ => false

end

/-- Whether the argument of an alias is a list where none belongs; only call signatures have a
list of parameters. -/
def misplacesList : Head → List Ty → Bool
  | .callable, _ | .native (.builtin .callable), _ => false
  | _, as => as.any fun a =>
    match a with
    | list _ => true
    | _ => false

mutual

/-- Whether a type can be a key. -/
def hashable : Ty → Bool
  | union _ ms => allHashable ms
  | applied h as => allHashable as && !misplacesList h as
  | list ts => allHashable ts
  | token t => t.hashable
  | _ => true

def allHashable : List Ty → Bool
  | [] => true
  | t :: ts => hashable t && allHashable ts

end

mutual

/-- Whether comparing the two types with each other is refused. Choices among plain values and
unions compare as sets, so members that cannot be elements make the comparison fail; arguments are
compared one by one up to the first difference. -/
def refusesComparison : Ty → Ty → Bool
  | union _ ms, union _ ns => !(allHashable ms && allHashable ns)
  | applied h as, applied k bs =>
    decide (h = k) &&
      if h = .literal then !(allHashable as && allHashable bs) else refusesAny as bs
  | list as, list bs => refusesAny as bs
  | _, _ => false

/-- Whether comparing two lists is refused before a difference is found. -/
def refusesAny : List Ty → List Ty → Bool
  | a :: as, b :: bs => refusesComparison a b || same a b && refusesAny as bs
  | _, _ => false

end

/-- Whether looking for a conversion between types in normal form is refused: the types themselves
are compared, and the arguments of two aliases over classes. A union in normal form was made from
members that can be elements, so it is never refused. -/
def refusesPlanning (s d : Ty) : Bool :=
  !s.isUnion && !d.isUnion && (refusesComparison s d ||
    s.isAlias && d.isAlias && s.origin.isClass && d.origin.isClass && refusesAny s.args d.args)

end Ty

end CallAdapter
