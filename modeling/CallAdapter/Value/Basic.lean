import CallAdapter.Type.Normal

/-!
# Values

What programs compute with. Plain data and immutable containers are held directly. Objects are
references to the heap that carry their class, which never changes. Types, functions and bound
methods are values too, and so is the mark for an unbound receiver.
-/

namespace CallAdapter

inductive Value
  | none
  /-- The mark for "nothing is bound", different from binding the absent value. -/
  | unbound
  | scalar (s : Scalar)
  | tuple (vs : List Value)
  | set (frozen : Bool) (vs : List Value)
  | dict (kvs : List (Value × Value))
  /-- A member of an enumeration, by its canonical name. -/
  | member (c : ClassRef) (name : String)
  | object (c : Cls) (addr : Nat)
  | type (t : Ty)
  | code (f : Callee)
  | method (receiver : Value) (f : Callee)

namespace Value

instance : Inhabited Value := ⟨none⟩

abbrev int (n : Int) : Value := scalar (.int n)

abbrev bool (b : Bool) : Value := scalar (.bool b)

abbrev str (s : String) : Value := scalar (.str s)

def isNone : Value → Bool
  | none => true
  | _ => false

def isUnbound : Value → Bool
  | unbound => true
  | _ => false

/-- The value behind a token; one whose object is not known stays in the place of a type. -/
def ofToken : Token → Value
  | .scalar s => scalar s
  | .object c addr _ => object c addr
  | .member c name _ => member c name
  | .code f _ => code f
  | .tuple ts => tuple (ts.map fun t =>
    match t with
    | .scalar s => scalar s
    | t => type (.token t))
  | t => type (.token t)

/-- The value that a type is when it is handed around. -/
def ofTy : Ty → Value
  | .null => none
  | .text s => str s
  | .token t => ofToken t
  | t => type t

/-- Whether two values are the same object; plain data counts as one object per value. -/
def identical : Value → Value → Bool
  | none, none | unbound, unbound => true
  | scalar a, scalar b => decide (a = b)
  | member c a, member d b => decide (c = d) && a == b
  | object _ a, object _ b => a == b
  | type s, type t => s.same t
  | code f, code g => decide (f = g)
  | _, _ => false

mutual

/-- Equality as programs see it: plain data by value, containers by their elements, and
references by identity. -/
def equal : Value → Value → Bool
  | none, none | unbound, unbound => true
  | scalar a, scalar b => a.equal b
  | tuple as, tuple bs => equalAll as bs
  | set _ as, set _ bs => allWithin as bs && bs.all fun b => someEqual as b
  | dict as, dict bs => entriesWithin as bs && as.length == bs.length
  | member c a, member d b => decide (c = d) && a == b
  | object _ a, object _ b => a == b
  | type s, type t => s.same t
  | code f, code g => decide (f = g)
  | method v f, method w g => equal v w && decide (f = g)
  | _, _ => false

def equalAll : List Value → List Value → Bool
  | [], [] => true
  | a :: as, b :: bs => equal a b && equalAll as bs
  | _, _ => false

def allWithin : List Value → List Value → Bool
  | [], _ => true
  | a :: as, bs => bs.any (equal a) && allWithin as bs

def someEqual : List Value → Value → Bool
  | [], _ => false
  | a :: as, b => equal a b || someEqual as b

def entriesWithin : List (Value × Value) → List (Value × Value) → Bool
  | [], _ => true
  | (k, v) :: as, bs => bs.any (fun b => equal k b.1 && equal v b.2) && entriesWithin as bs

end

end Value

end CallAdapter
