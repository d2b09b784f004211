import CallAdapter.Type.Equality

/-!
# Normal form of types

`Ty.normalize` folds the spellings that mean the same: the absent annotation is the class of the
absent value, a pipe union is a union, unresolved text is any type, and the wrappers for class
attributes, constants and remarks give way to what they wrap. Unions are built by `Ty.unionOf`,
which flattens, drops repeated members and returns a single survivor bare.
-/

namespace CallAdapter

namespace Ty

/-- The members of a union, or the type itself. -/
def flat : Ty → List Ty
  | union _ ms => ms
  | t => [t]

/-- Keeps the first of each group of same types, in order. -/
def dedupe : List Ty → List Ty
  | [] => []
  | t :: ts => t :: (dedupe ts).filter fun u => !same t u

/-- A union of members that are already flat; one member stands for itself. -/
def ofMembers (pipe : Bool) (ms : List Ty) : Ty :=
  match dedupe ms with
  | [t] => t
  | ds => union pipe ds

def unionOf (ts : List Ty) : Ty := ofMembers false (ts.flatMap flat)

/-- How an alias of the annotation language takes an argument: absent and text arguments are
converted. -/
def converted : Ty → Ty
  | null => none
  | text s => forward s
  | t => t

/-- Whether the pipe of this operand is the one of classes rather than of the annotation
language. -/
def pipesNatively : Ty → Bool
  | null | cls _ | union true _ | applied (.native _) _ => true
  | _ => false

/-- The union of two operands of a pipe. -/
def pipe (a b : Ty) : Ty :=
  if a.pipesNatively && b.pipesNatively then
    ofMembers true ((converted a).flat ++ (converted b).flat)
  else unionOf [converted a, converted b]

def pipeOf : List Ty → Ty
  | [] => none
  | t :: ts => ts.foldl pipe t

/-- Keeps the first of each group of equal values of one class, in order. -/
def dedupeValues : List Ty → List Ty
  | [] => []
  | t :: ts => t :: (dedupeValues ts).filter fun u => !(t.ofOneClass u && same t u)

/-- A choice among plain values, each kept once; values that cannot be compared as elements are
all kept. -/
def literalOf (values : List Ty) : Ty :=
  applied .literal (if allHashable values then dedupeValues values else values)

mutual

def normalize : Ty → Ty
  | null => none
  | text _ => any
  | union _ ms => unionOf (normalizeAll ms)
  | applied .classVar (a :: _) | applied .final (a :: _) | applied .annotated (a :: _) => normalize a
  | applied .classVar [] | applied .final [] | applied .annotated [] => any
  | form .classVar | form .final => any
  | t => t

def normalizeAll : List Ty → List Ty
  | [] => []
  | t :: ts => normalize t :: normalizeAll ts

end

/-- The union without its absent member; a single survivor is returned bare. -/
def stripOptional (t : Ty) : Ty :=
  if t.isUnion then
    match t.unionMembers.filter fun m => !m.isVoid with
    | [] => none
    | [m] => m
    | ms => unionOf ms
  else t

/-- The content type of a reference cell type. -/
def cellElement (t : Ty) : Ty :=
  match t.args with
  | a :: _ => normalize a
  | [] => any

/-- The content type of a reference cell type, and any other type itself. -/
def content (t : Ty) : Ty := if t.isCell then t.cellElement else t

theorem normalizeAll_eq_map (ts : List Ty) : normalizeAll ts = ts.map normalize := by
  induction ts with
  | nil => rfl
  | cons t ts ih => simp [normalizeAll, ih]

theorem normalize_cls (c : Cls) : normalize (cls c) = cls c := rfl

end Ty

end CallAdapter
