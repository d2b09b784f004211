import CallAdapter.Type.Text

/-!
# Faults and failures

A `Fault` is an error of this library: a kind, with the data that belongs to the kind, a message,
a stable reason code, and the names of member, container and shape where they are known. A
`Failure` is whatever ends a computation early: a fault, or an exception of a member body or of
the operations that it uses.
-/

namespace CallAdapter

inductive FaultKind
  | general
  /-- A required input was absent. -/
  | argumentNull (argument : Option String)
  /-- A descriptor does not describe exactly one call signature. -/
  | invalidShape
  /-- The member or its container still has unbound type parameters. -/
  | openGeneric
  /-- No member with a compatible signature exists under the given name. -/
  | memberNotFound
  /-- A property or field exists but lacks the requested accessor. -/
  | noSuchAccessor
  /-- A parameter or result cannot be converted to the member's type. -/
  | conversionImpossible
  /-- An adapter was called with the wrong number of arguments. -/
  | arityMismatch (expected got : Int)
  /-- An assignment was refused. -/
  | accessDenied
  /-- An instance member was invoked without a receiver. -/
  | nullReceiver
  /-- A checked conversion failed on a value. -/
  | cast (valueType targetType : Option String)
  deriving DecidableEq, Repr

/-- Classes of exceptions besides faults. -/
inductive ExceptionKind
  | typeError
  | valueError
  | attributeError
  | overflow
  | invalidOperation
  | recursion
  /-- What waits for itself, and never goes on. -/
  | blocked
  /-- Assignment to an attribute of a frozen instance. -/
  | frozenField (name : String)
  /-- An exception class named by a member body. -/
  | named (name : String)
  deriving DecidableEq, Repr

namespace FaultKind

/-- The reason code that faults of the kind carry unless they state another. -/
def reason : FaultKind → String
  | general => "thunk_error"
  | argumentNull _ => "argument_null"
  | invalidShape => "invalid_shape_descriptor"
  | openGeneric => "open_generic_target"
  | memberNotFound => "member_not_found"
  | noSuchAccessor => "no_such_accessor"
  | conversionImpossible => "conversion_impossible"
  | arityMismatch _ _ => "arity_mismatch"
  | accessDenied => "access_denied"
  | nullReceiver => "null_receiver"
  | cast _ _ => "cast_error"

/-- The kinds that a fault also counts as, besides its own and the general one. -/
def alsoCountsAs : FaultKind → List FaultKind
  | noSuchAccessor => [memberNotFound]
  | _ => []

/-- Whether a fault also is a value error, a type error or a lookup error. -/
def standardKind : FaultKind → Option String
  | argumentNull _ => some "ValueError"
  | invalidShape | arityMismatch _ _ | cast _ _ => some "TypeError"
  | memberNotFound | noSuchAccessor => some "LookupError"
  | _ => none

/-- Faults that building an adapter reports even under a lenient policy. -/
def alwaysRaised : FaultKind → Bool
  | argumentNull _ | invalidShape => true
  | _ => false

end FaultKind

structure Fault where
  kind : FaultKind
  message : String
  reason : String := kind.reason
  member : Option String := none
  container : Option String := none
  shape : Option String := none
  deriving DecidableEq, Repr

namespace Fault

/-- The text for people: reason code and message, then the names that are known. -/
def human (f : Fault) : String :=
  let part (label : String) : Option String → List String
    | some text => if text.isEmpty then [] else [label ++ "=" ++ text]
    | none => []
  String.intercalate " " (("[" ++ f.reason ++ "] " ++ f.message) ::
    (part "container" f.container ++ part "member" f.member ++ part "shape" f.shape))

def argumentNull (argument message : String) : Fault :=
  ⟨.argumentNull (some argument), message, FaultKind.reason (.argumentNull none), none, none, none⟩

/-- A cast that failed with a message of its own. -/
def castWith (valueType dest : Ty) (message : String) : Fault :=
  let kind := FaultKind.cast (some valueType.name) (some dest.name)
  ⟨kind, message, kind.reason, none, none, none⟩

/-- A value of one type was given where another is required. -/
def castFailed (valueType dest : Ty) : Fault :=
  castWith valueType dest
    ("cannot convert " ++ valueType.name ++ " value to " ++ dest.name)

def invalidShape (message shape : String) : Fault :=
  ⟨.invalidShape, message, FaultKind.invalidShape.reason, none, none, some shape⟩

end Fault

inductive Failure
  | fault (f : Fault)
  /-- An exception, with its text when a member body or this library gave it one. -/
  | exception (kind : ExceptionKind) (text : Option String)
  deriving DecidableEq, Repr

namespace Failure

def typeError : Failure := exception .typeError none

def attributeError : Failure := exception .attributeError none

/-- The arithmetic and value errors that a numeric conversion reports as failed casts. -/
def isArithmetic : Failure → Bool
  | exception .valueError _ | exception .overflow _ | exception .invalidOperation _ => true
  | exception (.named n) _ =>
    n == "ArithmeticError" || n == "ZeroDivisionError" || n == "FloatingPointError" ||
      n == "UnicodeError"
  | _ => false

end Failure

end CallAdapter
