import CallAdapter.Value.Basic

/-!
# Namespaces of builtin classes

The members of builtin classes that a look-up by name can find, and how the ones with a signature
take their arguments.
-/

namespace CallAdapter

/-- How a parameter takes its arguments. -/
inductive Passing
  | positionalOnly
  | positional
  | variadic
  | keyword
  | variadicKeyword
  deriving DecidableEq, Repr

/-- Parameter names with the way each takes arguments. -/
abbrev ParameterList := List (String × Passing)

namespace Builtin

/-- The namespace entries of a builtin class, without the machinery of classes. -/
def entries (b : Builtin) : List (String × Value) :=
  let methods (names : List String) : List (String × Value) :=
    names.map fun n => (n, .code (.builtinMethod b n))
  let computed (names : List String) : List (String × Value) :=
    names.map fun n => (n, .code (.computed b n))
  let slots (names : List String) : List (String × Value) :=
    names.map fun n => (n, .code (.slot (.builtin b) n))
  let properties (names : List String) : List (String × Value) :=
    names.map fun n => (n, .code (.builtinProperty b n))
  match b with
  | int =>
    methods ["bit_length", "from_bytes"] ++ computed ["real", "imag", "numerator", "denominator"]
  | float => computed ["real", "imag"]
  | complex => slots ["real", "imag"]
  | str => methods ["upper", "split", "replace", "count"]
  | list => methods ["append", "sort", "count"]
  | tuple => methods ["count"]
  | dict => methods ["get"]
  | fraction =>
    slots ["_numerator", "_denominator"] ++ properties ["numerator", "denominator"]
  | enum => computed ["name", "value"]
  | _ => []

/-- The parameters of a builtin method with its receiver first; some methods state none. -/
def methodParameters : String → Option ParameterList
  | "bit_length" | "upper" => some [("self", .positionalOnly)]
  | "from_bytes" =>
    some [("type", .positionalOnly), ("bytes", .positional), ("byteorder", .positional),
      ("signed", .keyword)]
  | "split" => some [("self", .positionalOnly), ("sep", .positional), ("maxsplit", .positional)]
  | "replace" =>
    some [("self", .positionalOnly), ("old", .positionalOnly), ("new", .positionalOnly),
      ("count", .positionalOnly)]
  | "append" => some [("self", .positionalOnly), ("object", .positionalOnly)]
  | "sort" => some [("self", .positionalOnly), ("key", .keyword), ("reverse", .keyword)]
  | "get" =>
    some [("self", .positionalOnly), ("key", .positionalOnly), ("default", .positionalOnly)]
  | _ => Option.none

/-- The parameters of a method of one class, where classes differ. -/
def methodParametersOf (b : Builtin) (name : String) : Option ParameterList :=
  match b, name with
  | str, "count" => Option.none
  | _, "count" => some [("self", .positionalOnly), ("value", .positionalOnly)]
  | _, n => methodParameters n

/-- The parameters of a function of the language. -/
def functionParameters : String → Option ParameterList
  | "len" => some [("obj", .positionalOnly)]
  | "abs" => some [("x", .positionalOnly)]
  | _ => Option.none

/-- The parameters of a class's own creation function that is written out in full, without the
class itself. -/
def creationParameters : Builtin → Option ParameterList
  | fraction =>
    some [("numerator", .positional), ("denominator", .positional), ("_normalize", .keyword)]
  | any | annotatedForm => some [("args", .variadic), ("kwargs", .variadicKeyword)]
  | _ => Option.none

/-- The parameters that the documentation of a class states for making an instance. -/
def statedParameters : Builtin → Option ParameterList
  | complex => some [("real", .positional), ("imag", .positional)]
  | float => some [("x", .positionalOnly)]
  | list | tuple => some [("iterable", .positionalOnly)]
  | decimal => some [("value", .positional), ("context", .positional)]
  | _ => Option.none

/-- How an enumeration is called. -/
def enumParameters : ParameterList :=
  [("value", .positional), ("names", .positional), ("module", .keyword), ("qualname", .keyword),
    ("type", .keyword), ("start", .keyword), ("boundary", .keyword)]

/-- Whether the class makes or initialises instances in a way of its own. -/
def makesInstances : Builtin → Bool
  | bool | int | float | complex | str | bytes | decimal | fraction | list | tuple | dict | set
  | frozenset | metaclass | baseException | exception => true
  | _ => false

/-- Public functions of interfaces, which count as further call signatures. -/
def publicFunctions : Builtin → List String
  | complexNumber | realNumber => ["conjugate"]
  | sequence => ["count", "index"]
  | mutableSequence => ["append", "clear", "extend", "insert", "pop", "remove", "reverse"]
  | mapping => ["get", "items", "keys", "values"]
  | mutableMapping => ["clear", "pop", "popitem", "setdefault", "update"]
  | setView => ["isdisjoint"]
  | fraction =>
    ["as_integer_ratio", "conjugate", "from_decimal", "from_float", "limit_denominator"]
  | _ => []

/-- The methods that real numbers leave to their subclasses. -/
def realMethods : List String :=
    ["__add__", "__radd__", "__neg__", "__pos__", "__mul__", "__rmul__", "__truediv__",
      "__rtruediv__", "__pow__", "__rpow__", "__abs__", "__eq__", "__float__", "__trunc__",
      "__floor__", "__ceil__", "__round__", "__floordiv__", "__rfloordiv__", "__mod__", "__rmod__",
      "__lt__", "__le__"]

/-- The abstract methods that an interface leaves to its subclasses. -/
def abstractMethods : Builtin → List String
  | hashable => ["__hash__"]
  | sized => ["__len__"]
  | iterable => ["__iter__"]
  | iterator => ["__next__"]
  | container => ["__contains__"]
  | callable => ["__call__"]
  | collection => ["__len__", "__iter__", "__contains__"]
  | sequence => ["__getitem__", "__len__"]
  | mutableSequence => ["__getitem__", "__len__", "__setitem__", "__delitem__", "insert"]
  | mapping => ["__getitem__", "__iter__", "__len__"]
  | mutableMapping => ["__getitem__", "__iter__", "__len__", "__setitem__", "__delitem__"]
  | setView => ["__contains__", "__iter__", "__len__"]
  | complexNumber =>
    ["__complex__", "real", "imag", "__add__", "__radd__", "__neg__", "__pos__", "__mul__",
      "__rmul__", "__truediv__", "__rtruediv__", "__pow__", "__rpow__", "__abs__", "conjugate",
      "__eq__"]
  | realNumber => realMethods
  | rational => realMethods ++ ["numerator", "denominator"]
  | integral =>
    realMethods ++
      ["__int__", "__lshift__", "__rlshift__", "__rshift__", "__rrshift__", "__and__", "__rand__",
        "__xor__", "__rxor__", "__or__", "__ror__", "__invert__"]
  | _ => []

end Builtin

end CallAdapter
