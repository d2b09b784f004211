/-!
# Builtin classes

The classes that exist before any is declared: plain data, containers, capability interfaces,
numbers, enumerations, and the classes of functions, types and adapters. Each has a printed
name, a module, an ancestor chain and the capabilities that it offers.
-/

namespace CallAdapter

inductive Builtin
  | object | none | any | bool | int | float | complex | str | bytes | decimal | fraction
  | list | tuple | dict | set | frozenset
  | cell
  | hashable | sized | iterable | iterator | container | collection | sequence
  | mutableSequence | mapping | mutableMapping | setView | callable
  | number | complexNumber | realNumber | rational | integral
  | enum | reprEnum | intEnum | abstractBase | generic | protocol
  | baseException | exception
  | metaclass | abstractMeta | enumMeta | protocolMeta | anyMeta
  | function | method | builtinFunction | methodDescriptor | slotDescriptor | computedDescriptor
  | property | staticMethod | classMethod | cachedProperty
  | nativeAlias | typingAlias | callableAlias | unionAlias | pipeUnion | literalAlias
  | annotatedForm | annotatedAlias | concatenateAlias | bareAlias | specialForm | typeVariable | parameterVariable
  | forwardReference | ellipsis | unbound
  | adapter | invoker | creator | deferred
  deriving DecidableEq, Repr, Inhabited

namespace Builtin

/-- The name that messages print. -/
def name : Builtin → String
  | object => "object" | none => "NoneType" | any => "Any" | bool => "bool" | int => "int"
  | float => "float" | complex => "complex" | str => "str" | bytes => "bytes"
  | decimal => "Decimal" | fraction => "Fraction" | list => "list" | tuple => "tuple"
  | dict => "dict" | set => "set" | frozenset => "frozenset" | cell => "Ref"
  | hashable => "Hashable" | sized => "Sized" | iterable => "Iterable" | iterator => "Iterator"
  | container => "Container" | collection => "Collection" | sequence => "Sequence"
  | mutableSequence => "MutableSequence" | mapping => "Mapping"
  | mutableMapping => "MutableMapping" | setView => "Set" | callable => "Callable"
  | number => "Number" | complexNumber => "Complex" | realNumber => "Real"
  | rational => "Rational" | integral => "Integral" | enum => "Enum" | reprEnum => "ReprEnum"
  | intEnum => "IntEnum" | abstractBase => "ABC" | generic => "Generic" | protocol => "Protocol"
  | baseException => "BaseException" | exception => "Exception" | metaclass => "type"
  | abstractMeta => "ABCMeta" | enumMeta => "EnumType" | protocolMeta => "_ProtocolMeta"
  | anyMeta => "_AnyMeta" | function => "function" | method => "method"
  | builtinFunction => "builtin_function_or_method" | methodDescriptor => "method_descriptor"
  | slotDescriptor => "member_descriptor" | computedDescriptor => "getset_descriptor"
  | property => "property" | staticMethod => "staticmethod" | classMethod => "classmethod"
  | cachedProperty => "cached_property" | nativeAlias => "GenericAlias"
  | typingAlias => "_GenericAlias" | callableAlias => "_CallableGenericAlias"
  | unionAlias => "_UnionGenericAlias" | pipeUnion => "UnionType"
  | literalAlias => "_LiteralGenericAlias" | annotatedForm => "Annotated" | annotatedAlias => "_AnnotatedAlias"
  | concatenateAlias => "_ConcatenateGenericAlias" | bareAlias => "_SpecialGenericAlias"
  | specialForm => "_SpecialForm" | typeVariable => "TypeVar" | parameterVariable => "ParamSpec"
  | forwardReference => "ForwardRef" | ellipsis => "ellipsis" | unbound => "_Unbound"
  | adapter => "Thunk" | invoker => "Invoker" | creator => "InstanceCreator"
  | deferred => "LazyThunk"

/-- The module prefix inside a printed alias; classes of the language itself have none. -/
def moduleName : Builtin → String
  | any | generic | protocol | annotatedForm => "typing"
  | decimal => "decimal" | fraction => "fractions" | cell => "thunkforge.typeinfo"
  | hashable | sized | iterable | iterator | container | collection | sequence
  | mutableSequence | mapping | mutableMapping | setView | callable => "collections.abc"
  | number | complexNumber | realNumber | rational | integral => "numbers"
  | enum | reprEnum | intEnum => "enum"
  | abstractBase => "abc"
  | _ => "builtins"

/-- The class itself followed by its ancestors, nearest first. -/
def ancestry : Builtin → List Builtin
  | object => [object]
  | bool => [bool, int, object]
  | fraction => [fraction, rational, realNumber, complexNumber, number, object]
  | cell => [cell, generic, object]
  | iterator => [iterator, iterable, object]
  | collection => [collection, sized, iterable, container, object]
  | sequence => [sequence, collection, sized, iterable, container, object]
  | mutableSequence =>
    [mutableSequence, sequence, collection, sized, iterable, container, object]
  | mapping => [mapping, collection, sized, iterable, container, object]
  | mutableMapping =>
    [mutableMapping, mapping, collection, sized, iterable, container, object]
  | setView => [setView, collection, sized, iterable, container, object]
  | complexNumber => [complexNumber, number, object]
  | realNumber => [realNumber, complexNumber, number, object]
  | rational => [rational, realNumber, complexNumber, number, object]
  | integral => [integral, rational, realNumber, complexNumber, number, object]
  | reprEnum => [reprEnum, enum, object]
  | intEnum => [intEnum, int, reprEnum, enum, object]
  | protocol => [protocol, generic, object]
  | exception => [exception, baseException, object]
  | abstractMeta => [abstractMeta, metaclass, object]
  | enumMeta => [enumMeta, metaclass, object]
  | protocolMeta => [protocolMeta, abstractMeta, metaclass, object]
  | anyMeta => [anyMeta, metaclass, object]
  | b => [b, object]

/-- Whether the class is an abstract interface: capabilities, numbers and what derives from them. -/
def isAbstract : Builtin → Bool
  | hashable | sized | iterable | iterator | container | collection | sequence
  | mutableSequence | mapping | mutableMapping | setView | callable
  | number | complexNumber | realNumber | rational | integral
  | fraction | abstractBase | protocol => true
  | _ => false

/-- The interfaces that the class is registered for without deriving from them. -/
def registeredFor : Builtin → List Builtin
  | int => [integral]
  | float => [realNumber]
  | complex => [complexNumber]
  | decimal => [number]
  | str | bytes | tuple => [sequence]
  | list => [mutableSequence]
  | dict => [mutableMapping]
  | set | frozenset => [setView]
  | _ => []

/-- The single operations that structural interfaces look for. -/
inductive Operation
  | size | iterate | contains | call | advance
  deriving DecidableEq, Repr

/-- The operations that the class itself defines. -/
def defines : Builtin → Operation → Bool
  | str, op | bytes, op | list, op | tuple, op | dict, op | set, op | frozenset, op
  | collection, op | sequence, op | mapping, op | setView, op =>
    op == .size || op == .iterate || op == .contains
  | mutableSequence, op | mutableMapping, op => op == .size || op == .iterate || op == .contains
  | sized, op => op == .size
  | container, op => op == .contains
  | iterable, op => op == .iterate
  | iterator, op => op == .iterate || op == .advance
  | callable, op => op == .call
  | metaclass, op | abstractMeta, op | protocolMeta, op | anyMeta, op => op == .call
  | enumMeta, op => op == .call || op == .size || op == .iterate || op == .contains
  | function, op | method, op | builtinFunction, op | methodDescriptor, op
  | staticMethod, op => op == .call
  | nativeAlias, op => op == .call || op == .iterate
  | typingAlias, op | callableAlias, op => op == .call || op == .iterate
  | unionAlias, op | literalAlias, op | annotatedAlias, op | concatenateAlias, op
  | bareAlias, op | specialForm, op => op == .call
  | adapter, op | invoker, op | creator, op | deferred, op => op == .call
  | _, _ => false

/-- Whether the class settles hashing: `some false` withdraws it, `none` leaves it to ancestors. -/
def hashing : Builtin → Option Bool
  | list | dict | set | cell | number | complexNumber | mapping | setView => some false
  | hashable | object | int | float | complex | str | bytes | decimal | fraction | tuple
  | frozenset | enum => some true
  | _ => Option.none

theorem mem_ancestry_self (b : Builtin) : b ∈ b.ancestry := by cases b <;> decide

theorem object_mem_ancestry (b : Builtin) : object ∈ b.ancestry := by cases b <;> decide

end Builtin

end CallAdapter
