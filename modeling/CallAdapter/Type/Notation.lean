import CallAdapter.Type.Subscription

/-!
# Types written as text

A text annotation is an expression: names, attributes of the `typing` name, subscripts, pipes,
parameter lists and the absent value. `Notation.read?` reads it and `Notation.resolve?` finds the
type that it denotes in a scope; both give none where the text is no expression or a name in it is
unknown, and the annotation then stays text.
-/

namespace CallAdapter

namespace Notation

inductive Lexeme
  | name (s : String)
  | text (s : String)
  | number (n : Nat)
  | mark (c : Char)
  | dots
  deriving DecidableEq, Repr

def isNameStart (c : Char) : Bool := c.isAlpha || c == '_' || 128 ≤ c.toNat

def isNamePart (c : Char) : Bool := isNameStart c || c.isDigit

/-- Splits the text; the fuel is the number of characters. -/
def lexemes : (fuel : Nat) → List Char → Option (List Lexeme)
  | _, [] => some []
  | 0, _ => none
  | fuel + 1, c :: cs =>
    if c == ' ' || c == '\t' then lexemes fuel cs
    else if isNameStart c then
      let word := c :: cs.takeWhile isNamePart
      (lexemes fuel (cs.dropWhile isNamePart)).map (.name (String.ofList word) :: ·)
    else if c.isDigit then
      let digits := c :: cs.takeWhile Char.isDigit
      let n := digits.foldl (fun n d => n * 10 + (d.toNat - '0'.toNat)) 0
      (lexemes fuel (cs.dropWhile Char.isDigit)).map (.number n :: ·)
    else if c == '\'' || c == '"' then
      let body := cs.takeWhile (· ≠ c)
      match cs.dropWhile (· ≠ c) with
      | [] => none
      | _ :: rest => (lexemes fuel rest).map (.text (String.ofList body) :: ·)
    else if c == '.' then
      match cs with
      | '.' :: '.' :: rest => (lexemes fuel rest).map (.dots :: ·)
      | _ => (lexemes fuel cs).map (.mark c :: ·)
    else if c ∈ ['[', ']', ',', '|', '(', ')'] then (lexemes fuel cs).map (.mark c :: ·)
    else none

inductive Term
  | name (s : String)
  | text (s : String)
  | number (n : Nat)
  | dots
  | attr (t : Term) (name : String)
  | subscript (t : Term) (args : List Term)
  | pipe (a b : Term)
  | list (ts : List Term)

mutual

/-- Reads a term: operands joined by pipes. -/
def term : (fuel : Nat) → List Lexeme → Option (Term × List Lexeme)
  | 0, _ => none
  | fuel + 1, ls => do
    let (a, rest) ← operand fuel ls
    pipes fuel a rest

def pipes : (fuel : Nat) → Term → List Lexeme → Option (Term × List Lexeme)
  | 0, a, ls => some (a, ls)
  | fuel + 1, a, ls =>
    match ls with
    | .mark '|' :: rest => do
      let (b, rest) ← operand fuel rest
      pipes fuel (.pipe a b) rest
    | _ => some (a, ls)

/-- Reads an atom with its attributes and subscripts. -/
def operand : (fuel : Nat) → List Lexeme → Option (Term × List Lexeme)
  | 0, _ => none
  | fuel + 1, ls =>
    match ls with
    | .name s :: rest => trailers fuel (.name s) rest
    | .text s :: rest => trailers fuel (.text s) rest
    | .number n :: rest => some (.number n, rest)
    | .dots :: rest => some (.dots, rest)
    | .mark '(' :: rest => do
      let (t, rest) ← term fuel rest
      match rest with
      | .mark ')' :: rest => trailers fuel t rest
      | _ => none
    | .mark '[' :: .mark ']' :: rest => some (.list [], rest)
    | .mark '[' :: rest => do
      let (ts, rest) ← terms fuel rest
      some (.list ts, rest)
    | _ => none

def trailers : (fuel : Nat) → Term → List Lexeme → Option (Term × List Lexeme)
  | 0, a, ls => some (a, ls)
  | fuel + 1, a, ls =>
    match ls with
    | .mark '.' :: .name s :: rest => trailers fuel (.attr a s) rest
    | .mark '[' :: rest => do
      let (ts, rest) ← terms fuel rest
      trailers fuel (.subscript a ts) rest
    | _ => some (a, ls)

/-- Reads terms between commas up to the closing bracket. -/
def terms : (fuel : Nat) → List Lexeme → Option (List Term × List Lexeme)
  | 0, _ => none
  | fuel + 1, ls => do
    let (t, rest) ← term fuel ls
    match rest with
    | .mark ']' :: rest => some ([t], rest)
    | .mark ',' :: .mark ']' :: rest => some ([t], rest)
    | .mark ',' :: rest => do
      let (ts, rest) ← terms fuel rest
      some (t :: ts, rest)
    | _ => none

end

def read? (text : String) : Option Term := do
  let ls ← lexemes text.length text.toList
  let (t, rest) ← term (6 * ls.length + 6) ls
  if rest.isEmpty then some t else none

/-- The builtin classes and forms by the names that annotations use. -/
def builtinNamed? : String → Option Ty
  | "None" => some .null
  | "ClassVar" => some (.form .classVar)
  | "Final" => some (.form .final)
  | "List" => some (.form .list)
  | s =>
    let classes : List Builtin :=
      [.int, .float, .bool, .complex, .str, .bytes, .object, .list, .dict, .tuple, .set, .frozenset,
        .metaclass, .decimal, .fraction, .cell, .hashable, .sized, .iterable, .iterator, .container,
        .collection, .sequence, .mutableSequence, .mapping, .mutableMapping, .setView, .callable,
        .number, .complexNumber, .realNumber, .rational, .integral, .enum, .intEnum, .abstractBase,
        .exception, .any, .none, .generic, .protocol]
    (classes.find? fun b => b.name == s).map Ty.builtin

/-- What names and subscripts mean. -/
structure Scope where
  lookup : String → Option Ty
  subscript : Ty → List Ty → Option Ty

/-- The forms that take arguments in text. -/
def formSubject? : String → Option Subject
  | "ClassVar" => some (.head .classVar)
  | "Final" => some (.head .final)
  | "List" => some (.head .list)
  | "Callable" => some (.head .callable)
  | "Annotated" => some (.head .annotated)
  | "Literal" => some (.head .literal)
  | "Union" => some .union
  | _ => none

mutual

def denote (scope : Scope) : Term → Option Ty
  | .name "None" => some .null
  | .name s => scope.lookup s
  | .text s => some (.text s)
  | .number n => some (.token (.scalar (.int n)))
  | .dots => some .ellipsis
  | .attr (.name "typing") s =>
    if s == "Any" then some .any
    else if s == "ClassVar" then some (.form .classVar)
    else if s == "Final" then some (.form .final)
    else if s == "List" then some (.form .list)
    else none
  | .attr _ _ => none
  | .subscript (.name "Optional") [a] | .subscript (.attr (.name "typing") "Optional") [a] => do
    some (Ty.unionOf [Ty.converted (← denote scope a), .none])
  | .subscript (.attr (.name "typing") s) as => do
    (← formSubject? s).make (← denoteAll scope as)
  | .subscript h as => do
    let h ← denote scope h
    let as ← denoteAll scope as
    scope.subscript h as
  | .pipe a b => do
    let a ← denote scope a
    let b ← denote scope b
    some (Ty.pipe a b)
  | .list ts => do some (.list (← denoteAll scope ts))

def denoteAll (scope : Scope) : List Term → Option (List Ty)
  | [] => some []
  | t :: ts => do
    let u ← denote scope t
    let us ← denoteAll scope ts
    some (u :: us)

end

/-- The type that a text denotes. -/
def resolve? (scope : Scope) (text : String) : Option Ty := do
  let t ← read? text
  denote scope t

end Notation

end CallAdapter
