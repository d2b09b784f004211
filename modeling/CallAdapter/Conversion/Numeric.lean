import CallAdapter.Number.Reading
import CallAdapter.Value.Text

/-!
# Numeric conversions

The conversions between number classes that change the representation. Each is exact or correctly
rounded: integers are taken toward zero, decimals and fractions of binary numbers are exact, and a
fraction becomes a decimal by a division in the default context.
-/

namespace CallAdapter

inductive NumericRule
  | toInt
  | toFloat
  | toDecimal
  | toFraction
  /-- Numerator divided by denominator, as decimals. -/
  | quotient
  deriving DecidableEq, Repr

namespace NumericRule

def valueError : Failure := .exception .valueError none

def overflow : Failure := .exception .overflow none

def intOf : Scalar → Except Failure Int
  | .bool b => .ok (if b then 1 else 0)
  | .int n => .ok n
  | .float .nan => .error valueError
  | .float (.infinity _) => .error overflow
  | .float (.finite negative m e) => .ok (truncate (scaled 2 (if negative then -(m : Int) else m) e))
  | .decimal (.finite negative c e) =>
    .ok (truncate (scaled 10 (if negative then -(c : Int) else c) e))
  | .decimal (.infinity _) => .error overflow
  | .decimal (.nan ..) => .error valueError
  | .fraction q => .ok (truncate q)
  | .str s =>
    match Reading.intOfText? s with
    | some n => .ok n
    | none => .error valueError
  | .bytes bs =>
    match Reading.intOfText? (String.ofList (bs.map fun b => Char.ofNat b.toNat)) with
    | some n => .ok n
    | none => .error valueError
  | .complex _ _ => .error .typeError

/-- A rational as a binary number; one beyond the largest is an overflow. -/
def binaryOf (q : Rat) : Except Failure Binary64 :=
  let x := Binary64.ofRat q
  if x.isFinite then .ok x else .error overflow

def floatOf : Scalar → Except Failure Binary64
  | .bool b => binaryOf (if b then 1 else 0)
  | .int n => binaryOf n
  | .float x => .ok x
  | .decimal d =>
    match d.toBinary64? with
    | some x => .ok x
    | none => .error valueError
  | .fraction q => binaryOf q
  | .str s =>
    match Reading.binaryOfText? s with
    | some x => .ok x
    | none => .error valueError
  | .bytes bs =>
    match Reading.binaryOfText? (String.ofList (bs.map fun b => Char.ofNat b.toNat)) with
    | some x => .ok x
    | none => .error valueError
  | .complex _ _ => .error .typeError

def decimalOf : Scalar → Except Failure Decimal
  | .bool b => .ok (Decimal.ofInt (if b then 1 else 0))
  | .int n => .ok (Decimal.ofInt n)
  | .float x => .ok (Decimal.ofBinary64 x)
  | .decimal d => .ok d
  | .str s =>
    match Decimal.ofText? s with
    | some d => .ok d
    | none => .error (.exception .invalidOperation none)
  | .fraction _ | .bytes _ | .complex _ _ => .error .typeError

def fractionOf : Scalar → Except Failure Rat
  | .bool b => .ok (if b then 1 else 0)
  | .int n => .ok n
  | .fraction q => .ok q
  | .float .nan => .error valueError
  | .float (.infinity _) => .error overflow
  | .float (.finite negative m e) => .ok (scaled 2 (if negative then -(m : Int) else m) e)
  | .decimal (.finite negative c e) => .ok (scaled 10 (if negative then -(c : Int) else c) e)
  | .decimal (.infinity _) => .error overflow
  | .decimal (.nan ..) => .error valueError
  | .str s =>
    match Reading.fractionOfText? s with
    | .ok q => .ok q
    | .error .malformed => .error valueError
    | .error .zeroDenominator => .error (.exception (.named "ZeroDivisionError") none)
  | .bytes _ | .complex _ _ => .error .typeError

def quotientOf (s : Scalar) : Except Failure Decimal :=
  match s.toRat? with
  | some q =>
    match Decimal.divide? q.num q.den with
    | some d => .ok d
    | none => .error overflow
  | none => .error .attributeError

/-- Applies a rule to plain data. -/
def applyScalar (rule : NumericRule) (s : Scalar) : Except Failure Scalar :=
  match rule with
  | toInt => (intOf s).map .int
  | toFloat => (floatOf s).map .float
  | toDecimal => (decimalOf s).map .decimal
  | toFraction => (fractionOf s).map .fraction
  | quotient => (quotientOf s).map .decimal

/-- Why a value that is no plain data is refused. -/
def refusal (h : Heap) (rule : NumericRule) (v : Value) : Failure :=
  match rule, v with
  | toDecimal, .tuple _ => valueError
  | toDecimal, .object _ addr =>
    match h.payloadAt addr with
    | .items _ => valueError
    | .value (.tuple _) => valueError
    | _ => .typeError
  | quotient, _ => .attributeError
  | _, _ => .typeError

end NumericRule

namespace Program

/-- The classes of plain data that others derive from. -/
def plainClasses : List Builtin := [.int, .float, .complex, .str, .bytes, .decimal, .fraction]

/-- The plain data that a value is or, for members of enumerations of plain data and instances of
subclasses of plain classes, stands for. -/
def plain? (Γ : Program) (h : Heap) : Value → Option Scalar
  | .scalar s => some s
  | .object _ addr =>
    match h.payloadAt addr with
    | .value (.scalar s) => some s
    | _ => none
  | .member c name =>
    if plainClasses.any fun b => Γ.derives (.declared c) (.builtin b) then
      match Γ.memberValue c name with
      | some (.scalar s) => some s
      | _ => none
    else none
  | _ => none

/-- Whether messages can show a value, which depends on the plain data that it stands for. -/
def isWritable (Γ : Program) (h : Heap) (v : Value) : Bool :=
  ((Γ.plain? h v).map Scalar.isWritable).getD true

/-- Applies a numeric rule to a value. -/
def convertNumber (Γ : Program) (h : Heap) (rule : NumericRule) (v : Value) :
    Except Failure Value :=
  match Γ.plain? h v with
  | some s => (rule.applyScalar s).map .scalar
  | none => .error (rule.refusal h v)

end Program

end CallAdapter
