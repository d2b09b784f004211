import CallAdapter.Class.Builtin
import CallAdapter.Number.Decimal
import CallAdapter.Number.Shortest
import CallAdapter.Text.Quoted

/-!
# Plain data

Values without identity: truth values, numbers, text and bytes. They compare by their numerical
value across classes, add within the numeric tower, and have a text for messages.
-/

namespace CallAdapter

inductive Scalar
  | bool (b : Bool)
  | int (n : Int)
  | float (x : Binary64)
  | complex (re im : Binary64)
  | str (s : String)
  | bytes (bs : List UInt8)
  | decimal (d : Decimal)
  | fraction (q : Rat)
  deriving DecidableEq, Repr

namespace Scalar

def classOf : Scalar → Builtin
  | bool _ => .bool
  | int _ => .int
  | float _ => .float
  | complex _ _ => .complex
  | str _ => .str
  | bytes _ => .bytes
  | decimal _ => .decimal
  | fraction _ => .fraction

/-- A point of the number line with its two infinite ends, or no number at all. -/
inductive Extended
  | rational (q : Rat)
  | infinity (negative : Bool)
  | undefined
  deriving DecidableEq

def extended : Binary64 → Extended
  | .nan => .undefined
  | .infinity negative => .infinity negative
  | .finite negative m e => .rational (scaled 2 (if negative then -(m : Int) else m) e)

def extendedDecimal : Decimal → Extended
  | .nan .. => .undefined
  | .infinity negative => .infinity negative
  | .finite negative c e => .rational (scaled 10 (if negative then -(c : Int) else c) e)

/-- Real and imaginary part of a number; text and bytes are no numbers. -/
def parts : Scalar → Option (Extended × Extended)
  | bool b => some (.rational (if b then 1 else 0), .rational 0)
  | int n => some (.rational n, .rational 0)
  | float x => some (extended x, .rational 0)
  | complex re im => some (extended re, extended im)
  | decimal d => some (extendedDecimal d, .rational 0)
  | fraction q => some (.rational q, .rational 0)
  | str _ | bytes _ => none

/-- Equality of an undefined point fails, also with itself. -/
def Extended.equal : Extended → Extended → Bool
  | .rational p, .rational q => decide (p = q)
  | .infinity a, .infinity b => a == b
  | _, _ => false

/-- Equality as programs see it: numbers of any class by value, text and bytes by content. -/
def equal (a b : Scalar) : Bool :=
  match a, b with
  | str s, str t => s == t
  | bytes s, bytes t => s == t
  | _, _ =>
    match a.parts, b.parts with
    | some p, some q => p.1.equal q.1 && p.2.equal q.2
    | _, _ => false

/-- Why two scalars have no sum. -/
inductive SumFault
  | unsupported
  | overflow
  | invalid
  deriving DecidableEq, Repr

/-- The integer that a truth value or integer stands for. -/
def toInt? : Scalar → Option Int
  | bool b => some (if b then 1 else 0)
  | int n => some n
  | _ => none

/-- The rational that an exact real number stands for. -/
def toRat? : Scalar → Option Rat
  | fraction q => some q
  | s => s.toInt?.map fun n => (n : Rat)

/-- The binary number that a real operand of a binary sum becomes. -/
def toBinary? : Scalar → Except SumFault Binary64
  | float x => .ok x
  | fraction q =>
    let x := Binary64.ofRat q
    if x.isFinite then .ok x else .error .overflow
  | s =>
    match s.toInt? with
    | some n =>
      match Binary64.ofInt? n with
      | some x => .ok x
      | none => .error .overflow
    | none => .error .unsupported

/-- The sum of two scalars within the numeric tower, and the concatenation of text and bytes. -/
def add (a b : Scalar) : Except SumFault Scalar :=
  match a, b with
  | str s, str t => .ok (str (s ++ t))
  | bytes s, bytes t => .ok (bytes (s ++ t))
  | decimal c, decimal d =>
    match c.add d with
    | some r => .ok (decimal r)
    | none => .error .invalid
  | decimal c, other | other, decimal c =>
    match other.toInt? with
    | some n =>
      match c.add (Decimal.ofInt n) with
      | some r => .ok (decimal r)
      | none => .error .invalid
    | none => .error .unsupported
  | complex r i, complex s j => .ok (complex (r.add s) (i.add j))
  | complex r i, other => do return complex (r.add (← other.toBinary?)) (i.add Binary64.zero)
  | other, complex r i => do return complex ((← other.toBinary?).add r) (Binary64.zero.add i)
  | float x, other => do return float (x.add (← other.toBinary?))
  | other, float x => do return float ((← other.toBinary?).add x)
  | _, _ =>
    match a.toInt?, b.toInt? with
    | some m, some n => .ok (int (m + n))
    | _, _ =>
      match a.toRat?, b.toRat? with
      | some p, some q => .ok (fraction (p + q))
      | _, _ => .error .unsupported

/-- The text of a part of a complex number: without a fraction that is zero. -/
def partText (x : Binary64) : String :=
  let t := x.decimalText
  if t.endsWith ".0" then String.ofList (t.toList.take (t.length - 2)) else t

def complexText (re im : Binary64) : String :=
  if re == Binary64.zero then partText im ++ "j"
  else
    let sign := if im.isNegative then "" else "+"
    "(" ++ partText re ++ sign ++ partText im ++ "j)"

/-- The text that messages show for a scalar. -/
def text : Scalar → String
  | bool b => if b then "True" else "False"
  | int n => toString n
  | float x => x.decimalText
  | complex re im => complexText re im
  | str s => Text.quoted s
  | bytes bs => Text.quotedBytes bs
  | decimal d => "Decimal('" ++ d.text ++ "')"
  | fraction q => "Fraction(" ++ toString q.num ++ ", " ++ toString q.den ++ ")"

/-- Whether a scalar has a text: integers of too many digits have none, and neither have fractions
of such integers. -/
def isWritable : Scalar → Bool
  | int n => decide (digitCount n.natAbs ≤ maxDigits)
  | fraction q => decide (digitCount q.num.natAbs ≤ maxDigits ∧ digitCount q.den ≤ maxDigits)
  | _ => true

/-- Whether a scalar can be the key of a table: all but a signaling decimal. -/
def hashable : Scalar → Bool
  | decimal (.nan _ signaling _) => !signaling
  | _ => true

theorem toRat?_int (n : Int) : (int n).toRat? = some (n : Rat) := rfl

theorem toRat?_fraction (q : Rat) : (fraction q).toRat? = some q := rfl

end Scalar

end CallAdapter
