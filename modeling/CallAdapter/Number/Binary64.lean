import CallAdapter.Number.Rounding

/-!
# Binary floating-point numbers of 64 bits

A finite number is `± significand * 2 ^ exponent`. Every number built here is in the form of
least exponent: the significand has 53 bits, or the exponent is the smallest one, -1074.
Arithmetic is done on rationals and rounded once, to nearest with ties to even.
-/

namespace CallAdapter

-- Powers are the ones of the core library, whatever other instances are in scope.
attribute [local instance (high)] instPowNat

inductive Binary64
  | nan
  | infinity (negative : Bool)
  | finite (negative : Bool) (significand : Nat) (exponent : Int)
  deriving DecidableEq, Repr, Inhabited

namespace Binary64

/-- The least exponent of a finite number. -/
def minExponent : Int := -1074

/-- The largest exponent of a finite number. -/
def maxExponent : Int := 971

def zero : Binary64 := finite false 0 minExponent

/-- Rounds `num / den` (with `den` positive) to the nearest number of the given sign. -/
def ofQuotient (negative : Bool) (num den : Nat) : Binary64 :=
  if num = 0 then finite negative 0 minExponent
  else
    let guess : Int := (Nat.log2 num : Int) - (Nat.log2 den : Int) - 52
    let scaledBy (e : Int) : Nat × Nat :=
      if 0 ≤ e then (num, den * 2 ^ e.toNat) else (num * 2 ^ (-e).toNat, den)
    let low := scaledBy guess
    let e := max minExponent (if low.1 < 2 ^ (52 : Nat) * low.2 then guess - 1 else guess)
    let q := scaledBy e
    let m := roundDiv q.1 q.2
    let (m, e) := if m = 2 ^ (53 : Nat) then (2 ^ (52 : Nat), e + 1) else (m, e)
    if maxExponent < e then infinity negative else finite negative m e

/-- The number nearest to a rational. -/
def ofRat (q : Rat) : Binary64 := ofQuotient (decide (q.num < 0)) q.num.natAbs q.den

def ofInt (n : Int) : Binary64 := ofRat n

/-- The exact value of a finite number. -/
def toRat? : Binary64 → Option Rat
  | finite negative m e => some (scaled 2 (if negative then -(m : Int) else m) e)
  | _ => none

def isFinite (x : Binary64) : Bool := x.toRat?.isSome

def isNegative : Binary64 → Bool
  | nan => false
  | infinity negative => negative
  | finite negative _ _ => negative

/-- The integer part, toward zero; infinities and NaN have none. -/
def toInt? (x : Binary64) : Option Int := x.toRat?.map truncate

/-- Numerical equality: a NaN equals nothing and the two zeros are equal. -/
def numericEq : Binary64 → Binary64 → Bool
  | infinity a, infinity b => a == b
  | finite a m e, finite b n f =>
    decide (scaled 2 (if a then -(m : Int) else m) e = scaled 2 (if b then -(n : Int) else n) f)
  | _, _ => false

/-- The sum, rounded once. A zero sum is negative only when both summands are. -/
def add : Binary64 → Binary64 → Binary64
  | nan, _ => nan
  | _, nan => nan
  | infinity a, infinity b => if a = b then infinity a else nan
  | infinity a, _ => infinity a
  | _, infinity b => infinity b
  | finite a m e, finite b n f =>
    let sum := scaled 2 (if a then -(m : Int) else m) e + scaled 2 (if b then -(n : Int) else n) f
    if sum = 0 then finite (a && b) 0 minExponent else ofRat sum

/-- The absolute value. -/
def abs : Binary64 → Binary64
  | nan => nan
  | infinity _ => infinity false
  | finite _ m e => finite false m e

/-- The integer `n` as a number, unless it is too large for every finite one. -/
def ofInt? (n : Int) : Option Binary64 :=
  let x := ofInt n
  if x.isFinite then some x else none

theorem toInt?_nan : nan.toInt? = none := rfl

theorem toInt?_infinity (s : Bool) : (infinity s).toInt? = none := rfl

end Binary64

end CallAdapter
