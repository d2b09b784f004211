import CallAdapter.Number.Binary64

/-!
# Decimal floating-point numbers

Decimals of any size with an explicit exponent, as in the General Decimal Arithmetic
specification: conversions between integers, binary numbers and decimals are exact, and a
quotient is rounded to the 28 digits and the least exponent of the default context, ties to even.
`text` writes the scientific string of the specification and `ofText?` reads it.
-/

namespace CallAdapter

-- Powers are the ones of the core library, whatever other instances are in scope.
attribute [local instance (high)] instPowNat

inductive Decimal
  | finite (negative : Bool) (coefficient : Nat) (exponent : Int)
  | infinity (negative : Bool)
  /-- A NaN with its diagnostic digits; a signaling one fails in conversions. -/
  | nan (negative signaling : Bool) (digits : String)
  deriving DecidableEq, Repr, Inhabited

namespace Decimal

/-- The number of digits that a computed result keeps. -/
def precision : Nat := 28

/-- The largest exponent of a leading digit that a computed result may have. -/
def maxLeadingExponent : Int := 999999

/-- The least exponent that a computed result may have. -/
def minExponent : Int := -1000026

def zero : Decimal := finite false 0 0

def ofInt (n : Int) : Decimal := finite (decide (n < 0)) n.natAbs 0

/-- The exact value of a finite decimal. -/
def toRat? : Decimal → Option Rat
  | finite negative c e => some (scaled 10 (if negative then -(c : Int) else c) e)
  | _ => none

theorem toRat?_ofInt (n : Int) : (ofInt n).toRat? = some (n : Rat) := by
  have h : (if decide (n < 0) = true then -(n.natAbs : Int) else n.natAbs) = n := by
    by_cases hn : n < 0
    · rw [decide_eq_true hn, if_pos rfl]
      omega
    · rw [decide_eq_false hn, if_neg Bool.false_ne_true]
      omega
  simp only [ofInt, toRat?, h, scaled]
  simp

/-- The integer part, toward zero. -/
def toInt? (d : Decimal) : Option Int := d.toRat?.map truncate

/-- The exact decimal of a binary number. -/
def ofBinary64 : Binary64 → Decimal
  | .nan => nan false false ""
  | .infinity negative => infinity negative
  | .finite negative m e =>
    if 0 ≤ e then finite negative (m * 2 ^ e.toNat) 0
    else
      -- halve while the significand is even, so that the expansion has no needless digits
      let rec reduce : Nat → Nat → Nat → Nat × Nat
        | 0, m, k => (m, k)
        | fuel + 1, m, k => if m % 2 = 0 ∧ 0 < k then reduce fuel (m / 2) (k - 1) else (m, k)
      let k := (-e).toNat
      if m = 0 then finite negative 0 0
      else
        let r := reduce k m k
        finite negative (r.1 * 5 ^ r.2) (-(r.2 : Int))

/-- The nearest binary number. A signaling NaN has none. -/
def toBinary64? : Decimal → Option Binary64
  | finite negative c e =>
    if c = 0 then some (.finite negative 0 Binary64.minExponent)
    else if 0 ≤ e then
      -- far above the largest finite number no power needs to be computed
      if 400 < e then some (.infinity negative)
      else some (Binary64.ofQuotient negative (c * 10 ^ e.toNat) 1)
    else if (digitCount c : Int) + e < -400 then some (.finite negative 0 Binary64.minExponent)
    else some (Binary64.ofQuotient negative c (10 ^ (-e).toNat))
  | infinity negative => some (.infinity negative)
  | nan _ signaling _ => if signaling then none else some .nan

/-- Shortens a result to the precision and the least exponent of the context, ties to even. -/
def round (negative : Bool) (coefficient : Nat) (exponent : Int) : Decimal :=
  let digits := digitCount coefficient
  let place := max exponent (max (exponent + digits - precision) minExponent)
  -- beyond all the digits nothing is left, however far the place is
  let c := roundDiv coefficient (10 ^ min (place - exponent).toNat (digits + 1))
  if digitCount c ≤ precision then finite negative c place
  else finite negative (c / 10) (place + 1)

/-- Divides a coefficient by ten while it is divisible and the exponent is below `ideal`. -/
def towardIdeal (ideal : Int) : (fuel : Nat) → (coefficient : Nat) → (exponent : Int) → Nat × Int
  | 0, c, e => (c, e)
  | fuel + 1, c, e =>
    if e < ideal ∧ c % 10 = 0 then towardIdeal ideal fuel (c / 10) (e + 1) else (c, e)

/-- The quotient of two integers in the default context; none when the result is too large. -/
def divide? (num : Int) (den : Nat) : Option Decimal :=
  let n := num.natAbs
  let negative := decide (num < 0)
  if n = 0 then some (finite negative 0 0)
  else
    let shift : Int := (digitCount den : Int) - (digitCount n : Int) + precision + 1
    let scaledNum := if 0 ≤ shift then n * 10 ^ shift.toNat else n
    let scaledDen := if 0 ≤ shift then den else den * 10 ^ (-shift).toNat
    let q := scaledNum / scaledDen
    let result :=
      if scaledNum % scaledDen = 0 then
        let r := towardIdeal 0 (digitCount q) q (-shift)
        round negative r.1 r.2
      else
        -- a sticky digit keeps an inexact quotient from looking like a tie
        round negative (if q % 5 = 0 then q + 1 else q) (-shift)
    match result with
    | finite s c e =>
      if maxLeadingExponent < e + (digitCount c : Int) - 1 then none else some (finite s c e)
    | other => some other

/-- Numerical equality; a NaN equals nothing. -/
def numericEq : Decimal → Decimal → Bool
  | infinity a, infinity b => a == b
  | finite a c e, finite b d f =>
    decide (scaled 10 (if a then -(c : Int) else c) e = scaled 10 (if b then -(d : Int) else d) f)
  | _, _ => false

/-- The sum of two finite decimals, at the lower exponent and shortened to the context. -/
def add : Decimal → Decimal → Option Decimal
  | nan s signaling t, _ => if signaling then none else some (nan s false t)
  | _, nan s signaling t => if signaling then none else some (nan s false t)
  | infinity a, infinity b => if a = b then some (infinity a) else none
  | infinity a, _ => some (infinity a)
  | _, infinity b => some (infinity b)
  | finite a c e, finite b d f =>
    let low := min e f
    let x := (if a then -(c : Int) else c) * 10 ^ (e - low).toNat
    let y := (if b then -(d : Int) else d) * 10 ^ (f - low).toNat
    let sum := x + y
    if sum = 0 then some (finite (a && b) 0 low)
    else some (round (decide (sum < 0)) sum.natAbs low)

/-- The digits of a decimal with a point at `place`, padded with zeros. -/
def pointAt (digits : List Char) (place : Int) : String :=
  if place ≤ 0 then
    "0." ++ String.ofList (List.replicate (-place).toNat '0' ++ digits)
  else if (digits.length : Int) ≤ place then
    String.ofList (digits ++ List.replicate (place.toNat - digits.length) '0')
  else String.ofList (digits.take place.toNat) ++ "." ++ String.ofList (digits.drop place.toNat)

def text : Decimal → String
  | nan negative signaling digits =>
    (if negative then "-" else "") ++ (if signaling then "sNaN" else "NaN") ++ digits
  | infinity negative => (if negative then "-" else "") ++ "Infinity"
  | finite negative c e =>
    let sign := if negative then "-" else ""
    let digits := Nat.toDigits 10 c
    let left := e + (digits.length : Int)
    if e ≤ 0 ∧ -6 < left then sign ++ pointAt digits left
    else
      let power := left - 1
      if power = 0 then sign ++ pointAt digits 1
      else
        sign ++ pointAt digits 1 ++ "E" ++ (if power < 0 then "-" else "+") ++
          toString power.natAbs

/-- The value of a run of decimal digits; none for an empty run or another character. -/
def natOfDigits? : List Char → Option Nat
  | [] => none
  | cs =>
    cs.foldl (fun acc c =>
      match acc with
      | some n => if c.isDigit then some (n * 10 + (c.toNat - '0'.toNat)) else none
      | none => none) (some 0)

/-- Reads the exponent part, with an optional sign; an absent part is zero. -/
def readPower : List Char → Option Int
  | [] => some 0
  | e :: cs =>
    if e = 'e' ∨ e = 'E' then
      match cs with
      | '-' :: ds => (natOfDigits? ds).map fun n => -(n : Int)
      | '+' :: ds => (natOfDigits? ds).map fun n => (n : Int)
      | ds => (natOfDigits? ds).map fun n => (n : Int)
    else none

/-- Reads digits with at most one point and an exponent. -/
def readFinite? (negative : Bool) (cs : List Char) : Option Decimal := do
  let isMark (c : Char) : Bool := c == 'e' || c == 'E'
  let mantissa := cs.takeWhile fun c => !isMark c
  let power ← readPower (cs.dropWhile fun c => !isMark c)
  let whole := mantissa.takeWhile (· ≠ '.')
  let part := (mantissa.dropWhile (· ≠ '.')).drop 1
  let n ← natOfDigits? (whole ++ part)
  some (finite negative n (power - (part.length : Int)))

/-- Reads the special values, in any letter case. -/
def readSpecial? (negative : Bool) (cs : List Char) : Option Decimal :=
  let lower := cs.map Char.toLower
  let text := String.ofList lower
  if text = "inf" ∨ text = "infinity" then some (infinity negative)
  else
    let diagnostic (signaling : Bool) (ds : List Char) : Option Decimal :=
      if ds.all Char.isDigit then some (nan negative signaling (String.ofList (ds.dropWhile (· = '0'))))
      else none
    match lower with
    | 'n' :: 'a' :: 'n' :: ds => diagnostic false ds
    | 's' :: 'n' :: 'a' :: 'n' :: ds => diagnostic true ds
    | _ => none

/-- Text without the blanks around it. -/
def stripBlanks (cs : List Char) : List Char :=
  ((cs.dropWhile Char.isWhitespace).reverse.dropWhile Char.isWhitespace).reverse

/-- Reads a decimal from its text; blanks around it and underscores in it do not count. -/
def ofText? (text : String) : Option Decimal :=
  let cs := (stripBlanks text.toList).filter (· ≠ '_')
  let body (negative : Bool) (cs : List Char) : Option Decimal :=
    match readFinite? negative cs with
    | some d => some d
    | none => readSpecial? negative cs
  match cs with
  | '-' :: rest => body true rest
  | '+' :: rest => body false rest
  | rest => body false rest

end Decimal

end CallAdapter
