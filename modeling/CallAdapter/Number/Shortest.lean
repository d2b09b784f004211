import CallAdapter.Number.Binary64

/-!
# Shortest decimal text of binary numbers

The decimal text of a finite number has the fewest digits that read back as the same number,
and of the texts with that many digits the nearest one. `decimalText` lays the digits out:
positional from `1e-4` to below `1e16`, and with an exponent of at least two digits outside.
-/

namespace CallAdapter

-- Powers are the ones of the core library, whatever other instances are in scope.
attribute [local instance (high)] instPowNat

namespace Binary64

/-- Decimal digits `n * 10 ^ exponent` of a positive value. -/
structure DecimalDigits where
  significand : Nat
  exponent : Int
  deriving DecidableEq, Repr

/-- The point of the grid of step `10 ^ k` nearest to the positive number `m * 2 ^ e`. -/
def nearestOnGrid (m : Nat) (e k : Int) : Nat :=
  let num := if 0 ≤ e then m * 2 ^ e.toNat else m
  let den := if 0 ≤ e then 1 else 2 ^ (-e).toNat
  if 0 ≤ k then roundDiv num (den * 10 ^ k.toNat) else roundDiv (num * 10 ^ (-k).toNat) den

/-- Whether the decimal `n * 10 ^ k` rounds to `m * 2 ^ e`. -/
def readsBack (m : Nat) (e : Int) (n : Nat) (k : Int) : Bool :=
  let back :=
    if 0 ≤ k then ofQuotient false (n * 10 ^ k.toNat) 1 else ofQuotient false n (10 ^ (-k).toNat)
  back == finite false m e

/-- The decimal exponent of the leading digit of the positive number `m * 2 ^ e`. -/
def leadingExponent (m : Nat) (e : Int) : Int :=
  if 0 ≤ e then (digitCount (m * 2 ^ e.toNat) : Int) - 1
  else
    let den := 2 ^ (-e).toNat
    if den ≤ m then (digitCount (m / den) : Int) - 1
    else
      -- the least `j` with `m * 10 ^ j ≥ den`; the digit counts bound it from below
      let j := digitCount den - digitCount m
      if den ≤ m * 10 ^ j then -(j : Int) else -((j : Int) + 1)

/-- Tries one digit, then two, and so on; seventeen digits always read back. -/
def shortestFrom (m : Nat) (e top : Int) : (count left : Nat) → DecimalDigits
  | count, 0 => ⟨nearestOnGrid m e (top - (count : Int) + 1), top - (count : Int) + 1⟩
  | count, left + 1 =>
    let k := top - (count : Int) + 1
    let n := nearestOnGrid m e k
    if readsBack m e n k then ⟨n, k⟩ else shortestFrom m e top (count + 1) left

def shortest (m : Nat) (e : Int) : DecimalDigits :=
  shortestFrom m e (leadingExponent m e) 1 16

/-- Drops trailing zeros of the digits, raising the exponent. -/
def stripZeros : (fuel : Nat) → List Char → List Char
  | 0, cs => cs
  | fuel + 1, cs =>
    match cs.reverse with
    | '0' :: rest => if rest.isEmpty then cs else stripZeros fuel rest.reverse
    | _ => cs

/-- Lays out digits whose first one stands for `10 ^ top`. -/
def layOut (digits : List Char) (top : Int) : String :=
  if -4 ≤ top ∧ top < 16 then
    if top < 0 then
      "0." ++ String.ofList (List.replicate ((-top).toNat - 1) '0' ++ digits)
    else
      let whole := top.toNat + 1
      if digits.length ≤ whole then
        String.ofList (digits ++ List.replicate (whole - digits.length) '0') ++ ".0"
      else String.ofList (digits.take whole) ++ "." ++ String.ofList (digits.drop whole)
  else
    let mantissa := match digits with
      | [d] => String.ofList [d]
      | d :: ds => String.ofList [d] ++ "." ++ String.ofList ds
      | [] => ""
    let size := toString top.natAbs
    let padded := if size.length < 2 then "0" ++ size else size
    mantissa ++ "e" ++ (if top < 0 then "-" else "+") ++ padded

def decimalText : Binary64 → String
  | nan => "nan"
  | infinity negative => if negative then "-inf" else "inf"
  | finite negative m e =>
    let sign := if negative then "-" else ""
    if m = 0 then sign ++ "0.0"
    else
      let d := shortest m e
      let all := Nat.toDigits 10 d.significand
      let digits := stripZeros all.length all
      sign ++ layOut digits (d.exponent + (all.length : Int) - 1)

end Binary64

end CallAdapter
