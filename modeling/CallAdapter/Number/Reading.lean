import CallAdapter.Number.Decimal
import CallAdapter.Text.Fold

/-!
# Numbers written as text

Integers, binary numbers and fractions are read from text with blanks around it, an optional sign
and single underscores between digits. Digits are the ASCII ones.
-/

namespace CallAdapter

namespace Reading

/-- Digits with single underscores between them, without the underscores. -/
def joinDigits? : List Char → Option (List Char)
  | [] => none
  | c :: cs =>
    if c.isDigit then
      (cs.foldl (fun acc d =>
        match acc with
        | none => none
        | some (ds, wasMark) =>
          if d.isDigit then some (d :: ds, false)
          else if d == '_' && !wasMark then some (ds, true)
          else none) (some ([c], false))).bind fun (ds, wasMark) =>
            if wasMark then none else some ds.reverse
    else none

/-- Splits off a sign; true means negative. -/
def signed : List Char → Bool × List Char
  | '-' :: cs => (true, cs)
  | '+' :: cs => (false, cs)
  | cs => (false, cs)

def natOfText? (cs : List Char) : Option Nat := (joinDigits? cs).bind Decimal.natOfDigits?

/-- An integer, with at most `maxDigits` digits. -/
def intOfText? (text : String) : Option Int := do
  let (negative, cs) := signed (Text.strip text).toList
  let ds ← joinDigits? cs
  if maxDigits < ds.length then none
  let n ← Decimal.natOfDigits? ds
  some (if negative then -(n : Int) else n)

/-- A number with a point or an exponent, as a sign and a decimal. -/
def finiteOfText? (negative : Bool) (cs : List Char) : Option Decimal := do
  let isMark (c : Char) : Bool := c == 'e' || c == 'E'
  let mantissa := cs.takeWhile fun c => !isMark c
  let power ← match cs.dropWhile fun c => !isMark c with
    | [] => some (0 : Int)
    | _ :: rest =>
      let (neg, ds) := signed rest
      (natOfText? ds).map fun n => if neg then -(n : Int) else (n : Int)
  let whole := mantissa.takeWhile (· ≠ '.')
  let part := (mantissa.dropWhile (· ≠ '.')).drop 1
  let clean (ds : List Char) : Option (List Char) := if ds.isEmpty then some [] else joinDigits? ds
  let w ← clean whole
  let p ← clean part
  let n ← Decimal.natOfDigits? (w ++ p)
  some (.finite negative n (power - (p.length : Int)))

def binaryOfText? (text : String) : Option Binary64 :=
  let (negative, cs) := signed (Text.strip text).toList
  let lower := String.ofList (cs.map Char.toLower)
  if lower = "inf" ∨ lower = "infinity" then some (.infinity negative)
  else if lower = "nan" then some .nan
  else (finiteOfText? negative cs).bind Decimal.toBinary64?

/-- Why a text is no fraction. -/
inductive FractionFault
  | malformed
  | zeroDenominator
  deriving DecidableEq, Repr

def fractionOfText? (text : String) : Except FractionFault Rat :=
  let (negative, cs) := signed (Text.strip text).toList
  let sign : Int := if negative then -1 else 1
  if cs.any (· == '/') then
    match natOfText? (cs.takeWhile (· ≠ '/')), natOfText? ((cs.dropWhile (· ≠ '/')).drop 1) with
    | some n, some d =>
      if d = 0 then .error .zeroDenominator else .ok (mkRat (sign * n) d)
    | _, _ => .error .malformed
  else
    match (finiteOfText? negative cs).bind Decimal.toRat? with
    | some q => .ok q
    | none => .error .malformed

end Reading

end CallAdapter
