import CallAdapter.Number.Binary64

/-!
# Hexadecimal text of binary numbers

The C99 notation: a leading bit, thirteen hexadecimal digits and a binary exponent, as in
`0x1.8000000000000p+1`. Writing is exact, and reading accepts what writing produces.
-/

namespace CallAdapter

-- Powers are the ones of the core library, whatever other instances are in scope.
attribute [local instance (high)] instPowNat

namespace Binary64

/-- The hexadecimal digit of a number below sixteen. -/
def hexDigit (n : Nat) : Char := (Nat.toDigits 16 n).headD '0'

/-- The value of a hexadecimal digit. -/
def hexValue? (c : Char) : Option Nat :=
  if c.isDigit then some (c.toNat - '0'.toNat)
  else if 'a' ≤ c ∧ c ≤ 'f' then some (c.toNat - 'a'.toNat + 10)
  else if 'A' ≤ c ∧ c ≤ 'F' then some (c.toNat - 'A'.toNat + 10)
  else none

/-- The last `count` hexadecimal digits of `n`, the most significant first. -/
def hexDigits : (count n : Nat) → List Char
  | 0, _ => []
  | count + 1, n => hexDigits count (n / 16) ++ [hexDigit (n % 16)]

theorem length_hexDigits (count n : Nat) : (hexDigits count n).length = count := by
  induction count generalizing n with
  | zero => rfl
  | succ count ih => simp [hexDigits, ih]

def hexText : Binary64 → String
  | nan => "nan"
  | infinity negative => if negative then "-inf" else "inf"
  | finite negative m e =>
    let sign := if negative then "-" else ""
    if m = 0 then sign ++ "0x0.0p+0"
    else
      let lead := m / 2 ^ (52 : Nat)
      let exponent := e + 52
      let digits := String.ofList (hexDigits 13 (m % 2 ^ (52 : Nat)))
      let mark := if exponent < 0 then "-" else "+"
      sign ++ "0x" ++ toString lead ++ "." ++ digits ++ "p" ++ mark ++ toString exponent.natAbs

/-- Reads digits of a base, with their number. -/
def readDigits (digit? : Char → Option Nat) (base : Nat) : List Char → Option (Nat × Nat)
  | cs => cs.foldl (fun acc c =>
      match acc, digit? c with
      | some (n, k), some d => some (n * base + d, k + 1)
      | _, _ => none) (some (0, 0))

/-- The value of a decimal digit. -/
def decimalValue? (c : Char) : Option Nat :=
  if c.isDigit then some (c.toNat - '0'.toNat) else none

/-- Reads an exponent with a sign. -/
def readExponent : List Char → Option Int
  | '-' :: cs => (readDigits decimalValue? 10 cs).map fun d => -(d.1 : Int)
  | '+' :: cs => (readDigits decimalValue? 10 cs).map fun d => (d.1 : Int)
  | cs => (readDigits decimalValue? 10 cs).map fun d => (d.1 : Int)

/-- Reads the magnitude of a number in hexadecimal notation, rounded to nearest. -/
def readMagnitude (negative : Bool) (cs : List Char) : Option Binary64 := do
  let body ← match cs with
    | '0' :: 'x' :: rest => some rest
    | _ => none
  let mantissa := body.takeWhile (· ≠ 'p')
  let exponent ← match body.dropWhile (· ≠ 'p') with
    | 'p' :: rest => readExponent rest
    | _ => some 0
  let whole ← readDigits hexValue? 16 (mantissa.takeWhile (· ≠ '.'))
  let part ← readDigits hexValue? 16 ((mantissa.dropWhile (· ≠ '.')).drop 1)
  let n := whole.1 * 16 ^ part.2 + part.1
  let e := exponent - 4 * (part.2 : Int)
  if n = 0 then some (finite negative 0 minExponent)
  else if 0 ≤ e then some (ofQuotient negative (n * 2 ^ e.toNat) 1)
  else some (ofQuotient negative n (2 ^ (-e).toNat))

def ofHexText? (text : String) : Option Binary64 :=
  match text with
  | "nan" => some nan
  | "inf" => some (infinity false)
  | "-inf" => some (infinity true)
  | _ =>
    match text.toList with
    | '-' :: cs => readMagnitude true cs
    | cs => readMagnitude false cs

end Binary64

end CallAdapter
