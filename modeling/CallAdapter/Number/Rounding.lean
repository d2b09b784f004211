/-!
# Rounding quotients of natural numbers

Integer division to nearest, with ties to the even neighbour, and the number of digits of a
natural number in a base. Binary and decimal formats round through these two functions.
-/

namespace CallAdapter

-- Powers are the ones of the core library, whatever other instances are in scope.
attribute [local instance (high)] instPowNat

/-- The natural number nearest to `num / den`; of two equally near, the even one. -/
def roundDiv (num den : Nat) : Nat :=
  let q := num / den
  let r := num % den
  if 2 * r < den then q
  else if den < 2 * r then q + 1
  else if q % 2 = 0 then q else q + 1

theorem roundDiv_eq_div_or (num den : Nat) :
    roundDiv num den = num / den ∨ roundDiv num den = num / den + 1 := by
  unfold roundDiv; simp only; split <;> (try split) <;> (try split) <;> simp

/-- A quotient without remainder is not changed by rounding. -/
theorem roundDiv_mul_left {den : Nat} (q : Nat) (h : 0 < den) : roundDiv (den * q) den = q := by
  unfold roundDiv; simp [Nat.mul_div_cancel_left q h, h]

/-- How many decimal digits `n` has; zero has one. -/
def digitCount (n : Nat) : Nat := (Nat.toDigits 10 n).length

theorem digitCount_zero : digitCount 0 = 1 := rfl

/-- The most decimal digits that integers are written with or read from. -/
def maxDigits : Nat := 4300

theorem digitCount_le_maxDigits_iff (n : Nat) : digitCount n ≤ maxDigits ↔ n < 10 ^ maxDigits :=
  Nat.length_toDigits_le_iff (by decide) (by decide)

/-- The rational `significand * base ^ exponent`. -/
def scaled (base : Nat) (significand : Int) (exponent : Int) : Rat :=
  if 0 ≤ exponent then (significand * (base : Int) ^ exponent.toNat : Int)
  else mkRat significand (base ^ (-exponent).toNat)

/-- The integer part of a rational, toward zero. -/
def truncate (q : Rat) : Int := q.num.tdiv q.den

end CallAdapter
