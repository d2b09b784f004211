import CallAdapter.Number.Decimal
import Mathlib.Algebra.Order.Field.Basic
import Mathlib.Algebra.Order.Field.Power
import Mathlib.Data.Nat.Cast.Field
import Mathlib.Data.Rat.Cast.Order
import Mathlib.Tactic.Linarith
import Mathlib.Tactic.Ring
import Mathlib.Tactic.FieldSimp

/-!
# Exact quotients

Which rationals the division of decimals gives exactly: those that the context holds, with at most
28 digits and an exponent in its range (`divide?_exact_iff`). Of every other rational the quotient
is another number, or there is none.
-/

namespace CallAdapter

theorem scaled_eq_mul_zpow (s e : Int) : scaled 10 s e = s * (10 : ℚ) ^ e := by
  unfold scaled
  by_cases he : 0 ≤ e
  · obtain ⟨k, rfl⟩ := Int.eq_ofNat_of_zero_le he
    rw [if_pos he]
    simp
  · obtain ⟨k, rfl⟩ : ∃ k : ℕ, e = -k := ⟨(-e).toNat, by omega⟩
    rw [if_neg he, Rat.mkRat_eq_div]
    simp [div_eq_mul_inv]

theorem lt_pow_digitCount (n : ℕ) : n < 10 ^ digitCount n :=
  (Nat.length_toDigits_le_iff (by decide) Nat.length_toDigits_pos).1 le_rfl

theorem digitCount_pos (n : ℕ) : 0 < digitCount n := Nat.length_toDigits_pos

theorem digitCount_le_iff {n k : ℕ} (hk : 0 < k) : digitCount n ≤ k ↔ n < 10 ^ k :=
  Nat.length_toDigits_le_iff (by decide) hk

/-- The leading digit of a number that is not zero stands at its last place. -/
theorem pow_digitCount_le {n : ℕ} (hn : n ≠ 0) : 10 ^ (digitCount n - 1) ≤ n := by
  by_cases hone : digitCount n = 1
  · rw [hone]
    exact Nat.one_le_iff_ne_zero.2 hn
  · by_contra hlt
    have hpos := digitCount_pos n
    have hle := (digitCount_le_iff (n := n) (k := digitCount n - 1) (by omega)).2 (by omega)
    omega

theorem zpow_ten_pos (e : Int) : (0 : ℚ) < 10 ^ e := zpow_pos (by norm_num) e

/-- Powers of ten compare by their exponents. -/
theorem lt_of_zpow_ten_lt {a b : Int} (h : (10 : ℚ) ^ a < 10 ^ b) : a < b :=
  (zpow_lt_zpow_iff_right₀ (by norm_num)).1 h

theorem zpow_ten_add (a b : Int) : (10 : ℚ) ^ (a + b) = 10 ^ a * 10 ^ b :=
  zpow_add₀ (by norm_num) a b

namespace Decimal

/-- The rationals that a computed result can be: those with at most 28 digits, an exponent that is
not too low and a leading digit that does not stand too high. -/
def Holds (q : ℚ) : Prop :=
  ∃ c e : Int, c.natAbs < 10 ^ precision ∧ minExponent ≤ e ∧
    e + precision - 1 ≤ maxLeadingExponent ∧ q = scaled 10 c e

/-! ## Rounding -/

/-- The leading digit of a number stands below that of another one. -/
theorem leading_lt {c m : ℕ} {k e : Int} (hc : c ≠ 0) (hm : m < 10 ^ precision)
    (hvalue : (c : ℚ) * 10 ^ k = m * 10 ^ e) : k + digitCount c - 1 < e + precision := by
  have hlow : (10 : ℚ) ^ ((digitCount c - 1 : ℕ) : Int) ≤ c := by
    rw [zpow_natCast]
    exact_mod_cast pow_digitCount_le hc
  have hhigh : (m : ℚ) < 10 ^ (precision : Int) := by
    rw [zpow_natCast]
    exact_mod_cast hm
  have hlt : (10 : ℚ) ^ (((digitCount c - 1 : ℕ) : Int) + k) < 10 ^ ((precision : Int) + e) := by
    calc (10 : ℚ) ^ (((digitCount c - 1 : ℕ) : Int) + k)
        = 10 ^ ((digitCount c - 1 : ℕ) : Int) * 10 ^ k := zpow_ten_add _ _
      _ ≤ c * 10 ^ k := mul_le_mul_of_nonneg_right hlow (zpow_ten_pos k).le
      _ = m * 10 ^ e := hvalue
      _ < 10 ^ (precision : Int) * 10 ^ e := mul_lt_mul_of_pos_right hhigh (zpow_ten_pos e)
      _ = 10 ^ ((precision : Int) + e) := (zpow_ten_add _ _).symm
  have hexponent := lt_of_zpow_ten_lt hlt
  have hpos := digitCount_pos c
  omega

/-- What is below the place of the result is dropped and the result has few enough digits. -/
theorem roundDiv_lt {c : ℕ} {k place : Int} (hplace : k + digitCount c - precision ≤ place)
    (hk : k ≤ place) :
    roundDiv c (10 ^ min (place - k).toNat (digitCount c + 1)) ≤ 10 ^ precision := by
  have hc := lt_pow_digitCount c
  have hquot : c / 10 ^ min (place - k).toNat (digitCount c + 1) < 10 ^ precision := by
    rw [Nat.div_lt_iff_lt_mul (by positivity), ← pow_add]
    refine hc.trans_le (Nat.pow_le_pow_right (by norm_num) ?_)
    omega
  rcases roundDiv_eq_div_or c (10 ^ min (place - k).toNat (digitCount c + 1)) with h | h <;>
    omega

/-- What is divisible keeps its value. -/
theorem roundDiv_exact {c m : ℕ} {k e place : Int} (hvalue : (c : ℚ) * 10 ^ k = m * 10 ^ e)
    (hk : k ≤ place) (he : place ≤ e) :
    (roundDiv c (10 ^ min (place - k).toNat (digitCount c + 1)) : ℚ) * 10 ^ place = c * 10 ^ k := by
  obtain ⟨drop, rfl⟩ : ∃ drop : ℕ, place = k + drop := ⟨(place - k).toNat, by omega⟩
  obtain ⟨rest, rfl⟩ : ∃ rest : ℕ, e = k + drop + rest := ⟨(e - (k + drop)).toNat, by omega⟩
  -- what is dropped are zeros
  have hc : c = 10 ^ drop * (m * 10 ^ rest) := by
    have hcancel : (c : ℚ) = m * 10 ^ rest * 10 ^ drop := by
      apply mul_right_cancel₀ (zpow_ten_pos k).ne'
      rw [hvalue, zpow_ten_add, zpow_ten_add, zpow_natCast, zpow_natCast]
      ring
    have : (c : ℚ) = ((10 ^ drop * (m * 10 ^ rest) : ℕ) : ℚ) := by
      rw [hcancel]
      push_cast
      ring
    exact_mod_cast this
  have hmin : m * 10 ^ rest ≠ 0 →
      min (k + drop - k).toNat (digitCount c + 1) = drop := by
    intro hne
    have hle : 10 ^ drop ≤ c := hc ▸ Nat.le_mul_of_pos_right _ (Nat.pos_of_ne_zero hne)
    have hlt := (Nat.pow_lt_pow_iff_right (by norm_num)).1 (hle.trans_lt (lt_pow_digitCount c))
    omega
  by_cases hzero : m * 10 ^ rest = 0
  · have hc0 : c = 0 := by rw [hc, hzero, mul_zero]
    have hround : roundDiv 0 (10 ^ min (k + drop - k).toNat (digitCount 0 + 1)) = 0 := by
      have h := roundDiv_mul_left 0
        (show 0 < 10 ^ min (k + drop - k).toNat (digitCount 0 + 1) by positivity)
      rwa [mul_zero] at h
    rw [hc0, hround]
    simp
  · rw [hmin hzero]
    nth_rewrite 1 [hc]
    rw [roundDiv_mul_left _ (by positivity), hc, zpow_ten_add, zpow_natCast]
    push_cast
    ring

/-- A rounded number has at most 28 digits and an exponent that is not too low; where there is such
a number with the value already, rounding keeps the value. -/
theorem round_spec (negative : Bool) (c : ℕ) (k : Int) :
    ∃ (c' : ℕ) (k' : Int), round negative c k = finite negative c' k' ∧ c' < 10 ^ precision ∧
      minExponent ≤ k' ∧
      ∀ (m : ℕ) (e : Int), m < 10 ^ precision → minExponent ≤ e →
        (c : ℚ) * 10 ^ k = m * 10 ^ e → (c' : ℚ) * 10 ^ k' = c * 10 ^ k := by
  unfold round
  dsimp only
  generalize hplace : max k (max (k + digitCount c - precision) minExponent) = place
  have hle := @roundDiv_lt c k place (by omega) (by omega)
  have hexact : ∀ (m : ℕ) (e : Int), m < 10 ^ precision → minExponent ≤ e →
      (c : ℚ) * 10 ^ k = m * 10 ^ e →
      (roundDiv c (10 ^ min (place - k).toNat (digitCount c + 1)) : ℚ) * 10 ^ place =
        c * 10 ^ k := by
    intro m e hm he hvalue
    by_cases hc : c = 0
    · exact roundDiv_exact (m := 0) (e := place) (by simp [hc]) (by omega) le_rfl
    · have hleading := leading_lt hc hm hvalue
      by_cases hplace' : place ≤ e
      · exact roundDiv_exact hvalue (by omega) hplace'
      · -- nothing is dropped
        exact roundDiv_exact (m := c) (e := k) rfl (by omega) (by omega)
  generalize roundDiv c (10 ^ min (place - k).toNat (digitCount c + 1)) = rounded at hle hexact ⊢
  by_cases hfew : digitCount rounded ≤ precision
  · rw [if_pos hfew]
    exact ⟨_, _, rfl, (digitCount_le_iff (by decide)).1 hfew, by omega, hexact⟩
  · rw [if_neg hfew]
    have hten : rounded = 10 ^ precision := by
      rw [digitCount_le_iff (by decide)] at hfew
      omega
    refine ⟨_, _, rfl, by rw [hten]; decide, by omega, fun m e hm he hvalue => ?_⟩
    rw [← hexact m e hm he hvalue, hten, zpow_ten_add]
    simp [precision]
    ring

/-! ## Division -/

/-- Dropping zeros keeps the value. -/
theorem towardIdeal_value (ideal : Int) (fuel c : ℕ) (e : Int) :
    ((towardIdeal ideal fuel c e).1 : ℚ) * 10 ^ (towardIdeal ideal fuel c e).2 = c * 10 ^ e := by
  induction fuel generalizing c e with
  | zero => rfl
  | succ fuel ih =>
    unfold towardIdeal
    by_cases hdrop : e < ideal ∧ c % 10 = 0
    · obtain ⟨d, rfl⟩ : ∃ d, c = d * 10 := ⟨c / 10, by omega⟩
      rw [if_pos hdrop, ih, Nat.mul_div_cancel d (by norm_num), zpow_ten_add]
      push_cast
      ring
    · rw [if_neg hdrop]

/-- The place of the last digit of a quotient, before it is rounded. -/
def quotientShift (n d : ℕ) : Int :=
  (digitCount d : Int) - (digitCount n : Int) + precision + 1

/-- The quotient has more digits than a result can have. -/
theorem pow_precision_lt {n d : ℕ} (hn : n ≠ 0) (hd : d ≠ 0) :
    (10 : ℚ) ^ precision < n / d * 10 ^ quotientShift n d := by
  have hlow : (10 : ℚ) ^ ((digitCount n - 1 : ℕ) : Int) ≤ n := by
    rw [zpow_natCast]
    exact_mod_cast pow_digitCount_le hn
  have hhigh : (d : ℚ) < 10 ^ (digitCount d : Int) := by
    rw [zpow_natCast]
    exact_mod_cast lt_pow_digitCount d
  have hpos := digitCount_pos n
  have hdpos : (0 : ℚ) < d := by exact_mod_cast Nat.pos_of_ne_zero hd
  rw [div_mul_eq_mul_div, lt_div_iff₀ hdpos]
  calc (10 : ℚ) ^ precision * d
      < 10 ^ precision * 10 ^ (digitCount d : Int) := by gcongr
    _ = 10 ^ ((digitCount n - 1 : ℕ) : Int) * 10 ^ quotientShift n d := by
      rw [← zpow_natCast, ← zpow_ten_add, ← zpow_ten_add]
      congr 1
      unfold quotientShift
      omega
    _ ≤ n * 10 ^ quotientShift n d := by gcongr

/-- Both sides of a quotient, moved so that the integer quotient has all the digits. -/
def movedNum (n d : ℕ) : ℕ :=
  if 0 ≤ quotientShift n d then n * 10 ^ (quotientShift n d).toNat else n

def movedDen (n d : ℕ) : ℕ :=
  if 0 ≤ quotientShift n d then d else d * 10 ^ (-quotientShift n d).toNat

theorem movedDen_ne_zero {n d : ℕ} (hd : d ≠ 0) : movedDen n d ≠ 0 := by
  unfold movedDen
  split
  · exact hd
  · positivity

theorem movedNum_div {n d : ℕ} (hd : d ≠ 0) :
    (movedNum n d : ℚ) / movedDen n d = n / d * 10 ^ quotientShift n d := by
  have hd' : (d : ℚ) ≠ 0 := by exact_mod_cast hd
  unfold movedNum movedDen
  generalize quotientShift n d = s
  by_cases hs : 0 ≤ s
  · obtain ⟨k, rfl⟩ := Int.eq_ofNat_of_zero_le hs
    rw [if_pos hs, if_pos hs]
    push_cast
    rw [Int.toNat_natCast, zpow_natCast]
    ring
  · obtain ⟨k, rfl⟩ : ∃ k : ℕ, s = -k := ⟨(-s).toNat, by omega⟩
    rw [if_neg hs, if_neg hs, neg_neg, Int.toNat_natCast, zpow_neg, zpow_natCast]
    push_cast
    field_simp

/-- A quotient that a result can be leaves no remainder. -/
theorem movedDen_dvd {n d m : ℕ} {e : Int} (hn : n ≠ 0) (hd : d ≠ 0) (hm : m < 10 ^ precision)
    (hvalue : (n : ℚ) / d = m * 10 ^ e) : movedDen n d ∣ movedNum n d := by
  have hshifted : (movedNum n d : ℚ) / movedDen n d = m * 10 ^ (e + quotientShift n d) := by
    rw [movedNum_div hd, hvalue, zpow_ten_add]
    ring
  have hexponent : 0 ≤ e + quotientShift n d := by
    by_contra hneg
    have hle : (10 : ℚ) ^ (e + quotientShift n d) ≤ 1 :=
      zpow_le_one_of_nonpos₀ (by norm_num) (by omega)
    have hlt : (10 : ℚ) ^ precision < 10 ^ precision := by
      calc (10 : ℚ) ^ precision
          < m * 10 ^ (e + quotientShift n d) := by
            rw [← hshifted, movedNum_div hd]
            exact pow_precision_lt hn hd
        _ ≤ m * 1 := by gcongr
        _ = m := mul_one _
        _ ≤ 10 ^ precision := by exact_mod_cast hm.le
    exact lt_irrefl _ hlt
  obtain ⟨k, hk⟩ := Int.eq_ofNat_of_zero_le hexponent
  refine ⟨m * 10 ^ k, ?_⟩
  have hne : (movedDen n d : ℚ) ≠ 0 := by exact_mod_cast movedDen_ne_zero hd
  rw [hk, zpow_natCast, div_eq_iff hne] at hshifted
  have : (movedNum n d : ℚ) = ((movedDen n d * (m * 10 ^ k) : ℕ) : ℚ) := by
    rw [hshifted]
    push_cast
    ring
  exact_mod_cast this

/-- What the integer quotient is rounded from: without its last zeros where it is exact. -/
def quotientParts (n d : ℕ) : ℕ × Int :=
  let q := movedNum n d / movedDen n d
  if movedNum n d % movedDen n d = 0 then towardIdeal 0 (digitCount q) q (-quotientShift n d)
  else (if q % 5 = 0 then q + 1 else q, -quotientShift n d)

theorem divide?_eq {num : Int} (den : ℕ) (hnum : num ≠ 0) :
    divide? num den =
      let parts := quotientParts num.natAbs den
      match round (decide (num < 0)) parts.1 parts.2 with
      | finite s c e =>
        if maxLeadingExponent < e + (digitCount c : Int) - 1 then none else some (finite s c e)
      | other => some other := by
  have hn : num.natAbs ≠ 0 := by omega
  unfold divide?
  rw [if_neg hn]
  unfold quotientParts
  dsimp only
  by_cases hrem : movedNum num.natAbs den % movedDen num.natAbs den = 0
  · rw [if_pos hrem]
    unfold movedNum movedDen quotientShift at hrem
    rw [if_pos hrem]
    rfl
  · rw [if_neg hrem]
    unfold movedNum movedDen quotientShift at hrem
    rw [if_neg hrem]
    rfl

theorem quotientParts_exact {n d m : ℕ} {e : Int} (hn : n ≠ 0) (hd : d ≠ 0)
    (hm : m < 10 ^ precision) (hvalue : (n : ℚ) / d = m * 10 ^ e) :
    ((quotientParts n d).1 : ℚ) * 10 ^ (quotientParts n d).2 = m * 10 ^ e := by
  have hdvd := movedDen_dvd hn hd hm hvalue
  have hne : (movedDen n d : ℚ) ≠ 0 := by exact_mod_cast movedDen_ne_zero hd
  unfold quotientParts
  dsimp only
  rw [if_pos (Nat.mod_eq_zero_of_dvd hdvd), towardIdeal_value, Nat.cast_div hdvd hne,
    movedNum_div hd, mul_assoc, ← zpow_ten_add, hvalue]
  simp

/-- The quotient is rounded, and there is none where its leading digit stands too high. -/
theorem divide?_cases {num : Int} {den : ℕ} {r : Decimal} (h : divide? num den = some r) :
    ∃ s c e, r = finite s c e ∧ c < 10 ^ precision ∧ minExponent ≤ e ∧
      e + digitCount c - 1 ≤ maxLeadingExponent := by
  by_cases hnum : num = 0
  · subst hnum
    exact ⟨_, _, _, (Option.some.inj h).symm, by decide, by decide, by decide⟩
  · rw [divide?_eq den hnum] at h
    dsimp only at h
    obtain ⟨c, e, hround, hc, he, -⟩ := round_spec (decide (num < 0))
      (quotientParts num.natAbs den).1 (quotientParts num.natAbs den).2
    rw [hround] at h
    dsimp only at h
    split at h
    · cases h
    · exact ⟨_, _, _, (Option.some.inj h).symm, hc, he, by omega⟩

theorem abs_eq_natAbs_div (q : ℚ) : |q| = (q.num.natAbs : ℚ) / q.den := by
  rw [Nat.cast_natAbs]
  nth_rewrite 1 [← Rat.num_div_den q]
  rw [abs_div, Nat.abs_cast, Int.cast_abs]

theorem abs_scaled (c e : Int) : |scaled 10 c e| = (c.natAbs : ℚ) * 10 ^ e := by
  rw [scaled_eq_mul_zpow, abs_mul, abs_of_pos (zpow_ten_pos e), Nat.cast_natAbs, Int.cast_abs]

/-- The value of a finite decimal with the sign of a rational and its absolute value. -/
theorem toRat?_of_abs {q : ℚ} {c : ℕ} {e : Int} (hq : (c : ℚ) * 10 ^ e = |q|) :
    (finite (decide (q.num < 0)) c e).toRat? = some q := by
  unfold toRat?
  dsimp only
  rw [scaled_eq_mul_zpow]
  by_cases hneg : q < 0
  · rw [abs_of_neg hneg] at hq
    rw [if_pos (decide_eq_true (Rat.num_neg.2 hneg))]
    push_cast
    rw [neg_mul, hq, neg_neg]
  · rw [abs_of_nonneg (not_lt.1 hneg)] at hq
    rw [if_neg (by simpa using hneg)]
    push_cast
    rw [hq]

theorem exists_of_toRat? {d : Decimal} {q : ℚ} (hd : d.toRat? = some q) : ∃ negative c e,
    d = .finite negative c e ∧ scaled 10 (if negative then -(c : Int) else c) e = q := by
  cases d with
  | finite negative c e => exact ⟨negative, c, e, rfl, Option.some.inj hd⟩
  | infinity | nan => cases hd

/-- A number with many zeros at its end is held with some of them. -/
theorem holds_scaled {c e : Int} (hc : c.natAbs < 10 ^ precision) (he : minExponent ≤ e)
    (hleading : e + digitCount c.natAbs - 1 ≤ maxLeadingExponent) : Holds (scaled 10 c e) := by
  by_cases hlow : e + precision - 1 ≤ maxLeadingExponent
  · exact ⟨c, e, hc, he, hlow, rfl⟩
  · obtain ⟨k, hk⟩ : ∃ k : ℕ, e = maxLeadingExponent - precision + 1 + k :=
      ⟨(e - (maxLeadingExponent - precision + 1)).toNat, by omega⟩
    refine ⟨c * 10 ^ k, maxLeadingExponent - precision + 1, ?_, by decide, by omega, ?_⟩
    · rw [Int.natAbs_mul, Int.natAbs_pow]
      calc c.natAbs * 10 ^ k < 10 ^ digitCount c.natAbs * 10 ^ k := by
            gcongr
            exact lt_pow_digitCount _
        _ = 10 ^ (digitCount c.natAbs + k) := (pow_add _ _ _).symm
        _ ≤ 10 ^ precision := Nat.pow_le_pow_right (by norm_num) (by omega)
    · rw [scaled_eq_mul_zpow, scaled_eq_mul_zpow, hk, zpow_ten_add _ (k : Int), zpow_natCast]
      push_cast
      ring

/-- The division gives a rational exactly when the context holds it. -/
theorem divide?_exact_iff (q : ℚ) :
    (∃ d, divide? q.num q.den = some d ∧ d.toRat? = some q) ↔ Holds q := by
  constructor
  · rintro ⟨d, hd, hvalue⟩
    obtain ⟨s, c, e, rfl, hc, he, hleading⟩ := divide?_cases hd
    obtain rfl := Option.some.inj hvalue
    cases s
    · exact holds_scaled hc he hleading
    · exact holds_scaled (by simpa using hc) he (by simpa using hleading)
  · rintro ⟨c, e, hc, he, hhigh, hq⟩
    by_cases hzero : q = 0
    · subst hzero
      exact ⟨finite false 0 0, rfl, by simp [toRat?, scaled]⟩
    · have hnum : q.num ≠ 0 := Rat.num_ne_zero.2 hzero
      have habs : (q.num.natAbs : ℚ) / q.den = c.natAbs * 10 ^ e := by
        rw [← abs_eq_natAbs_div, hq, abs_scaled]
      -- the digits of the quotient are enough, so that rounding keeps the value
      have hparts := quotientParts_exact (by omega) q.den_nz hc habs
      obtain ⟨c', e', hround, hc', he', hexact⟩ := round_spec (decide (q.num < 0))
        (quotientParts q.num.natAbs q.den).1 (quotientParts q.num.natAbs q.den).2
      have hvalue : (c' : ℚ) * 10 ^ e' = c.natAbs * 10 ^ e :=
        (hexact _ _ hc he hparts).trans hparts
      have hq' : (c' : ℚ) * 10 ^ e' = |q| := by rw [hvalue, hq, abs_scaled]
      have hne : c' ≠ 0 := by
        rintro rfl
        rw [Nat.cast_zero, zero_mul] at hq'
        exact hzero (abs_eq_zero.1 hq'.symm)
      have hleading := leading_lt hne hc hvalue
      refine ⟨_, ?_, toRat?_of_abs hq'⟩
      rw [divide?_eq _ hnum]
      dsimp only
      rw [hround]
      exact if_neg (by omega)

end Decimal

end CallAdapter
