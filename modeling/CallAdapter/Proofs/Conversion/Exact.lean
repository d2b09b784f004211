import CallAdapter.Proofs.Conversion.CastFailure
import CallAdapter.Proofs.Number.Quotient

/-!
# Exact conversions of numbers

Integers, decimals and fractions are converted into each other without loss, except that a fraction
becomes a decimal by a division, which rounds. So the ways between the three classes agree where
none of them ends with that division, and with it exactly for the numbers that the context holds
(`exact_conversions_commute`).
-/

namespace CallAdapter

open Program

namespace Program

/-- Plans a conversion and applies it to a value. -/
def converted (Γ : Program) (p : Planner) (h : Heap) (src dst : Builtin) (v : Value) :
    Except Failure Value := do
  let plan ← ((Γ.plan (.builtin src) (.builtin dst)).run.run p).1
  Γ.applyPlan h plan v

/-- Both give plain data, and it is equal. -/
def GiveEqual (r r' : Except Failure Value) : Prop :=
  ∃ x y, r = .ok (.scalar x) ∧ r' = .ok (.scalar y) ∧ x.equal y = true

/-! ## Plans between classes -/

section Plans

variable {Γ : Program} {c d : Cls} {p : Planner} {h : Heap} {v : Value}

/-- Between classes an answer is the one of the rules, whatever is reused. -/
theorem direct?_of_plans {R : Reuse} (hR : BetweenSpellings R) {r : Except Failure Verdict}
    (hplan : Γ.Plans R (.cls c) (.cls d) r) : Γ.direct? (.cls c) (.cls d) = some r := by
  generalize hs : Ty.cls c = s at hplan
  generalize ht : Ty.cls d = t at hplan
  have hsolved : ∀ {s t : Ty}, Ty.cls c = s → Ty.cls d = t → Γ.direct? s t ≠ none := by
    rintro _ _ rfl rfl hnone
    rcases isUnion_of_direct?_eq_none hnone with hu | hu <;> cases hu
  induction hplan with
  | direct hdirect => exact hdirect
  | reused hreuse _ ih =>
    obtain ⟨-, hss, hdd⟩ := hR _ _ _ _ hreuse
    subst hs ht
    have hs' := (Ty.same_iff_eq_of_isAtom rfl _).1 (Ty.same_symm hss)
    have ht' := (Ty.same_iff_eq_of_isAtom rfl _).1 (Ty.same_symm hdd)
    subst hs' ht'
    exact ih rfl rfl
  | fromUnion hnone | fromUnionError hnone | intoUntouched hnone | intoFirst hnone
  | intoError hnone => exact absurd hnone (hsolved hs ht)

/-- A planner that was asked anything before converts between classes by the verdict of the
rules. -/
theorem converted_eq {s d : Builtin} {w : Verdict} (hp : p.Asked Γ)
    (hdirect : Γ.direct? (.builtin s) (.builtin d) = some (.ok w)) :
    Γ.converted p h s d v = Γ.applyPlan h (.of (.builtin s) (.builtin d) w) v := by
  have hanswer := hp.planAnswer (.builtin s) (.builtin d)
  unfold converted
  cases hplan : ((Γ.plan (.builtin s) (.builtin d)).run.run p).1 with
  | error e =>
    rw [hplan] at hanswer
    have := direct?_of_plans betweenSpellings_historyReuse hanswer
    rw [hdirect] at this
    cases this
  | ok plan =>
    rw [hplan] at hanswer
    have hverdict := direct?_of_plans betweenSpellings_historyReuse hanswer.2
    rw [hdirect, Option.some.injEq, Except.ok.injEq] at hverdict
    show Γ.applyPlan h plan v = _
    rw [applyPlan_of_handsOn hanswer.1, applyPlan_of, hverdict]

end Plans

/-! ## The rules between exact numbers -/

section Rules

variable {Γ : Program} {p : Planner} {h : Heap}

/-- The classes of exact numbers. -/
def exactClasses : List Builtin := [.int, .decimal, .fraction]

theorem derives_exact : ∀ a ∈ exactClasses, ∀ b ∈ [.int, .float, .decimal],
    Γ.derives (.builtin a) (.builtin b) = decide (a = b) := by
  unfold derives
  simp only [mro_builtin]
  decide

theorem not_isAbstract_exact : ∀ b ∈ [Builtin.int, .float, .decimal],
    Γ.isAbstract (.builtin b) = false := by
  unfold isAbstract
  simp only [mro_builtin]
  decide

/-- Only to the fractions other classes can be added. -/
theorem isSubclass_exact {a b : Builtin} (ha : a ∈ exactClasses)
    (hb : b ∈ [.int, .float, .decimal]) :
    Γ.isSubclass (.builtin a) (.builtin b) = decide (a = b) := by
  have hstructure : Γ.fitsStructure (.builtin a) b = false := by
    simp only [List.mem_cons, List.not_mem_nil, or_false] at hb
    rcases hb with rfl | rfl | rfl <;> rfl
  have hwithin : ∀ n, Γ.subclassWithin n (.builtin a) (.builtin b) = decide (a = b) := by
    intro n
    cases n <;>
      simp [subclassWithin, derives_exact a ha b hb, not_isAbstract_exact b hb, hstructure]
  have hsource : ∀ a ∈ exactClasses, (Ty.builtin a).isClass = true := by decide
  have hdest : ∀ b ∈ [Builtin.int, .float, .decimal], (Ty.builtin b).isClass = true := by decide
  simp [isSubclass, hsource a ha, hdest b hb, subclass?, isProtocol, hwithin]

theorem isSubclass_fraction : Γ.isSubclass (.builtin .fraction) (.builtin .fraction) = true := by
  have hwithin : ∀ n, Γ.subclassWithin n (.builtin .fraction) (.builtin .fraction) = true := by
    intro n
    cases n <;> simp [subclassWithin, derives_self_builtin]
  have hclass : (Ty.builtin .fraction).isClass = true := rfl
  simp [isSubclass, hclass, subclass?, isProtocol, hwithin]

/-- What a class of exact numbers converts to another one by. -/
def exactRules : List ((Builtin × Builtin) × NumericRule) :=
  numericRules.filter fun r => r.1.1 ∈ exactClasses ∧ r.1.2 ∈ exactClasses

theorem direct?_of_exactClasses {a b : Builtin} (ha : a ∈ exactClasses) (hb : b ∈ exactClasses)
    (hne : a ≠ b) : Γ.direct? (.builtin a) (.builtin b) =
      some (.ok (Γ.classVerdict (.builtin a) (.builtin b))) := by
  have hclass : ∀ a ∈ exactClasses, (Ty.builtin a).IsSolid ∧ (Ty.builtin a).isClass = true ∧
      (Ty.builtin a).isAlias = false := by
    intro a ha
    simp only [exactClasses, List.mem_cons, List.not_mem_nil, or_false] at ha
    rcases ha with rfl | rfl | rfl <;> exact ⟨⟨rfl, rfl, rfl⟩, rfl, rfl⟩
  have hsame : (Ty.builtin a).same (.builtin b) = false := by
    rw [Bool.eq_false_iff, Ne, Ty.same_iff_eq_of_isAtom rfl]
    exact fun heq => hne (Cls.builtin.inj (Ty.cls.inj heq))
  obtain ⟨hasolid, hac, haa⟩ := hclass a ha
  obtain ⟨hbsolid, hbc, hba⟩ := hclass b hb
  rw [direct?_of_isSolid hasolid hbsolid (Ty.cls_refusesPlanning _ _), hsame, haa, hba, hac, hbc]
  rfl

theorem direct?_exact : ∀ r ∈ exactRules, Γ.direct? (.builtin r.1.1) (.builtin r.1.2) =
    some (.ok (if Γ.isSubclass (.builtin r.1.1) (.builtin r.1.2) then .widen
      else .convert (.numeric r.2 (.builtin r.1.2)))) := by
  intro r hr
  rw [show exactRules = [((.int, .decimal), .toDecimal), ((.decimal, .int), .toInt),
    ((.int, .fraction), .toFraction), ((.decimal, .fraction), .toFraction),
    ((.fraction, .int), .toInt), ((.fraction, .decimal), .quotient)] by decide] at hr
  simp only [List.mem_cons, List.not_mem_nil, or_false] at hr
  rcases hr with rfl | rfl | rfl | rfl | rfl | rfl <;>
  · rw [direct?_of_exactClasses (by decide) (by decide) (by decide)]
    unfold classVerdict
    simp (disch := decide) [numericWidening, numericRules, List.find?_cons, isSubclass_exact,
      isSubclass_fraction]

variable {s d : Builtin} {rule : NumericRule} {x y : Scalar}

/-- What counts as the other class already is not touched, and everything else is run through the
rule. -/
theorem converted_exact (hp : p.Asked Γ) (hr : ((s, d), rule) ∈ exactRules) (v : Value) :
    Γ.converted p h s d v =
      if Γ.isSubclass (.builtin s) (.builtin d) then .ok v
      else Γ.runOperation h (Γ.unboxed h) (.numeric rule (.builtin d)) v := by
  rw [converted_eq hp (direct?_exact _ hr)]
  dsimp only
  split <;> rfl

theorem runOperation_numeric (U : Ty → Value → Except Failure Value) {t : Ty}
    (hx : rule.applyScalar x = .ok y) :
    Γ.runOperation h U (.numeric rule t) (.scalar x) = .ok (.scalar y) := by
  simp [runOperation, convertNumber, plain?, hx, Except.map]

end Rules

/-! ## Values of exact numbers -/

section Values

variable {Γ : Program} {p : Planner} {h : Heap} {x y : Scalar} {d : Decimal} {q r : ℚ}

/-- The rational that an exact number is. -/
def exactValue? : Scalar → Option ℚ
  | .int n => some n
  | .fraction q => some q
  | .decimal d => d.toRat?
  | _ => none

theorem truncate_intCast (n : Int) : truncate n = n := by
  simp [truncate]

/-- The exact numbers: integers, fractions, and decimals that are finite. -/
theorem exactValue?_cases (hx : exactValue? x = some q) :
    (∃ n : Int, x = .int n ∧ (n : ℚ) = q) ∨ x = .fraction q ∨ ∃ negative c e,
      x = .decimal (.finite negative c e) ∧ scaled 10 (if negative then -(c : Int) else c) e = q := by
  cases x with
  | int n => exact .inl ⟨n, rfl, Option.some.inj hx⟩
  | fraction r => exact .inr (.inl (congrArg Scalar.fraction (Option.some.inj hx)))
  | decimal d =>
    obtain ⟨negative, c, e, rfl, hq⟩ := Decimal.exists_of_toRat? hx
    exact .inr (.inr ⟨negative, c, e, rfl, hq⟩)
  | _ => cases hx

/-- Exact numbers are taken toward zero. -/
theorem intOf_exact (hx : exactValue? x = some q) :
    NumericRule.intOf x = .ok (truncate q) := by
  obtain ⟨n, rfl, rfl⟩ | rfl | ⟨negative, c, e, rfl, rfl⟩ := exactValue?_cases hx
  · exact congrArg _ (truncate_intCast n).symm
  · rfl
  · rfl

/-- Integers and decimals are fractions. -/
theorem fractionOf_exact (hx : exactValue? x = some q) : NumericRule.fractionOf x = .ok q := by
  obtain ⟨n, rfl, rfl⟩ | rfl | ⟨negative, c, e, rfl, rfl⟩ := exactValue?_cases hx <;> rfl

/-- Exact numbers are equal by their values. -/
theorem equal_exact_iff (hx : exactValue? x = some q) (hy : exactValue? y = some r) :
    x.equal y = true ↔ q = r := by
  have hparts : ∀ {x q}, exactValue? x = some q → x.parts = some (.rational q, .rational 0) := by
    intro x q hx
    obtain ⟨n, rfl, rfl⟩ | rfl | ⟨negative, c, e, rfl, rfl⟩ := exactValue?_cases hx <;> rfl
  unfold Scalar.equal
  split
  · cases hx
  · cases hx
  · rw [hparts hx, hparts hy]
    simp [Scalar.Extended.equal]

/-! ## Ways between the classes -/

/-- From a decimal or a fraction to an integer. -/
theorem converted_int {s : Builtin} (hp : p.Asked Γ) (hs : s ∈ [.decimal, .fraction])
    (hx : exactValue? x = some q) :
    Γ.converted p h s .int (.scalar x) = .ok (.int (truncate q)) := by
  have hrule : ((s, .int), .toInt) ∈ exactRules ∧ s ∈ exactClasses ∧ s ≠ .int := by
    revert s
    decide
  rw [converted_exact hp hrule.1, isSubclass_exact hrule.2.1 (by decide),
    decide_eq_false hrule.2.2, if_neg Bool.false_ne_true]
  exact runOperation_numeric _ (by rw [NumericRule.applyScalar, intOf_exact hx]; rfl)

/-- From an integer to a decimal. -/
theorem converted_decimal (hp : p.Asked Γ) (n : Int) :
    Γ.converted p h .int .decimal (.int n) = .ok (.scalar (.decimal (Decimal.ofInt n))) := by
  rw [@converted_exact Γ _ h _ _ .toDecimal hp (by decide),
    isSubclass_exact (by decide) (by decide), decide_eq_false (by decide),
    if_neg Bool.false_ne_true]
  have hrun : NumericRule.toDecimal.applyScalar (.int n) = .ok (.decimal (Decimal.ofInt n)) := rfl
  exact runOperation_numeric _ hrun

/-- From an integer or a decimal to a fraction, or it counts as one already. -/
theorem converted_fraction {s : Builtin} (hp : p.Asked Γ) (hs : s ∈ [.int, .decimal])
    (hx : exactValue? x = some q) :
    Γ.converted p h s .fraction (.scalar x) = .ok (.scalar
      (if Γ.isSubclass (.builtin s) (.builtin .fraction) then x else .fraction q)) := by
  have hrule : ((s, .fraction), .toFraction) ∈ exactRules := by
    revert s
    decide
  rw [converted_exact hp hrule]
  split
  · rfl
  · exact runOperation_numeric _ (by rw [NumericRule.applyScalar, fractionOf_exact hx]; rfl)

/-- Nothing is equal to what fails. -/
theorem not_giveEqual_error {e : Failure} {r : Except Failure Value} :
    ¬GiveEqual (.error e) r := by
  rintro ⟨x, y, hx, -, -⟩
  cases hx

/-- A fraction or an integer becomes an equal decimal exactly when the context holds it. -/
theorem giveEqual_quotient_iff (hp : p.Asked Γ) (hx : x.toRat? = some q)
    (hy : exactValue? y = some q) :
    GiveEqual (Γ.converted p h .fraction .decimal (.scalar x)) (.ok (.scalar y)) ↔
      Decimal.Holds q := by
  rw [@converted_exact Γ _ h _ _ .quotient hp (by decide),
    isSubclass_exact (by decide) (by decide), ← Decimal.divide?_exact_iff]
  cases hdivide : Decimal.divide? q.num q.den with
  | none =>
    have hquotient : NumericRule.quotientOf x = .error NumericRule.overflow := by
      simp only [NumericRule.quotientOf, hx, hdivide]
    have hfails : Γ.convertNumber h .quotient (.scalar x) = .error NumericRule.overflow := by
      simp [convertNumber, plain?, NumericRule.applyScalar, hquotient, Except.map]
    have harithmetic : NumericRule.overflow.isArithmetic = true := rfl
    simp [runOperation, hfails, harithmetic, not_giveEqual_error]
  | some d =>
    have hquotient : NumericRule.quotientOf x = .ok d := by
      simp only [NumericRule.quotientOf, hx, hdivide]
    have hrun : NumericRule.quotient.applyScalar x = .ok (.decimal d) := by
      rw [NumericRule.applyScalar, hquotient]
      rfl
    obtain ⟨negative, c, e, rfl, -⟩ := Decimal.divide?_cases hdivide
    have hequal := equal_exact_iff (x := .decimal (.finite negative c e)) rfl hy
    rw [decide_eq_false (by decide), if_neg Bool.false_ne_true, runOperation_numeric _ hrun]
    constructor
    · rintro ⟨_, _, hd, hy', heq⟩
      cases hd
      cases hy'
      exact ⟨_, rfl, congrArg some (hequal.1 heq)⟩
    · rintro ⟨_, hd, hvalue⟩
      cases hd
      exact ⟨_, _, rfl, rfl, hequal.2 (Option.some.inj hvalue)⟩

/-- What has no numerator and no denominator becomes no decimal. -/
theorem not_giveEqual_quotient_decimal (hp : p.Asked Γ) {r : Except Failure Value} :
    ¬GiveEqual (Γ.converted p h .fraction .decimal (.scalar (.decimal d))) r := by
  rw [@converted_exact Γ _ h _ _ .quotient hp (by decide),
    isSubclass_exact (by decide) (by decide)]
  exact not_giveEqual_error

end Values

end Program

section Commuting

variable {Γ : Program} {p p' p'' : Planner} {h : Heap}

/-- For every integer `n` and every decimal `d` with the value `x`: the way of `n` over the
fractions gives a decimal that is equal to the direct one exactly when the context holds `n`; `d`
over the fractions and directly becomes one integer; `n` comes back from the decimals and the
fractions; and `d` comes back from the fractions as an equal decimal exactly when the context holds
`x` and decimals do not count as fractions already. -/
theorem exact_conversions_commute (hp : p.Asked Γ) (hp' : p'.Asked Γ) (hp'' : p''.Asked Γ)
    {d : Decimal} {x : ℚ} (hd : d.toRat? = some x) (n : Int) :
    (GiveEqual (Γ.converted p h .int .fraction (.int n) >>= Γ.converted p' h .fraction .decimal)
        (Γ.converted p'' h .int .decimal (.int n)) ↔ Decimal.Holds n) ∧
      (∃ k, (Γ.converted p h .decimal .fraction (.scalar (.decimal d)) >>=
          Γ.converted p' h .fraction .int) = .ok (.int k) ∧
        Γ.converted p'' h .decimal .int (.scalar (.decimal d)) = .ok (.int k)) ∧
      (Γ.converted p h .int .decimal (.int n) >>= Γ.converted p' h .decimal .int) = .ok (.int n) ∧
      (Γ.converted p h .int .fraction (.int n) >>= Γ.converted p' h .fraction .int) =
        .ok (.int n) ∧
      (GiveEqual (Γ.converted p h .decimal .fraction (.scalar (.decimal d)) >>=
          Γ.converted p' h .fraction .decimal) (.ok (.scalar (.decimal d))) ↔
        Γ.isSubclass (.builtin .decimal) (.builtin .fraction) = false ∧ Decimal.Holds x) := by
  have hn : exactValue? (.int n) = some (n : ℚ) := rfl
  have hx : exactValue? (.decimal d) = some x := hd
  have hofInt : exactValue? (.decimal (Decimal.ofInt n)) = some (n : ℚ) := Decimal.toRat?_ofInt n
  have hfromInt : Γ.converted p h .int .fraction (.int n) = _ :=
    converted_fraction hp (by decide) hn
  have hfromDecimal : Γ.converted p h .decimal .fraction (.scalar (.decimal d)) = _ :=
    converted_fraction hp (by decide) hx
  rw [hfromInt, hfromDecimal, converted_decimal hp, converted_decimal hp'']
  refine ⟨giveEqual_quotient_iff hp' ?_ hofInt, ⟨truncate x, converted_int hp' (by decide) ?_,
    converted_int hp'' (by decide) hx⟩, ?_, ?_, ?_⟩
  · split <;> rfl
  · split
    · exact hx
    · rfl
  · have hback := converted_int (h := h) hp' (s := .decimal) (by decide) hofInt
    rwa [truncate_intCast] at hback
  · have hvalue : exactValue? (if Γ.isSubclass (.builtin .int) (.builtin .fraction) then .int n
        else .fraction n) = some (n : ℚ) := by
      split <;> rfl
    have hback := converted_int (h := h) hp' (s := .fraction) (by decide) hvalue
    rwa [truncate_intCast] at hback
  · by_cases hsub : Γ.isSubclass (.builtin .decimal) (.builtin .fraction) = true
    · rw [if_pos hsub, hsub]
      exact ⟨fun heq => absurd heq (not_giveEqual_quotient_decimal hp'), fun hne => nomatch hne.1⟩
    · rw [if_neg hsub, eq_false_of_ne_true hsub]
      exact (giveEqual_quotient_iff hp' rfl hx).trans (by simp)

/-- Two and a half comes back from the fractions. -/
theorem exact_conversions_commute_half :
    GiveEqual (Program.empty.converted ⟨true, [], []⟩ .empty .decimal .fraction
        (.scalar (.decimal (.finite false 25 (-1)))) >>=
          Program.empty.converted ⟨false, [], []⟩ .empty .fraction .decimal)
      (.ok (.scalar (.decimal (.finite false 25 (-1))))) := by
  have hcommute := exact_conversions_commute (Planner.asked_empty .empty true)
    (Planner.asked_empty .empty false) (Planner.asked_empty .empty true) (h := .empty)
    (d := .finite false 25 (-1)) rfl 0
  exact hcommute.2.2.2.2.2 ⟨by with_unfolding_all rfl, 25, -1, by decide, by decide, by decide, rfl⟩

/-- An integer with one digit more than a result of the division has. -/
def longInteger : Int := 10 ^ 28 + 1

theorem not_holds_longInteger : ¬Decimal.Holds longInteger := by
  have hrounded : Decimal.divide? longInteger 1 = some (.finite false (10 ^ 27) 1) := by
    with_unfolding_all rfl
  rw [← Decimal.divide?_exact_iff, Rat.num_intCast, Rat.den_intCast, hrounded]
  rintro ⟨_, hd, hvalue⟩
  cases hd
  simp [Decimal.toRat?, scaled, longInteger] at hvalue

/-- The decimals are registered as fractions. -/
def registeredDecimals : Program :=
  { Program.empty with registrations := [(.builtin .fraction, .builtin .decimal)] }

/-- The ways over the fractions lose digits beyond the 28th, from integers and from decimals; and
where decimals count as fractions, none of them comes back. -/
theorem way_over_fractions_loses :
    ¬(∀ (Γ : Program) (p p' p'' : Planner) (h : Heap) (n : Int), p.Asked Γ → p'.Asked Γ →
      p''.Asked Γ →
      GiveEqual (Γ.converted p h .int .fraction (.int n) >>= Γ.converted p' h .fraction .decimal)
        (Γ.converted p'' h .int .decimal (.int n))) ∧
    ¬(∀ (Γ : Program) (p p' : Planner) (h : Heap) (d : Decimal) (x : ℚ), p.Asked Γ → p'.Asked Γ →
      d.toRat? = some x → Γ.isSubclass (.builtin .decimal) (.builtin .fraction) = false →
      GiveEqual (Γ.converted p h .decimal .fraction (.scalar (.decimal d)) >>=
        Γ.converted p' h .fraction .decimal) (.ok (.scalar (.decimal d)))) ∧
    ¬(∀ (Γ : Program) (p p' : Planner) (h : Heap) (d : Decimal) (x : ℚ), p.Asked Γ → p'.Asked Γ →
      d.toRat? = some x → Decimal.Holds x →
      GiveEqual (Γ.converted p h .decimal .fraction (.scalar (.decimal d)) >>=
        Γ.converted p' h .fraction .decimal) (.ok (.scalar (.decimal d)))) := by
  have hasked : ∀ Γ, Planner.Asked Γ ⟨false, [], []⟩ := fun Γ => Planner.asked_empty Γ false
  have hlong : (Decimal.ofInt longInteger).toRat? = some (longInteger : ℚ) :=
    Decimal.toRat?_ofInt _
  have hvalue : exactValue? (.decimal (Decimal.ofInt longInteger)) = some (longInteger : ℚ) := hlong
  refine ⟨fun hequal => ?_, fun hequal => ?_, fun hequal => ?_⟩
  · have heq := hequal .empty _ _ _ .empty longInteger (hasked _) (hasked _) (hasked _)
    have hfrom : Program.empty.converted ⟨false, [], []⟩ .empty .int .fraction (.int longInteger) =
        _ := converted_fraction (hasked _) (by decide) rfl
    rw [hfrom, converted_decimal (hasked _)] at heq
    have hsub : Program.empty.isSubclass (.builtin .int) (.builtin .fraction) = false := by
      with_unfolding_all rfl
    rw [hsub] at heq
    exact not_holds_longInteger ((giveEqual_quotient_iff (hasked _) rfl hvalue).1 heq)
  · have hsub : Program.empty.isSubclass (.builtin .decimal) (.builtin .fraction) = false := by
      with_unfolding_all rfl
    have heq := hequal .empty _ _ .empty _ _ (hasked _) (hasked _) hlong hsub
    rw [converted_fraction (hasked _) (by decide) hvalue, hsub] at heq
    exact not_holds_longInteger ((giveEqual_quotient_iff (hasked _) rfl hvalue).1 heq)
  · have hsub : registeredDecimals.isSubclass (.builtin .decimal) (.builtin .fraction) = true := by
      with_unfolding_all rfl
    have hone : (Decimal.finite false 1 0).toRat? = some 1 := rfl
    have hvalue : exactValue? (.decimal (.finite false 1 0)) = some 1 := hone
    have heq := hequal registeredDecimals _ _ .empty _ _ (hasked _) (hasked _) hone
      ⟨1, 0, by decide, by decide, by decide, by with_unfolding_all rfl⟩
    rw [converted_fraction (hasked _) (by decide) hvalue, hsub] at heq
    exact not_giveEqual_quotient_decimal (hasked _) heq

end Commuting

end CallAdapter
