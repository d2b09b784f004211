import CallAdapter.Proofs.Adapter.Unrelated
import CallAdapter.Proofs.Conversion.CastFailure

/-!
# Forgetting arguments

A class with arguments is planned by other rules than the bare class. Where the class is a subclass
of the destination both go over untouched, and where a cast is left it does the same for both. The
rules for numbers and enumerations, and the cast of any class to an abstract destination, are the
bare class's only, so the arguments can be forgotten without loss exactly where none of them applies
(`forgetting_harmless_iff`). A list may be a mapping, for instance, and a list of integers may not
(`intList_not_mapping`).
-/

namespace CallAdapter

open Program

/-- The type is the class with arguments. -/
structure Ty.Parametrizes (t : Ty) (c : Cls) : Prop where
  hasArgs : t.isAlias = true
  origin : t.origin = .cls c
  proper : (Ty.cls c).isClass = true
  solid : (Ty.cls c).IsSolid

/-- Two conversions give the same value, or both fail with a failed cast. -/
def OutcomesAlike (r r' : Except Failure Value) : Prop :=
  (∃ u, r = .ok u ∧ r' = .ok u) ∨
    ∃ e e', r = .error e ∧ r' = .error e' ∧ e.isCast = true ∧ e'.isCast = true

/-- Whether the arguments of a class may be forgotten: the plan `forgotten`, from the class with
arguments, does what the plan `bare` from the class does. -/
structure Harmless (Γ : Program) (c : Cls) (forgotten bare : Plan) : Prop where
  possible : forgotten.isPossible = true ↔ bare.isPossible = true
  implicit : bare.verdict.isImplicit = true → forgotten.kind = .implicitWiden
  alike : ∀ h v, Γ.isInstance h v c = some true →
    OutcomesAlike (Γ.applyPlan h forgotten v) (Γ.applyPlan h bare v)

section Outcomes

variable {Γ : Program} {h : Heap} {r r' : Except Failure Value} {v : Value}

theorem outcomesAlike_iff_effect : OutcomesAlike r r' ↔
    (∃ u, effect r = .ok u ∧ effect r' = .ok u) ∨
      effect r = .error none ∧ effect r' = .error none := by
  simp only [OutcomesAlike, effect_eq_ok_iff, effect_eq_error_none_iff]
  constructor
  · rintro (h | ⟨e, e', hr, hr', he, he'⟩)
    · exact .inl h
    · exact .inr ⟨⟨e, hr, he⟩, e', hr', he'⟩
  · rintro (h | ⟨⟨e, hr, he⟩, e', hr', he'⟩)
    · exact .inl h
    · exact .inr ⟨e, e', hr, hr', he, he'⟩

theorem OutcomesAlike.congr {s s' : Except Failure Value} (h : OutcomesAlike r r')
    (hs : effect r = effect s) (hs' : effect r' = effect s') : OutcomesAlike s s' := by
  rw [outcomesAlike_iff_effect] at h ⊢
  rwa [← hs, ← hs']

theorem outcomesAlike_ok (v : Value) : OutcomesAlike (.ok v) (.ok v) := .inl ⟨v, rfl, rfl⟩

theorem runVerdict_cast (Γ : Program) (h : Heap) (t : Ty) (v : Value) :
    Γ.runVerdict h (.convert (.cast t)) v =
      if Γ.isInstanceOf h v t == some true then .ok v else .error (Γ.castFailure v t) := rfl

/-- The same checked cast. -/
theorem outcomesAlike_cast {t : Ty} :
    OutcomesAlike (Γ.runVerdict h (.convert (.cast t)) v)
      (Γ.runVerdict h (.convert (.cast t)) v) := by
  rw [runVerdict_cast]
  split
  · exact outcomesAlike_ok v
  · exact .inr ⟨_, _, rfl, rfl, rfl, rfl⟩

end Outcomes

namespace Program

/-- The arguments of `c` make no difference on the way to `d`. -/
inductive Forgettable (Γ : Program) (c d : Cls) : Prop
  | top : (Ty.cls d).isTop = true → Forgettable Γ c d
  | absent : d = .builtin .none → Forgettable Γ c d
  | subclass : Γ.isSubclass (.cls c) (.cls d) = true → Forgettable Γ c d
  /-- No rule converts values of the class, and where they are cast to an interface, the values
  of the alias are too. -/
  | cast : c ≠ d → ¬Γ.HasNumericRule c d → ¬Γ.HasLookupRule c d →
    (Γ.isAbstract d = true → Γ.isSubclass (.cls d) (.cls c) = true ∨ Γ.isAbstract c = true) →
    Forgettable Γ c d

/-! ## Verdicts -/

/-- What is left for an alias where the class is no subclass. -/
def castVerdict (Γ : Program) (c d : Cls) : Verdict :=
  if Γ.isSubclass (.cls d) (.cls c) || Γ.isAbstract c then .convert (.cast (.cls d))
  else .impossible

section Verdicts

variable {Γ : Program} {c d : Cls} {t : Ty}

theorem isSolid_of_isAlias (ht : t.isAlias = true) : t.IsSolid := by
  have hunion : t.isUnion = false := by
    rw [Ty.isAlias, Bool.and_eq_true, Bool.not_eq_true'] at ht
    exact ht.2
  refine ⟨?_, ?_, hunion⟩
  · rw [Bool.eq_false_iff, Ne, Ty.isTop_iff]
    rintro (rfl | rfl) <;> cases ht
  · rw [Bool.eq_false_iff, Ne, Ty.isVoid_iff]
    rintro rfl
    cases ht

theorem freshVerdict_of_isTop (ht : t.IsSolid) (hn : t.normalize = t)
    (htop : (Ty.cls d).isTop = true) : Γ.freshVerdict t (.cls d) = .ok .widen := by
  have hsame : t.same (.cls d) = false := by
    rw [Bool.eq_false_iff]
    intro hsame
    cases ht.top.symm.trans ((Ty.isTop_congr hsame).trans htop)
  refine freshVerdict_of_direct? ⟨hn, Ty.normalize_cls d⟩ ?_
  simp [direct?, Ty.refusesPlanning_cls, hsame, htop]

theorem freshVerdict_of_isVoid (ht : t.IsSolid) (hn : t.normalize = t) :
    Γ.freshVerdict t .none = .ok .impossible := by
  have hvoid : Ty.none.isVoid = true := rfl
  have htop : Ty.none.isTop = false := rfl
  have hrefuses : Ty.refusesPlanning t .none = false := Ty.refusesPlanning_cls t _
  have hsame : t.same .none = false := by
    rw [Bool.eq_false_iff]
    intro hsame
    cases ht.void.symm.trans ((Ty.isVoid_congr hsame).trans hvoid)
  refine freshVerdict_of_direct? ⟨hn, rfl⟩ ?_
  simp [direct?, hrefuses, hsame, htop, hvoid, ht.void]

/-- The arguments are forgotten. -/
theorem freshVerdict_parametrized (ht : t.Parametrizes c) (hn : t.normalize = t)
    (hd : (Ty.cls d).isClass = true) (hsolid : (Ty.cls d).IsSolid) :
    Γ.freshVerdict t (.cls d) = .ok
      (if Γ.isSubclass (.cls c) (.cls d) then .widen else Γ.castVerdict c d) := by
  have hda : (Ty.cls d).isAlias = false := isAlias_eq_false_of_isClass hd
  have hdorigin : (Ty.cls d).origin = .cls d := origin_cls d
  have hsame : t.same (.cls d) = false := by
    rw [Bool.eq_false_iff]
    intro hsame
    have heq := (Ty.same_iff_eq_of_isAtom rfl _).1 (Ty.same_symm hsame)
    rw [heq, ht.hasArgs] at hda
    cases hda
  refine freshVerdict_of_direct? ⟨hn, Ty.normalize_cls d⟩ ?_
  rw [direct?_of_isSolid (isSolid_of_isAlias ht.hasArgs) hsolid (Ty.refusesPlanning_cls t d), hsame,
    ht.hasArgs]
  unfold aliasVerdict
  simp only [ht.origin, hdorigin, ht.proper, hd, hda, Bool.and_self, Bool.not_true, Bool.not_false,
    Bool.true_or, Bool.false_eq_true, if_false, if_true, isAbstractType, castVerdict]

theorem freshVerdict_bare (hc : (Ty.cls c).isClass = true) (hcsolid : (Ty.cls c).IsSolid)
    (hd : (Ty.cls d).isClass = true) (hdsolid : (Ty.cls d).IsSolid) :
    Γ.freshVerdict (.cls c) (.cls d) = .ok
      (if c = d then .identity else Γ.classVerdict (.cls c) (.cls d)) := by
  refine freshVerdict_of_direct? ⟨Ty.normalize_cls c, Ty.normalize_cls d⟩ ?_
  have hdirect : Γ.direct? (.cls c) (.cls d) = _ :=
    direct?_of_isSolid hcsolid hdsolid (Ty.refusesPlanning_cls _ _)
  rw [hdirect, isAlias_eq_false_of_isClass hc, isAlias_eq_false_of_isClass hd, hc, hd]
  by_cases hcd : c = d
  · subst hcd
    rw [Ty.same_refl, if_pos rfl, if_pos rfl]
  · have hsame : (Ty.cls c).same (.cls d) = false := by
      rw [Bool.eq_false_iff, Ne, Ty.same_iff_eq_of_isAtom rfl]
      exact fun h => hcd (Ty.cls.inj h)
    rw [hsame, if_neg hcd]
    rfl

/-- Where there is a numeric rule, values are taken for others or converted. -/
theorem classVerdict_of_numericRule (hsub : Γ.isSubclass (.cls c) (.cls d) = false)
    (hrule : Γ.HasNumericRule c d) : Γ.classVerdict (.cls c) (.cls d) = .widen ∨
      ∃ r ∈ numericRules, Γ.classVerdict (.cls c) (.cls d) = .convert (.numeric r.2 (.cls d)) := by
  unfold classVerdict
  simp only [hsub, Bool.false_eq_true, if_false]
  by_cases hwiden : (numericWidening.any fun w => Γ.isSubclass (.cls c) (.builtin w.1) &&
      decide (d = .builtin w.2)) = true
  · exact .inl (if_pos hwiden)
  · rw [if_neg hwiden]
    cases hfind : numericRules.find? fun r => decide (d = .builtin r.1.2) &&
        Γ.isSubclass (.cls c) (.builtin r.1.1) with
    | some r => exact .inr ⟨r, List.mem_of_find?_eq_some hfind, rfl⟩
    | none =>
      obtain ⟨b, hb, hfrom, hto⟩ := hrule
      rcases List.mem_append.1 hb with hb | hb
      · refine absurd (List.any_eq_true.2 ⟨b, hb, ?_⟩) hwiden
        simp [hfrom, hto]
      · obtain ⟨r, hr, rfl⟩ := List.mem_map.1 hb
        refine absurd ?_ (List.find?_eq_none.1 hfind r hr)
        simp [hfrom, hto]

end Verdicts

/-! ## Values that tell the plans apart -/

section Values

variable {Γ : Program} {c d : Cls} {t : Ty} {h : Heap} {v : Value}

/-- An instance of a class, which carries what the first place of the heap holds. -/
def carrier (c : Cls) : Value := .object c 0

/-- The heap whose first place holds plain data. -/
def carrying (x : Scalar) : Heap := ⟨#[⟨.value (.scalar x), []⟩], []⟩

theorem plain?_carrier (x : Scalar) : Γ.plain? (carrying x) (carrier c) = some x := rfl

theorem isInstance_carrier : Γ.isInstance h (carrier c) c = some true :=
  isInstance_classOf Γ h (carrier c)

/-- What makes another value of a value, or fails in another way, is no cast. -/
theorem not_outcomesAlike_cast {r : Except Failure Value} (hok : ∀ u, r = .ok u → u ≠ v)
    (herror : ∀ e, r = .error e → e.isCast = false) :
    ¬OutcomesAlike (Γ.runVerdict h (.convert (.cast t)) v) r := by
  rw [runVerdict_cast]
  rintro (⟨u, hu, hr⟩ | ⟨e, e', -, hr, -, he'⟩)
  · split at hu
    · exact hok u hr (Except.ok.inj hu).symm
    · cases hu
  · rw [herror e' hr] at he'
    cases he'

/-- Every numeric rule converts some number. -/
theorem exists_applyScalar {r : (Builtin × Builtin) × NumericRule} (hr : r ∈ numericRules) :
    ∃ x y, x.classOf = r.1.1 ∧ r.2.applyScalar x = .ok y := by
  simp only [numericRules, List.mem_cons, List.not_mem_nil, or_false] at hr
  rcases hr with rfl | rfl | rfl | rfl | rfl | rfl | rfl | rfl | rfl | rfl | rfl
  case inr.inl => exact ⟨.int 0, _, rfl, rfl⟩
  case inr.inr.inr.inr.inr.inl => exact ⟨.int 0, _, rfl, rfl⟩
  all_goals first
    | exact ⟨.float .zero, _, rfl, rfl⟩
    | exact ⟨.decimal .zero, _, rfl, rfl⟩
    | exact ⟨.fraction 0, _, rfl, rfl⟩

/-- A rule makes a number of the instance. -/
theorem runVerdict_numeric_carrier {rule : NumericRule} {x y : Scalar}
    (hxy : rule.applyScalar x = .ok y) :
    Γ.runVerdict (carrying x) (.convert (.numeric rule t)) (carrier c) = .ok (.scalar y) := by
  simp only [runVerdict, runWith, runOperation, convertNumber, plain?_carrier, hxy, Except.map]

/-- A look-up finds a member for the instance, or fails to show it. -/
theorem runVerdict_lookup_carrier :
    (∃ e name, Γ.runVerdict (carrying (.int longNumber)) (.convert (lookupIn t)) (carrier c) =
      .ok (.member e name)) ∨
    Γ.runVerdict (carrying (.int longNumber)) (.convert (lookupIn t)) (carrier c) =
      .error NumericRule.valueError := by
  have hint : .int ∈ (Scalar.int longNumber).classOf.passesFor := List.mem_cons_self
  have hwritable : Γ.isWritable (carrying (.int longNumber)) (carrier c) = false := by
    simp only [isWritable, plain?_carrier, Option.map_some, Option.getD_some,
      isWritable_int_longNumber]
  have hshowing : ∀ dest wrong, Γ.castFailureShowing (carrying (.int longNumber)) (carrier c) dest
      wrong = NumericRule.valueError := by
    intro dest wrong
    unfold castFailureShowing
    rw [if_neg (by simp [hwritable])]
    rfl
  unfold lookupIn
  split
  · rename_i e
    obtain ⟨found, hfound⟩ := exists_enumMember? (plain?_carrier (c := c) (.int longNumber)) hint e
    simp only [runVerdict, runWith, runOperation, hshowing]
    rw [hfound]
    cases found with
    | none => exact .inr rfl
    | some w =>
      obtain ⟨name, rfl⟩ := isYield_of_enumMember? hfound
      exact .inl ⟨e, name, rfl⟩
  · simp only [runVerdict, runWith, runOperation, hshowing]
    exact .inr trivial

end Values

/-! ## Plans -/

section Plans

variable {Γ : Program} {c d : Cls} {t : Ty} {h : Heap} {v : Value}

/-- Where both plans leave values as they are, nothing is lost. -/
theorem harmless_of_implicit {w : Verdict} (hw : w.isImplicit = true) :
    Harmless Γ c (.of t (.cls d) .widen) (.of (.cls c) (.cls d) w) := by
  have hkept : ∀ h v, Γ.runVerdict h w v = .ok v := by
    intro h v
    refine runVerdict_of_kind_ne (fun hkind => ?_) v
    cases w <;> simp_all [Verdict.kind, Verdict.isImplicit]
  refine ⟨?_, fun _ => rfl, fun h v _ => ?_⟩
  · cases w <;> simp_all [Plan.isPossible_eq, Verdict.isPossible, Verdict.isImplicit]
  · rw [applyPlan_of, applyPlan_of, hkept]
    exact outcomesAlike_ok v

theorem harmless_impossible :
    Harmless Γ c (.of t (.cls d) .impossible) (.of (.cls c) (.cls d) .impossible) :=
  ⟨Iff.rfl, nofun, fun _ v _ => outcomesAlike_ok v⟩

theorem harmless_cast : Harmless Γ c (.of t (.cls d) (.convert (.cast (.cls d))))
    (.of (.cls c) (.cls d) (.convert (.cast (.cls d)))) := by
  refine ⟨Iff.rfl, nofun, fun h v _ => ?_⟩
  rw [applyPlan_of, applyPlan_of]
  exact outcomesAlike_cast

theorem castVerdict_cases (Γ : Program) (c d : Cls) :
    Γ.castVerdict c d = .convert (.cast (.cls d)) ∨ Γ.castVerdict c d = .impossible := by
  unfold castVerdict
  split
  · exact .inl rfl
  · exact .inr rfl

theorem not_harmless_of_implicit {w : Verdict} (hw : w.isImplicit = true) :
    ¬Harmless Γ c (.of t (.cls d) (Γ.castVerdict c d)) (.of (.cls c) (.cls d) w) := by
  intro hharmless
  have hkind := hharmless.implicit ((congrArg Verdict.isImplicit (Plan.verdict_of ..)).trans hw)
  rcases castVerdict_cases Γ c d with hcast | hcast <;> rw [hcast] at hkind <;> cases hkind

/-- An operation that does to an instance what no cast does cannot be kept. -/
theorem not_harmless_of_converts {op : Operation}
    (hok : ∀ u, Γ.runVerdict h (.convert op) (carrier c) = .ok u → u ≠ carrier c)
    (herror : ∀ e, Γ.runVerdict h (.convert op) (carrier c) = .error e → e.isCast = false) :
    ¬Harmless Γ c (.of t (.cls d) (Γ.castVerdict c d)) (.of (.cls c) (.cls d) (.convert op)) := by
  intro hharmless
  rcases castVerdict_cases Γ c d with hcast | hcast <;> rw [hcast] at hharmless
  · have halike := hharmless.alike h (carrier c) isInstance_carrier
    rw [applyPlan_of, applyPlan_of] at halike
    exact not_outcomesAlike_cast hok herror halike
  · cases hharmless.possible.2 rfl

theorem not_harmless_of_numericRule (hsub : Γ.isSubclass (.cls c) (.cls d) = false)
    (hrule : Γ.HasNumericRule c d) : ¬Harmless Γ c (.of t (.cls d) (Γ.castVerdict c d))
      (.of (.cls c) (.cls d) (Γ.classVerdict (.cls c) (.cls d))) := by
  rcases classVerdict_of_numericRule hsub hrule with hw | ⟨r, hr, hw⟩ <;> rw [hw]
  · exact not_harmless_of_implicit rfl
  · obtain ⟨x, y, -, hxy⟩ := exists_applyScalar hr
    have hrun := runVerdict_numeric_carrier (Γ := Γ) (c := c) (t := .cls d) hxy
    refine not_harmless_of_converts (h := carrying x) (fun u hu => ?_) fun e he => ?_
    · obtain rfl := Except.ok.inj (hrun.symm.trans hu)
      nofun
    · cases hrun.symm.trans he

theorem not_harmless_of_lookup :
    ¬Harmless Γ c (.of t (.cls d) (Γ.castVerdict c d))
      (.of (.cls c) (.cls d) (.convert (lookupIn (.cls d)))) := by
  have hrun := runVerdict_lookup_carrier (Γ := Γ) (c := c) (t := .cls d)
  refine not_harmless_of_converts (h := carrying (.int longNumber)) (fun u hu => ?_) fun e he => ?_
  · rcases hrun with ⟨k, name, hrun⟩ | hrun
    · obtain rfl := Except.ok.inj (hrun.symm.trans hu)
      nofun
    · cases hrun.symm.trans hu
  · rcases hrun with ⟨k, name, hrun⟩ | hrun
    · cases hrun.symm.trans he
    · obtain rfl := Except.error.inj (hrun.symm.trans he)
      rfl

/-- Without a rule both are cast, except that an abstract destination takes a cast from the class
only. -/
theorem harmless_of_noRule_iff (hsub : Γ.isSubclass (.cls c) (.cls d) = false)
    (hnumeric : ¬Γ.HasNumericRule c d) (hlookup : ¬Γ.HasLookupRule c d) :
    Harmless Γ c (.of t (.cls d) (Γ.castVerdict c d))
        (.of (.cls c) (.cls d) (Γ.classVerdict (.cls c) (.cls d))) ↔
      (Γ.isAbstract d = true → Γ.isSubclass (.cls d) (.cls c) = true ∨ Γ.isAbstract c = true) := by
  rw [classVerdict_of_noNumericRule hsub hnumeric, if_neg hlookup]
  unfold castVerdict
  by_cases hcast : Γ.isSubclass (.cls d) (.cls c) = true ∨ Γ.isAbstract c = true
  · have hleft : (Γ.isSubclass (.cls d) (.cls c) || Γ.isAbstract c) = true := by simpa using hcast
    rw [← Bool.or_assoc, hleft, Bool.true_or, if_pos rfl]
    exact ⟨fun _ _ => hcast, fun _ => harmless_cast⟩
  · have hleft : (Γ.isSubclass (.cls d) (.cls c) || Γ.isAbstract c) = false := by simpa using hcast
    rw [← Bool.or_assoc, hleft, Bool.false_or]
    cases hd : Γ.isAbstract d with
    | true =>
      refine ⟨fun hharmless => ?_, fun h => absurd (h rfl) hcast⟩
      cases hharmless.possible.2 rfl
    | false => exact ⟨nofun, fun _ => harmless_impossible⟩

/-- Where the class is no subclass, what is left for its aliases is enough exactly where no rule of
the bare class's applies. -/
theorem harmless_iff_forgettable (htop : (Ty.cls d).isTop = false) (hnone : d ≠ .builtin .none)
    (hsub : Γ.isSubclass (.cls c) (.cls d) = false) :
    Harmless Γ c (.of t (.cls d) (Γ.castVerdict c d))
        (.of (.cls c) (.cls d) (if c = d then .identity else Γ.classVerdict (.cls c) (.cls d))) ↔
      Γ.Forgettable c d := by
  constructor
  · intro hharmless
    by_cases hcd : c = d
    · rw [if_pos hcd] at hharmless
      exact absurd hharmless (not_harmless_of_implicit rfl)
    rw [if_neg hcd] at hharmless
    have hnumeric : ¬Γ.HasNumericRule c d :=
      fun hrule => not_harmless_of_numericRule hsub hrule hharmless
    have hlookup : ¬Γ.HasLookupRule c d := by
      intro hrule
      rw [classVerdict_of_noNumericRule hsub hnumeric, if_pos hrule] at hharmless
      exact not_harmless_of_lookup hharmless
    exact .cast hcd hnumeric hlookup ((harmless_of_noRule_iff hsub hnumeric hlookup).1 hharmless)
  · intro hforget
    cases hforget with
    | top h => cases h.symm.trans htop
    | absent h => exact absurd h hnone
    | subclass h => cases h.symm.trans hsub
    | cast hcd hnumeric hlookup habstract =>
      rw [if_neg hcd]
      exact (harmless_of_noRule_iff hsub hnumeric hlookup).2 habstract

/-- There are fresh plans, and when nothing is lost between them. -/
theorem exists_freshVerdicts (ht : t.Parametrizes c) (hn : t.normalize = t)
    (hd : (Ty.cls d).isClass = true) :
    ∃ w w', Γ.freshVerdict t (.cls d) = .ok w ∧ Γ.freshVerdict (.cls c) (.cls d) = .ok w' ∧
      (Harmless Γ c (.of t (.cls d) w) (.of (.cls c) (.cls d) w') ↔ Γ.Forgettable c d) := by
  by_cases htop : (Ty.cls d).isTop = true
  · refine ⟨.widen, .widen, freshVerdict_of_isTop (isSolid_of_isAlias ht.hasArgs) hn htop,
      freshVerdict_of_isTop ht.solid (Ty.normalize_cls c) htop, ?_⟩
    exact ⟨fun _ => .top htop, fun _ => harmless_of_implicit rfl⟩
  by_cases hnone : d = .builtin .none
  · subst hnone
    refine ⟨.impossible, .impossible, freshVerdict_of_isVoid (isSolid_of_isAlias ht.hasArgs) hn,
      freshVerdict_of_isVoid ht.solid (Ty.normalize_cls c), ?_⟩
    exact ⟨fun _ => .absent rfl, fun _ => harmless_impossible⟩
  rw [Bool.not_eq_true] at htop
  have hsolid : (Ty.cls d).IsSolid := Unrelated.isSolid htop hnone
  refine ⟨_, _, freshVerdict_parametrized ht hn hd hsolid,
    freshVerdict_bare ht.proper ht.solid hd hsolid, ?_⟩
  by_cases hsub : Γ.isSubclass (.cls c) (.cls d) = true
  · have himplicit : (if c = d then Verdict.identity
        else Γ.classVerdict (.cls c) (.cls d)).isImplicit = true := by
      split
      · rfl
      · unfold classVerdict
        rw [if_pos hsub]
        rfl
    rw [if_pos hsub]
    exact ⟨fun _ => .subclass hsub, fun _ => harmless_of_implicit himplicit⟩
  · rw [if_neg hsub]
    exact harmless_iff_forgettable htop hnone (by simpa using hsub)

end Plans

end Program

section Asked

variable {Γ : Program} {p q : Planner} {c d : Cls} {src dst t : Ty} {plan : Plan}

/-- Where no union is involved, a planner's plan does what a fresh one does, whatever the planner
was asked before. -/
theorem Planner.Asked.effect_applyPlan (hp : p.Asked Γ)
    (hplan : ((Γ.plan src dst).run.run p).1 = .ok plan) (hs : src.normalize.isUnion = false)
    (hd : dst.normalize.isUnion = false) {w : Verdict}
    (hw : Γ.freshVerdict src.normalize dst.normalize = .ok w) (h : Heap) (v : Value) :
    effect (Γ.applyPlan h plan v) = effect (Γ.runVerdict h w v) := by
  have hanswer := hp.planAnswer src dst
  rw [hplan] at hanswer
  have hn := Planner.normalPair_normalize src dst
  obtain ⟨s', d', hs', hd', hn', hlike⟩ :=
    runs_like_spelling betweenSpellings_historyReuse hanswer.2 hn rfl h v
  rw [applyPlan_of_handsOn hanswer.1]
  exact hlike.respelled hs' hd' ((Ty.isUnion_congr hs').trans hs) ((Ty.isUnion_congr hd').trans hd)
    hn' hn w hw

theorem Harmless.congr {forgotten bare forgotten' bare' : Plan}
    (hh : Harmless Γ c forgotten bare) (hforgotten : forgotten.kind = forgotten'.kind)
    (hbare : bare.kind = bare'.kind)
    (heffect : ∀ h v, effect (Γ.applyPlan h forgotten v) = effect (Γ.applyPlan h forgotten' v))
    (heffect' : ∀ h v, effect (Γ.applyPlan h bare v) = effect (Γ.applyPlan h bare' v)) :
    Harmless Γ c forgotten' bare' := by
  refine ⟨?_, fun himplicit => ?_, fun h v hv => (hh.alike h v hv).congr (heffect h v)
    (heffect' h v)⟩
  · have hpossible := hh.possible
    simp only [Plan.isPossible_iff] at hpossible ⊢
    rwa [hforgotten, hbare] at hpossible
  · rw [← hforgotten]
    refine hh.implicit ((isImplicit_eq_of_kind_eq ?_).trans himplicit)
    rw [Plan.kind_verdict, Plan.kind_verdict, hbare]

/-- The arguments of a class can be forgotten exactly where the destination takes everything,
nothing or the class as a subclass, or where the class has no rule for numbers or enumerations and
no cast to an abstract destination that its aliases lack. -/
theorem forgetting_harmless_iff (hp : p.Asked Γ) (hq : q.Asked Γ) (ht : t.normalize.Parametrizes c)
    (hd : (Ty.cls d).isClass = true) :
    ∃ forgotten bare, ((Γ.plan t (.cls d)).run.run p).1 = .ok forgotten ∧
      ((Γ.plan (.cls c) (.cls d)).run.run q).1 = .ok bare ∧
      (Harmless Γ c forgotten bare ↔ Γ.Forgettable c d) := by
  obtain ⟨w, w', hw, hw', hharmless⟩ :=
    exists_freshVerdicts (Γ := Γ) ht (Ty.normalize_normalize t) hd
  have hwn : Γ.freshVerdict t.normalize (Ty.cls d).normalize = .ok w := hw
  have hwn' : Γ.freshVerdict (Ty.cls c).normalize (Ty.cls d).normalize = .ok w' := hw'
  obtain ⟨forgotten, hforgotten, hkind⟩ := hp.exists_plan hwn
  obtain ⟨bare, hbare, hkind'⟩ := hq.exists_plan hwn'
  have hunion : t.normalize.isUnion = false := (isSolid_of_isAlias ht.hasArgs).union
  have heffect : ∀ h v, effect (Γ.applyPlan h forgotten v) =
      effect (Γ.applyPlan h (.of t.normalize (.cls d) w) v) :=
    fun h v => applyPlan_of (Γ := Γ) ▸ hp.effect_applyPlan hforgotten hunion rfl hwn h v
  have heffect' : ∀ h v, effect (Γ.applyPlan h bare v) =
      effect (Γ.applyPlan h (.of (.cls c) (.cls d) w') v) :=
    fun h v => applyPlan_of (Γ := Γ) ▸ hq.effect_applyPlan hbare rfl rfl hwn' h v
  refine ⟨forgotten, bare, hforgotten, hbare, ?_⟩
  rw [← hharmless]
  constructor
  · exact fun hh => hh.congr hkind hkind' heffect heffect'
  · exact fun hh => hh.congr hkind.symm hkind'.symm (fun h v => (heffect h v).symm)
      fun h v => (heffect' h v).symm

end Asked

/-- Lists of integers. -/
def intList : Ty := .applied (.native (.builtin .list)) [.builtin .int]

theorem parametrizes_intList : intList.normalize.Parametrizes (.builtin .list) :=
  ⟨rfl, rfl, rfl, ⟨rfl, rfl, rfl⟩⟩

/-- A list of integers is a sequence, like any list. -/
theorem forgetting_harmless_iff_sequence :
    ∃ forgotten bare, ((Program.empty.plan intList (.builtin .sequence)).run.run
        ⟨true, [], []⟩).1 = .ok forgotten ∧
      ((Program.empty.plan (.builtin .list) (.builtin .sequence)).run.run ⟨true, [], []⟩).1 =
        .ok bare ∧
      Harmless .empty (.builtin .list) forgotten bare := by
  have hasked := Planner.asked_empty .empty true
  obtain ⟨forgotten, bare, hforgotten, hbare, hharmless⟩ :=
    forgetting_harmless_iff (d := .builtin .sequence) hasked hasked parametrizes_intList rfl
  exact ⟨forgotten, bare, hforgotten, hbare, hharmless.2 (.subclass (by with_unfolding_all rfl))⟩

/-- A list may be a mapping, since mappings are an interface, but a list of integers may not. -/
theorem intList_not_mapping :
    ¬∀ (Γ : Program) (p q : Planner) (t : Ty) (c d : Cls) (forgotten bare : Plan), p.Asked Γ →
      q.Asked Γ → t.normalize.Parametrizes c → (Ty.cls d).isClass = true →
      ((Γ.plan t (.cls d)).run.run p).1 = .ok forgotten →
      ((Γ.plan (.cls c) (.cls d)).run.run q).1 = .ok bare → Harmless Γ c forgotten bare := by
  intro hharmless
  have hasked := Planner.asked_empty .empty false
  have hforgotten : ((Program.empty.plan intList (.builtin .mapping)).run.run ⟨false, [], []⟩).1 =
      .ok (.of intList (.builtin .mapping) .impossible) := by
    with_unfolding_all rfl
  have hbare : ((Program.empty.plan (.builtin .list) (.builtin .mapping)).run.run
      ⟨false, [], []⟩).1 =
      .ok (.of (.builtin .list) (.builtin .mapping) (.convert (.cast (.builtin .mapping)))) := by
    with_unfolding_all rfl
  have hmapping := hharmless .empty _ _ intList _ _ _ _ hasked hasked parametrizes_intList rfl
    hforgotten hbare
  cases hmapping.possible.2 rfl

end CallAdapter
