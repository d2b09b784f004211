import CallAdapter.Proofs.Conversion.UnionSource

/-!
# Types that are reached untouched

A plan widens when it reuses every value as it is. `Untouched` collects the rules by which that
happens, one constructor for each, and a planner widens between two types exactly where they apply
(`widens_iff_untouched`), whatever it was asked before (`Planner.Asked.widens_iff`).

A type that widens to a member of a union need not widen to the union: everything and nothing are
settled before members are looked at (`widens_into_union_iff`).
-/

namespace CallAdapter

open Program

namespace Ty

/-- A type with values of its own: no union, and neither everything nor nothing. -/
structure IsSolid (t : Ty) : Prop where
  top : t.isTop = false
  void : t.isVoid = false
  union : t.isUnion = false

/-- Nothing on the two sides refuses to be compared, member by member. -/
def ComparableWith (s d : Ty) : Prop := ∀ a ∈ s.flat, ∀ b ∈ d.flat, refusesPlanning a b = false

section ComparableWith

variable {s d t m : Ty}

theorem ComparableWith.refuses (h : s.ComparableWith d) : refusesPlanning s d = false := by
  by_cases hu : (s.isUnion || d.isUnion) = true
  · exact refusesPlanning_of_isUnion hu
  · rw [Bool.or_eq_true, not_or, Bool.not_eq_true, Bool.not_eq_true] at hu
    refine h s ?_ d ?_
    · rw [flat_of_isUnion_eq_false hu.1]
      exact List.mem_singleton_self s
    · rw [flat_of_isUnion_eq_false hu.2]
      exact List.mem_singleton_self d

theorem ComparableWith.of_mem_source (h : s.ComparableWith d) (hu : s.isUnion = true)
    (hm : m ∈ s.unionMembers) (hmu : m.isUnion = false) : m.ComparableWith d := by
  intro a ha
  rw [flat_of_isUnion_eq_false hmu, List.mem_singleton] at ha
  subst ha
  exact h a (flat_of_isUnion hu ▸ hm)

theorem ComparableWith.of_mem_dest (h : s.ComparableWith d) (hu : d.isUnion = true)
    (hm : m ∈ d.unionMembers) (hmu : m.isUnion = false) : s.ComparableWith m := by
  intro a ha b hb
  rw [flat_of_isUnion_eq_false hmu, List.mem_singleton] at hb
  subst hb
  exact h a ha b (flat_of_isUnion hu ▸ hm)

end ComparableWith

end Ty

namespace Program

/-- The rules by which values go over untouched, for types in normal form. -/
inductive Untouched (Γ : Program) : Ty → Ty → Prop
  | same {s d : Ty} : s.same d = true → Untouched Γ s d
  | top {s d : Ty} : d.isTop = true → Untouched Γ s d
  | absent {s d : Ty} : s.isVoid = true → d.isOptional = true → Untouched Γ s d
  | fromUnion {s d : Ty} : s.isUnion = true → d.isVoid = false →
    (∀ m ∈ s.unionMembers, Untouched Γ m d) → Untouched Γ s d
  | intoUnion {s d m : Ty} : s.IsSolid → d.isUnion = true → m ∈ d.unionMembers →
    Untouched Γ s m → Untouched Γ s d
  /-- A subclass, where an alias is reached by aliases with the same arguments only. -/
  | subclass {s d : Ty} : s.IsSolid → d.IsSolid → Γ.isSubclass s.origin d.origin = true →
    (d.isAlias = true → s.isAlias = true ∧ Ty.sameAll s.args d.args = true) → Untouched Γ s d
  /-- A class of numbers that stand for others. -/
  | numeric {s : Ty} {w : Builtin × Builtin} : s.IsSolid → w ∈ numericWidening →
    Γ.isSubclass s (.builtin w.1) = true → Untouched Γ s (.builtin w.2)

/-- A fresh planner reuses the values untouched, for types in normal form. -/
def Widens (Γ : Program) (s d : Ty) : Prop :=
  ∃ w, Γ.freshVerdict s d = .ok w ∧ w.isImplicit = true

section Rules

variable {Γ : Program} {s d : Ty} {w : Verdict}

theorem isTop_eq_false_of_isUnion (hu : s.isUnion = true) : s.isTop = false := by
  cases s <;> first | rfl | cases hu

theorem isVoid_eq_false_of_isUnion (hu : s.isUnion = true) : s.isVoid = false := by
  cases s <;> first | rfl | cases hu

theorem direct?_eq_none_iff :
    Γ.direct? s d = none ↔ Ty.refusesPlanning s d = false ∧ s.same d = false ∧
      d.isTop = false ∧ s.isVoid = false ∧ d.isVoid = false ∧ s.isTop = false ∧
      (s.isUnion || d.isUnion) = true := by
  unfold direct?
  grind

theorem refuses_of_direct? (hw : Γ.direct? s d = some (.ok w)) :
    Ty.refusesPlanning s d = false := by
  unfold direct? at hw
  grind

theorem isAlias_eq_false_of_isClass (h : s.isClass = true) : s.isAlias = false := by
  cases s with
  | cls c =>
    cases c with
    | builtin b => cases b <;> first | rfl | cases h
    | declared c => rfl
  | _ => cases h

theorem origin_of_isAlias_eq_false (h : s.isAlias = false) (hu : s.isUnion = false) :
    s.origin = s := by
  rw [Ty.isAlias, hu, Bool.not_false, Bool.and_true, Option.isSome_eq_false_iff,
    Option.isNone_iff_eq_none] at h
  rw [Ty.origin, h]
  rfl

theorem isClass_of_isSubclass (h : Γ.isSubclass s d = true) :
    s.isClass = true ∧ d.isClass = true := by
  obtain ⟨_, _, -, -, hs, hd, -⟩ := isSubclass_iff.1 h
  exact ⟨hs, hd⟩

theorem isImplicit_aliasVerdict_iff :
    (Γ.aliasVerdict s d).isImplicit = true ↔
      Γ.isSubclass s.origin d.origin = true ∧
        (d.isAlias = true → s.isAlias = true ∧ Ty.sameAll s.args d.args = true) := by
  have hclass : Γ.isSubclass s.origin d.origin = true →
      s.origin.isClass = true ∧ d.origin.isClass = true := isClass_of_isSubclass
  unfold aliasVerdict
  grind [Verdict.isImplicit]

theorem isImplicit_classVerdict_iff :
    (Γ.classVerdict s d).isImplicit = true ↔ Γ.isSubclass s d = true ∨
      ∃ w ∈ numericWidening, Γ.isSubclass s (.builtin w.1) = true ∧ d = .builtin w.2 := by
  unfold classVerdict
  extract_lets source dest isBool
  have hdest : ∀ b, dest b = true ↔ d = .builtin b := by
    intro b
    cases d <;> simp [dest, Ty.builtin]
  have hnumeric : (numericWidening.any fun w => source w.1 && dest w.2) = true ↔
      ∃ w ∈ numericWidening, Γ.isSubclass s (.builtin w.1) = true ∧ d = .builtin w.2 := by
    simp only [List.any_eq_true, Bool.and_eq_true, hdest, source]
  rw [← hnumeric]
  grind [Verdict.isImplicit]

/-- Only classes stand for others in the numeric tower. -/
theorem isClass_of_numericWidening {w : Builtin × Builtin} (hw : w ∈ numericWidening)
    (hsub : Γ.isSubclass s (.builtin w.1) = true) (hd : d = .builtin w.2) :
    s.isClass = true ∧ d.isClass = true := by
  refine ⟨(isClass_of_isSubclass hsub).1, ?_⟩
  simp only [numericWidening, List.mem_cons, List.not_mem_nil, or_false] at hw
  rcases hw with rfl | rfl | rfl <;> exact hd ▸ rfl

/-- Types with values of their own are settled without a look at members. -/
theorem direct?_of_isSolid (hs : s.IsSolid) (hd : d.IsSolid)
    (hrefuses : Ty.refusesPlanning s d = false) :
    Γ.direct? s d = some (.ok (if s.same d then .identity
      else if s.isAlias || d.isAlias then Γ.aliasVerdict s d
      else if s.isClass && d.isClass then Γ.classVerdict s d else .impossible)) := by
  simp only [direct?, hrefuses, hs.top, hs.void, hs.union, hd.top, hd.void, hd.union,
    Bool.or_false, Bool.false_eq_true, if_false]
  split
  · rfl
  split
  · rfl
  split <;> rfl

theorem isImplicit_direct?_iff (hs : s.IsSolid) (hd : d.IsSolid)
    (hw : Γ.direct? s d = some (.ok w)) :
    w.isImplicit = true ↔ s.same d = true ∨
      (Γ.isSubclass s.origin d.origin = true ∧
        (d.isAlias = true → s.isAlias = true ∧ Ty.sameAll s.args d.args = true)) ∨
      ∃ w ∈ numericWidening, Γ.isSubclass s (.builtin w.1) = true ∧ d = .builtin w.2 := by
  have hdirect := direct?_of_isSolid (Γ := Γ) hs hd (refuses_of_direct? hw)
  obtain rfl := Except.ok.inj (Option.some.inj (hdirect.symm.trans hw))
  by_cases hsame : s.same d = true
  · simp [hsame, Verdict.isImplicit]
  rw [if_neg hsame]
  by_cases halias : (s.isAlias || d.isAlias) = true
  · have hnumeric : ¬∃ w ∈ numericWidening,
        Γ.isSubclass s (.builtin w.1) = true ∧ d = .builtin w.2 := by
      rintro ⟨w, hw, hsub, hd⟩
      obtain ⟨hsc, hdc⟩ := isClass_of_numericWidening hw hsub hd
      rw [isAlias_eq_false_of_isClass hsc, isAlias_eq_false_of_isClass hdc] at halias
      cases halias
    simp [halias, isImplicit_aliasVerdict_iff, hsame, hnumeric]
  · simp only [Bool.or_eq_true, not_or, Bool.not_eq_true] at halias
    simp only [halias, Bool.or_false, Bool.false_eq_true, if_false, false_imp_iff, and_true, hsame,
      false_or, origin_of_isAlias_eq_false halias.1 hs.union,
      origin_of_isAlias_eq_false halias.2 hd.union]
    by_cases hclass : (s.isClass && d.isClass) = true
    · rw [if_pos hclass, isImplicit_classVerdict_iff]
    · rw [if_neg hclass, Bool.and_eq_true] at *
      constructor
      · intro h
        cases h
      · rintro (hsub | ⟨w, hw, hsub, hd⟩)
        · obtain ⟨_, _, -, -, hsc, hdc, -⟩ := isSubclass_iff.1 hsub
          exact absurd ⟨hsc, hdc⟩ hclass
        · exact absurd (isClass_of_numericWidening hw hsub hd) hclass

theorem untouched_of_direct? (hdirect : Γ.direct? s d = some (.ok w))
    (hw : w.isImplicit = true) : Γ.Untouched s d := by
  have hrefuses := refuses_of_direct? hdirect
  by_cases hsame : s.same d = true
  · exact .same hsame
  by_cases hdtop : d.isTop = true
  · exact .top hdtop
  by_cases hsvoid : s.isVoid = true
  · refine .absent hsvoid ?_
    simp only [direct?, hrefuses, hsame, hdtop, hsvoid, Bool.false_eq_true, if_false,
      if_true] at hdirect
    grind [Verdict.isImplicit]
  -- to nothing there is no way, and everything is unboxed
  by_cases hrest : d.isVoid = true ∨ s.isTop = true
  · simp only [direct?, hrefuses, hsame, hdtop, hsvoid, Bool.false_eq_true,
      if_false] at hdirect
    grind [Verdict.isImplicit]
  rw [not_or] at hrest
  simp only [Bool.not_eq_true] at hsame hdtop hsvoid hrest
  by_cases hu : s.isUnion = true ∨ d.isUnion = true
  · have hnone : Γ.direct? s d = none := direct?_eq_none_iff.2
      ⟨hrefuses, hsame, hdtop, hsvoid, hrest.1, hrest.2, by simpa using hu⟩
    cases hnone.symm.trans hdirect
  · rw [not_or, Bool.not_eq_true, Bool.not_eq_true] at hu
    have hs : s.IsSolid := ⟨hrest.2, hsvoid, hu.1⟩
    have hd : d.IsSolid := ⟨hdtop, hrest.1, hu.2⟩
    rcases (isImplicit_direct?_iff hs hd hdirect).1 hw with
      hsame | ⟨hsub, hargs⟩ | ⟨w, hmem, hsub, rfl⟩
    · exact .same hsame
    · exact .subclass hs hd hsub hargs
    · exact .numeric hs hmem hsub

theorem isImplicit_fromUnion_iff {as : List (Ty × Verdict)} :
    (fromUnion d as).isImplicit = true ↔ ∀ a ∈ as, a.2.isImplicit = true := by
  rw [← List.all_eq_true]
  unfold fromUnion
  grind [Verdict.isImplicit]

/-- What is reused untouched is so by the rules. -/
theorem untouched_of_plans {r : Except Failure Verdict} (h : Γ.Plans NoReuse s d r)
    (hn : NormalPair s d) (hr : r = .ok w) (hw : w.isImplicit = true) :
    Γ.Untouched s d := by
  induction h generalizing w with
  | direct hdirect => exact untouched_of_direct? (hr ▸ hdirect) hw
  | reused hreuse _ => cases hreuse
  | fromUnionError | intoError => cases hr
  | @intoFirst s d as hnone hu has hanswers _ _ =>
    obtain rfl := Except.ok.inj hr
    rcases firstOperation_cases as with ⟨_, -, op, -, hfirst⟩ | ⟨-, hfirst⟩ <;>
    · rw [hfirst] at hw
      cases hw
  | @fromUnion s d as hnone hu has _ ih =>
    obtain rfl := Except.ok.inj hr
    obtain ⟨-, -, -, -, hvoid, -⟩ := direct?_eq_none_iff.1 hnone
    refine .fromUnion hu hvoid fun m hm => ?_
    have hmember := Ty.isNormalMember_of_mem hn.1 hu hm
    have hm' := hm
    rw [← has] at hm'
    obtain ⟨a, ha, rfl⟩ := List.mem_map.1 hm'
    exact ih a ha ⟨hmember.1, hn.2⟩ rfl (isImplicit_fromUnion_iff.1 hw a ha)
  | @intoUntouched s d m as rest v hnone hu hmembers _ _ hv _ _ ih =>
    obtain ⟨-, -, -, hsvoid, -, hstop, hunion⟩ := direct?_eq_none_iff.1 hnone
    rw [hu, Bool.false_or] at hunion
    have hm : m ∈ d.unionMembers := by simp [hmembers]
    have hmember := Ty.isNormalMember_of_mem hn.2 hunion hm
    exact .intoUnion ⟨hstop, hsvoid, hu⟩ hunion hm (ih ⟨hn.1, hmember.1⟩ rfl hv)

theorem isSolid_of_numericWidening {w : Builtin × Builtin} (hw : w ∈ numericWidening) :
    (Ty.builtin w.2).IsSolid := by
  simp only [numericWidening, List.mem_cons, List.not_mem_nil, or_false] at hw
  rcases hw with rfl | rfl | rfl <;> exact ⟨rfl, rfl, rfl⟩

/-- Where no members are looked at, the rules are followed. -/
theorem isImplicit_of_direct? (h : Γ.Untouched s d)
    (hdirect : Γ.direct? s d = some (.ok w)) : w.isImplicit = true := by
  have hrefuses := refuses_of_direct? hdirect
  cases h with
  | subclass hs hd hsub hargs =>
    exact (isImplicit_direct?_iff hs hd hdirect).2 (.inr (.inl ⟨hsub, hargs⟩))
  | numeric hs hmem hsub =>
    exact (isImplicit_direct?_iff hs (isSolid_of_numericWidening hmem) hdirect).2
      (.inr (.inr ⟨_, hmem, hsub, rfl⟩))
  | same hsame =>
    rw [direct?, hrefuses, hsame] at hdirect
    grind [Verdict.isImplicit]
  | top hdtop =>
    rw [direct?, hrefuses, hdtop] at hdirect
    grind [Verdict.isImplicit]
  | absent hsvoid hoptional =>
    rw [direct?, hrefuses, hsvoid, hoptional] at hdirect
    grind [Verdict.isImplicit]
  | fromUnion hu hdvoid _ =>
    rw [direct?, hrefuses, hu, hdvoid, isTop_eq_false_of_isUnion hu,
      isVoid_eq_false_of_isUnion hu] at hdirect
    grind [Verdict.isImplicit]
  | intoUnion hs hu _ _ =>
    rw [direct?, hrefuses, hu, isVoid_eq_false_of_isUnion hu, hs.top, hs.void] at hdirect
    grind [Verdict.isImplicit]

theorem isImplicit_of_direct?_ne_none (h : Γ.Untouched s d)
    (hplans : Γ.Plans NoReuse s d (.ok w)) (hdirect : Γ.direct? s d ≠ none) :
    w.isImplicit = true := by
  obtain ⟨r, hr⟩ := Option.ne_none_iff_exists'.1 hdirect
  obtain rfl := eq_of_plans_noReuse hr hplans
  exact isImplicit_of_direct? h hr

theorem not_isSolid_of_direct?_eq_none (hnone : Γ.direct? s d = none) (hs : s.IsSolid) :
    ¬d.IsSolid := by
  intro hd
  have hunion := (direct?_eq_none_iff.1 hnone).2.2.2.2.2.2
  rw [hs.union, hd.union] at hunion
  cases hunion

/-- Every answer follows the rules. -/
theorem isImplicit_of_untouched (h : Γ.Untouched s d) (hn : NormalPair s d)
    (hplans : Γ.Plans NoReuse s d (.ok w)) : w.isImplicit = true := by
  induction h generalizing w with
  | @fromUnion s d hu hvoid hmembers ih =>
    by_cases hdirect : Γ.direct? s d = none
    · obtain ⟨as, has, hanswers, rfl⟩ := fromUnion_of_plans_noReuse hdirect hu hplans
      refine isImplicit_fromUnion_iff.2 fun a ha => ?_
      have hm : a.1 ∈ s.unionMembers := has ▸ List.mem_map_of_mem ha
      have hmember := Ty.isNormalMember_of_mem hn.1 hu hm
      exact ih a.1 hm ⟨hmember.1, hn.2⟩ (hanswers a ha)
    · exact isImplicit_of_direct?_ne_none (.fromUnion hu hvoid hmembers) hplans hdirect
  | @intoUnion s d m hs hu hm huntouched ih =>
    by_cases hdirect : Γ.direct? s d = none
    · rcases intoUnion_of_plans_noReuse hdirect hs.union hplans with
        ⟨rfl, -⟩ | ⟨as, has, hanswers, -⟩
      · rfl
      · -- the member that is reached untouched is among those that are not
        have hmember := Ty.isNormalMember_of_mem hn.2 hu hm
        rw [← has] at hm
        obtain ⟨a, ha, rfl⟩ := List.mem_map.1 hm
        obtain ⟨hexplicit, hplan⟩ := hanswers a ha
        cases hexplicit.symm.trans (ih ⟨hn.1, hmember.1⟩ hplan)
    · exact isImplicit_of_direct?_ne_none (.intoUnion hs hu hm huntouched) hplans hdirect
  | same hsame =>
    refine isImplicit_of_direct?_ne_none (.same hsame) hplans fun hnone => ?_
    cases (direct?_eq_none_iff.1 hnone).2.1.symm.trans hsame
  | top hdtop =>
    refine isImplicit_of_direct?_ne_none (.top hdtop) hplans fun hnone => ?_
    cases (direct?_eq_none_iff.1 hnone).2.2.1.symm.trans hdtop
  | absent hsvoid hoptional =>
    refine isImplicit_of_direct?_ne_none (.absent hsvoid hoptional) hplans fun hnone => ?_
    cases (direct?_eq_none_iff.1 hnone).2.2.2.1.symm.trans hsvoid
  | subclass hs hd hsub hargs =>
    exact isImplicit_of_direct?_ne_none (.subclass hs hd hsub hargs) hplans
      fun hnone => not_isSolid_of_direct?_eq_none hnone hs hd
  | numeric hs hmem hsub =>
    exact isImplicit_of_direct?_ne_none (.numeric hs hmem hsub) hplans
      fun hnone => not_isSolid_of_direct?_eq_none hnone hs (isSolid_of_numericWidening hmem)

/-- Values are reused exactly by the rules, wherever there is an answer. -/
theorem isImplicit_iff_untouched (hn : NormalPair s d) (hw : Γ.freshVerdict s d = .ok w) :
    w.isImplicit = true ↔ Γ.Untouched s d :=
  ⟨untouched_of_plans (plans_freshVerdict hn) hn hw,
    fun h => isImplicit_of_untouched h hn (hw ▸ plans_freshVerdict hn)⟩

/-- Comparable types are always planned. -/
theorem isOk_of_comparable {r : Except Failure Verdict} (h : Γ.Plans NoReuse s d r)
    (hn : NormalPair s d) (hcmp : s.ComparableWith d) : r.isOk = true := by
  induction h with
  | @direct s d r hdirect =>
    cases r with
    | ok v => rfl
    | error e =>
      have hrefuses := hcmp.refuses
      unfold direct? at hdirect
      grind
  | reused hreuse _ => cases hreuse
  | fromUnion | intoUntouched | intoFirst => rfl
  | fromUnionError _ hu hm _ ih =>
    have hmember := Ty.isNormalMember_of_mem hn.1 hu hm
    exact ih ⟨hmember.1, hn.2⟩ (hcmp.of_mem_source hu hm hmember.2)
  | @intoError s d m as rest e hnone hu hmembers _ _ _ _ ih =>
    have hdu : d.isUnion = true := isUnion_dest_of_direct?_eq_none hnone hu
    have hm : m ∈ d.unionMembers := by simp [hmembers]
    have hmember := Ty.isNormalMember_of_mem hn.2 hdu hm
    exact ih ⟨hn.1, hmember.1⟩ (hcmp.of_mem_dest hdu hm hmember.2)

theorem exists_freshVerdict (hn : NormalPair s d) (hcmp : s.ComparableWith d) :
    ∃ w, Γ.freshVerdict s d = .ok w := by
  have hok := isOk_of_comparable (plans_freshVerdict (Γ := Γ) hn) hn hcmp
  cases hfresh : Γ.freshVerdict s d with
  | error e =>
    rw [hfresh] at hok
    cases hok
  | ok w => exact ⟨w, rfl⟩

theorem widens_iff_untouched (hn : NormalPair s d) (hcmp : s.ComparableWith d) :
    Γ.Widens s d ↔ Γ.Untouched s d := by
  obtain ⟨w, hw⟩ := exists_freshVerdict (Γ := Γ) hn hcmp
  rw [← isImplicit_iff_untouched hn hw]
  constructor
  · rintro ⟨w', hw', himplicit⟩
    rwa [← Except.ok.inj (hw'.symm.trans hw)]
  · exact fun himplicit => ⟨w, hw, himplicit⟩

/-! ## Members of a union -/

/-- Only types with values of their own and the absent value go over to a union untouched. -/
theorem Untouched.into_union (h : Γ.Untouched s d) (hs : s.isUnion = false)
    (hd : d.isUnion = true) : s.isTop = false ∧ (s.isVoid = true → d.isOptional = true) := by
  cases h with
  | same hsame => cases hs.symm.trans ((Ty.isUnion_congr hsame).trans hd)
  | top hdtop => cases (isTop_eq_false_of_isUnion hd).symm.trans hdtop
  | absent hsvoid hoptional =>
    rw [Ty.isVoid_iff] at hsvoid
    subst hsvoid
    exact ⟨rfl, fun _ => hoptional⟩
  | fromUnion hu => cases hs.symm.trans hu
  | intoUnion hsolid => exact ⟨hsolid.top, fun hvoid => nomatch hsolid.void.symm.trans hvoid⟩
  | subclass _ hsolid => cases hsolid.union.symm.trans hd
  | numeric _ hmem => cases hd

/-- A union goes over untouched as the same union, to everything, or member by member. -/
theorem Untouched.union_cases (h : Γ.Untouched s d) (hs : s.isUnion = true) :
    s.same d = true ∨ d.isTop = true ∨ ∀ m ∈ s.unionMembers, Γ.Untouched m d := by
  cases h with
  | same hsame => exact .inl hsame
  | top hdtop => exact .inr (.inl hdtop)
  | fromUnion _ _ hmembers => exact .inr (.inr hmembers)
  | absent hsvoid => cases (isVoid_eq_false_of_isUnion hs).symm.trans hsvoid
  | intoUnion hsolid => cases hsolid.union.symm.trans hs
  | subclass hsolid => cases hsolid.union.symm.trans hs
  | numeric hsolid => cases hsolid.union.symm.trans hs

/-- What a union gives to a type that is no union, its members give. -/
theorem Untouched.of_mem {m : Ty} (h : Γ.Untouched s d) (hs : s.isUnion = true)
    (hd : d.isUnion = false) (hm : m ∈ s.unionMembers) : Γ.Untouched m d := by
  rcases h.union_cases hs with hsame | hdtop | hmembers
  · cases hd.symm.trans ((Ty.isUnion_congr hsame).symm.trans hs)
  · exact .top hdtop
  · exact hmembers m hm

theorem untouched_into_union {m : Ty} (hd : d.isUnion = true) (hm : m ∈ d.unionMembers)
    (h : Γ.Untouched s m) (hs : s.isUnion = false) (htop : s.isTop = false)
    (hvoid : s.isVoid = true → d.isOptional = true) : Γ.Untouched s d := by
  cases hsvoid : s.isVoid with
  | true => exact .absent hsvoid (hvoid hsvoid)
  | false => exact .intoUnion ⟨htop, hsvoid, hs⟩ hd hm h

/-- A type whose members all go over to members of a union goes over to the union, unless one of
them is everything, or nothing where the union does not list nothing. -/
theorem untouched_union_iff (hn : NormalPair s d) (hd : d.isUnion = true)
    (hmembers : ∀ a ∈ s.flat, ∃ m ∈ d.unionMembers, Γ.Untouched a m) :
    Γ.Untouched s d ↔ s.same d = true ∨
      ∀ a ∈ s.flat, a.isTop = false ∧ (a.isVoid = true → d.isOptional = true) := by
  have hdvoid := isVoid_eq_false_of_isUnion hd
  cases hs : s.isUnion with
  | false =>
    rw [Ty.flat_of_isUnion_eq_false hs, List.forall_mem_singleton] at *
    obtain ⟨m, hm, hsm⟩ := hmembers
    constructor
    · exact fun h => .inr (h.into_union hs hd)
    · rintro (hsame | ⟨htop, hvoid⟩)
      · exact .same hsame
      · exact untouched_into_union hd hm hsm hs htop hvoid
  | true =>
    rw [Ty.flat_of_isUnion hs] at *
    have hmember : ∀ a ∈ s.unionMembers, a.isUnion = false :=
      fun a ha => (Ty.isNormalMember_of_mem hn.1 hs ha).2
    constructor
    · intro h
      rcases h.union_cases hs with hsame | hdtop | hall
      · exact .inl hsame
      · cases (isTop_eq_false_of_isUnion hd).symm.trans hdtop
      · exact .inr fun a ha => (hall a ha).into_union (hmember a ha) hd
    · rintro (hsame | hall)
      · exact .same hsame
      · refine .fromUnion hs hdvoid fun a ha => ?_
        obtain ⟨m, hm, ham⟩ := hmembers a ha
        exact untouched_into_union hd hm ham (hmember a ha) (hall a ha).1 (hall a ha).2

end Rules

section Congruence

variable {Γ : Program} {s d s' d' : Ty}

theorem isSolid_congr (h : s.same s' = true) (hs : s.IsSolid) : s'.IsSolid :=
  ⟨Ty.isTop_congr h ▸ hs.top, Ty.isVoid_congr h ▸ hs.void, Ty.isUnion_congr h ▸ hs.union⟩

/-- The spelling of types does not matter. -/
theorem Untouched.congr (h : Γ.Untouched s d) (hs : s.same s' = true) (hd : d.same d' = true) :
    Γ.Untouched s' d' := by
  induction h generalizing s' d' with
  | same hsame => exact .same (Ty.same_congr hs hd ▸ hsame)
  | top hdtop => exact .top (Ty.isTop_congr hd ▸ hdtop)
  | absent hsvoid hoptional =>
    exact .absent (Ty.isVoid_congr hs ▸ hsvoid) (Ty.isOptional_congr hd ▸ hoptional)
  | fromUnion hu hdvoid _ ih =>
    refine .fromUnion (Ty.isUnion_congr hs ▸ hu) (Ty.isVoid_congr hd ▸ hdvoid) fun n hn => ?_
    obtain ⟨m, hm, hmn⟩ := (Ty.unionMembers_congr hs hu).2 n hn
    exact ih m hm hmn hd
  | intoUnion hsolid hu hm _ ih =>
    obtain ⟨n, hn, hmn⟩ := (Ty.unionMembers_congr hd hu).1 _ hm
    exact .intoUnion (isSolid_congr hs hsolid) (Ty.isUnion_congr hd ▸ hu) hn (ih hs hmn)
  | subclass hsolid hdsolid hsub hargs =>
    refine .subclass (isSolid_congr hs hsolid) (isSolid_congr hd hdsolid) ?_ ?_
    · rwa [← isSubclass_congr (Ty.same_origin hs hsolid.union) (Ty.same_origin hd hdsolid.union)]
    · obtain ⟨hsc, hdc⟩ := isClass_of_isSubclass hsub
      rwa [← Ty.isAlias_congr hs, ← Ty.isAlias_congr hd,
        ← Ty.sameAll_congr (Ty.args_congr hs hsolid.union (Ty.origin_ne_literal hsc))
          (Ty.args_congr hd hdsolid.union (Ty.origin_ne_literal hdc))]
  | @numeric s w hsolid hmem hsub =>
    obtain ⟨hsc, hdc⟩ := isClass_of_numericWidening hmem hsub rfl
    obtain rfl := Ty.eq_of_isClass hs hsc
    obtain rfl := Ty.eq_of_isClass hd hdc
    exact .numeric hsolid hmem hsub

end Congruence

end Program

/-! ## Planners -/

namespace Planner

/-- The planner after a history of requests, whether it keeps plans or not. -/
def Asked (Γ : Program) (p : Planner) : Prop :=
  ∃ memoize history, p = Γ.afterRequests history ⟨memoize, [], []⟩

/-- Asked for the pair, the planner gives a plan that reuses every value untouched. -/
def Widens (Γ : Program) (p : Planner) (src dst : Ty) : Prop :=
  ∃ plan, ((Γ.plan src dst).run.run p).1 = .ok plan ∧ plan.verdict.isImplicit = true

section Asked

variable {Γ : Program} {p : Planner} {src dst : Ty} {plan : Plan} {w : Verdict}

theorem asked_empty (Γ : Program) (memoize : Bool) : Asked Γ ⟨memoize, [], []⟩ :=
  ⟨memoize, [], rfl⟩

theorem normalPair_normalize (src dst : Ty) : NormalPair src.normalize dst.normalize :=
  ⟨Ty.normalize_normalize src, Ty.normalize_normalize dst⟩

/-- Whatever a planner was asked before, its plans are sound. -/
theorem Asked.sound (hp : p.Asked Γ) : ∃ keeps, p.Sound Γ keeps NormalPair HistoryReuse := by
  obtain ⟨memoize, history, rfl⟩ := hp
  exact ⟨memoize, sound_history memoize history⟩

theorem Asked.planAnswer (hp : p.Asked Γ) (src dst : Ty) :
    Γ.PlanAnswer HistoryReuse src.normalize dst.normalize ((Γ.plan src dst).run.run p).1 := by
  obtain ⟨_, hsound⟩ := hp.sound
  exact (plan_keeps closedPairs_normalPair (normalPair_normalize src dst) _ hsound).2

theorem Asked.requestAnswer (hp : p.Asked Γ) (r : PlanRequest) :
    Γ.RequestAnswer HistoryReuse r ((Γ.planFor r).run.run p).1 := by
  obtain ⟨_, hsound⟩ := hp.sound
  exact (planFor_keeps closedPairs_normalPair r (normalPair_asked r) _ hsound).2

/-- Answers of fresh planners and others are there together. -/
theorem Asked.isOk_eq (hp : p.Asked Γ) (src dst : Ty) :
    ((Γ.plan src dst).run.run p).1.isOk =
      (Γ.freshVerdict src.normalize dst.normalize).isOk := by
  have hn := normalPair_normalize src dst
  have hanswer := hp.planAnswer src dst
  cases hplan : ((Γ.plan src dst).run.run p).1 with
  | error e =>
    rw [hplan] at hanswer
    exact isOk_eq_of_plans (fun _ _ _ _ h => h.2) hanswer (plans_freshVerdict hn)
  | ok plan =>
    rw [hplan] at hanswer
    exact isOk_eq_of_plans (fun _ _ _ _ h => h.2) hanswer.2 (plans_freshVerdict hn)

/-- An answer is of the kind of a fresh one. -/
theorem Asked.freshVerdict_of_plan (hp : p.Asked Γ)
    (hplan : ((Γ.plan src dst).run.run p).1 = .ok plan) :
    plan.HandsOn ∧
      ∃ w, Γ.freshVerdict src.normalize dst.normalize = .ok w ∧ plan.kind = w.kind := by
  have hok := hp.isOk_eq src dst
  have hanswer := hp.planAnswer src dst
  rw [hplan] at hok hanswer
  cases hfresh : Γ.freshVerdict src.normalize dst.normalize with
  | error e =>
    rw [hfresh] at hok
    cases hok
  | ok w =>
    refine ⟨hanswer.1, w, rfl, ?_⟩
    rw [← plan.kind_verdict]
    exact kind_eq_freshVerdict betweenSpellings_historyReuse hanswer.2 (Ty.same_refl _)
      (Ty.same_refl _) (normalPair_normalize src dst) hfresh

/-- Where a fresh planner answers, every planner does. -/
theorem Asked.exists_plan (hp : p.Asked Γ)
    (hw : Γ.freshVerdict src.normalize dst.normalize = .ok w) :
    ∃ plan, ((Γ.plan src dst).run.run p).1 = .ok plan ∧ plan.kind = w.kind := by
  have hok := hp.isOk_eq src dst
  rw [hw] at hok
  cases hplan : ((Γ.plan src dst).run.run p).1 with
  | error e =>
    rw [hplan] at hok
    cases hok
  | ok plan =>
    obtain ⟨-, w', hw', hkind⟩ := hp.freshVerdict_of_plan hplan
    obtain rfl := Except.ok.inj (hw'.symm.trans hw)
    exact ⟨plan, rfl, hkind⟩

/-- What a planner reuses untouched does not depend on what it was asked before. -/
theorem Asked.widens_iff (hp : p.Asked Γ) :
    p.Widens Γ src dst ↔ Γ.Widens src.normalize dst.normalize := by
  constructor
  · rintro ⟨plan, hplan, himplicit⟩
    obtain ⟨-, w, hw, hkind⟩ := hp.freshVerdict_of_plan hplan
    exact ⟨w, hw, isImplicit_eq_of_kind_eq (plan.kind_verdict.trans hkind) ▸ himplicit⟩
  · rintro ⟨w, hw, himplicit⟩
    obtain ⟨plan, hplan, hkind⟩ := hp.exists_plan hw
    exact ⟨plan, hplan, (isImplicit_eq_of_kind_eq (plan.kind_verdict.trans hkind)).trans himplicit⟩

/-- Answers reuse values exactly by the rules. -/
theorem Asked.isImplicit_iff_untouched (hp : p.Asked Γ)
    (hplan : ((Γ.plan src dst).run.run p).1 = .ok plan) :
    plan.verdict.isImplicit = true ↔ Γ.Untouched src.normalize dst.normalize := by
  obtain ⟨-, w, hw, hkind⟩ := hp.freshVerdict_of_plan hplan
  rw [isImplicit_eq_of_kind_eq (plan.kind_verdict.trans hkind)]
  exact Program.isImplicit_iff_untouched (normalPair_normalize src dst) hw

theorem Asked.untouched_of_widens (hp : p.Asked Γ) (h : p.Widens Γ src dst) :
    Γ.Untouched src.normalize dst.normalize := by
  obtain ⟨plan, hplan, himplicit⟩ := h
  exact (hp.isImplicit_iff_untouched hplan).1 himplicit

theorem applyPlan_of_isImplicit (hplan : plan.HandsOn)
    (himplicit : plan.verdict.isImplicit = true) (h : Heap) (v : Value) :
    Γ.applyPlan h plan v = .ok v := by
  rw [applyPlan_of_handsOn hplan]
  refine runVerdict_of_kind_ne (fun hkind => ?_) v
  cases hw : plan.verdict <;> rw [hw] at himplicit hkind <;> contradiction

end Asked

end Planner

/-! ## Assigning to a union -/

/-- The type goes over untouched to a member of the union, or each of its own members does. -/
def AssignsInto (Γ : Program) (src dst : Ty) : Prop :=
  (∃ m ∈ dst.normalize.unionMembers, ∃ p : Planner, p.Asked Γ ∧ p.Widens Γ src m) ∨
    src.normalize.isUnion = true ∧ ∀ s ∈ src.normalize.unionMembers,
      ∃ m ∈ dst.normalize.unionMembers, ∃ p : Planner, p.Asked Γ ∧ p.Widens Γ s m

section Assign

variable {Γ : Program} {p : Planner} {src dst : Ty}

theorem AssignsInto.untouched (h : AssignsInto Γ src dst) (hdst : dst.normalize.isUnion = true) :
    ∀ s ∈ src.normalize.flat, ∃ m ∈ dst.normalize.unionMembers, Γ.Untouched s m := by
  have hmember : ∀ m ∈ dst.normalize.unionMembers, Ty.IsNormalMember m := fun m hm =>
    Ty.isNormalMember_of_mem (Ty.normalize_normalize dst) hdst hm
  rcases h with ⟨m, hm, p, hp, hwidens⟩ | ⟨hsrc, hall⟩
  · have huntouched := hp.untouched_of_widens hwidens
    rw [(hmember m hm).1] at huntouched
    intro s hs
    cases hsrc : src.normalize.isUnion with
    | true =>
      rw [Ty.flat_of_isUnion hsrc] at hs
      exact ⟨m, hm, huntouched.of_mem hsrc (hmember m hm).2 hs⟩
    | false =>
      rw [Ty.flat_of_isUnion_eq_false hsrc, List.mem_singleton] at hs
      exact ⟨m, hm, hs ▸ huntouched⟩
  · intro s hs
    rw [Ty.flat_of_isUnion hsrc] at hs
    obtain ⟨m, hm, p, hp, hwidens⟩ := hall s hs
    have huntouched := hp.untouched_of_widens hwidens
    rw [(hmember m hm).1,
      (Ty.isNormalMember_of_mem (Ty.normalize_normalize src) hsrc hs).1] at huntouched
    exact ⟨m, hm, huntouched⟩

/-- A type that goes over untouched to a member of a union, or a union whose members do, goes over
untouched to the union exactly where it is the same union, or where no member of the source is
everything, and nothing is a member of the destination if it is one of the source. Values then stay
as they are. There is an answer wherever the types can be compared. -/
theorem widens_into_union_iff (hp : p.Asked Γ) (hdst : dst.normalize.isUnion = true)
    (hassigns : AssignsInto Γ src dst) :
    (src.normalize.ComparableWith dst.normalize →
        ∃ plan, ((Γ.plan src dst).run.run p).1 = .ok plan) ∧
      ∀ plan, ((Γ.plan src dst).run.run p).1 = .ok plan →
        (plan.verdict.isImplicit = true ↔ src.normalize.same dst.normalize = true ∨
          ∀ s ∈ src.normalize.flat,
            s.isTop = false ∧ (s.isVoid = true → dst.normalize.isOptional = true)) ∧
        (plan.verdict.isImplicit = true → ∀ h v, Γ.applyPlan h plan v = .ok v) := by
  have hn := Planner.normalPair_normalize src dst
  refine ⟨fun hcmp => ?_, fun plan hplan => ⟨?_, fun himplicit => ?_⟩⟩
  · obtain ⟨w, hw⟩ := exists_freshVerdict (Γ := Γ) hn hcmp
    obtain ⟨plan, hplan, -⟩ := hp.exists_plan hw
    exact ⟨plan, hplan⟩
  · rw [hp.isImplicit_iff_untouched hplan]
    exact untouched_union_iff hn hdst (hassigns.untouched hdst)
  · exact Planner.applyPlan_of_isImplicit (hp.freshVerdict_of_plan hplan).1 himplicit

end Assign

/-- Text, or a float. -/
def textOrFloat : Ty := .union false [.builtin .str, .builtin .float]

theorem normalize_textOrFloat : textOrFloat.normalize = textOrFloat := by cbv

theorem assignsInto_textOrFloat : AssignsInto .empty (.builtin .int) textOrFloat := by
  refine .inl ⟨.builtin .float, ?_, ⟨false, [], []⟩, Planner.asked_empty _ _,
    .of (.builtin .int) (.builtin .float) .widen, by with_unfolding_all rfl, rfl⟩
  rw [normalize_textOrFloat]
  exact List.mem_cons_of_mem _ List.mem_cons_self

/-- Integers are taken for floats, and so for texts or floats. -/
theorem widens_into_union_iff_textOrFloat :
    ∃ plan, ((Program.empty.plan (.builtin .int) textOrFloat).run.run ⟨false, [], []⟩).1 =
        .ok plan ∧ plan.verdict.isImplicit = true ∧
      ∀ h v, Program.empty.applyPlan h plan v = .ok v := by
  obtain ⟨hanswers, hall⟩ := widens_into_union_iff (Planner.asked_empty _ false)
    (congrArg Ty.isUnion normalize_textOrFloat) assignsInto_textOrFloat
  have hint : (Ty.builtin .int).normalize.flat = [.builtin .int] := rfl
  obtain ⟨plan, hplan⟩ := hanswers fun a ha b _ => by
    rw [hint, List.mem_singleton] at ha
    subst ha
    exact Ty.cls_refusesPlanning b _
  have himplicit : plan.verdict.isImplicit = true := by
    rw [(hall plan hplan).1, hint, List.forall_mem_singleton]
    exact .inr ⟨rfl, nofun⟩
  exact ⟨plan, hplan, himplicit, (hall plan hplan).2 himplicit⟩

/-- Any value, or an integer. -/
def objectOrInt : Ty := .union false [.object, .builtin .int]

/-- The absent value goes over to any value untouched, but there is no way to any value or an
integer. -/
theorem none_not_into_objectOrInt :
    ¬∀ (Γ : Program) (src dst m : Ty) (p : Planner), p.Asked Γ → dst.normalize.isUnion = true →
      m ∈ dst.normalize.unionMembers → p.Widens Γ src m → p.Widens Γ src dst := by
  intro hwidens
  have hmember : Planner.Widens .empty ⟨false, [], []⟩ .none .object :=
    ⟨.of .none .object .widen, by cbv, rfl⟩
  obtain ⟨plan, hplan, himplicit⟩ := hwidens .empty .none objectOrInt .object ⟨false, [], []⟩
    (Planner.asked_empty _ _) (by cbv) (by cbv; exact List.mem_cons_self) hmember
  have hnone : ((Program.empty.plan .none objectOrInt).run.run ⟨false, [], []⟩).1 =
      .ok (.of .none objectOrInt .impossible) := by
    cbv
  obtain rfl := Except.ok.inj (hnone.symm.trans hplan)
  cases himplicit

end CallAdapter
