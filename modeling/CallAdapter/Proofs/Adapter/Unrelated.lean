import CallAdapter.Proofs.Adapter.Signature
import CallAdapter.Proofs.Conversion.Widening

/-!
# Classes that have nothing to do with each other

Between two classes without a rule there is no way, unless one of them has an abstract interface
among its ancestors: values may then be of both, and are cast. That holds for classes that implement
an interface as well as for the interfaces themselves (`unrelated_impossible_iff`), so a concrete
class such as the fractions takes a cast from every class (`str_cast_to_fraction`). A member whose
input cannot be reached fits no shape (`not_planned_of_impossible`).
-/

namespace CallAdapter

open Program

namespace Program

variable {Γ : Program} {c d : Cls}

/-- A rule of the numeric tower, or one of the conversions between classes of numbers. -/
def HasNumericRule (Γ : Program) (c d : Cls) : Prop :=
  ∃ r ∈ numericWidening ++ numericRules.map (·.1),
    Γ.isSubclass (.cls c) (.builtin r.1) = true ∧ d = .builtin r.2

instance (Γ : Program) (c d : Cls) : Decidable (Γ.HasNumericRule c d) :=
  inferInstanceAs (Decidable (∃ r ∈ numericWidening ++ numericRules.map (·.1),
    Γ.isSubclass (.cls c) (.builtin r.1) = true ∧ d = .builtin r.2))

/-- Integers are looked up in enumerations, truth values are not. -/
def HasLookupRule (Γ : Program) (c d : Cls) : Prop :=
  Γ.isEnum (.cls d) = true ∧ Γ.isSubclass (.cls c) (.builtin .int) = true ∧ c ≠ .builtin .bool

instance (Γ : Program) (c d : Cls) : Decidable (Γ.HasLookupRule c d) :=
  inferInstanceAs (Decidable (Γ.isEnum (.cls d) = true ∧
    Γ.isSubclass (.cls c) (.builtin .int) = true ∧ c ≠ .builtin .bool))

/-- Two classes, neither of them a subclass of the other, without a rule from one to the other. -/
structure Unrelated (Γ : Program) (c d : Cls) : Prop where
  source : (Ty.cls c).isClass = true ∧ (Ty.cls c).isTop = false
  dest : (Ty.cls d).isClass = true ∧ (Ty.cls d).isTop = false
  ne : c ≠ d
  notSubclass : Γ.isSubclass (.cls c) (.cls d) = false
  notSuperclass : Γ.isSubclass (.cls d) (.cls c) = false
  noNumericRule : ¬Γ.HasNumericRule c d
  noLookupRule : ¬Γ.HasLookupRule c d

/-- A class with nothing left to implement that is no interface itself: the fractions, and the
builtin classes without an abstract ancestor; declared classes that lack no implementation and are
neither protocols nor derived from the abstract base class directly. -/
def IsConcrete (Γ : Program) : Cls → Prop
  | .builtin b => b.isAbstract = false ∨ b = .fraction
  | .declared c => ∃ i, Γ.info? c = some i ∧ i.missing = [] ∧ i.isProtocol = false ∧
    ∀ base ∈ i.bases, base.origin ≠ .builtin .abstractBase

/-- Where no number is converted, integers are looked up in enumerations, and an abstract interface
or a subclass leaves a cast. -/
theorem classVerdict_of_noNumericRule (hsub : Γ.isSubclass (.cls c) (.cls d) = false)
    (hnumeric : ¬Γ.HasNumericRule c d) :
    Γ.classVerdict (.cls c) (.cls d) =
      if Γ.HasLookupRule c d then .convert (lookupIn (.cls d))
      else if Γ.isSubclass (.cls d) (.cls c) || (Γ.isAbstract c || Γ.isAbstract d) then
        .convert (.cast (.cls d))
      else .impossible := by
  have hwiden : (numericWidening.any fun w => Γ.isSubclass (.cls c) (.builtin w.1) &&
      decide (d = .builtin w.2)) = false := by
    rw [Bool.eq_false_iff, Ne, List.any_eq_true]
    rintro ⟨w, hw, hrule⟩
    rw [Bool.and_eq_true, decide_eq_true_eq] at hrule
    exact hnumeric ⟨w, List.mem_append_left _ hw, hrule⟩
  have hfind : (numericRules.find? fun r => decide (d = .builtin r.1.2) &&
      Γ.isSubclass (.cls c) (.builtin r.1.1)) = none := by
    refine List.find?_eq_none.2 fun r hr hrule => ?_
    rw [Bool.and_eq_true, decide_eq_true_eq] at hrule
    exact hnumeric ⟨r.1, List.mem_append_right _ (List.mem_map_of_mem hr), hrule.2, hrule.1⟩
  unfold classVerdict HasLookupRule
  simp only [hsub, hwiden, hfind, Bool.false_eq_true, if_false]
  refine if_congr ?_ rfl ?_
  · rw [Bool.and_eq_true, Bool.and_eq_true, and_assoc, Bool.not_eq_true']
    refine and_congr_right fun _ => and_congr_right fun _ => ?_
    split
    · rename_i hbool
      simp [Ty.cls.inj hbool]
    · rename_i hbool
      exact ⟨fun _ hc => hbool (congrArg Ty.cls hc), fun _ => rfl⟩
  · simp only [isAbstractType]
    cases Γ.isSubclass (.cls d) (.cls c) <;> simp

namespace Unrelated

theorem classVerdict_eq (hu : Γ.Unrelated c d) :
    Γ.classVerdict (.cls c) (.cls d) =
      if Γ.isAbstract c || Γ.isAbstract d then .convert (.cast (.cls d)) else .impossible := by
  rw [classVerdict_of_noNumericRule hu.notSubclass hu.noNumericRule, if_neg hu.noLookupRule,
    hu.notSuperclass, Bool.false_or]

theorem normalPair (c d : Cls) : NormalPair (.cls c) (.cls d) :=
  ⟨Ty.normalize_cls c, Ty.normalize_cls d⟩

theorem same_eq_false (hu : Γ.Unrelated c d) : (Ty.cls c).same (.cls d) = false := by
  rw [Bool.eq_false_iff, Ne, Ty.same_iff_eq_of_isAtom rfl]
  exact fun h => hu.ne (Ty.cls.inj h)

/-- From nothing and to nothing there is no way. -/
theorem freshVerdict_of_none (hu : Γ.Unrelated c d)
    (hnone : c = .builtin .none ∨ d = .builtin .none) :
    Γ.freshVerdict (.cls c) (.cls d) = .ok .impossible := by
  refine freshVerdict_of_direct? (normalPair c d) ?_
  have hsame := hu.same_eq_false
  have hctop := hu.source.2
  have hdtop := hu.dest.2
  have hvoid : (Ty.cls c).isVoid = true ∨ (Ty.cls d).isVoid = true :=
    hnone.imp (congrArg fun c => (Ty.cls c).isVoid) (congrArg fun d => (Ty.cls d).isVoid)
  have hoptional : (Ty.cls d).isOptional = false := rfl
  have hrefuses : Ty.refusesPlanning (.cls c) (.cls d) = false := Ty.refusesPlanning_cls _ _
  unfold direct?
  grind

theorem isSolid {c : Cls} (htop : (Ty.cls c).isTop = false) (hnone : c ≠ .builtin .none) :
    (Ty.cls c).IsSolid := by
  refine ⟨htop, ?_, rfl⟩
  rw [Bool.eq_false_iff, Ne, Ty.isVoid_iff]
  exact fun h => hnone (Ty.cls.inj h)

/-- Between classes that have values of their own, an abstract interface on either side leaves a
cast. -/
theorem freshVerdict_of_ne_none (hu : Γ.Unrelated c d) (hc : c ≠ .builtin .none)
    (hd : d ≠ .builtin .none) :
    Γ.freshVerdict (.cls c) (.cls d) = .ok
      (if Γ.isAbstract c || Γ.isAbstract d then .convert (.cast (.cls d)) else .impossible) := by
  refine freshVerdict_of_direct? (normalPair c d) ?_
  have hdirect : Γ.direct? (.cls c) (.cls d) = _ :=
    direct?_of_isSolid (isSolid hu.source.2 hc) (isSolid hu.dest.2 hd)
      (Ty.refusesPlanning_cls _ _)
  rw [hdirect, hu.same_eq_false, isAlias_eq_false_of_isClass hu.source.1,
    isAlias_eq_false_of_isClass hu.dest.1, hu.source.1, hu.dest.1, hu.classVerdict_eq]
  rfl

/-- There is always an answer, and when it is that there is no way. -/
theorem exists_freshVerdict (hu : Γ.Unrelated c d) :
    ∃ w, Γ.freshVerdict (.cls c) (.cls d) = .ok w ∧
      (w.kind = .impossible ↔ c = .builtin .none ∨ d = .builtin .none ∨
        Γ.isAbstract c = false ∧ Γ.isAbstract d = false) := by
  by_cases hnone : c = .builtin .none ∨ d = .builtin .none
  · refine ⟨_, hu.freshVerdict_of_none hnone, ?_⟩
    rw [← or_assoc]
    exact ⟨fun _ => .inl hnone, fun _ => rfl⟩
  · rw [not_or] at hnone
    refine ⟨_, hu.freshVerdict_of_ne_none hnone.1 hnone.2, ?_⟩
    cases hc : Γ.isAbstract c <;> cases hd : Γ.isAbstract d <;> simp [hnone, Verdict.kind]

end Unrelated

end Program

/-! ## Members that fit no shape -/

section Viability

variable {Γ : Program} {p : Planner} {s d : Ty} {shape : Shape} {t : Target} {bound : Value}

/-- A parameter of the shape lines up with an input of the member, and what they hold are values of
the types `s` and `d`. -/
def LinesUp (shape : Shape) (t : Target) (bound : Value) (s d : Ty) : Prop :=
  ∃ slot ∈ shape.params.zip (if bound.isUnbound then t.inputs else t.inputs.tail),
    slot.1.content.normalize = s ∧ slot.2.content.normalize = d

theorem SlotsPlanned.exists_planned {R : Reuse} {i : Nat} {gs ds : List Ty} {slots : List Slot}
    (hslots : SlotsPlanned Γ R i gs ds slots) {g e : Ty} (h : (g, e) ∈ gs.zip ds) :
    ∃ slot : Slot, slot.Planned Γ R g e := by
  induction hslots with
  | nil => cases h
  | cons _ hs _ ih =>
    rw [List.zip_cons_cons, List.mem_cons] at h
    rcases h with heq | h
    · cases heq
      exact ⟨_, hs⟩
    · exact ih h

theorem SignaturePlan.Planned.slotsPlanned {R : Reuse} {h : Heap} {plan : SignaturePlan}
    (hplan : plan.Planned Γ R h shape t bound) :
    ∃ slots, SlotsPlanned Γ R 0 shape.params (if bound.isUnbound then t.inputs else t.inputs.tail)
      slots := by
  cases hplan with
  | free hbound hslots =>
    rw [if_pos hbound]
    exact ⟨_, hslots⟩
  | captured hbound hinputs _ hslots =>
    rw [if_neg (by simp [hbound]), hinputs]
    exact ⟨_, hslots⟩

/-- Where there is no way between two types that line up, shape and member do not fit. -/
theorem not_planned_of_impossible (hp : p.Asked Γ) (hn : NormalPair s d)
    (himpossible : Γ.freshVerdict s d = .ok .impossible) (hlines : LinesUp shape t bound s d)
    (h : Heap) (plan : SignaturePlan) :
    ((Γ.planSignature h shape t bound).run.run.run p).1 ≠ .ok (.ok plan) := by
  intro hplan
  obtain ⟨_, hsound⟩ := hp.sound
  obtain ⟨slots, hslots⟩ := (planned_of_planSignature hsound hplan).slotsPlanned
  obtain ⟨⟨g, e⟩, hmem, rfl, rfl⟩ := hlines
  obtain ⟨slot, hslot⟩ := hslots.exists_planned hmem
  have hkind := kind_eq_freshVerdict betweenSpellings_historyReuse hslot.answer.2 (Ty.same_refl _)
    (Ty.same_refl _) hn himpossible
  exact slot.plan.isPossible_iff.1 hslot.possible (slot.plan.kind_verdict.symm.trans hkind)

/-- Between classes that have nothing to do with each other there is always an answer, and it is
that there is no way exactly if one of them is nothing, or neither has an abstract interface among
its ancestors. A member with an input of the one class then fits no shape that gives the other. -/
theorem unrelated_impossible_iff {c d : Cls} (hp : p.Asked Γ) (hu : Γ.Unrelated c d) :
    ∃ plan, ((Γ.plan (.cls c) (.cls d)).run.run p).1 = .ok plan ∧
      (plan.kind = .impossible ↔ c = .builtin .none ∨ d = .builtin .none ∨
        Γ.isAbstract c = false ∧ Γ.isAbstract d = false) ∧
      (plan.kind = .impossible → ∀ q : Planner, q.Asked Γ → ∀ h shape t bound,
        LinesUp shape t bound (.cls c) (.cls d) → ∀ signature,
          ((Γ.planSignature h shape t bound).run.run.run q).1 ≠ .ok (.ok signature)) := by
  obtain ⟨w, hw, hkind⟩ := hu.exists_freshVerdict
  have hnormal : Γ.freshVerdict (Ty.cls c).normalize (Ty.cls d).normalize = .ok w := hw
  obtain ⟨plan, hplan, hplankind⟩ := hp.exists_plan hnormal
  refine ⟨plan, hplan, hplankind ▸ hkind, fun himpossible q hq h shape t bound hlines => ?_⟩
  have hwkind : w = .impossible := by
    rw [hplankind] at himpossible
    cases w <;> first | rfl | cases himpossible
  exact not_planned_of_impossible hq (Program.Unrelated.normalPair c d) (hwkind ▸ hw) hlines h

end Viability

/-- Numbers are no texts. -/
theorem unrelated_impossible_iff_intStr :
    ∃ plan, ((Program.empty.plan (.builtin .int) (.builtin .str)).run.run ⟨false, [], []⟩).1 =
        .ok plan ∧ plan.kind = .impossible := by
  have hunrelated : Program.empty.Unrelated (.builtin .int) (.builtin .str) :=
    ⟨⟨rfl, rfl⟩, ⟨rfl, rfl⟩, by decide, by decide +kernel, by decide +kernel, by decide +kernel,
      by decide +kernel⟩
  obtain ⟨plan, hplan, hkind, -⟩ :=
    unrelated_impossible_iff (Planner.asked_empty .empty false) hunrelated
  exact ⟨plan, hplan, hkind.2 (.inr (.inr (by decide +kernel)))⟩

/-- The fractions are concrete, and still every text is cast to a fraction. -/
theorem str_cast_to_fraction :
    ¬∀ (Γ : Program) (c d : Cls) (p : Planner) (plan : Plan), p.Asked Γ → Γ.IsConcrete c →
      Γ.IsConcrete d → Γ.Unrelated c d → ((Γ.plan (.cls c) (.cls d)).run.run p).1 = .ok plan →
      plan.kind = .impossible := by
  intro himpossible
  have hunrelated : Program.empty.Unrelated (.builtin .str) (.builtin .fraction) :=
    ⟨⟨rfl, rfl⟩, ⟨rfl, rfl⟩, by decide, by decide +kernel, by decide +kernel, by decide +kernel,
      by decide +kernel⟩
  have hplan : ((Program.empty.plan (.builtin .str) (.builtin .fraction)).run.run
      ⟨false, [], []⟩).1 =
      .ok (.of (.builtin .str) (.builtin .fraction) (.convert (.cast (.builtin .fraction)))) := by
    with_unfolding_all rfl
  have hstr : Program.empty.IsConcrete (.builtin .str) := .inl rfl
  have hfraction : Program.empty.IsConcrete (.builtin .fraction) := .inr rfl
  have hkind := himpossible .empty _ _ _ _ (Planner.asked_empty _ _) hstr hfraction hunrelated hplan
  cases hkind

end CallAdapter
