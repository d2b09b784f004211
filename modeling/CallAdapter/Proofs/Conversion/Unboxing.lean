import CallAdapter.Proofs.Conversion.Soundness

/-!
# Values of unknown type

A plan from the type of all values can always be made. To "nothing at all" there is no way; to any
other type the value is handed over as it is, or the conversion goes on from the value's own class
(`checks_of_plans`). Such a plan makes no absent value of one that is there, and lets none through
as something else (`isNone_eq_of_checks`).
-/

namespace CallAdapter

/-- What a plan from the type of all values decides. -/
inductive Verdict.Checks (d : Ty) : Verdict → Prop
  | untouched {w : Verdict} : d.isVoid = false → w.isImplicit = true → Checks d w
  | unboxed {d' : Ty} : d.isVoid = false → d'.normalize = d' → Checks d (.convert (.unbox d'))
  | nothing : d.isVoid = true → Checks d .impossible

namespace Verdict.Checks

variable {s d d' : Ty} {w : Verdict}

theorem isPossible_eq (h : w.Checks d) : w.isPossible = !d.isVoid := by
  cases h with
  | untouched hd hw => cases w <;> simp_all [isPossible, isImplicit]
  | unboxed hd _ => simp [isPossible, hd]
  | nothing hd => simp [isPossible, hd]

theorem respelled (h : w.Checks d') (hd : d'.same d = true) : w.Checks d := by
  have hvoid := Ty.isVoid_congr hd
  cases h with
  | untouched hd' hw => exact .untouched (hvoid ▸ hd') hw
  | unboxed hd' hn => exact .unboxed (hvoid ▸ hd') hn
  | nothing hd' => exact .nothing (hvoid ▸ hd')

end Verdict.Checks

namespace Program

variable {Γ : Program} {R : Reuse} {s d : Ty} {h : Heap} {v u : Value}

theorem checks_of_direct? (hn : d.normalize = d) :
    ∃ w, Γ.direct? .any d = some (.ok w) ∧ w.Checks d := by
  have hrefuses : Ty.refusesPlanning .any d = false := Ty.cls_refusesPlanning d _
  by_cases hsame : Ty.any.same d = true
  · obtain rfl := (Ty.same_iff_eq_of_isAtom rfl _).1 hsame
    exact ⟨.identity, by simp [direct?, hrefuses, hsame], .untouched rfl rfl⟩
  by_cases htop : d.isTop = true
  · have hvoid : d.isVoid = false := by
      rw [Ty.isTop_iff] at htop
      rcases htop with rfl | rfl <;> rfl
    exact ⟨.widen, by simp [direct?, hrefuses, hsame, htop], .untouched hvoid rfl⟩
  by_cases hvoid : d.isVoid = true
  · refine ⟨.impossible, ?_, .nothing hvoid⟩
    simp [direct?, hrefuses, hsame, htop, hvoid, show Ty.any.isVoid = false from rfl]
  · refine ⟨.convert (.unbox d), ?_, .unboxed (Bool.eq_false_iff.2 hvoid) hn⟩
    simp [direct?, hrefuses, hsame, htop, hvoid, show Ty.any.isVoid = false from rfl,
      show Ty.any.isTop = true from rfl]

/-- From the type of all values there is an answer for every type. -/
theorem checks_of_plans (hR : BetweenSpellings R) {r : Except Failure Verdict}
    (h : Γ.Plans R s d r) (hs : s = .any) (hn : d.normalize = d) :
    ∃ w, r = .ok w ∧ w.Checks d := by
  have hdecided : ∀ {d : Ty}, Γ.direct? .any d ≠ none := by
    intro d
    have htop : Ty.any.isTop = true := rfl
    unfold direct?
    grind
  induction h with
  | direct hdirect =>
    subst hs
    obtain ⟨w, hw, hchecks⟩ := checks_of_direct? (Γ := Γ) hn
    exact ⟨w, Option.some.inj (hdirect.symm.trans hw), hchecks⟩
  | @reused s d s' d' r hreuse _ ih =>
    subst hs
    obtain ⟨hn', hss, hdd⟩ := hR _ _ _ _ hreuse
    have hs' : s' = .any := ((Ty.same_iff_eq_of_isAtom rfl _).1 (Ty.same_symm hss)).symm
    obtain ⟨w, hw, hchecks⟩ := ih hs' hn'.2
    exact ⟨w, hw, hchecks.respelled hdd⟩
  | fromUnion hnone | fromUnionError hnone | intoUntouched hnone | intoFirst hnone
    | intoError hnone =>
    subst hs
    exact absurd hnone hdecided

/-- Every type reaches the type of all values untouched. -/
theorem implicit_of_plans (hR : BetweenSpellings R) {r : Except Failure Verdict}
    (h : Γ.Plans R s d r) (hd : d = .any) : ∃ w, r = .ok w ∧ w.isImplicit = true := by
  have hrefuses : ∀ s, Ty.refusesPlanning s .any = false := fun s => Ty.refusesPlanning_cls s _
  have hdecided : ∀ s, ∃ w, Γ.direct? s .any = some (.ok w) ∧ w.isImplicit = true := by
    intro s
    by_cases hsame : s.same .any = true
    · exact ⟨.identity, by simp [direct?, hrefuses, hsame], rfl⟩
    · exact ⟨.widen, by simp [direct?, hrefuses, hsame, show Ty.any.isTop = true from rfl], rfl⟩
  induction h with
  | @direct s d r hdirect =>
    subst hd
    obtain ⟨w, hw, himplicit⟩ := hdecided s
    exact ⟨w, Option.some.inj (hdirect.symm.trans hw), himplicit⟩
  | reused hreuse _ ih =>
    subst hd
    obtain ⟨-, -, hdd⟩ := hR _ _ _ _ hreuse
    exact ih ((Ty.same_iff_eq_of_isAtom rfl _).1 (Ty.same_symm hdd)).symm
  | @fromUnion s _ _ hnone | @fromUnionError s _ _ _ hnone | @intoUntouched s _ _ _ _ _ hnone
    | @intoFirst s _ _ hnone | @intoError s _ _ _ _ _ hnone =>
    subst hd
    obtain ⟨w, hw, -⟩ := hdecided s
    cases hnone.symm.trans hw

/-- From "nothing at all" nothing is converted. -/
theorem direct?_none (d : Ty) :
    ∃ w, Γ.direct? .none d = some (.ok w) ∧ w.kind ≠ .explicitConvert := by
  have hrefuses : Ty.refusesPlanning .none d = false := Ty.cls_refusesPlanning d _
  by_cases hsame : Ty.none.same d = true
  · exact ⟨.identity, by simp [direct?, hrefuses, hsame], by simp [Verdict.kind]⟩
  by_cases htop : d.isTop = true
  · exact ⟨.widen, by simp [direct?, hrefuses, hsame, htop], by simp [Verdict.kind]⟩
  by_cases hoptional : d.isOptional = true
  · refine ⟨.widen, ?_, by simp [Verdict.kind]⟩
    simp [direct?, hrefuses, hsame, htop, hoptional, show Ty.none.isVoid = true from rfl]
  · refine ⟨.impossible, ?_, by simp [Verdict.kind]⟩
    simp [direct?, hrefuses, hsame, htop, hoptional, show Ty.none.isVoid = true from rfl]

theorem eq_of_unboxed_none (hn : d.normalize = d) (hu : Γ.unboxed h d .none = .ok u) :
    u = .none := by
  obtain ⟨w, hdirect, hkind⟩ := direct?_none (Γ := Γ) d
  have hfresh : Γ.freshVerdict (.cls (Γ.classOf .none)) d = .ok w :=
    freshVerdict_of_direct? ⟨Ty.normalize_cls _, hn⟩ hdirect
  rw [unboxed_eq, if_neg (by simp [classOf, Ty.isTop]), hfresh] at hu
  cases w with
  | identity | widen => exact (Except.ok.inj hu).symm
  | convert op => exact absurd rfl hkind
  | impossible => cases hu

/-- A value that is there stays there, and an absent one stays absent. -/
theorem isNone_eq_of_checks {w : Verdict} (hw : w.Checks d) (hu : Γ.runVerdict h w v = .ok u) :
    u.isNone = v.isNone := by
  cases hw with
  | untouched _ himplicit =>
    rw [runVerdict_of_kind_ne (by cases w <;> simp_all [Verdict.kind, Verdict.isImplicit])] at hu
    rw [Except.ok.inj hu]
  | @unboxed d' _ hn =>
    by_cases hv : v.isNone = true
    · obtain rfl : v = .none := by
        cases v <;> first | rfl | simp [Value.isNone] at hv
      rw [eq_of_unboxed_none hn hu]
    · rcases isYield_of_unboxed hn hu with rfl | ⟨x, rfl⟩ | ⟨c, n, rfl⟩
      · rfl
      · exact (Bool.eq_false_iff.2 hv).symm
      · exact (Bool.eq_false_iff.2 hv).symm
  | nothing => rw [Except.ok.inj hu]

end Program

end CallAdapter
