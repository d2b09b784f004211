import CallAdapter.Proofs.Conversion.History
import CallAdapter.Proofs.Conversion.Widening

/-!
# Returned plans are well formed

Whatever a planner was asked before, a plan that it returns fits the pair it was asked for
(`Plan.WellFormed`): callers may take the short way for plans without an operation, count costs by
kind, and drop a value only where the plan says so. That holds also where a table answers with the
plan made for another spelling, since identity, "nothing" and the rules for results do not depend
on the spelling.
-/

namespace CallAdapter

open Program

namespace Program

variable {Γ : Program} {R : Reuse} {s d : Ty} {v : Verdict}

theorem classVerdict_ne_identity (s d : Ty) : Γ.classVerdict s d ≠ .identity := by
  unfold classVerdict
  grind

theorem aliasVerdict_ne_identity (s d : Ty) : Γ.aliasVerdict s d ≠ .identity := by
  unfold aliasVerdict
  grind

theorem direct?_identity_iff (h : Γ.direct? s d = some (.ok v)) :
    v = .identity ↔ s.same d = true := by
  have hclass := classVerdict_ne_identity (Γ := Γ) s d
  have halias := aliasVerdict_ne_identity (Γ := Γ) s d
  unfold direct? at h
  grind

theorem fromUnion_ne_identity (d : Ty) (answers : List (Ty × Verdict)) :
    Program.fromUnion d answers ≠ .identity := by
  unfold Program.fromUnion
  grind

theorem firstOperation_ne_identity (answers : List (Ty × Verdict)) :
    firstOperation answers ≠ .identity := by
  unfold firstOperation
  grind

/-- The rules give identity to equal types only, and members of a union never add one. -/
theorem identity_iff_same_of_plans (hR : BetweenSpellings R) {r : Except Failure Verdict}
    (h : Γ.Plans R s d r) (hr : r = .ok v) : v = .identity ↔ s.same d = true := by
  have hunequal : ∀ {s d : Ty}, Γ.direct? s d = none → s.same d ≠ true := by
    intro s d hnone hsame
    cases (direct?_eq_none_iff.1 hnone).2.1.symm.trans hsame
  induction h generalizing v with
  | direct hdirect => exact direct?_identity_iff (hr ▸ hdirect)
  | reused hreuse _ ih =>
    obtain ⟨-, hs, hd⟩ := hR _ _ _ _ hreuse
    rw [← Ty.same_congr hs hd]
    exact ih hr
  | fromUnion hnone _ _ _ _ =>
    obtain rfl := Except.ok.inj hr
    exact iff_of_false (fromUnion_ne_identity _ _) (hunequal hnone)
  | intoUntouched hnone _ _ _ _ _ _ _ _ =>
    obtain rfl := Except.ok.inj hr
    exact iff_of_false Verdict.noConfusion (hunequal hnone)
  | intoFirst hnone _ _ _ _ _ =>
    obtain rfl := Except.ok.inj hr
    exact iff_of_false (firstOperation_ne_identity _) (hunequal hnone)
  | fromUnionError | intoError => cases hr

end Program

/-- What a plan promises to a caller that asked about the pair, of slots or of results. -/
structure Plan.WellFormed (Γ : Program) (memo : Memo) (s d : Ty) (p : Plan) : Prop where
  operation : p.operation?.isSome = true ↔ p.kind = .explicitConvert
  identity : p.kind = .identity ↔ s.same d = true
  discard : p.discard = true ↔ memo = .results ∧ s.isVoid = false ∧ d.isVoid = true
  void : memo = .results → s.isVoid = true ∨ d.isVoid = true → p.kind ≠ .impossible
  untouched : p.kind = .identity ∨ p.kind = .implicitWiden ∧ p.discard = false →
    ∀ (h : Heap) (v : Value), Γ.applyPlan h p v = .ok v

namespace Program

variable {Γ : Program} {R : Reuse} {s d : Ty} {plan : Plan}

/-- A plan that follows from the rules is well formed, for a slot and for a result that the rules
are left to. -/
theorem wellFormed_of_planAnswer {memo : Memo} (hR : BetweenSpellings R)
    (hsettled : memo.settled s d = none) (h : Γ.PlanAnswer R s d (.ok plan)) :
    plan.WellFormed Γ memo s d := by
  obtain ⟨hhands, hplans⟩ := h
  have hnotVoid : memo = .results → s.isVoid = false ∧ d.isVoid = false := by
    rintro rfl
    unfold Memo.settled at hsettled
    grind
  refine ⟨hhands.paired, ?_, ?_, ?_, ?_⟩
  · rw [plan.kind_eq_identity_iff]
    exact identity_iff_same_of_plans hR hplans rfl
  · rw [hhands.discard]
    refine iff_of_false Bool.noConfusion ?_
    rintro ⟨hmemo, -, hd⟩
    cases hd.symm.trans (hnotVoid hmemo).2
  · intro hmemo hvoid
    rw [(hnotVoid hmemo).1, (hnotVoid hmemo).2] at hvoid
    rcases hvoid with hvoid | hvoid <;> cases hvoid
  · intro hkind
    refine Planner.applyPlan_of_isImplicit hhands ?_
    rw [plan.isImplicit_verdict_iff, plan.isPossible_iff]
    rcases hkind with hkind | ⟨hkind, -⟩ <;> simp [hkind]

theorem same_iff_isVoid (hs : s.isVoid = true) : s.same d = true ↔ d.isVoid = true := by
  obtain rfl := (Ty.isVoid_iff s).1 hs
  rw [Ty.isVoid_iff, Ty.same_iff_eq_of_isAtom rfl]
  exact eq_comm

/-- The settled results: nothing into nothing, a result that is dropped, and a default. -/
theorem settled_cases {memo : Memo} {w : Verdict × Bool} (h : memo.settled s d = some w) :
    memo = .results ∧
      (s.isVoid = true ∧ d.isVoid = true ∧ w = (.identity, false) ∨
        s.isVoid = false ∧ d.isVoid = true ∧ w = (.widen, true) ∨
        s.isVoid = true ∧ d.isVoid = false ∧
          w = (.convert (.constant (defaultValue d)), false)) := by
  cases memo with
  | plans => cases h
  | results =>
    unfold Memo.settled at h
    cases hs : s.isVoid <;> cases hd : d.isVoid <;> simp_all

theorem wellFormed_of_settled {memo : Memo} {w : Verdict × Bool}
    (hsettled : memo.settled s d = some w) (hpaired : plan.Paired) (hverdict : plan.verdict = w.1)
    (hdiscard : plan.discard = w.2) : plan.WellFormed Γ memo s d := by
  have hkind : plan.kind = w.1.kind := by rw [← plan.kind_verdict, hverdict]
  have hunequal : s.isVoid ≠ d.isVoid → s.same d ≠ true :=
    fun hne hsame => hne (Ty.isVoid_congr hsame)
  obtain ⟨rfl, ⟨hs, hd, rfl⟩ | ⟨hs, hd, rfl⟩ | ⟨hs, hd, rfl⟩⟩ := settled_cases hsettled
  · exact ⟨hpaired, by simp [hkind, Verdict.kind, (same_iff_isVoid hs).2 hd], by simp [hdiscard, hs],
      fun _ _ => by simp [hkind, Verdict.kind], fun _ =>
        Planner.applyPlan_of_isImplicit ⟨hpaired, hdiscard⟩ (hverdict ▸ rfl)⟩
  · have hne := hunequal (by simp [hs, hd])
    exact ⟨hpaired, by simp [hkind, Verdict.kind, hne], by simp [hdiscard, hs, hd],
      fun _ _ => by simp [hkind, Verdict.kind], by simp [hkind, hdiscard, Verdict.kind]⟩
  · have hne := hunequal (by simp [hs, hd])
    exact ⟨hpaired, by simp [hkind, Verdict.kind, hne], by simp [hdiscard, hd],
      fun _ _ => by simp [hkind, Verdict.kind], by simp [hkind, Verdict.kind]⟩

theorem wellFormed_of_memoAnswer {memo : Memo} (hR : BetweenSpellings R)
    (h : Γ.MemoAnswer R memo s d (.ok plan)) : plan.WellFormed Γ memo s d := by
  unfold MemoAnswer at h
  cases hsettled : memo.settled s d with
  | none =>
    rw [hsettled] at h
    exact wellFormed_of_planAnswer hR hsettled h
  | some w =>
    rw [hsettled] at h
    obtain ⟨_, hplan, hpaired, hverdict, hdiscard⟩ := h
    obtain rfl := Except.ok.inj hplan
    exact wellFormed_of_settled hsettled hpaired hverdict hdiscard

/-- Whatever a planner was asked before, each plan that it returns fits the pair it is asked for,
and so do the plans that it then keeps. -/
theorem returned_plan_wellFormed {p q : Planner} (hp : p.Asked Γ) {r : PlanRequest}
    (h : (Γ.planFor r).run.run p = (.ok plan, q)) :
    plan.WellFormed Γ r.memo (r.asked Γ).1 (r.asked Γ).2 ∧
      ∀ memo, ∀ e ∈ q.table memo, e.2.WellFormed Γ memo e.1.1 e.1.2 := by
  obtain ⟨_, hstart⟩ := hp.sound
  obtain ⟨hsound, hanswer⟩ := planFor_keeps closedPairs_normalPair r (normalPair_asked r) _ hstart
  rw [h] at hsound hanswer
  exact ⟨wellFormed_of_memoAnswer betweenSpellings_historyReuse hanswer, fun memo e he =>
    wellFormed_of_memoAnswer betweenSpellings_historyReuse (hsound.kept memo e he).2.2.2⟩

/-- The planner that was asked for an integer as a decimal or a fraction. -/
def askedDecimalFirst : Planner :=
  Program.empty.afterRequests [.types (.builtin .int) decimalFirst] ⟨true, [], []⟩

/-- The other order is then answered from the table, with the plan for the first one. -/
theorem reused_plan_wellFormed :
    ∃ plan, (Program.empty.planFor (.types (.builtin .int) fractionFirst)).run.run
        askedDecimalFirst = (.ok plan, askedDecimalFirst) ∧
      plan.kind = .explicitConvert ∧
        plan.WellFormed .empty .plans (Ty.normalize (.builtin .int)) fractionFirst.normalize := by
  have hrun : (Program.empty.planFor (.types (.builtin .int) fractionFirst)).run.run
      askedDecimalFirst = (.ok (.of (.builtin .int) decimalFirst
        (.convert (.numeric .toDecimal (.builtin .decimal)))), askedDecimalFirst) := by
    with_unfolding_all rfl
  exact ⟨_, hrun, rfl, (returned_plan_wellFormed ⟨true, _, rfl⟩ hrun).1⟩

end Program

end CallAdapter
