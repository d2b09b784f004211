import CallAdapter.Proofs.Conversion.Lockstep
import CallAdapter.Proofs.Conversion.MemberPlans
import CallAdapter.Proofs.Conversion.Soundness
import Mathlib

/-!
# What a union takes

A conversion from a union hands a value to the first member that the value is an instance of, and to
no other, so it gives what the plan for that member gives (`union_converts_iff`). Members that the
value is no instance of do not count, although a value may fit them in the numeric tower: an integer
fits a float, and a plan from floats takes it, but a union of floats and nothing refuses it
(`union_refuses_widened`).
-/

namespace CallAdapter

open Program

/-- There is a way, and it makes `u` of the value. -/
def Plan.Converts (Γ : Program) (h : Heap) (p : Plan) (v u : Value) : Prop :=
  p.isPossible = true ∧ Γ.applyPlan h p v = .ok u

/-- What a planner answers about a union: its plans for the members, in the order in which a value
is held against them. -/
structure Planner.Tries (Γ : Program) (q : Planner) (src dst : Ty) (answers : List (Ty × Plan)) :
    Prop where
  /-- They are the members of the union, in the spelling for which its plan was made. -/
  spelled : ∃ s : Ty, s.same src.normalize = true ∧ answers.map (·.1) = s.unionMembers
  answer : ∀ a ∈ answers, ∀ q' : Planner, q'.Remembers q →
    ((Γ.plan a.1 dst).run.run q').1 = .ok a.2

/-- The value is handed to the first member that it is an instance of. -/
def ByFirstMember (Γ : Program) (h : Heap) (answers : List (Ty × Plan)) (v u : Value) : Prop :=
  ∃ a, answers.find? (fun a => Γ.belongs h v a.1) = some a ∧ a.2.Converts Γ h v u

section Union

variable {Γ : Program} {R : Reuse} {s d src dst : Ty} {h : Heap} {v u : Value} {plan : Plan}

/-- Where no members decide about a union, it goes over untouched or not at all. -/
theorem exists_of_direct?_union {r : Except Failure Verdict} (hs : s.isUnion = true)
    (hdirect : Γ.direct? s d = some r) : ∃ w, r = .ok w ∧ w.kind ≠ .explicitConvert := by
  have htop : s.isTop = false := by
    cases s <;> first | rfl | cases hs
  have hrefuses : Ty.refusesPlanning s d = false :=
    Ty.refusesPlanning_of_isUnion (by rw [hs, Bool.true_or])
  unfold direct? at hdirect
  grind [Verdict.kind]

/-- Only its members make a union an operation. -/
theorem direct?_eq_none_of_kind (hn : NormalPair s d) (hs : s.isUnion = true) {w : Verdict}
    (hplans : Γ.Plans HistoryReuse s d (.ok w)) (hkind : w.kind = .explicitConvert) :
    Γ.direct? s d = none := by
  cases hdirect : Γ.direct? s d with
  | none => rfl
  | some r =>
    obtain ⟨w', rfl, hkind'⟩ := exists_of_direct?_union hs hdirect
    have hsame := kind_eq_freshVerdict betweenSpellings_historyReuse hplans (Ty.same_refl s)
      (Ty.same_refl d) hn (freshVerdict_of_direct? hn hdirect)
    exact absurd (hsame.symm.trans hkind) hkind'

theorem runBranch_eq_ok_iff {m : Ty} {p : Plan} (hp : p.HandsOn) :
    Γ.runBranch h (Γ.unboxed h) d m p.verdict v = .ok u ↔ p.Converts Γ h v u := by
  unfold Plan.Converts
  rw [p.isPossible_eq, applyPlan_of_handsOn hp]
  cases hv : p.verdict with
  | impossible =>
    simp only [runBranch, Verdict.isPossible, Bool.false_eq_true, false_and, iff_false]
    split <;> simp
  | _ => simp [Verdict.isPossible, runBranch, runVerdict, runWith]

/-- The operation of a union hands the value to the first member that it is an instance of. -/
theorem applyPlan_fromUnion_iff {answers : List (Ty × Plan)} (hplan : plan.HandsOn)
    (hanswers : ∀ a ∈ answers, a.2.HandsOn)
    (hverdict : plan.verdict = fromUnion d (answers.map fun a => (a.1, a.2.verdict)))
    (hkind : plan.kind = .explicitConvert) :
    Γ.applyPlan h plan v = .ok u ↔ ByFirstMember Γ h answers v u := by
  rw [← plan.kind_verdict, hverdict] at hkind
  rw [applyPlan_of_handsOn hplan, hverdict, runVerdict_fromUnion hkind, List.find?_map]
  unfold ByFirstMember
  have hfind : ((fun a : Ty × Verdict => Γ.belongs h v a.1) ∘
      fun a : Ty × Plan => (a.1, a.2.verdict)) = fun a => Γ.belongs h v a.1 := rfl
  rw [hfind]
  cases hfound : answers.find? fun a => Γ.belongs h v a.1 with
  | none =>
    constructor
    · intro hrun
      cases hrun
    · rintro ⟨_, hnone, -⟩
      cases hnone
  | some a =>
    have ha := hanswers a (List.mem_of_find?_eq_some hfound)
    constructor
    · exact fun hrun => ⟨a, rfl, (runBranch_eq_ok_iff ha).1 hrun⟩
    · rintro ⟨_, hsome, hconverts⟩
      cases hsome
      exact (runBranch_eq_ok_iff ha).2 hconverts

/-- The plan that a planner gives, whatever it was asked before, is a slot's plan. -/
theorem planAnswer_of_run {keeps : Bool} {p q : Planner}
    (hp : p.Sound Γ keeps NormalPair HistoryReuse)
    (hrun : (Γ.plan src dst).run.run p = (.ok plan, q)) :
    q.Sound Γ keeps NormalPair HistoryReuse ∧
      Γ.PlanAnswer HistoryReuse src.normalize dst.normalize (.ok plan) := by
  have hn : NormalPair src.normalize dst.normalize :=
    ⟨Ty.normalize_normalize src, Ty.normalize_normalize dst⟩
  have hkeeps := plan_keeps closedPairs_normalPair hn p hp
  rwa [hrun] at hkeeps

/-- A union that was planned as a key knows the plans for its members in every spelling of what it
is converted to. -/
theorem Planner.SplitsInto.knows_respelled {q : Planner} {answers : List (Ty × Plan)} {d' : Ty}
    (hsplit : q.SplitsInto Γ s d plan answers) (hs : s.isUnion = true) (hmemo : q.memoize = true)
    (hskey : s.hashable = true) (hdd : d.same d' = true) (hdkey : d'.hashable = true) :
    ∀ a ∈ answers, q.Knows Γ a.1 d' a.2 := by
  intro a ha
  have hmember : a.1 ∈ s.unionMembers := hsplit.members ▸ List.mem_map_of_mem ha
  have hakey : a.1.normalize.hashable = true :=
    hashable_normalize (hashable_of_mem_unionMembers hs hskey hmember)
  refine (hsplit.knows a ha).respelled hmemo hakey ?_ hakey ?_ (Ty.same_refl _)
    (Ty.same_normalize hdd)
  · exact hashable_normalize ((Ty.hashable_congr hdd).trans hdkey)
  · exact hashable_normalize hdkey

/-- The plan for a union that makes an operation is put together from what the planner answers for
the members, whatever it was asked before. -/
theorem exists_tries_of_kind {history : List PlanRequest} {memoize : Bool} {q : Planner}
    (hunion : src.normalize.isUnion = true)
    (hplan : (Γ.plan src dst).run.run (Γ.afterRequests history ⟨memoize, [], []⟩) = (.ok plan, q))
    (hkind : plan.kind = .explicitConvert) :
    ∃ d answers, q.Tries Γ src dst answers ∧
      plan.verdict = fromUnion d (answers.map fun a => (a.1, a.2.verdict)) ∧
      ∀ a ∈ answers, a.2.HandsOn ∧
        Γ.Plans HistoryReuse a.1.normalize dst.normalize (.ok a.2.verdict) := by
  obtain ⟨hq, -, hplans⟩ := planAnswer_of_run (sound_history memoize history) hplan
  have hn : NormalPair src.normalize dst.normalize :=
    ⟨Ty.normalize_normalize src, Ty.normalize_normalize dst⟩
  obtain ⟨s, d, hss, hdd, hsplits, hspelled⟩ :=
    exists_splits_of_run (split_afterRequests memoize history) hplan
  have hs : s.isUnion = true := (Ty.isUnion_congr hss).trans hunion
  have hnone : Γ.direct? s d = none := direct?_eq_none_congr (Ty.same_symm hss) (Ty.same_symm hdd)
    (direct?_eq_none_of_kind hn hunion hplans (plan.kind_verdict.trans hkind))
  obtain ⟨answers, hsplit⟩ := hsplits hs hnone
  have hanswers : ∀ a ∈ answers, ∀ q' : Planner, q'.Remembers q →
      ((Γ.plan a.1 dst).run.run q').1 = .ok a.2 := by
    intro a ha
    have hknows : q.Knows Γ a.1 dst.normalize a.2 := by
      rcases hspelled with ⟨rfl, rfl⟩ | ⟨hmemo, hskey, hdkey⟩
      · exact hsplit.knows a ha
      · exact hsplit.knows_respelled hs hmemo ((Ty.hashable_congr hss).trans hskey) hdd hdkey a ha
    exact plan_normalize_dest a.1 dst ▸ hknows.answer
  refine ⟨d, answers, ⟨⟨s, hss, hsplit.members⟩, hanswers⟩, hsplit.verdict, fun a ha => ?_⟩
  have hrun : (Γ.plan a.1 dst).run.run q = (.ok a.2, ((Γ.plan a.1 dst).run.run q).2) :=
    Prod.ext (hanswers a ha q (.refl q)) rfl
  exact (planAnswer_of_run hq hrun).2

/-- A value is handed to some member where it is an instance of one and all of those take it. -/
theorem exists_byFirstMember {answers : List (Ty × Plan)}
    (hsome : ∃ a ∈ answers, Γ.belongs h v a.1 = true)
    (hall : ∀ a ∈ answers, Γ.belongs h v a.1 = true → ∃ u, a.2.Converts Γ h v u) :
    ∃ u, ByFirstMember Γ h answers v u := by
  have hfound : (answers.find? fun a => Γ.belongs h v a.1).isSome = true :=
    List.find?_isSome.2 hsome
  obtain ⟨a, ha⟩ := Option.isSome_iff_exists.1 hfound
  have hbelongs : Γ.belongs h v a.1 = true :=
    List.find?_some (p := fun a : Ty × Plan => Γ.belongs h v a.1) ha
  obtain ⟨u, hu⟩ := hall a (List.mem_of_find?_eq_some ha) hbelongs
  exact ⟨u, a, ha, hu⟩

/-- A conversion from a union leaves every value as it is, or gives what the plan for the first
member gives that the value is an instance of, and fails where there is no such member or its plan
fails. So it takes every value that is an instance of a member, where all such members take it. It
does not matter what the planner was asked before. -/
theorem union_converts_iff {history : List PlanRequest} {memoize : Bool} {q : Planner}
    (hunion : src.normalize.isUnion = true)
    (hplan : (Γ.plan src dst).run.run (Γ.afterRequests history ⟨memoize, [], []⟩) =
      (.ok plan, q)) :
    (∀ h v, Γ.applyPlan h plan v = .ok v) ∨
      ∃ answers, q.Tries Γ src dst answers ∧
        (∀ h v u, Γ.applyPlan h plan v = .ok u ↔ ByFirstMember Γ h answers v u) ∧
        ∀ h v, (∃ a ∈ answers, Γ.belongs h v a.1 = true) →
          (∀ a ∈ answers, Γ.belongs h v a.1 = true → ∃ u, a.2.Converts Γ h v u) →
          ∃ u, Γ.applyPlan h plan v = .ok u := by
  obtain ⟨-, hhands, -⟩ := planAnswer_of_run (sound_history memoize history) hplan
  by_cases hkind : plan.kind = .explicitConvert
  · obtain ⟨d, answers, htries, hverdict, hanswers⟩ := exists_tries_of_kind hunion hplan hkind
    have hconverts : ∀ h v u, Γ.applyPlan h plan v = .ok u ↔ ByFirstMember Γ h answers v u :=
      fun h v u => applyPlan_fromUnion_iff hhands (fun a ha => (hanswers a ha).1) hverdict hkind
    refine .inr ⟨answers, htries, hconverts, ?_⟩
    intro h v hsome hall
    obtain ⟨u, hu⟩ := exists_byFirstMember hsome hall
    exact ⟨u, (hconverts h v u).2 hu⟩
  · refine .inl fun h v => ?_
    rw [← plan.kind_verdict] at hkind
    rw [applyPlan_of_handsOn hhands, runVerdict_of_kind_ne hkind]

end Union

/-- Floats, or nothing. -/
def optionalFloat : Ty := .union false [.builtin .float, .none]

/-- Floats are truncated. -/
def truncateFloat : Plan :=
  .of (.builtin .float) (.builtin .int) (.convert (.numeric .toInt (.builtin .int)))

/-- A float is truncated, and nothing is refused. -/
def truncateOptional : Plan :=
  .of optionalFloat (.builtin .int)
    (.convert (.test (.builtin .float) (.numeric .toInt (.builtin .int))
      (.test .none (.refuseNone (.builtin .int)) (.refuse (.builtin .int)))))

/-- An integer is an instance of neither. -/
theorem applyPlan_truncateOptional :
    Program.empty.applyPlan .empty truncateOptional (.int 3) =
      .error (Program.empty.castFailure (.int 3) (.builtin .int)) := by
  with_unfolding_all rfl

theorem run_plan_optionalFloat :
    (Program.empty.plan optionalFloat (.builtin .int)).run.run
      (Program.empty.afterRequests [] ⟨false, [], []⟩) =
      (.ok truncateOptional, ⟨false, [], []⟩) := by
  with_unfolding_all rfl

/-- It does not leave every value as it is, so its members decide. -/
theorem union_converts_iff_optionalFloat :
    ∃ answers, Planner.Tries .empty ⟨false, [], []⟩ optionalFloat (.builtin .int) answers ∧
      (∀ h v u, Program.empty.applyPlan h truncateOptional v = .ok u ↔
        ByFirstMember .empty h answers v u) ∧
      ∀ h v, (∃ a ∈ answers, Program.empty.belongs h v a.1 = true) →
        (∀ a ∈ answers, Program.empty.belongs h v a.1 = true →
          ∃ u, a.2.Converts .empty h v u) →
        ∃ u, Program.empty.applyPlan h truncateOptional v = .ok u := by
  refine (union_converts_iff (by cbv) run_plan_optionalFloat).resolve_left fun huntouched => ?_
  cases applyPlan_truncateOptional.symm.trans (huntouched .empty (.int 3))

/-- An integer is a float in the numeric tower, and a plan from floats to integers takes it, but a
plan from floats or nothing refuses it, since it is an instance of neither. -/
theorem union_refuses_widened :
    ¬∀ (Γ : Program) (src dst m : Ty) (plan member : Plan) (q : Planner) (h : Heap) (v : Value),
      src.normalize.isUnion = true →
        (Γ.plan src dst).run.run (Γ.afterRequests [] ⟨false, [], []⟩) = (.ok plan, q) →
        plan.isPossible = true → m ∈ src.normalize.unionMembers → Fits Γ h m v →
        ((Γ.plan m dst).run.run q).1 = .ok member → (∃ u, member.Converts Γ h v u) →
        ∃ u, Γ.applyPlan h plan v = .ok u := by
  intro haccepts
  have hinstance : Fits .empty .empty (.builtin .float) (.int 3) := .intAsFloat (by cbv)
  have hmember : truncateFloat.Converts .empty .empty (.int 3) (.int 3) :=
    ⟨rfl, by with_unfolding_all rfl⟩
  obtain ⟨u, hu⟩ := haccepts .empty optionalFloat (.builtin .int) (.builtin .float) truncateOptional
    truncateFloat ⟨false, [], []⟩ .empty (.int 3) (by cbv) run_plan_optionalFloat rfl
    (by cbv; exact List.mem_cons_self) hinstance (by with_unfolding_all rfl) ⟨_, hmember⟩
  cases applyPlan_truncateOptional.symm.trans hu

end CallAdapter
