import CallAdapter.Conversion.Applying
import CallAdapter.Proofs.Conversion.Steady
import CallAdapter.Proofs.Conversion.Widening

/-!
# Unboxing is one level deep

What a plan may leave to a value is read off its source (`nested_of_plans`): only a union is chosen
from, and only values of unknown type are unboxed. The class of a value is neither, so that what an
unboxing plans decides everything by itself. Applied to one value after another, a plan does to
each what it does to it alone, enters one choice and one unboxing at most, and leaves the planner
that it came from as it was (`unboxing_one_level`).
-/

namespace CallAdapter

open Program

/-! ## What operations leave to the value -/

namespace Operation

/-- Nothing is left to the value: there is neither a union to choose from nor an unboxing. -/
def IsPlain : Operation → Prop
  | test .. | unbox _ => False
  | _ => True

/-- At most an unboxing is left to the value. -/
def IsSimple : Operation → Prop
  | test .. => False
  | unbox d => d.normalize = d
  | _ => True

/-- The tests of one union, with simple operations behind them, or a simple operation. -/
def IsChoice : Operation → Prop
  | test _ hit miss => hit.IsSimple ∧ miss.IsChoice
  | unbox d => d.normalize = d
  | _ => True

theorem IsPlain.isSimple {op : Operation} (h : op.IsPlain) : op.IsSimple := by
  cases op with
  | test | unbox => exact h.elim
  | _ => trivial

theorem IsSimple.isChoice {op : Operation} (h : op.IsSimple) : op.IsChoice := by
  cases op with
  | test => exact h.elim
  | unbox d => exact h
  | _ => trivial

end Operation

/-- The operation of the verdict, if it has one, has the property. -/
def Verdict.Runs (P : Operation → Prop) (w : Verdict) : Prop :=
  ∀ op, w.operation? = some op → P op

/-- The operation of the plan, if it has one, has the property. -/
def Plan.Runs (P : Operation → Prop) (p : Plan) : Prop := ∀ op, p.operation? = some op → P op

theorem Plan.Paired.runs {P : Operation → Prop} {p : Plan} (hp : p.Paired) (h : p.verdict.Runs P) :
    p.Runs P := fun op hop => h op (hp.operation?_verdict.trans hop)

/-- What a plan from `s` leaves to the value: a choice where the source is a union, an unboxing
where it is the type of all values, and else nothing. -/
structure Verdict.Nested (s : Ty) (w : Verdict) : Prop where
  choice : w.Runs Operation.IsChoice
  simple : s.isUnion = false → w.Runs Operation.IsSimple
  plain : s.isUnion = false → s.isTop = false → w.Runs Operation.IsPlain

namespace Verdict

variable {s t d : Ty} {w : Verdict}

theorem Runs.mono {P Q : Operation → Prop} (h : w.Runs P) (hPQ : ∀ op, P op → Q op) : w.Runs Q :=
  fun op hop => hPQ op (h op hop)

theorem runs_convert {P : Operation → Prop} {op : Operation} : (convert op).Runs P ↔ P op :=
  ⟨fun h => h op rfl, fun h _ hop => Option.some.inj hop ▸ h⟩

theorem nested_of_plain (h : w.Runs Operation.IsPlain) : w.Nested s :=
  ⟨h.mono fun _ hop => hop.isSimple.isChoice, fun _ => h.mono fun _ hop => hop.isSimple,
    fun _ _ => h⟩

theorem nested_of_operation?_eq_none (h : w.operation? = none) : w.Nested s :=
  nested_of_plain fun _ hop => by cases h.symm.trans hop

theorem Nested.respelled (h : w.Nested s) (hs : s.same t = true) : w.Nested t :=
  ⟨h.choice, fun hu => h.simple (Ty.isUnion_congr hs ▸ hu),
    fun hu htop => h.plain (Ty.isUnion_congr hs ▸ hu) (Ty.isTop_congr hs ▸ htop)⟩

end Verdict

namespace Program

variable {Γ : Program} {R : Reuse} {s d : Ty} {w : Verdict}

theorem runs_isPlain_aliasVerdict : (Γ.aliasVerdict s d).Runs Operation.IsPlain := by
  unfold aliasVerdict Verdict.Runs
  grind [Verdict.operation?, Operation.IsPlain]

theorem isPlain_lookupIn : (lookupIn d).IsPlain := by
  unfold lookupIn
  split <;> trivial

theorem runs_isPlain_classVerdict : (Γ.classVerdict s d).Runs Operation.IsPlain := by
  unfold classVerdict Verdict.Runs
  have hlookup := isPlain_lookupIn (d := d)
  grind [Verdict.operation?, Operation.IsPlain]

/-- The rules for a pair unbox from the type of all values only, and never choose. -/
theorem nested_direct? (hn : d.normalize = d) (h : Γ.direct? s d = some (.ok w)) :
    w.Nested s := by
  by_cases htop : s.isTop = true
  · have hsimple : w.Runs Operation.IsSimple := by
      unfold direct? at h
      unfold Verdict.Runs
      grind [Verdict.operation?, Operation.IsSimple]
    refine ⟨hsimple.mono fun _ hop => hop.isChoice, fun _ => hsimple, fun _ hs => ?_⟩
    cases hs.symm.trans htop
  · refine Verdict.nested_of_plain ?_
    have halias := runs_isPlain_aliasVerdict (Γ := Γ) (s := s) (d := d)
    have hclass := runs_isPlain_classVerdict (Γ := Γ) (s := s) (d := d)
    unfold direct? at h
    unfold Verdict.Runs at *
    grind [Verdict.operation?]

theorem isChoice_branch {m : Ty} {miss : Operation} (hw : w.Runs Operation.IsSimple)
    (hmiss : miss.IsChoice) : (branch d m w miss).IsChoice := by
  refine ⟨?_, hmiss⟩
  cases w with
  | identity | widen => trivial
  | convert op => exact Verdict.runs_convert.1 hw
  | impossible =>
    show (if m.isVoid = true then _ else _ : Operation).IsSimple
    split <;> trivial

theorem runs_isChoice_fromUnion {answers : List (Ty × Verdict)}
    (h : ∀ a ∈ answers, a.2.Runs Operation.IsSimple) :
    (fromUnion d answers).Runs Operation.IsChoice := by
  have hbranches :
      (answers.foldr (fun b miss => branch d b.1 b.2 miss) (.refuse d)).IsChoice := by
    induction answers with
    | nil => trivial
    | cons a answers ih =>
      exact isChoice_branch (h a List.mem_cons_self)
        (ih fun b hb => h b (List.mem_cons_of_mem _ hb))
  unfold fromUnion
  split
  · exact fun _ hop => by cases hop
  split
  · exact fun _ hop => by cases hop
  · exact Verdict.runs_convert.2 hbranches

/-- A union in normal form has no unions as members, so that a choice never leads to another. -/
theorem nested_of_plans (hR : BetweenSpellings R) {r : Except Failure Verdict}
    (h : Γ.Plans R s d r) (hn : NormalPair s d) (hr : r = .ok w) : w.Nested s := by
  induction h generalizing w with
  | direct hdirect => exact nested_direct? hn.2 (hr ▸ hdirect)
  | reused hreuse _ ih =>
    obtain ⟨hn', hs, -⟩ := hR _ _ _ _ hreuse
    exact (ih hn' hr).respelled hs
  | fromUnion _ hu hmap _ ih =>
    obtain rfl := Except.ok.inj hr
    refine ⟨runs_isChoice_fromUnion fun a ha => ?_, fun hs => ?_, fun hs => ?_⟩
    · have hmember := Ty.isNormalMember_of_mem hn.1 hu (hmap ▸ List.mem_map_of_mem ha)
      exact (ih a ha ⟨hmember.1, hn.2⟩ rfl).simple hmember.2
    · cases hs.symm.trans hu
    · cases hs.symm.trans hu
  | intoUntouched =>
    obtain rfl := Except.ok.inj hr
    exact Verdict.nested_of_operation?_eq_none rfl
  | @intoFirst s d answers hnone hu has _ _ ih =>
    obtain rfl := Except.ok.inj hr
    have hdu : d.isUnion = true := isUnion_dest_of_direct?_eq_none hnone hu
    refine firstOperation_induction (Verdict.nested_of_operation?_eq_none rfl) fun a ha => ?_
    exact ih a ha (closedPairs_normalPair.dest hn hdu (has ▸ List.mem_map_of_mem ha)) rfl
  | fromUnionError | intoError => cases hr

theorem runs_isPlain_of_freshPlan {c : Cls} {plan : Plan} (hn : d.normalize = d)
    (htop : (Ty.cls c).isTop = false) (h : Γ.freshPlan (.cls c) d = .ok plan) :
    plan.Runs Operation.IsPlain := by
  have hpair : NormalPair (.cls c) d := ⟨Ty.normalize_cls c, hn⟩
  have hanswer := planAnswer_freshPlan (Γ := Γ) hpair
  rw [h] at hanswer
  have hnested := nested_of_plans betweenSpellings_noReuse hanswer.2 hpair rfl
  exact hanswer.1.paired.runs (hnested.plain rfl htop)

/-- Whatever a planner was asked before, what its plans leave to the value is a choice at most, and
an unboxing behind it. -/
theorem runs_isChoice_of_planFor {p q : Planner} {r : PlanRequest} {plan : Plan} (hp : p.Asked Γ)
    (h : (Γ.planFor r).run.run p = (.ok plan, q)) : plan.Runs Operation.IsChoice := by
  have hanswer := hp.requestAnswer r
  rw [h, RequestAnswer, MemoAnswer] at hanswer
  cases hsettled : r.memo.settled (r.asked Γ).1 (r.asked Γ).2 with
  | none =>
    rw [hsettled] at hanswer
    exact hanswer.1.paired.runs
      (nested_of_plans betweenSpellings_historyReuse hanswer.2 (normalPair_asked r) rfl).choice
  | some w =>
    rw [hsettled] at hanswer
    obtain ⟨_, hplan, hpaired, hverdict, -⟩ := hanswer
    obtain rfl := Except.ok.inj hplan
    refine hpaired.runs ?_
    rw [hverdict]
    unfold Memo.settled at hsettled
    intro op hop
    grind [Verdict.operation?, Operation.IsChoice]

end Program

/-! ## Planners of unboxings -/

section Still

variable {Γ : Program} {s d : Ty} {p : Planner}

/-- A planner that keeps nothing stays as it is. -/
theorem planNormal_still (hp : p.memoize = false) (depth : Nat) :
    Keeps (· = p) (Γ.planNormal depth s d) (OutcomeIs (fun _ => True) fun _ => True) := by
  induction depth generalizing s d with
  | zero => exact .pure trivial
  | succ depth ih =>
    have hsub : ∀ s' d', Keeps (· = p)
        (remembered .plans (Γ.planNormal depth) (Ty.normalize s') (Ty.normalize d'))
        (OutcomeIs (fun _ => True) fun _ => True) := by
      refine fun s' d' => .get_bind fun p' hp' => ?_
      rw [hp', hp, Bool.false_and, Bool.false_and, if_neg Bool.false_ne_true]
      exact ih p rfl
    exact .bind (verdict_preserves (fun _ _ => trivial) (fun _ m _ => hsub m d)
      fun _ _ m _ => hsub s m) (fun _ _ => trivial) fun _ _ => .pure trivial

theorem run_planNormal_empty (s d : Ty) :
    (Γ.planNormal planDepth s d).run.run ⟨false, [], []⟩ = (Γ.freshPlan s d, ⟨false, [], []⟩) :=
  Prod.ext rfl (planNormal_still rfl planDepth _ rfl).1

end Still

/-! ## Runs that keep -/

/-- The operation that the steps lead to, inside the operation of the plan. -/
def Operation.at? : List Step → Operation → Option Operation
  | [], op => some op
  | .hit :: way, test _ hit _ => hit.at? way
  | .miss :: way, test _ _ miss => miss.at? way
  | _ :: _, _ => none

theorem Operation.at?_append (op : Operation) (way way' : List Step) :
    op.at? (way ++ way') = (op.at? way).bind (·.at? way') := by
  induction way generalizing op with
  | nil => rfl
  | cons step way ih => cases step <;> cases op <;> simp [at?, ih]

theorem Operation.at?_hit {root hit miss : Operation} {way : List Step} {m : Ty}
    (h : root.at? way = some (test m hit miss)) : root.at? (way ++ [Step.hit]) = some hit := by
  rw [at?_append, h]
  rfl

theorem Operation.at?_miss {root hit miss : Operation} {way : List Step} {m : Ty}
    (h : root.at? way = some (test m hit miss)) : root.at? (way ++ [Step.miss]) = some miss := by
  rw [at?_append, h]
  rfl

/-- What an unboxing keeps: no tables, plans that leave nothing to the value, and, if it unboxes to
`d`, the plans that it would make anew. -/
structure Unboxer.Faithful (Γ : Program) (op? : Option Operation) (u : Unboxer) : Prop where
  planner : u.planner = ⟨false, [], []⟩
  plain : ∀ e ∈ u.plans, e.2.Runs Operation.IsPlain
  made : ∀ d, op? = some (.unbox d) → ∀ e ∈ u.plans, Γ.freshPlan (.cls e.1) d = .ok e.2

def Usage.Faithful (Γ : Program) (root : Operation) (s : Usage) : Prop :=
  ∀ way, (s.unboxers way).Faithful Γ (root.at? way)

theorem Usage.faithful_start {Γ : Program} (root : Operation) (q : Planner) :
    Usage.Faithful Γ root { planner := q } := fun _ =>
  ⟨rfl, fun _ he => absurd he List.not_mem_nil, fun _ _ _ he => absurd he List.not_mem_nil⟩

/-- From what is faithful, the computation has the outcome and leaves what is faithful and the same
planner, with at most the given decisions on the way. -/
def EndsIn {α : Type} (Γ : Program) (root : Operation) (x : ApplyM α) (r : Except Failure α)
    (most : List Dispatch) : Prop :=
  ∀ s : Usage, s.Faithful Γ root → ∃ s' log, x.run.run s = (r, s') ∧ s'.Faithful Γ root ∧
    s'.planner = s.planner ∧ s'.entered = s.entered ++ log ∧ log.Sublist most

namespace EndsIn

variable {Γ : Program} {root : Operation} {α β : Type} {most most' : List Dispatch}

theorem pure (a : α) : EndsIn Γ root (Pure.pure a : ApplyM α) (.ok a) [] :=
  fun s hs => ⟨s, [], rfl, hs, rfl, by simp, .slnil⟩

theorem throw (e : Failure) : EndsIn Γ root (MonadExcept.throw e : ApplyM α) (.error e) [] :=
  fun s hs => ⟨s, [], rfl, hs, rfl, by simp, .slnil⟩

theorem ofExcept (r : Except Failure α) :
    EndsIn Γ root (MonadExcept.ofExcept r : ApplyM α) r [] := by
  cases r with
  | ok a => exact .pure a
  | error e => exact .throw e

theorem enter (d : Dispatch) : EndsIn Γ root (modify (·.enter d) : ApplyM Unit) (.ok ()) [d] :=
  fun s hs => ⟨s.enter d, [d], rfl, hs, rfl, rfl, .refl _⟩

theorem mono {x : ApplyM α} {r : Except Failure α} (h : EndsIn Γ root x r most)
    (hmost : most.Sublist most') : EndsIn Γ root x r most' := by
  intro s hs
  obtain ⟨s', log, hrun, hfaithful, hplanner, hentered, hlog⟩ := h s hs
  exact ⟨s', log, hrun, hfaithful, hplanner, hentered, hlog.trans hmost⟩

theorem bind {x : ApplyM α} {a : α} {f : α → ApplyM β} {r : Except Failure β}
    (hx : EndsIn Γ root x (.ok a) most) (hf : EndsIn Γ root (f a) r most') :
    EndsIn Γ root (x >>= f) r (most ++ most') := by
  intro s hs
  obtain ⟨s₁, log₁, hrun₁, hfaithful₁, hplanner₁, hentered₁, hlog₁⟩ := hx s hs
  obtain ⟨s₂, log₂, hrun₂, hfaithful₂, hplanner₂, hentered₂, hlog₂⟩ := hf s₁ hfaithful₁
  refine ⟨s₂, log₁ ++ log₂, ?_, hfaithful₂, hplanner₂.trans hplanner₁, ?_, hlog₁.append hlog₂⟩
  · rw [run_bind_of_ok hrun₁, hrun₂]
  · rw [hentered₂, hentered₁, List.append_assoc]

theorem bind_error {x : ApplyM α} {e : Failure} {f : α → ApplyM β}
    (hx : EndsIn Γ root x (.error e) most) : EndsIn Γ root (x >>= f) (.error e) most := by
  intro s hs
  obtain ⟨s', log, hrun, hrest⟩ := hx s hs
  exact ⟨s', log, run_bind_of_error hrun, hrest⟩

end EndsIn

namespace Program

variable {Γ : Program} {root : Operation} {h : Heap} {way : List Step} {d : Ty} {v : Value}

/-- An unboxing answers with the plan that it would make, and stays faithful. -/
theorem planForClass_spec {c : Cls} {u : Unboxer} (hu : u.Faithful Γ (some (.unbox d)))
    (hn : d.normalize = d) (htop : (Ty.cls c).isTop = false) :
    (Γ.planForClass d c u).1 = Γ.freshPlan (.cls c) d ∧
      (Γ.planForClass d c u).2.Faithful Γ (some (.unbox d)) := by
  unfold planForClass
  cases hfind : u.plans.find? fun e => decide (e.1 = c) with
  | some e =>
    have hkey := List.find?_some hfind
    obtain rfl : e.1 = c := by simpa using hkey
    exact ⟨(hu.made d rfl e (List.mem_of_find?_eq_some hfind)).symm, hu⟩
  | none =>
    dsimp only
    rw [hu.planner, run_planNormal_empty]
    cases hfresh : Γ.freshPlan (.cls c) d with
    | error e => exact ⟨rfl, rfl, hu.plain, hu.made⟩
    | ok plan =>
      have hplain := runs_isPlain_of_freshPlan hn htop hfresh
      refine ⟨rfl, rfl, ?_, fun d' hd' => ?_⟩
      · exact List.forall_mem_append.2 ⟨hu.plain, List.forall_mem_singleton.2 hplain⟩
      · obtain rfl : d = d' := by simpa using hd'
        exact List.forall_mem_append.2 ⟨hu.made d rfl, List.forall_mem_singleton.2 hfresh⟩

theorem run_classPlan (c : Cls) (s : Usage) :
    (Γ.classPlan way d c).run.run s = ((Γ.planForClass d c (s.unboxers way)).1,
      s.setUnboxer way (Γ.planForClass d c (s.unboxers way)).2) := by
  show (do
    set (s.setUnboxer way (Γ.planForClass d c (s.unboxers way)).2)
    MonadExcept.ofExcept (Γ.planForClass d c (s.unboxers way)).1 : ApplyM Plan).run.run s = _
  generalize Γ.planForClass d c (s.unboxers way) = answer
  obtain ⟨r, u⟩ := answer
  cases r <;> rfl

theorem endsIn_classPlan {c : Cls} (hat : root.at? way = some (.unbox d)) (hn : d.normalize = d)
    (htop : (Ty.cls c).isTop = false) :
    EndsIn Γ root (Γ.classPlan way d c) (Γ.freshPlan (.cls c) d) [] := by
  intro s hs
  obtain ⟨hanswer, hfaithful⟩ := planForClass_spec (hat ▸ hs way) hn htop
  refine ⟨s.setUnboxer way (Γ.planForClass d c (s.unboxers way)).2, [], ?_, fun w => ?_, rfl,
    by simp [Usage.setUnboxer], .slnil⟩
  · rw [run_classPlan, hanswer]
  · unfold Usage.setUnboxer
    dsimp only
    by_cases hw : w = way
    · rw [if_pos hw, hw, hat]
      exact hfaithful
    · rw [if_neg hw]
      exact hs w

theorem runOperation_of_isPlain {U U' : Ty → Value → Except Failure Value} {op : Operation}
    (hop : op.IsPlain) : Γ.runOperation h U op v = Γ.runOperation h U' op v := by
  cases op with
  | test | unbox => exact hop.elim
  | _ => rfl

theorem endsIn_runKeeping_of_isPlain {unboxing : List Step → Ty → Value → ApplyM Value}
    {op : Operation} (hop : op.IsPlain) (within : Bool) :
    EndsIn Γ root (Γ.runKeeping h unboxing within way op v)
      (Γ.runOperation h (fun d w => .error (Γ.castFailure w d)) op v) [] := by
  cases op with
  | test | unbox => exact hop.elim
  | _ =>
    simp only [runKeeping]
    exact .ofExcept _

/-- An unboxing in use does to a value what it does to it alone. -/
theorem endsIn_unboxKeeping (depth : Nat) (hat : root.at? way = some (.unbox d))
    (hn : d.normalize = d) :
    EndsIn Γ root (Γ.unboxKeeping h (depth + 1) way d v) (Γ.unboxed h d v) [] := by
  unfold unboxKeeping unboxed
  dsimp only
  cases htop : (Ty.cls (Γ.classOf v)).isTop with
  | true => exact .throw _
  | false =>
    have hplan := endsIn_classPlan (Γ := Γ) hat hn htop
    cases hfresh : Γ.freshPlan (.cls (Γ.classOf v)) d with
    | error e =>
      rw [hfresh] at hplan
      exact hplan.bind_error
    | ok plan =>
      rw [hfresh] at hplan
      have hplain := runs_isPlain_of_freshPlan hn htop hfresh
      refine hplan.bind ?_
      dsimp only
      cases plan.isPossible with
      | false => exact .throw _
      | true =>
        cases hop : plan.operation? with
        | none => exact .pure v
        | some op => exact endsIn_runKeeping_of_isPlain (hplain op hop) false

theorem endsIn_runKeeping_of_isSimple {depth : Nat} (hdepth : 1 ≤ depth) {op : Operation}
    (hat : root.at? way = some op) (hop : op.IsSimple) (within : Bool) :
    EndsIn Γ root (Γ.runKeeping h (Γ.unboxKeeping h depth) within way op v)
      (Γ.runOperation h (Γ.unboxed h) op v) [.unboxing] := by
  obtain ⟨depth, rfl⟩ := Nat.exists_eq_add_of_le' hdepth
  by_cases hplain : op.IsPlain
  · rw [runOperation_of_isPlain hplain]
    exact (endsIn_runKeeping_of_isPlain hplain within).mono (List.nil_sublist _)
  · cases op with
    | unbox d => exact (EndsIn.enter .unboxing).bind (endsIn_unboxKeeping depth hat hop)
    | test => exact hop.elim
    | _ => exact absurd trivial hplain

/-- A choice is entered once, and an unboxing behind it at most. -/
theorem endsIn_runKeeping {depth : Nat} (hdepth : 1 ≤ depth) {op : Operation}
    (hat : root.at? way = some op) (hop : op.IsChoice) (within : Bool) :
    EndsIn Γ root (Γ.runKeeping h (Γ.unboxKeeping h depth) within way op v)
      (Γ.runOperation h (Γ.unboxed h) op v)
      (if within then [.unboxing] else [.union, .unboxing]) := by
  induction op generalizing way within with
  | test m hit miss _ ih =>
    have hrest : ∀ belongs : Bool, EndsIn Γ root
        (if belongs then Γ.runKeeping h (Γ.unboxKeeping h depth) false (way ++ [.hit]) hit v
          else Γ.runKeeping h (Γ.unboxKeeping h depth) true (way ++ [.miss]) miss v)
        (if belongs then Γ.runOperation h (Γ.unboxed h) hit v
          else Γ.runOperation h (Γ.unboxed h) miss v) [.unboxing] := by
      intro belongs
      cases belongs with
      | true => exact endsIn_runKeeping_of_isSimple hdepth (Operation.at?_hit hat) hop.1 false
      | false => exact ih (Operation.at?_miss hat) hop.2 true
    cases within with
    | true => exact hrest _
    | false => exact (EndsIn.enter .union).bind (hrest _)
  | _ =>
    refine (endsIn_runKeeping_of_isSimple hdepth hat hop within).mono ?_
    cases within <;> simp

end Program

/-! ## Plans in use -/

/-- The operation of a plan; a plan without one passes values through. -/
def Plan.operation (plan : Plan) : Operation := plan.operation?.getD .keep

namespace Program

variable {Γ : Program} {h : Heap} {v : Value} {p q : Planner} {r : PlanRequest} {plan : Plan}

theorem endsIn_applyKeeping {depth : Nat} (hdepth : 1 ≤ depth)
    (hplan : plan.Runs Operation.IsChoice) :
    EndsIn Γ plan.operation (Γ.applyKeeping h depth plan v) (Γ.applyPlan h plan v)
      [.union, .unboxing] := by
  unfold applyKeeping applyPlan
  cases plan.discard with
  | true => exact (EndsIn.pure _).mono (List.nil_sublist _)
  | false =>
    unfold Plan.operation
    cases hop : plan.operation? with
    | none => exact (EndsIn.pure _).mono (List.nil_sublist _)
    | some op => exact endsIn_runKeeping hdepth rfl (hplan op hop) false

/-- Value after value, a plan does to each what it does to it alone. -/
theorem applyEach_spec {depth : Nat} (hdepth : 1 ≤ depth)
    (hplan : plan.Runs Operation.IsChoice) (vs : List (Heap × Value)) {s : Usage}
    (hs : s.Faithful Γ plan.operation) :
    (Γ.applyEach depth plan vs s).2.planner = s.planner ∧
      (Γ.applyEach depth plan vs s).2.Faithful Γ plan.operation ∧
      (Γ.applyEach depth plan vs s).1.map (·.outcome) =
        vs.map (fun v => Γ.applyPlan v.1 plan v.2) ∧
      ∀ a ∈ (Γ.applyEach depth plan vs s).1, a.entered.Sublist [.union, .unboxing] := by
  induction vs generalizing s with
  | nil => exact ⟨rfl, hs, rfl, fun _ ha => absurd ha List.not_mem_nil⟩
  | cons v vs ih =>
    obtain ⟨h, v⟩ := v
    obtain ⟨s', log, hrun, hfaithful, hplanner, hentered, hlog⟩ :=
      endsIn_applyKeeping (h := h) hdepth hplan { s with entered := [] } hs
    obtain ⟨hplanner', hfaithful', houtcomes, hdispatches⟩ :=
      ih hfaithful
    rw [applyEach, hrun]
    refine ⟨hplanner'.trans hplanner, hfaithful', ?_, ?_⟩
    · simp [houtcomes]
    · refine List.forall_mem_cons.2 ⟨?_, hdispatches⟩
      simpa [hentered] using hlog

/-- Whatever a planner was asked before, a plan that it returns can be applied to any values in
turn: the planner stays as it was, what comes out for a value is what the plan does to it alone, at
most one choice is entered and behind it one unboxing, and the plans that unboxings made for the
classes of values leave nothing to them. -/
theorem unboxing_one_level (hp : p.Asked Γ) (h : (Γ.planFor r).run.run p = (.ok plan, q))
    {depth : Nat} (hdepth : 1 ≤ depth) (vs : List (Heap × Value)) :
    (Γ.applyEach depth plan vs { planner := q }).2.planner = q ∧
      (Γ.applyEach depth plan vs { planner := q }).1.map (·.outcome) =
        vs.map (fun v => Γ.applyPlan v.1 plan v.2) ∧
      (∀ a ∈ (Γ.applyEach depth plan vs { planner := q }).1,
        a.entered.Sublist [.union, .unboxing]) ∧
      ∀ way, ∀ e ∈ ((Γ.applyEach depth plan vs { planner := q }).2.unboxers way).plans,
        e.2.Runs Operation.IsPlain := by
  obtain ⟨hplanner, hfaithful, houtcomes, hdispatches⟩ :=
    applyEach_spec hdepth (runs_isChoice_of_planFor hp h) vs
      (Usage.faithful_start plan.operation q)
  exact ⟨hplanner, houtcomes, hdispatches, fun way e he => (hfaithful way).plain e he⟩

/-- An object or nothing is wanted as an integer. -/
def askedUnboxed : PlanRequest := .types (.union false [.none, .object]) (.builtin .int)

/-- The plan for it: nothing is refused, and anything else goes on from its class. -/
def unboxedPlan : Plan :=
  let refuse := Operation.refuse (.builtin .int)
  let objects := Operation.test .object (.unbox (.builtin .int)) refuse
  .of (.union false [.none, .object]) (.builtin .int)
    (.convert (.test .none (.refuseNone (.builtin .int)) objects))

/-- The planner that made it. -/
def unboxedPlanner : Planner := Program.empty.afterRequests [askedUnboxed] ⟨true, [], []⟩

/-- Two integers with nothing between them: the unboxing plans for the class of integers once. -/
theorem unboxing_one_level_optional :
    let vs : List (Heap × Value) := [(.empty, .int 2), (.empty, .none), (.empty, .int 3)]
    let used := Program.empty.applyEach 1 unboxedPlan vs { planner := unboxedPlanner }
    (Program.empty.planFor askedUnboxed).run.run ⟨true, [], []⟩ =
        (.ok unboxedPlan, unboxedPlanner) ∧
      used.2.planner = unboxedPlanner ∧
      used.1.map (·.outcome) = vs.map (fun v => Program.empty.applyPlan v.1 unboxedPlan v.2) ∧
      used.1.map (·.entered) = [[.union, .unboxing], [.union], [.union, .unboxing]] ∧
      (used.2.unboxers [.miss, .hit]).plans.length = 1 ∧
      ∀ e ∈ (used.2.unboxers [.miss, .hit]).plans, e.2.Runs Operation.IsPlain := by
  have hmade : (Program.empty.planFor askedUnboxed).run.run ⟨true, [], []⟩ =
      (.ok unboxedPlan, unboxedPlanner) := Prod.ext (by with_unfolding_all rfl) rfl
  have hused := unboxing_one_level (Planner.asked_empty .empty true) hmade (le_refl 1)
    [(.empty, .int 2), (.empty, .none), (.empty, .int 3)]
  exact ⟨hmade, hused.1, hused.2.1, by with_unfolding_all rfl, by with_unfolding_all rfl,
    hused.2.2.2 [.miss, .hit]⟩

end Program

end CallAdapter
