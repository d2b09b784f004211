import CallAdapter.Execution.Runtime
import CallAdapter.Proofs.Adapter.Soundness

/-!
# The shortcut of a call

A call that hands its arguments to the member as they are does what the same call does through its
slots (`direct_call_agrees`). Of the conditions for the shortcut, one says that nothing is captured:
a captured value is never the sentinel for no value (`isUnbound_captured`), so the slots are those
of the arguments in their order, and each hands its argument over untouched.

So the shortcut is not seen: an adapter does what its slots say, unless the absent value was bound as
its receiver (`run_eq_runGeneral`).
-/

namespace CallAdapter

open Program

section Shortcut

variable {Γ : Program} {R : Reuse} {h₀ : Heap} {shape : Shape} {t : Target} {bound : Value}
  {plan : SignaturePlan} {args : List Value}

/-- A plan with a captured value has no shortcut. -/
theorem isUnbound_of_isDirect (hR : BetweenSpellings R) (hp : plan.Planned Γ R h₀ shape t bound)
    (hdirect : plan.isDirect = true) : bound.isUnbound = true := by
  cases hp with
  | free hbound _ _ => exact hbound
  | captured hbound _ hc _ _ =>
    have hvalue := isUnbound_captured hR hc hbound
    simp [SignaturePlan.isDirect, hvalue] at hdirect

/-- Where the arguments of a planned signature can go to the member as they are, that does what
the slots do. -/
theorem run_runDirect_of_planned (hR : BetweenSpellings R)
    (hp : plan.Planned Γ R h₀ shape t bound) (hdirect : plan.isDirect = true) (rt : Runtime)
    (hargs : args.length = shape.arity) (w : World) :
    (plan.runDirect rt args).run.run w = (plan.runGeneral Γ rt args).run.run w := by
  have hbound := isUnbound_of_isDirect hR hp hdirect
  cases hp with
  | free _ hslots _ =>
    have hgiven : shape.params.length = args.length := hargs.symm
    exact run_runDirect rt hdirect hslots hgiven (hslots.length_eq.symm.trans hgiven)
  | captured hpresent => simp [hbound] at hpresent

/-- An adapter with a receiver does what its slots say. -/
theorem run_eq_runGeneral (hR : BetweenSpellings R) (hp : plan.Planned Γ R h₀ shape t bound)
    (hpresent : plan.nullReceiver = false) (rt : Runtime) (hargs : args.length = shape.arity)
    (w : World) : (plan.run Γ rt args).run.run w = (plan.runGeneral Γ rt args).run.run w := by
  unfold SignaturePlan.run
  rw [if_neg (by simp [hpresent])]
  by_cases hdirect : plan.isDirect = true
  · rw [if_pos hdirect]
    exact run_runDirect_of_planned hR hp hdirect rt hargs w
  · rw [if_neg hdirect]

/-- The shortcut is exact: for every plan of a signature that has one, whatever the planner was
asked before, and every tuple of arguments for its shape, handing the arguments over gives the same
result or failure, with the same effects, as going through the slots. -/
theorem direct_call_agrees {history : List PlanRequest} {memoize : Bool} {q : Planner}
    (hplan : (Γ.planSignature h₀ shape t bound).run.run.run
      (Γ.afterRequests history ⟨memoize, [], []⟩) = (.ok (.ok plan), q))
    (hdirect : plan.isDirect = true) (rt : Runtime) (hargs : args.length = shape.arity)
    (w : World) : (plan.runDirect rt args).run.run w = (plan.runGeneral Γ rt args).run.run w := by
  have hplanned :=
    planned_of_planSignature (sound_history memoize history) (congrArg Prod.fst hplan)
  exact run_runDirect_of_planned betweenSpellings_historyReuse hplanned hdirect rt hargs w

end Shortcut

/-- A method of integers with one parameter. -/
def plusMethod : Target where
  kind := .procedure
  name := "plus"
  declaring := some (.builtin .int)
  isStatic := false
  params := [⟨"x", .builtin .float, .positional⟩]
  result := .builtin .int
  impl := .callable (.code (.function 0))

/-- The method for two integers and any result: both are handed over, the second one as a float. -/
def plusSignature : SignaturePlan where
  shape := .make [.builtin .int, .builtin .int] .object
  target := plusMethod
  slots := [⟨.argument 0, .of (.builtin .int) (.builtin .int) .identity, .value⟩,
    ⟨.argument 1, .of (.builtin .int) (.builtin .float) .widen, .value⟩]
  result := .of (.builtin .int) .object .widen

theorem direct_call_agrees_plus :
    (plusSignature.runDirect Program.empty.runtime [.int 1, .int 2]).run.run World.empty =
      (plusSignature.runGeneral .empty Program.empty.runtime [.int 1, .int 2]).run.run
        World.empty := by
  have hplan : (Program.empty.planSignature .empty (.make [.builtin .int, .builtin .int] .object)
      plusMethod .unbound).run.run.run (Program.empty.afterRequests [] ⟨false, [], []⟩) =
      (.ok (.ok plusSignature), ⟨false, [], []⟩) := by
    with_unfolding_all rfl
  exact direct_call_agrees hplan rfl _ rfl _

end CallAdapter
