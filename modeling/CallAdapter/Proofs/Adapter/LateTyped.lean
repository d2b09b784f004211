import CallAdapter.Execution.Runtime
import CallAdapter.Proofs.Adapter.Binding
import CallAdapter.Proofs.Adapter.Shortcut
import CallAdapter.Proofs.Conversion.Unboxing

/-!
# Arguments of unknown type

A member can be called with arguments of unknown type in two ways: through an `Invoker`, and through
the adapter for the shape whose types are all unknown. Both put the same questions to the planner,
one for each input, so each input is converted in the same way (`Planner.Admits`). They differ in
one point: the adapter is built only where every input has a conversion, and the invoker asks for
none. From a value of unknown type there is a conversion to every type but "nothing at all", so the two
agree on the calls that return, unless an input is declared to be nothing
(`invoker_agrees_iff`). Such an input the invoker hands over unchecked
(`invoker_unchecked_nothing`).
-/

namespace CallAdapter

open Program Planner

/-! ## Questions that are answered -/

/-- Every planner with sound plans answers, keeps its plans sound, and all that remember what it
then knows find the answer good. -/
def Program.Finds (Γ : Program) {α : Type} (x : PlanM α) (good : Planner → α → Prop) : Prop :=
  ∀ (keeps : Bool) (p : Planner), p.Sound Γ keeps NormalPair HistoryReuse →
    ∃ a p', x.run.run p = (.ok a, p') ∧ p'.Sound Γ keeps NormalPair HistoryReuse ∧
      p'.Remembers p ∧ ∀ q : Planner, q.Remembers p' → good q a

namespace Program.Finds

variable {Γ : Program} {α β : Type} {good : Planner → α → Prop}

theorem pure {a : α} (h : ∀ q, good q a) : Γ.Finds (Pure.pure a) good :=
  fun _ p hp => ⟨a, p, rfl, hp, .refl p, fun q _ => h q⟩

theorem bind {x : PlanM α} {f : α → PlanM β} {good' : Planner → β → Prop} (hx : Γ.Finds x good)
    (hf : ∀ a, (∃ q, good q a) → Γ.Finds (f a) fun q b => good q a → good' q b) :
    Γ.Finds (x >>= f) good' := by
  intro keeps p hp
  obtain ⟨a, p₁, hx, hp₁, hgrows, hgood⟩ := hx keeps p hp
  obtain ⟨b, p₂, hfa, hp₂, hgrows', hgood'⟩ := hf a ⟨p₁, hgood p₁ (.refl p₁)⟩ keeps p₁ hp₁
  refine ⟨b, p₂, by rw [run_bind_of_ok hx, hfa], hp₂, hgrows'.trans hgrows, fun q hq => ?_⟩
  exact hgood' q hq (hgood q (hq.trans hgrows'))

theorem mono {x : PlanM α} {good' : Planner → α → Prop} (hx : Γ.Finds x good)
    (h : ∀ q a, good q a → good' q a) : Γ.Finds x good' := by
  intro keeps p hp
  obtain ⟨a, p', hx, hp', hgrows, hgood⟩ := hx keeps p hp
  exact ⟨a, p', hx, hp', hgrows, fun q hq => h q a (hgood q hq)⟩

/-- The answer to a steady question stays. -/
theorem of_keeps {x : PlanM α} {post : α → Prop} (hsteady : Steady x)
    (hx : ∀ keeps, Keeps (Planner.Sound Γ keeps NormalPair HistoryReuse) x
      (OutcomeIs post fun _ => False)) :
    Γ.Finds x fun q a => q.Gives x (· = a) ∧ post a := by
  intro keeps p hp
  obtain ⟨hsound, hpost⟩ := hx keeps p hp
  obtain ⟨hgrows, -⟩ := hsteady p
  cases hrun : x.run.run p with
  | mk r p' =>
    rw [hrun] at hsound hpost hgrows
    cases r with
    | error e => exact hpost.elim
    | ok a =>
      refine ⟨a, p', rfl, hsound, hgrows, fun q hq => ⟨?_, hpost⟩⟩
      exact (gives_of_run hsteady hrun).mono hq

end Program.Finds

/-- Every planner with sound plans finds a match that is good. -/
abbrev Program.FindsMatch (Γ : Program) {α : Type} (x : MatchM α) (good : Planner → α → Prop) :
    Prop :=
  Γ.Finds x.run fun q r => ∃ a, r = .ok a ∧ good q a

namespace Program.FindsMatch

variable {Γ : Program} {α β : Type} {good : Planner → α → Prop}

theorem pure {a : α} (h : ∀ q, good q a) : Γ.FindsMatch (Pure.pure a) good :=
  Finds.pure fun q => ⟨a, rfl, h q⟩

theorem lift {x : PlanM α} (hx : Γ.Finds x good) : Γ.FindsMatch (liftM x) good :=
  Finds.bind hx fun a _ => .pure fun _ ha => ⟨a, rfl, ha⟩

theorem bind {x : MatchM α} {f : α → MatchM β} {good' : Planner → β → Prop}
    (hx : Γ.FindsMatch x good)
    (hf : ∀ a, (∃ q, good q a) → Γ.FindsMatch (f a) fun q b => good q a → good' q b) :
    Γ.FindsMatch (x >>= f) good' := by
  refine Finds.bind hx ?_
  rintro _ ⟨q, a, rfl, ha⟩
  refine (hf a ⟨q, ha⟩).mono ?_
  rintro q' _ ⟨b, rfl, hb⟩ ⟨_, hab, ha'⟩
  cases hab
  exact ⟨b, rfl, hb ha'⟩

end Program.FindsMatch

section Late

variable {Γ : Program} {q : Planner} {h : Heap} {t : Target} {d : Ty} {ds : List Ty}
  {v u : Value} {vs us : List Value}

/-- The planner's plan for values of unknown type. -/
structure Planner.Checks (Γ : Program) (q : Planner) (d : Ty) (plan : Plan) : Prop where
  gives : q.Gives (Γ.plan .any d) (· = plan)
  handsOn : plan.HandsOn
  verdict : plan.verdict.Checks d.normalize

theorem finds_plan_any (d : Ty) : Γ.Finds (Γ.plan .any d) fun q plan => q.Checks Γ d plan := by
  have hany : Ty.any.normalize = .any := by simp [Ty.normalize]
  have hkeeps : ∀ keeps, Keeps (Planner.Sound Γ keeps NormalPair HistoryReuse) (Γ.plan .any d)
      (OutcomeIs (fun plan => plan.HandsOn ∧ plan.verdict.Checks d.normalize) fun _ => False) := by
    refine fun keeps => (plan_keeps_normal .any d).mono fun r hr => ?_
    rw [hany] at hr
    cases r with
    | error e =>
      obtain ⟨_, he, -⟩ := checks_of_plans betweenSpellings_historyReuse hr rfl
        (Ty.normalize_normalize d)
      cases he
    | ok plan =>
      obtain ⟨w, hw, hchecks⟩ := checks_of_plans betweenSpellings_historyReuse hr.2 rfl
        (Ty.normalize_normalize d)
      exact ⟨hr.1, Except.ok.inj hw ▸ hchecks⟩
  exact (Finds.of_keeps (.plan _ _) hkeeps).mono fun q plan h => ⟨h.1, h.2.1, h.2.2⟩

theorem Planner.Checks.isPossible_eq {plan : Plan} (hplan : q.Checks Γ d plan) :
    plan.isPossible = !d.normalize.isVoid :=
  plan.isPossible_eq.trans hplan.verdict.isPossible_eq

theorem Planner.Gives.unique {α : Type} {x : PlanM α} {a b : α} (ha : q.Gives x (· = a))
    (hb : q.Gives x (· = b)) : a = b := by
  obtain ⟨_, hrun, rfl⟩ := ha q (.refl q)
  obtain ⟨_, hrun', rfl⟩ := hb q (.refl q)
  exact Except.ok.inj (hrun.symm.trans hrun')

/-- The result of a member can be given where any value will do. -/
theorem finds_planResult_any (hresult : t.result.normalize.isVoid = false) :
    Γ.Finds (Γ.planResult t.result .any) fun _ plan =>
      plan.HandsOn ∧ plan.verdict.isImplicit = true := by
  have hany : Ty.any.normalize = .any := by simp [Ty.normalize]
  have hsettled : Memo.results.settled t.result.normalize .any = none := by
    simp [Memo.settled, hresult, show Ty.any.isVoid = false from rfl]
  have hkeeps : ∀ keeps, Keeps (Planner.Sound Γ keeps NormalPair HistoryReuse)
      (Γ.planResult t.result .any)
      (OutcomeIs (fun plan => plan.HandsOn ∧ plan.verdict.isImplicit = true) fun _ => False) := by
    refine fun keeps => (planResult_keeps t.result .any).mono fun r hr => ?_
    unfold MemoAnswer at hr
    rw [hany, hsettled] at hr
    cases r with
    | error e =>
      obtain ⟨_, he, -⟩ := implicit_of_plans betweenSpellings_historyReuse hr rfl
      cases he
    | ok plan =>
      obtain ⟨w, hw, himplicit⟩ := implicit_of_plans betweenSpellings_historyReuse hr.2 rfl
      exact ⟨hr.1, Except.ok.inj hw ▸ himplicit⟩
  exact (Finds.of_keeps (.planResult _ _) hkeeps).mono fun _ _ h => h.2

/-! ## Inputs -/

/-- The declared type takes the value, as `u`. -/
def Planner.Admits (Γ : Program) (q : Planner) (h : Heap) (d : Ty) (v u : Value) : Prop :=
  ∃ plan, q.Gives (Γ.plan .any d) (· = plan) ∧ plan.isPossible = true ∧ Γ.applyPlan h plan v = .ok u

/-- The declared types take the values in turn. -/
inductive Planner.AdmitsAll (Γ : Program) (q : Planner) (h : Heap) :
    List Ty → List Value → List Value → Prop
  | nil : AdmitsAll Γ q h [] [] []
  | cons {d : Ty} {ds : List Ty} {v u : Value} {vs us : List Value} :
    q.Admits Γ h d v u → AdmitsAll Γ q h ds vs us → AdmitsAll Γ q h (d :: ds) (v :: vs) (u :: us)

theorem Planner.AdmitsAll.length_eq (hall : q.AdmitsAll Γ h ds vs us) : vs.length = ds.length := by
  induction hall with
  | nil => rfl
  | cons _ _ ih => rw [List.length_cons, List.length_cons, ih]

theorem Planner.Checks.admits_iff {plan : Plan} (hplan : q.Checks Γ d plan)
    (hvoid : d.normalize.isVoid = false) :
    q.Admits Γ h d v u ↔ Γ.applyPlan h plan v = .ok u := by
  constructor
  · rintro ⟨plan', hgives, -, hu⟩
    rwa [hplan.gives.unique hgives]
  · intro hu
    exact ⟨plan, hplan.gives, by rw [hplan.isPossible_eq, hvoid]; rfl, hu⟩

/-- No input is declared to be nothing at all. -/
def Target.TakesValues (t : Target) : Prop := ∀ d ∈ t.inputs, d.normalize.isVoid = false

namespace Target

/-- What a member is given for its inputs: the receiver, if it takes one, and the arguments. -/
def given (t : Target) (receiver : Value) (args : List Value) : List Value :=
  (if t.takesReceiver then [receiver] else []) ++ args

/-- The shape of the member where no type is known. -/
def untyped (t : Target) : Shape := .make (List.replicate t.slotCount .any) .any

theorem inputs_eq (t : Target) :
    t.inputs = (if t.takesReceiver then [t.receiverType] else []) ++ t.argumentTypes := by
  unfold inputs argumentTypes
  rw [List.append_assoc]

theorem untyped_eq (t : Target) : t.untyped = ⟨List.replicate t.inputs.length .any, .any⟩ := by
  have hany : Ty.any.normalize = .any := by simp [Ty.normalize]
  rw [untyped, Shape.make, List.map_replicate, hany, t.length_inputs]

end Target

/-! ## Running the conversions -/

/-- The inputs are there when the first type takes its value, and the others are. -/
theorem run_cons_eq_ok_iff {plan : Plan} {x : Eval Value} {xs : Eval (List Value)} {w w' : World}
    (hplan : q.Checks Γ d plan) (hvoid : d.normalize.isVoid = false)
    (hx : x.run.run w = (Γ.applyPlan w.heap plan v, w))
    (hxs : ∀ {us w'}, xs.run.run w = (.ok us, w') ↔ q.AdmitsAll Γ w.heap ds vs us ∧ w' = w) :
    (do let u ← x; let us ← xs; pure (u :: us)).run.run w = (.ok us, w') ↔
      q.AdmitsAll Γ w.heap (d :: ds) (v :: vs) us ∧ w' = w := by
  constructor
  · intro hrun
    obtain ⟨u, w₁, hu, hrest⟩ := exists_of_run_bind_eq_ok hrun
    obtain ⟨us, w₂, hus, hcons⟩ := exists_of_run_bind_eq_ok hrest
    obtain ⟨happly, rfl⟩ := Prod.mk.inj (hx.symm.trans hu)
    obtain ⟨hall, rfl⟩ := hxs.1 hus
    cases hcons
    exact ⟨.cons ((hplan.admits_iff hvoid).2 happly) hall, rfl⟩
  · rintro ⟨hall, rfl⟩
    cases hall with
    | cons hu hall =>
      rw [(hplan.admits_iff hvoid).1 hu] at hx
      rw [run_bind_of_ok hx, run_bind_of_ok (hxs.2 ⟨hall, rfl⟩)]
      rfl

theorem run_pure_nil_eq_ok_iff {w w' : World} :
    (pure [] : Eval (List Value)).run.run w = (.ok us, w') ↔
      q.AdmitsAll Γ w.heap [] [] us ∧ w' = w := by
  constructor
  · intro hrun
    cases hrun
    exact ⟨.nil, rfl⟩
  · rintro ⟨hall, rfl⟩
    cases hall
    rfl

/-- The slots from an index on that take arguments of unknown type. -/
inductive LateSlots (Γ : Program) (q : Planner) : Nat → List Ty → List Slot → Prop
  | nil {i : Nat} : LateSlots Γ q i [] []
  | cons {i : Nat} {d : Ty} {ds : List Ty} {plan : Plan} {slots : List Slot} :
    q.Checks Γ d plan → LateSlots Γ q (i + 1) ds slots →
    LateSlots Γ q i (d :: ds) (⟨.argument i, plan, .value⟩ :: slots)

theorem run_marshalAll_late {i : Nat} {slots : List Slot} {bound : Value} {args : List Value}
    {w w' : World} (hslots : LateSlots Γ q i ds slots)
    (hvoid : ∀ d ∈ ds, d.normalize.isVoid = false) (hlen : (args.drop i).length = ds.length) :
    (Γ.marshalAll slots bound args).run.run w = (.ok us, w') ↔
      q.AdmitsAll Γ w.heap ds (args.drop i) us ∧ w' = w := by
  induction hslots generalizing us w' with
  | nil =>
    rw [List.length_eq_zero_iff.1 hlen]
    exact run_pure_nil_eq_ok_iff
  | @cons i d ds plan slots hplan _ ih =>
    obtain ⟨hd, hds⟩ := List.forall_mem_cons.1 hvoid
    generalize hrest : args.drop i = rest at hlen ⊢
    cases rest with
    | nil => cases hlen
    | cons v vs =>
      obtain ⟨hget, hdrop⟩ := drop_eq_cons hrest
      rw [hdrop] at ih
      rw [marshalAll_argument rfl hget]
      exact run_cons_eq_ok_iff hplan hd (run_converting Γ plan v w) (ih hds (Nat.succ.inj hlen))

/-- The arguments of a late-typed caller, each with the plan for values of unknown type. -/
abbrev LateArguments (Γ : Program) (q : Planner) : List Ty → List LateArgument → Prop :=
  List.Forall₂ fun d a => ∃ plan, a = .value plan ∧ q.Checks Γ d plan

theorem run_mapM_convert {arguments : List LateArgument} {args : List Value} {w w' : World}
    (harguments : LateArguments Γ q ds arguments)
    (hvoid : ∀ d ∈ ds, d.normalize.isVoid = false) (hlen : args.length = ds.length) :
    ((arguments.zip args).mapM fun x => LateCall.convert Γ x.1 x.2).run.run w = (.ok us, w') ↔
      q.AdmitsAll Γ w.heap ds args us ∧ w' = w := by
  induction harguments generalizing args us w' with
  | nil =>
    rw [List.length_eq_zero_iff.1 hlen]
    exact run_pure_nil_eq_ok_iff
  | @cons d a ds arguments ha _ ih =>
    obtain ⟨plan, rfl, hplan⟩ := ha
    obtain ⟨hd, hds⟩ := List.forall_mem_cons.1 hvoid
    cases args with
    | nil => cases hlen
    | cons v vs =>
      rw [List.zip_cons_cons, List.mapM_cons]
      exact run_cons_eq_ok_iff hplan hd (run_converting Γ plan v w) (ih hds (Nat.succ.inj hlen))

theorem run_values_late {c : LateCall} {args : List Value} {w w' : World}
    (harguments : LateArguments Γ q ds c.arguments)
    (hvoid : ∀ d ∈ ds, d.normalize.isVoid = false) :
    (c.values Γ args).run.run w = (.ok us, w') ↔ q.AdmitsAll Γ w.heap ds args us ∧ w' = w := by
  have harity : c.arity = ds.length := harguments.length_eq.symm
  unfold LateCall.values
  by_cases hlen : args.length = c.arity
  · rw [if_pos hlen]
    exact run_mapM_convert harguments hvoid (hlen.trans harity)
  · rw [if_neg hlen]
    constructor
    · intro hrun
      cases hrun
    · rintro ⟨hall, -⟩
      exact absurd (hall.length_eq.trans harity.symm) hlen

/-- An input is absent where what was given for it is. -/
theorem isNone_eq_of_admits (hplan : ∃ plan, q.Checks Γ d plan) (hu : q.Admits Γ h d v u) :
    u.isNone = v.isNone := by
  obtain ⟨plan, hplan⟩ := hplan
  obtain ⟨plan', hgives, -, hu⟩ := hu
  obtain rfl := hgives.unique hplan.gives
  rw [applyPlan_of_handsOn hplan.handsOn] at hu
  exact isNone_eq_of_checks hplan.verdict hu

/-! ## The adapter for unknown types -/

theorem finds_planSlot_any (i : Nat) (hcell : d.isCell = false)
    (hvoid : d.normalize.isVoid = false) :
    Γ.FindsMatch (Γ.planSlot i .any d) fun q s =>
      ∃ plan, s = ⟨.argument i, plan, .value⟩ ∧ q.Checks Γ d plan := by
  rw [planSlot_eq, planByRef, content_of_not_isCell hcell, content_of_not_isCell rfl]
  refine .bind (.lift (finds_plan_any d)) ?_
  rintro plan ⟨q, hplan⟩
  rw [hplan.isPossible_eq, hvoid, hcell, if_pos (by decide)]
  exact .pure fun _ hplan => ⟨plan, rfl, hplan⟩

theorem finds_planSlots_any (i : Nat) (hcells : ∀ d ∈ ds, d.isCell = false)
    (hvoid : ∀ d ∈ ds, d.normalize.isVoid = false) :
    Γ.FindsMatch (Γ.planSlots i (List.replicate ds.length .any) ds) fun q slots =>
      LateSlots Γ q i ds slots := by
  induction ds generalizing i with
  | nil => exact .pure fun _ => .nil
  | cons d ds ih =>
    obtain ⟨hcell, hcells⟩ := List.forall_mem_cons.1 hcells
    obtain ⟨hfirst, hvoid⟩ := List.forall_mem_cons.1 hvoid
    refine .bind (finds_planSlot_any i hcell hfirst) ?_
    rintro _ ⟨_, plan, rfl, -⟩
    refine .bind (ih (i + 1) hcells hvoid) fun slots _ => ?_
    refine .pure ?_
    rintro q hslots ⟨_, hs, hplan⟩
    cases hs
    exact .cons hplan hslots

/-- The member with slots for unknown types. -/
def Target.lateSignature (t : Target) (slots : List Slot) (result : Plan) : SignaturePlan :=
  ⟨t.untyped, t, slots, result, .unbound, false⟩

/-- Where every input takes some value, the adapter for unknown types is built. -/
theorem finds_adapterFor_untyped (hgeneric : t.isGeneric = false)
    (hcells : ∀ d ∈ t.inputs, d.isCell = false) (hresult : t.result.normalize.isVoid = false)
    (hvalues : t.TakesValues) :
    Γ.Finds (Γ.adapterFor h (some t.untyped) (some t) .unbound) fun q made =>
      ∃ slots result, made = some (.member (t.lateSignature slots result)) ∧
        LateSlots Γ q 0 t.inputs slots ∧ result.HandsOn ∧ result.verdict.isImplicit = true := by
  have hsig : Γ.FindsMatch (Γ.planSignature h t.untyped t .unbound) fun q sig =>
      ∃ slots result, sig = t.lateSignature slots result ∧ LateSlots Γ q 0 t.inputs slots ∧
        result.HandsOn ∧ result.verdict.isImplicit = true := by
    have harity : t.untyped.arity = t.inputs.length := by
      rw [Target.untyped_eq, Shape.arity, List.length_replicate]
    rw [planSignature_unbound, if_pos harity]
    unfold lineUp
    rw [show t.untyped.params = List.replicate t.inputs.length .any by rw [Target.untyped_eq],
      show t.untyped.returns = .any by rw [Target.untyped_eq]]
    refine .bind (finds_planSlots_any 0 hcells hvalues) fun slots _ => ?_
    refine .bind (.lift (finds_planResult_any hresult)) ?_
    rintro result ⟨_, hhandsOn, himplicit⟩
    rw [if_pos (result.isImplicit_verdict_iff.1 himplicit).1]
    exact .pure fun _ _ hslots => ⟨slots, result, rfl, hslots, hhandsOn, himplicit⟩
  unfold adapterFor
  dsimp only [Target.stated]
  rw [hgeneric, if_neg Bool.false_ne_true]
  refine .bind hsig ?_
  rintro _ ⟨_, sig, rfl, -⟩
  refine .pure ?_
  rintro q ⟨_, hsig, slots, result, rfl, hgood⟩
  cases hsig
  exact ⟨slots, result, rfl, hgood⟩

/-! ## The invoker -/

theorem finds_mapM_lateArgument (hcells : ∀ d ∈ ds, d.isCell = false) :
    Γ.Finds (ds.mapM Γ.lateArgument) fun q arguments => LateArguments Γ q ds arguments := by
  induction ds with
  | nil => exact .pure fun _ => .nil
  | cons d ds ih =>
    obtain ⟨hcell, hcells⟩ := List.forall_mem_cons.1 hcells
    have hfirst : Γ.Finds (Γ.lateArgument d) fun q a =>
        ∃ plan, a = .value plan ∧ q.Checks Γ d plan := by
      unfold lateArgument
      rw [hcell, if_neg Bool.false_ne_true]
      exact .bind (finds_plan_any d) fun plan _ => .pure fun _ hplan => ⟨plan, rfl, hplan⟩
    rw [List.mapM_cons]
    refine .bind hfirst fun a _ => .bind (ih hcells) fun arguments _ => ?_
    exact .pure fun q harguments ha => .cons ha harguments

/-- An invoker for the member, each of whose plans the planner gives. -/
structure Planner.Invokes (Γ : Program) (q : Planner) (t : Target) (i : Invoker) : Prop where
  target : i.call.target = t
  arguments : LateArguments Γ q t.argumentTypes i.call.arguments
  receiver : if t.takesReceiver then
      ∃ plan, i.receiver = some plan ∧ q.Checks Γ t.receiverType plan
    else i.receiver = none

theorem finds_invoker (hcells : ∀ d ∈ t.inputs, d.isCell = false) :
    Γ.Finds (Γ.invoker t) fun q i => q.Invokes Γ t i := by
  rw [Target.inputs_eq] at hcells
  have hcall : Γ.Finds (Γ.lateCall t) fun q c =>
      c.target = t ∧ LateArguments Γ q t.argumentTypes c.arguments := by
    unfold lateCall
    refine .bind (finds_mapM_lateArgument fun d hd => hcells d (List.mem_append_right _ hd)) ?_
    exact fun arguments _ => .pure fun _ harguments => ⟨rfl, harguments⟩
  unfold invoker
  refine .bind hcall fun c _ => ?_
  cases hreceiver : t.takesReceiver with
  | false =>
    have hnone : Γ.Finds (pure none : PlanM (Option Plan)) fun _ r => r = none :=
      .pure fun _ => rfl
    refine .bind hnone ?_
    rintro _ ⟨_, rfl⟩
    exact .pure fun _ _ hc => ⟨hc.1, hc.2, by rw [hreceiver]; rfl⟩
  | true =>
    have hplan : Γ.Finds (some <$> Γ.plan .any t.receiverType) fun q r =>
        ∃ plan, r = some plan ∧ q.Checks Γ t.receiverType plan := by
      rw [map_eq_pure_bind]
      exact .bind (finds_plan_any _) fun plan _ => .pure fun _ hplan => ⟨plan, rfl, hplan⟩
    refine Finds.bind hplan fun r _ => ?_
    exact .pure fun _ hr hc => ⟨hc.1, hc.2, by rw [hreceiver]; exact hr⟩

/-! ## Calls that return -/

variable {rt : Runtime} {receiver r : Value} {args : List Value} {w w' : World}

/-- The call of the member comes back: the inputs that were given are taken, and the member returns
on them. -/
def Planner.Returns (Γ : Program) (q : Planner) (rt : Runtime) (t : Target) (receiver : Value)
    (args : List Value) (w : World) (r : Value) (w' : World) : Prop :=
  ∃ us, q.AdmitsAll Γ w.heap t.inputs (t.given receiver args) us ∧
    (t.takesReceiver = true → receiver.isNone = false) ∧
    (rt.deliver Γ t us).run.run w = (.ok r, w')

theorem invoke_eq_ok_iff {i : Invoker} (hi : q.Invokes Γ t i) (hvalues : t.TakesValues) :
    (i.invoke Γ rt receiver args).run.run w = (.ok r, w') ↔
      q.Returns Γ rt t receiver args w r w' := by
  obtain ⟨rfl, harguments, hreceiver⟩ := hi
  unfold Target.TakesValues at hvalues
  unfold Planner.Returns Target.given Runtime.deliver Invoker.invoke
  rw [Target.inputs_eq] at hvalues ⊢
  obtain ⟨hfirst, hvoid⟩ := List.forall_mem_append.1 hvalues
  cases htakes : i.call.target.takesReceiver with
  | false =>
    rw [htakes] at hreceiver
    rw [show i.receiver = none from hreceiver]
    constructor
    · intro hrun
      obtain ⟨us, w₁, hus, hrest⟩ := exists_of_run_bind_eq_ok hrun
      obtain ⟨hall, rfl⟩ := (run_values_late harguments hvoid).1 hus
      exact ⟨us, hall, nofun, hrest⟩
    · rintro ⟨us, hall, -, hrest⟩
      have hus : (i.call.values Γ args).run.run w = (.ok us, w) :=
        (run_values_late harguments hvoid).2 ⟨hall, rfl⟩
      rw [run_bind_of_ok hus]
      exact hrest
  | true =>
    rw [htakes] at hreceiver hfirst
    obtain ⟨plan, hsome, hplan⟩ := hreceiver
    have hd : i.call.target.receiverType.normalize.isVoid = false :=
      hfirst _ List.mem_cons_self
    rw [hsome]
    constructor
    · intro hrun
      obtain ⟨us, w₁, hus, hrest⟩ := exists_of_run_bind_eq_ok hrun
      obtain ⟨hall, rfl⟩ := (run_values_late harguments hvoid).1 hus
      by_cases hnone : receiver.isNone = true
      · simp only [hnone, if_true] at hrest
        cases hrest
      · dsimp only at hrest
        rw [if_neg hnone] at hrest
        obtain ⟨u, w₂, hu, hmember⟩ := exists_of_run_bind_eq_ok hrest
        obtain ⟨happly, rfl⟩ := Prod.mk.inj ((run_converting Γ plan receiver _).symm.trans hu)
        exact ⟨u :: us, .cons ((hplan.admits_iff hd).2 happly) hall,
          fun _ => Bool.eq_false_iff.2 hnone, hmember⟩
    · rintro ⟨us, hall, hpresent, hrest⟩
      cases hall with
      | @cons _ _ _ u _ us hu hall =>
        have hus : (i.call.values Γ args).run.run w = (.ok us, w) :=
          (run_values_late harguments hvoid).2 ⟨hall, rfl⟩
        rw [run_bind_of_ok hus]
        dsimp only
        rw [hpresent rfl, if_neg Bool.false_ne_true]
        have hconvert := run_converting Γ plan receiver w
        rw [(hplan.admits_iff hd).1 hu] at hconvert
        rw [run_bind_of_ok hconvert]
        exact hrest

/-- What follows the inputs returns where the receiver is there and the member returns. -/
theorem conclude_eq_ok_iff {p : SignaturePlan} (hresult : p.result.HandsOn)
    (himplicit : p.result.verdict.isImplicit = true) :
    (p.conclude Γ rt us).run.run w = (.ok r, w') ↔
      (p.target.takesReceiver = true → (us.head?.getD .none).isNone = false) ∧
        (rt.deliver Γ p.target us).run.run w = (.ok r, w') := by
  have hconvert : ∀ raw w, (Γ.converting p.result raw).run.run w = (.ok raw, w) := by
    intro raw w
    rw [run_converting, applyPlan_of_handsOn hresult, runVerdict_of_kind_ne]
    rw [p.result.kind_verdict]
    exact (p.result.isImplicit_verdict_iff.1 himplicit).2
  unfold SignaturePlan.conclude
  by_cases habsent : (p.target.takesReceiver && (us.head?.getD .none).isNone) = true
  · rw [if_pos habsent]
    rw [Bool.and_eq_true] at habsent
    constructor
    · intro hrun
      cases hrun
    · rintro ⟨hpresent, -⟩
      cases habsent.2.symm.trans (hpresent habsent.1)
  · rw [if_neg habsent]
    rw [Bool.and_eq_true, not_and, Bool.not_eq_true] at habsent
    constructor
    · intro hrun
      obtain ⟨raw, w₁, hraw, hout⟩ := exists_of_run_bind_eq_ok hrun
      cases (hconvert raw w₁).symm.trans hout
      exact ⟨habsent, hraw⟩
    · rintro ⟨-, hraw⟩
      rw [run_bind_of_ok hraw, hconvert]

theorem call_eq_ok_iff {slots : List Slot} {result : Plan}
    (hplanned : (t.lateSignature slots result).Planned Γ HistoryReuse h t.untyped t .unbound)
    (hslots : LateSlots Γ q 0 t.inputs slots) (hresult : result.HandsOn)
    (himplicit : result.verdict.isImplicit = true) (hvalues : t.TakesValues) :
    ((Adapter.member (t.lateSignature slots result)).call Γ rt (t.given receiver args)).run.run w =
        (.ok r, w') ↔ q.Returns Γ rt t receiver args w r w' := by
  have harity : (t.lateSignature slots result).shape.arity = t.inputs.length := by
    show t.untyped.arity = _
    rw [Target.untyped_eq, Shape.arity, List.length_replicate]
  by_cases hlen : (t.given receiver args).length = t.inputs.length
  · rw [Adapter.call, if_pos (hlen.trans harity.symm),
      run_eq_runGeneral betweenSpellings_historyReuse hplanned rfl rt (hlen.trans harity.symm),
      runGeneral_eq]
    have hmarshal : ∀ {us w'},
        (Γ.marshalAll slots .unbound (t.given receiver args)).run.run w = (.ok us, w') ↔
          q.AdmitsAll Γ w.heap t.inputs (t.given receiver args) us ∧ w' = w :=
      run_marshalAll_late hslots hvalues hlen
    -- The receiver is checked here after its conversion, which keeps it present or absent.
    have hreceiver : ∀ {us}, q.AdmitsAll Γ w.heap t.inputs (t.given receiver args) us →
        t.takesReceiver = true → (us.head?.getD .none).isNone = receiver.isNone := by
      intro us hall htakes
      unfold Target.given at hall
      rw [Target.inputs_eq, htakes] at hall hslots
      cases hslots with
      | cons hplan _ =>
        cases hall with
        | cons hu _ => exact isNone_eq_of_admits ⟨_, hplan⟩ hu
    constructor
    · intro hrun
      obtain ⟨us, w₁, hus, hrest⟩ := exists_of_run_bind_eq_ok hrun
      obtain ⟨hall, rfl⟩ := hmarshal.1 hus
      obtain ⟨hpresent, hmember⟩ := (conclude_eq_ok_iff hresult himplicit).1 hrest
      exact ⟨us, hall, fun htakes => (hreceiver hall htakes).symm.trans (hpresent htakes), hmember⟩
    · rintro ⟨us, hall, hpresent, hmember⟩
      have hus := hmarshal.2 ⟨hall, rfl⟩
      refine (run_bind_of_ok hus).trans ((conclude_eq_ok_iff hresult himplicit).2 ⟨?_, hmember⟩)
      exact fun htakes => (hreceiver hall htakes).trans (hpresent htakes)
  · rw [Adapter.call, if_neg (fun h => hlen (h.trans harity))]
    constructor
    · intro hrun
      cases hrun
    · rintro ⟨us, hall, -⟩
      exact absurd hall.length_eq hlen

/-- Slots for values of unknown type are planned to types that take some value only. -/
theorem takesValues_of_slotsPlanned {i : Nat} {gs : List Ty} {slots : List Slot}
    (hslots : SlotsPlanned Γ HistoryReuse i gs ds slots) (hgs : ∀ g ∈ gs, g = .any)
    (hcells : ∀ d ∈ ds, d.isCell = false) : ∀ d ∈ ds, d.normalize.isVoid = false := by
  induction hslots with
  | nil => exact nofun
  | @cons i g d gs ds s slots _ hs _ ih =>
    obtain ⟨rfl, hrest⟩ := List.forall_mem_cons.1 hgs
    obtain ⟨hcell, hcells⟩ := List.forall_mem_cons.1 hcells
    refine List.forall_mem_cons.2 ⟨?_, ih hrest hcells⟩
    have hany : Ty.any.normalize = .any := by simp [Ty.normalize]
    have hanswer := hs.answer.2
    rw [content_of_not_isCell hcell, content_of_not_isCell rfl, hany] at hanswer
    obtain ⟨w, hw, hchecks⟩ := checks_of_plans betweenSpellings_historyReuse hanswer rfl
      (Ty.normalize_normalize d)
    have hpossible := hs.possible
    rw [s.plan.isPossible_eq, Except.ok.inj hw, hchecks.isPossible_eq] at hpossible
    simpa using hpossible

/-- An adapter for unknown types is built only where every input takes some value. -/
theorem takesValues_of_built {keeps : Bool} {p p' : Planner} {a : Adapter}
    (hp : p.Sound Γ keeps NormalPair HistoryReuse) (hcells : ∀ d ∈ t.inputs, d.isCell = false)
    (hrun : (Γ.adapterFor h (some t.untyped) (some t) .unbound).run.run p = (.ok (some a), p')) :
    t.TakesValues := by
  obtain ⟨-, sig, -, hsig⟩ := exists_of_run_adapterFor hrun
  cases planned_of_planSignature hp (congrArg Prod.fst hsig) with
  | free _ hslots _ =>
    refine takesValues_of_slotsPlanned hslots (fun g hg => ?_) hcells
    rw [Target.untyped_eq] at hg
    exact List.eq_of_mem_replicate hg
  | captured hbound => cases hbound

theorem sound_invoker {keeps : Bool} {p : Planner} (hp : p.Sound Γ keeps NormalPair HistoryReuse)
    (hcells : ∀ d ∈ t.inputs, d.isCell = false) :
    ((Γ.invoker t).run.run p).2.Sound Γ keeps NormalPair HistoryReuse := by
  obtain ⟨i, p', hrun, hp', -⟩ := finds_invoker hcells keeps p hp
  rw [hrun]
  exact hp'

theorem steady_invoker : Steady (Γ.invoker t) := by
  have hargument : ∀ d, Steady (Γ.lateArgument d) := by
    intro d
    unfold lateArgument planByRef
    split
    · exact .bind (.plan _ _) fun _ => .pure _
    · exact .bind (.plan _ _) fun _ => .pure _
  unfold invoker lateCall
  refine .bind (.bind (.mapM hargument) fun _ => .pure _) fun call => ?_
  split
  · rw [map_eq_pure_bind]
    exact .bind (.bind (.plan _ _) fun _ => .pure _) fun _ => .pure _
  · exact .bind (.pure _) fun _ => .pure _

/-- What one planner made for calls with arguments of unknown type: an invoker, and an adapter or
none. -/
structure AgreeLate (Γ : Program) (q : Planner) (t : Target)
    (built : Except Failure (Option Adapter)) (i : Invoker) : Prop where
  /-- There is an adapter, and it returns, exactly where every input takes some value and the
  invoker returns. -/
  returns : ∀ rt receiver args w r w',
    (∃ a, built = .ok (some a) ∧
      (a.call Γ rt (t.given receiver args)).run.run w = (.ok r, w')) ↔
      t.TakesValues ∧ (i.invoke Γ rt receiver args).run.run w = (.ok r, w')
  /-- Where every input takes some value, the invoker hands the member what the declared types
  take. -/
  checks : t.TakesValues → ∀ rt receiver args w r w',
    (i.invoke Γ rt receiver args).run.run w = (.ok r, w') →
      q.Returns Γ rt t receiver args w r w'

end Late

/-- A function of one parameter that gives `1`. -/
def oneFunction (declared : Ty) : Function where
  name := "f"
  qualname := "f"
  params := [⟨"x", some declared, .positional, none⟩]
  returns := some (.builtin .int)
  body := .block [.ret (.value (.int 1))]
  abstract := false
  overloaded := false
  hasReceiver := false

def oneProgram (declared : Ty) : Program :=
  { Program.empty with functions := #[oneFunction declared] }

def oneTarget (declared : Ty) : Target where
  kind := .procedure
  name := "f"
  declaring := none
  isStatic := true
  params := [⟨"x", declared, .positional⟩]
  result := .builtin .int
  impl := .callable (.code (.function 0))

/-- The parameter is converted to an integer from the argument's own class. -/
def oneInvoker : Invoker where
  call := ⟨oneTarget (.builtin .int),
    [.value (.of .any (.builtin .int) (.convert (.unbox (.builtin .int))))]⟩
  receiver := none

def oneAdapter : Adapter :=
  .member ((oneTarget (.builtin .int)).lateSignature
    [⟨.argument 0, .of .any (.builtin .int) (.convert (.unbox (.builtin .int))), .value⟩]
    (.of (.builtin .int) .any .widen))

end CallAdapter
