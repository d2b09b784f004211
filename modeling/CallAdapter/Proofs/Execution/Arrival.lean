import CallAdapter.Proofs.Adapter.Delivery
import CallAdapter.Proofs.Conversion.Widening
import CallAdapter.Proofs.Execution.Entering
import CallAdapter.Proofs.Member.Handle
import Mathlib

/-!
# From arguments to parameters

Every argument of an adapter reaches the parameter that it was planned for
(`arguments_reach_parameters`). The slots of a planned signature stand for the inputs of the member
in order, the bound value first, then the arguments; a member that classes show for a function has
the parameters of the function as its inputs (`runsFunction_of_shows`); and invoking it enters the
function with them. A handle on a class method is the exception where the class of the container has
something else by the name of the function: that is called with the inputs meant for the class
method (`overriding_method_called`).
-/

namespace CallAdapter

open Environment Program Reflection

/-! ## Slots in order -/

section Slots

variable {Γ : Program} {R : Reuse} {h : Heap} {i : Nat} {gs ds : List Ty} {slots : List Slot}
  {S : Shape} {t : Target} {bound : Value} {p : SignaturePlan} {args us : List Value}
  {w w' : World}

theorem SlotsPlanned.sources (hs : SlotsPlanned Γ R i gs ds slots) :
    slots.map (·.source) = (List.range' i gs.length).map .argument := by
  induction hs with
  | nil => rfl
  | cons hsource _ _ ih => rw [List.map_cons, ih, hsource]; rfl

/-- The slots take the bound value, if there is one, and then the arguments in their order. -/
theorem SignaturePlan.Planned.sources (hp : p.Planned Γ R h S t bound) :
    p.slots.map (·.source) =
      (if bound.isUnbound then [] else [.bound]) ++ (List.range S.arity).map .argument := by
  rw [List.range_eq_range']
  cases hp with
  | free hbound hslots => rw [if_pos hbound]; exact hslots.sources
  | captured hbound _ hc hslots =>
    rw [if_neg (by simp [hbound]), List.map_cons, hslots.sources, hc.source_eq]
    rfl

/-- Of the inputs of the member only a bound value is not for the shape to give. -/
theorem SignaturePlan.Planned.arity (hp : p.Planned Γ R h S t bound) :
    S.arity + (if bound.isUnbound then 0 else 1) = t.slotCount := by
  rw [← t.length_inputs]
  cases hp with
  | free hbound hslots => rw [if_pos hbound]; exact hslots.length_eq
  | captured hbound hinputs _ hslots =>
    rw [if_neg (by simp [hbound]), hinputs, List.length_cons, ← hslots.length_eq]
    rfl

theorem SignaturePlan.Planned.length_slots (hp : p.Planned Γ R h S t bound) :
    p.slots.length = t.slotCount := by
  have hsources := congrArg List.length hp.sources
  rw [List.length_map] at hsources
  rw [hsources, ← hp.arity, List.length_append, List.length_map, List.length_range, Nat.add_comm]
  split <;> rfl

theorem length_of_run_marshalAll
    (hrun : (Γ.marshalAll slots bound args).run.run w = (.ok us, w')) :
    us.length = slots.length := by
  induction slots generalizing w us w' with
  | nil =>
    obtain rfl : [] = us := Except.ok.inj (congrArg Prod.fst hrun)
    rfl
  | cons s slots ih =>
    unfold marshalAll at hrun
    rw [List.mapM_cons] at hrun
    obtain ⟨u, w₁, -, hrun⟩ := exists_of_run_bind_eq_ok hrun
    obtain ⟨us', w₂, hrest, hrun⟩ := exists_of_run_bind_eq_ok hrun
    obtain rfl : u :: us' = us := Except.ok.inj (congrArg Prod.fst hrun)
    rw [List.length_cons, List.length_cons, ih hrest]

/-- What a call hands to the member is one value for each slot. -/
theorem length_of_run_deliver
    (hrun : ((Adapter.member p).deliver Γ args).run.run w = (.ok us, w')) :
    us.length = p.slots.length := by
  unfold Adapter.deliver at hrun
  split at hrun
  · split at hrun
    · cases hrun
    · exact length_of_run_marshalAll hrun
  · cases hrun

end Slots

/-! ## Functions as members -/

/-- A handle on a declared function, other than a class method of a class. -/
inductive Value.Handles (id : Nat) : Value → Prop
  | function : Handles id (.code (.function id))
  | staticMethod : Handles id (.code (.staticMethod id))
  | method (r : Value) : Handles id (.method r (.function id))
  | boundClassMethod (r : Value) : Handles id (.method r (.classMethod id))

/-- The classes show the function as a member: among the procedures of a container by a name, or by
a handle. A class method has to be what the class of the container has by the name of the
function. -/
inductive Reflection.Shows (Γ : Program) (h : Heap) (id : Nat) (f : Function) (t : Target) : Prop
  | named {container : Ty} {name : String} {binding : SearchMask} :
    t ∈ procedures Γ h container name binding → Shows Γ h id f t
  | handle {v : Value} {container : Option Ty} : v.Handles id →
    describe Γ h (.value v) container = some (.target t) → Shows Γ h id f t
  | classMethod {k : Value} {container : Ty} :
    classAttribute? Γ h (Γ.split container).1 f.name = some (.method k (.function id)) →
    describe Γ h (.value (.code (.classMethod id))) (some container) = some (.target t) →
    Shows Γ h id f t

section Shown

variable {Γ : Program} {h : Heap} {id : Nat} {f : Function} {lead : List Value} {t x : Target}
  {container k : Ty} {m : Bindings} {found : Found}

theorem Target.RunsFunction.marked (ht : t.RunsFunction Γ id f lead) :
    t.marked.RunsFunction Γ id f lead := by
  rw [marked_eq]
  exact ⟨ht.declared, ht.kind, ht.runs, ht.params⟩

theorem functionSignature_outline (hf : Γ.function? id = some f) :
    Γ.functionSignature id = some ⟨Param.outline f.params, f.returns.isSome⟩ :=
  functionSignature_eq hf

theorem runsFunction_of_procedure? (hf : Γ.function? id = some f)
    (ht : procedure? Γ container k m found = some t) (hruns : t.impl.runs? = some (id, lead)) :
    t.RunsFunction Γ id f lead := by
  unfold procedure? at ht
  cases hentry : found.entry with
  | none => simp [hentry] at ht
  | some v =>
    cases v with
    | code callee =>
      cases callee with
      | function id' | staticMethod id' | classMethod id' =>
        cases hsig : Γ.functionSignature id' with
        | none => simp [hentry, hsig] at ht
        | some sig =>
          simp only [hentry, hsig, Option.bind_eq_bind, Option.bind_some, Option.some.injEq] at ht
          subst ht
          rw [Target.impl_marked] at hruns
          obtain ⟨rfl, rfl⟩ := Prod.mk.inj (Option.some.inj hruns)
          rw [functionSignature_outline hf] at hsig
          obtain rfl := Option.some.inj hsig
          exact Target.RunsFunction.marked ⟨hf, rfl, rfl, _, _, rfl⟩
      | builtinMethod b n =>
        cases hps : b.methodParametersOf n with
        | none => simp [hentry, hps] at ht
        | some ps =>
          simp only [hentry, hps, Option.bind_eq_bind, Option.bind_some, Option.some.injEq] at ht
          subst ht
          rw [Target.impl_marked] at hruns
          cases hruns
      | _ => simp [hentry] at ht
    | _ => simp [hentry] at ht

/-- A member that is called on its own has the parameters of its signature. -/
theorem exists_of_describeCallable {r : Value} {callee : Callee}
    (ht : describeCallable Γ h (.method r callee) = some t) :
    ∃ sig x, Γ.signature? h (.method r callee) = some sig ∧ t = Target.marked x ∧
      x.kind = .procedure ∧ x.isStatic = true ∧ x.impl = .callable (.method r callee) ∧
      x.params = Reflection.parameters sig.params (hintsOf Γ callee) [] := by
  unfold describeCallable at ht
  dsimp only at ht
  split at ht
  · cases ht
  · obtain ⟨sig, hsig, ht⟩ := Option.bind_eq_some_iff.1 ht
    exact ⟨sig, _, hsig, (Option.some.inj ht).symm, rfl, rfl, rfl, rfl⟩

theorem bound?_outline (hfirst : f.TakesFirst 1) (hasResult : Bool) :
    Signature.bound? ⟨Param.outline f.params, hasResult⟩ =
      some ⟨(Param.outline f.params).drop 1, hasResult⟩ := by
  obtain ⟨hlength, hfirst⟩ := hfirst
  cases hparams : f.params with
  | nil => simp [hparams] at hlength
  | cons p ps =>
    have hp : p.takesPosition = true := hfirst p (by simp [hparams])
    unfold Signature.bound? Param.outline
    rcases passing_of_takesPosition hp with hp | hp <;> simp [hp]

/-- A bound method leaves out the parameter that it is bound to. -/
theorem runsFunction_of_method (hf : Γ.function? id = some f) (hfirst : f.TakesFirst 1) {r : Value}
    {callee : Callee} (hcallee : callee = .function id ∨ callee = .classMethod id)
    (ht : describeCallable Γ h (.method r callee) = some t) : t.RunsFunction Γ id f [r] := by
  obtain ⟨sig, x, hsig, rfl, hkind, hstatic, himpl, hparams⟩ := exists_of_describeCallable ht
  have hsignature : Γ.signature? h (.method r callee) =
      (Γ.functionSignature id).bind Signature.bound? := by
    rcases hcallee with rfl | rfl <;> rfl
  rw [hsignature, functionSignature_outline hf, Option.bind_some, bound?_outline hfirst] at hsig
  obtain rfl := Option.some.inj hsig
  have hbefore : x.before [r] = 1 := by
    simp [Target.before, Target.takesReceiver, hstatic]
  refine Target.RunsFunction.marked ⟨hf, hkind, ?_, _, _, hbefore ▸ hparams⟩
  rw [himpl]
  rcases hcallee with rfl | rfl <;> rfl

theorem runsFunction_of_handle {v : Value} (hf : Γ.function? id = some f) (hv : v.Handles id)
    {container : Option Ty} (ht : describe Γ h (.value v) container = some (.target t))
    (hruns : t.impl.runs? = some (id, lead)) (hfirst : f.TakesFirst (t.before lead)) :
    t.RunsFunction Γ id f lead := by
  have hfunction : (Γ.functionTarget id f).RunsFunction Γ id f [] :=
    Target.RunsFunction.marked ⟨hf, rfl, rfl, _, _, rfl⟩
  have hcallable : ∀ {u : Value}, (describeCallable Γ h u).map Member.target = some (.target t) →
      describeCallable Γ h u = some t := by
    intro u hu
    obtain ⟨x, hx, hxt⟩ := Option.map_eq_some_iff.1 hu
    rw [hx, Member.target.inj hxt]
  cases hv with
  | function =>
    unfold describe at ht
    dsimp only at ht
    split at ht
    · rename_i hfound
      obtain ⟨c, -, hc⟩ := Option.bind_eq_some_iff.1 hfound
      obtain ⟨x, -, hx⟩ := Option.map_eq_some_iff.1 hc
      rw [ht] at hx
      obtain ⟨y, hy, hyt⟩ := Option.map_eq_some_iff.1 hx
      obtain rfl := Member.target.inj hyt
      exact runsFunction_of_procedure? hf hy hruns
    · have hdescribed := hcallable ht
      rw [describeCallable_function hf] at hdescribed
      obtain rfl := Option.some.inj hdescribed
      obtain rfl : [] = lead := (Prod.mk.inj (Option.some.inj (hfunction.runs.symm.trans hruns))).2
      exact hfunction
  | staticMethod =>
    rw [describe_staticMethod hf] at ht
    obtain rfl := Member.target.inj (Option.some.inj ht)
    obtain rfl : [] = lead := (Prod.mk.inj (Option.some.inj (hfunction.runs.symm.trans hruns))).2
    exact hfunction
  | method r | boundClassMethod r =>
    have hdescribed := hcallable ht
    obtain ⟨sig, x, -, rfl, hkind, hstatic, himpl, -⟩ := exists_of_describeCallable hdescribed
    rw [Target.impl_marked, himpl] at hruns
    obtain ⟨-, rfl⟩ := Prod.mk.inj (Option.some.inj hruns)
    have hbefore : x.marked.before [r] = 1 := by
      simp [Target.before, Target.takesReceiver, Target.isStatic_marked, hstatic]
    rw [hbefore] at hfirst
    exact runsFunction_of_method hf hfirst (by simp) hdescribed

/-- What a container has by the name of a class method, and is that class method, leaves out the
class. -/
theorem runsFunction_of_classMethod {c : Ty} {r : Value} (hf : Γ.function? id = some f)
    (hattr : classAttribute? Γ h (Γ.split c).1 f.name = some (.method r (.function id)))
    (ht : describe Γ h (.value (.code (.classMethod id))) (some c) = some (.target t)) :
    t.RunsFunction Γ id f [r] := by
  unfold describe at ht
  simp only [Option.bind_some, hf, Option.map_some, Option.getD_some, hattr] at ht
  obtain ⟨x, hx, hxt⟩ := Option.map_eq_some_iff.1 ht
  obtain rfl := Member.target.inj hxt
  have himpl := impl_of_classMethod rfl hx
  have hruns : x.RunsFunction Γ id f [.type (Γ.split c).1] :=
    runsFunction_of_procedure? hf hx (by rw [himpl]; rfl)
  exact ⟨hf, hruns.kind, rfl, hruns.params⟩

/-- A function that is shown as a member is run by it. -/
theorem runsFunction_of_shows (hf : Γ.function? id = some f) (ht : Shows Γ h id f t)
    (hruns : t.impl.runs? = some (id, lead)) (hfirst : f.TakesFirst (t.before lead)) :
    t.RunsFunction Γ id f lead := by
  cases ht with
  | named hmem =>
    obtain ⟨found, -, hfound⟩ := List.mem_filterMap.1 (List.mem_of_mem_filter hmem)
    exact runsFunction_of_procedure? hf hfound hruns
  | handle hv hd => exact runsFunction_of_handle hf hv hd hruns hfirst
  | classMethod hattr hd =>
    have hr := runsFunction_of_classMethod hf hattr hd
    obtain ⟨-, rfl⟩ := Prod.mk.inj (Option.some.inj (hr.runs.symm.trans hruns))
    exact hr

end Shown

/-! ## From arguments to parameters -/

/-- Every argument of a call reaches the parameter that it was planned for. The slots are for the
bound value, if there is one, and for the arguments in their order, one for each input of the
member. A call produces the value of each slot, and what runs is the body of the function whose
parameters receive these values in the order of declaration, after what the function is bound to:
the variadic parameter the elements of its own, and the others, whether given by position or by
name, their own as it is. -/
theorem arguments_reach_parameters {Γ : Program} {h h₀ : Heap} {id : Nat} {f : Function}
    {lead : List Value} {t : Target} {S : Shape} {bound : Value} {q : Planner} {sig : SignaturePlan}
    (hf : Γ.function? id = some f) (hparams : Param.Declarable f.params) (ht : Shows Γ h id f t)
    (hruns : t.impl.runs? = some (id, lead)) (hfirst : f.TakesFirst (t.before lead))
    (hq : q.Asked Γ)
    (hsig : ((Γ.planSignature h₀ S t bound).run.run.run q).1 = .ok (.ok sig)) :
    sig.slots.length = t.slotCount ∧
      sig.slots.map (·.source) =
        (if bound.isUnbound then [] else [.bound]) ++ (List.range S.arity).map .argument ∧
      S.arity + (if bound.isUnbound then 0 else 1) = t.slotCount ∧
      ∀ (rt : Runtime) (args : List Value) (w : World),
        ((Adapter.member sig).call Γ (Runtime.step Γ rt) args).run.run w = (do
          let values ← (Adapter.member sig).deliver Γ args
          if t.takesReceiver && (values.head?.getD .none).isNone then throw t.nullReceiver
          Γ.converting sig.result (← rt.enter Γ f (lead ++ values)) : Eval Value).run.run w := by
  obtain ⟨_, hsound⟩ := hq.sound
  have hplanned := planned_of_planSignature hsound hsig
  have hrunsFunction := runsFunction_of_shows hf ht hruns hfirst
  refine ⟨hplanned.length_slots, hplanned.sources, hplanned.arity, fun rt args w => ?_⟩
  have htarget : sig.target = t := by cases hplanned <;> rfl
  rw [run_call_of_planned betweenSpellings_historyReuse (.member hplanned)]
  refine run_bind_congr_right fun values w' hdeliver => ?_
  have hlength : values.length = t.slotCount :=
    (length_of_run_deliver hdeliver).trans hplanned.length_slots
  have hinvoke := @run_invoke_of_runs Γ rt id f lead values t w' hrunsFunction hparams hfirst
    hlength
  rw [← htarget] at hinvoke ⊢
  show ((Runtime.step Γ rt).invoke Γ sig.target values >>= Γ.converting sig.result).run.run w' = _
  rw [run_bind_congr hinvoke]
  split <;> rfl

/-! ## Class methods with one name -/

def makerRef : ClassRef := ⟨"Maker", "Maker"⟩

def keenMakerRef : ClassRef := ⟨"KeenMaker", "KeenMaker"⟩

/-- A class with a class method. -/
def makerInfo (ref : ClassRef) (mro : List Cls) (method : Nat) : ClassInfo where
  ref := ref
  mro := mro
  bases := []
  parameters := none
  namespaceEntries := [("make", .code (.classMethod method))]
  annotations := []
  missing := []
  isProtocol := false
  isRuntime := false
  frozen := none
  fields := []
  slots := none
  members := []

/-- A class method that gives back its arguments, the last of which goes by the given name. -/
def makeFunction (owner key : String) : Function where
  name := "make"
  qualname := owner ++ ".make"
  params := [⟨"cls", none, .positionalOnly, none⟩,
    ⟨"first", some (.builtin .int), .positional, none⟩,
    ⟨"rest", some (.builtin .int), .variadic, none⟩, ⟨key, some (.builtin .int), .keyword, none⟩]
  returns := none
  body := .block [.ret (.tuple [.arg "first", .arg "rest", .arg key])]
  abstract := false
  overloaded := false
  hasReceiver := true

/-- A class and a subclass that overrides its class method, with another name for the last
argument. -/
def makerProgram : Program where
  classes := [makerInfo makerRef [.declared makerRef, .builtin .object] 0,
    makerInfo keenMakerRef [.declared keenMakerRef, .declared makerRef, .builtin .object] 1]
  functions := #[makeFunction "Maker" "k", makeFunction "KeenMaker" "j"]
  registrations := []

/-- The class method of the first class as it is described for a class. -/
def makeMethod (ref : ClassRef) (method : Nat) : Target where
  kind := .procedure
  name := "make"
  declaring := some (.cls (.declared ref))
  isStatic := true
  params := [⟨"first", .builtin .int, .positional⟩,
    ⟨"rest", .applied (.native (.builtin .tuple)) [.builtin .int, .ellipsis], .variadic⟩,
    ⟨"k", .builtin .int, .keyword⟩]
  result := .any
  impl := .callable (.method (.type (.cls (.declared ref))) (.function method))

/-- The method for arguments of just the types that it takes. -/
def makeSignature (t : Target) : SignaturePlan where
  shape := .make (t.params.map (·.type)) .any
  target := t
  slots := [⟨.argument 0, .of (.builtin .int) (.builtin .int) .identity, .value⟩,
    ⟨.argument 1, .of (.applied (.native (.builtin .tuple)) [.builtin .int, .ellipsis])
      (.applied (.native (.builtin .tuple)) [.builtin .int, .ellipsis]) .identity, .value⟩,
    ⟨.argument 2, .of (.builtin .int) (.builtin .int) .identity, .value⟩]
  result := .of .any .any .identity

theorem describe_make :
    describe makerProgram .empty (.value (.code (.classMethod 0)))
      (some (.cls (.declared makerRef))) = some (.target (makeMethod makerRef 0)) := by
  with_unfolding_all rfl

theorem describe_make_keen :
    describe makerProgram .empty (.value (.code (.classMethod 0)))
      (some (.cls (.declared keenMakerRef))) = some (.target (makeMethod keenMakerRef 1)) := by
  cbv

theorem run_planSignature_make (ref : ClassRef) (method : Nat) :
    ((makerProgram.planSignature .empty (makeSignature (makeMethod ref method)).shape
      (makeMethod ref method) .unbound).run.run.run ⟨false, [], []⟩).1 =
        .ok (.ok (makeSignature (makeMethod ref method))) := by
  with_unfolding_all rfl

/-- The arguments of a class method on its own class. -/
def makeArguments : List Value := [.int 1, .tuple [.int 2, .int 3], .int 4]

/-- In the class that has the method, the function gets the class, the first argument, the elements
of the second one, and the last one by its name. -/
theorem arguments_reach_parameters_make :
    Param.Declarable (makeFunction "Maker" "k").params ∧
      Shows makerProgram .empty 0 (makeFunction "Maker" "k") (makeMethod makerRef 0) ∧
      ((Adapter.member (makeSignature (makeMethod makerRef 0))).call makerProgram
        (Runtime.step makerProgram .exhausted) makeArguments).run.run World.empty =
          (.ok (.tuple makeArguments), World.empty) := by
  have hdeclarable : Param.Declarable (makeFunction "Maker" "k").params := by decide
  have hshows : Shows makerProgram .empty 0 (makeFunction "Maker" "k") (makeMethod makerRef 0) := by
    refine .classMethod (k := .type (.cls (.declared makerRef))) ?_ describe_make
    cbv
  have hfirst : (makeFunction "Maker" "k").TakesFirst 1 := ⟨by decide, by decide⟩
  obtain ⟨-, -, -, hcalls⟩ := arguments_reach_parameters rfl hdeclarable hshows rfl hfirst
    ⟨false, [], rfl⟩ (run_planSignature_make makerRef 0)
  refine ⟨hdeclarable, hshows, (hcalls .exhausted makeArguments World.empty).trans ?_⟩
  with_unfolding_all rfl

/-- A handle on the class method is described in the subclass with the parameters of its own
function, but calls the method that overrides it, which takes the last argument by another name. -/
theorem overriding_method_called :
    ¬∀ (Γ : Program) (h h₀ : Heap) (id : Nat) (f : Function) (container : Ty) (t : Target)
        (S : Shape) (bound : Value) (q : Planner) (sig : SignaturePlan),
      Γ.function? id = some f → Param.Declarable f.params → f.TakesFirst 1 →
      describe Γ h (.value (.code (.classMethod id))) (some container) = some (.target t) →
      q.Asked Γ → ((Γ.planSignature h₀ S t bound).run.run.run q).1 = .ok (.ok sig) →
      ∀ (rt : Runtime) (args : List Value) (w : World),
        ((Adapter.member sig).call Γ (Runtime.step Γ rt) args).run.run w = (do
          let values ← (Adapter.member sig).deliver Γ args
          Γ.converting sig.result
            (← rt.enter Γ f (.type (Γ.split container).1 :: values)) : Eval Value).run.run w := by
  intro hclaim
  have hcalls := hclaim makerProgram .empty .empty 0 (makeFunction "Maker" "k")
    (.cls (.declared keenMakerRef)) (makeMethod keenMakerRef 1) _ .unbound ⟨false, [], []⟩ _ rfl
    (by decide) ⟨by decide, by decide⟩ describe_make_keen ⟨false, [], rfl⟩
    (run_planSignature_make keenMakerRef 1) .exhausted makeArguments World.empty
  have hcall : (((Adapter.member (makeSignature (makeMethod keenMakerRef 1))).call makerProgram
      (Runtime.step makerProgram .exhausted) makeArguments).run.run World.empty).1 =
        .error .typeError := by
    cbv
  have hbody : ((do
      let values ← (Adapter.member (makeSignature (makeMethod keenMakerRef 1))).deliver
        makerProgram makeArguments
      makerProgram.converting (makeSignature (makeMethod keenMakerRef 1)).result
        (← Runtime.enter makerProgram .exhausted (makeFunction "Maker" "k")
          (.type (makerProgram.split (.cls (.declared keenMakerRef))).1 :: values)) :
            Eval Value).run.run World.empty).1 = .ok (.tuple makeArguments) := by
    cbv
  rw [hcalls, hbody] at hcall
  cases hcall

end CallAdapter
