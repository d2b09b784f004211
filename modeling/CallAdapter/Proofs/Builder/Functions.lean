import CallAdapter.Execution.Runtime
import CallAdapter.Proofs.Adapter.Refusal
import CallAdapter.Proofs.Builder.Calls
import CallAdapter.Proofs.Builder.Routes
import CallAdapter.Proofs.Member.Lookup
import CallAdapter.Proofs.Program.Annotations
import Mathlib

/-!
# Functions, wrapped and described

A builder adapts an annotated function in two ways: it wraps the function as a callable value, or it
describes the function as a member and plans its signature. The two readers of the signature agree
(`shapeOfCallable_function`), and so the builds come to the same. The adapters do the same where
every parameter takes its argument by position; a parameter that is given by name only is described
so, while a wrapped function is handed all its arguments by position and refuses them
(`wrap_create_agree`).
-/

namespace CallAdapter

open Program

/-! ## Two readers of one signature -/

/-- A function with a fixed list of parameters and without type variables in its annotations. -/
structure Program.IsPlainFunction (Γ : Program) (id : Nat) (f : Function) : Prop where
  declared : Γ.function? id = some f
  fixed : ∀ p ∈ f.params, p.passing ≠ .variadic ∧ p.passing ≠ .variadicKeyword
  /-- No parameter can be named as the result is. -/
  named : ∀ p ∈ f.params, p.name ≠ "return"
  /-- No text among the annotations fails to evaluate but by meaning nothing. -/
  readable : ∀ e, Γ.readHints id ≠ .error e
  closed : ∀ e ∈ Γ.functionHints id, e.2.normalize.freeVars = []

/-- Every parameter takes its argument by position. -/
def Function.TakesPositions (f : Function) : Prop := ∀ p ∈ f.params, p.passing ≠ .keyword

/-- How a function is described on its own. -/
def Program.functionTarget (Γ : Program) (id : Nat) (f : Function) : Target :=
  Target.marked
    { kind := .procedure, name := f.qualname, declaring := none, isStatic := true
      params := Reflection.parameters (f.params.map fun p => (p.name, p.passing))
        (Γ.functionHints id) []
      result := Reflection.resultType
        ⟨f.params.map fun p => (p.name, p.passing), f.returns.isSome⟩ (Γ.functionHints id) []
      isPublic := isPublicName f.name
      impl := .callable (.code (.function id)) }

section Reading

variable {Γ : Program} {h : Heap} {id : Nat} {f : Function}

theorem isCallable_function : Γ.isCallable (.code (.function id)) = true := rfl

theorem signature?_function (hf : Γ.function? id = some f) :
    Γ.signature? h (.code (.function id)) =
      some ⟨f.params.map fun p => (p.name, p.passing), f.returns.isSome⟩ := by
  show (Γ.function? id).map _ = _
  rw [hf]
  rfl

theorem describeCallable_function (hf : Γ.function? id = some f) :
    Reflection.describeCallable Γ h (.code (.function id)) = some (Γ.functionTarget id f) := by
  unfold Reflection.describeCallable
  dsimp only
  rw [isCallable_function, signature?_function hf, hf]
  rfl

/-- Without an annotated result, no annotation goes by its name. -/
theorem hint?_return_of_none (hplain : Γ.IsPlainFunction id f) (hreturns : f.returns = none) :
    hint? (Γ.functionHints id) "return" = none := by
  have hnames : (Γ.functionHints id).map Prod.fst =
      f.params.filterMap fun p => p.type.map fun _ => p.name := by
    unfold functionHints
    rw [hplain.declared]
    dsimp only
    rw [map_fst_resolveAll, Function.annotations, hreturns, List.append_nil, List.map_filterMap]
    simp only [Option.map_map]
    rfl
  unfold hint?
  rw [Option.map_eq_none_iff, List.find?_eq_none]
  rintro e he hname
  obtain ⟨p, hp, hpname⟩ := List.mem_filterMap.1 (hnames ▸ List.mem_map_of_mem he)
  obtain ⟨_, -, hpname⟩ := Option.map_eq_some_iff.1 hpname
  exact hplain.named p hp (hpname.trans (eq_of_beq hname))

/-- Seen through nothing, an annotation is in normal form as it is. -/
theorem seen_nil (t : Ty) : Reflection.seen [] t = t.normalize := Ty.normalize_normalize t

theorem parameters_of_fixed (hplain : Γ.IsPlainFunction id f) :
    (Γ.functionTarget id f).params = f.params.map fun p =>
      ⟨p.name, ((hint? (Γ.functionHints id) p.name).getD .any).normalize,
        if p.passing = .keyword then .keyword else .positional⟩ := by
  unfold functionTarget
  rw [Target.marked_eq]
  dsimp only
  unfold Reflection.parameters
  rw [List.filterMap_map, ← List.filterMap_eq_map]
  refine List.filterMap_congr fun p hp => ?_
  obtain ⟨hvariadic, hkeyword⟩ := hplain.fixed p hp
  simp only [Function.comp_apply, seen_nil]
  cases hpassing : p.passing with
  | variadic => exact (hvariadic hpassing).elim
  | variadicKeyword => exact (hkeyword hpassing).elim
  | keyword | positional | positionalOnly => rfl

theorem result_functionTarget (hplain : Γ.IsPlainFunction id f) :
    (Γ.functionTarget id f).result =
      (if f.returns.isSome then (hint? (Γ.functionHints id) "return").getD .any
        else .any).normalize := by
  unfold functionTarget
  rw [Target.marked_eq]
  dsimp only
  unfold Reflection.resultType
  cases hreturns : f.returns with
  | none =>
    rw [hint?_return_of_none hplain hreturns]
    rfl
  | some t =>
    cases hint? (Γ.functionHints id) "return" with
    | none => rfl
    | some t => exact seen_nil t

theorem inputs_functionTarget (hplain : Γ.IsPlainFunction id f) :
    (Γ.functionTarget id f).inputs = f.params.map fun p =>
      ((hint? (Γ.functionHints id) p.name).getD .any).normalize := by
  have hinputs : (Γ.functionTarget id f).inputs =
      (Γ.functionTarget id f).params.map (·.type) := by
    unfold functionTarget
    rw [Target.marked_eq]
    exact List.append_nil _
  rw [hinputs, parameters_of_fixed hplain, List.map_map]
  rfl

theorem isNormal_functionTarget (hplain : Γ.IsPlainFunction id f) :
    (Γ.functionTarget id f).IsNormal := by
  refine ⟨fun d hd => ?_, ?_⟩
  · rw [inputs_functionTarget hplain] at hd
    obtain ⟨p, -, rfl⟩ := List.mem_map.1 hd
    exact Ty.normalize_normalize _
  · rw [result_functionTarget hplain]
    exact Ty.normalize_normalize _

/-- Both readers see one signature. -/
theorem shapeOfCallable_function (hplain : Γ.IsPlainFunction id f) :
    Γ.shapeOfCallable h (.code (.function id)) = .ok (Γ.functionTarget id f).naturalShape := by
  have hfixed : (⟨f.params.map fun p => (p.name, p.passing), f.returns.isSome⟩ :
      Signature).isFixed = true := by
    unfold Signature.isFixed
    rw [List.all_map, List.all_eq_true]
    intro p hp
    simp [hplain.fixed p hp]
  have hhints : Γ.callableHints (.code (.function id)) = .ok (Γ.functionHints id) :=
    readHints_eq hplain.readable
  unfold shapeOfCallable
  dsimp only
  rw [isCallable_function, if_pos rfl, signature?_function hplain.declared]
  dsimp only
  rw [hhints]
  show (if _ then _ else _) = _
  rw [if_pos hfixed, naturalShape_eq (isNormal_functionTarget hplain), inputs_functionTarget hplain,
    result_functionTarget hplain]
  unfold shapeOfSignature Shape.make
  rw [List.map_map, List.map_map]
  rfl

/-- A type that some annotation gives has no variables. -/
theorem freeVars_hinted (hplain : Γ.IsPlainFunction id f) (name : String) :
    ((hint? (Γ.functionHints id) name).getD .any).normalize.freeVars = [] := by
  cases hhint : hint? (Γ.functionHints id) name with
  | none => rfl
  | some t =>
    obtain ⟨e, he, rfl⟩ := Option.map_eq_some_iff.1 hhint
    exact hplain.closed e (List.mem_of_find?_eq_some he)

theorem isGeneric_functionTarget (hplain : Γ.IsPlainFunction id f) :
    (Γ.functionTarget id f).isGeneric = false := by
  have hparams : ∀ p ∈ (Γ.functionTarget id f).params, p.type.freeVars = [] := by
    intro p hp
    rw [parameters_of_fixed hplain] at hp
    obtain ⟨q, -, rfl⟩ := List.mem_map.1 hp
    exact freeVars_hinted hplain q.name
  have hresult : (Γ.functionTarget id f).result.freeVars = [] := by
    rw [result_functionTarget hplain]
    split
    · exact freeVars_hinted hplain "return"
    · rfl
  have hvars : (Γ.functionTarget id f).params.flatMap (fun p => p.type.freeVars) = [] :=
    List.flatMap_eq_nil_iff.2 hparams
  unfold functionTarget at hvars hresult ⊢
  rw [Target.marked_eq] at hvars hresult
  rw [Target.isGeneric_marked, Target.openVars, hvars, hresult]
  rfl

theorem isPlain_functionTarget (hplain : Γ.IsPlainFunction id f) :
    (Γ.functionTarget id f).isPlain = true ↔ f.TakesPositions := by
  unfold Target.isPlain Function.TakesPositions
  rw [parameters_of_fixed hplain, List.all_map, List.all_eq_true]
  refine forall₂_congr fun p hp => ?_
  by_cases hkeyword : p.passing = .keyword <;> simp [hkeyword]

end Reading

/-! ## Two builds -/

section Builds

variable {Γ : Program} {id : Nat} {f : Function} {w : World} {S : Shape} {b : Builder}

theorem run_wrap_function (hplain : Γ.IsPlainFunction id f) :
    (Builder.wrap Γ b (.shape S) (.code (.function id))).run.run w =
      let out := (Γ.planLayer S (Γ.functionTarget id f).naturalShape).run.run
        (Eval.plannerAt w b.planner)
      (w.setPlanner b.planner out.2).settled
        (out.1.map (Option.map fun l => .overCallable l (.code (.function id)))) := by
  have hown : (Eval.lift (Γ.shapeOfCallable w.heap (.code (.function id)))).run.run w =
      (.ok (Γ.functionTarget id f).naturalShape, w) := by
    rw [shapeOfCallable_function hplain]
    rfl
  have hshape : (Eval.lift (Γ.shapeOf w.heap (.shape S))).run.run w = (.ok S, w) := rfl
  have hget : (get : Eval World).run.run w = (.ok w, w) := rfl
  unfold Builder.wrap
  rw [run_bind_of_ok (run_heap w), run_bind_of_ok hshape]
  dsimp only [Builder.wrapIn]
  rw [if_neg (show ¬(Value.code _).isNone = true from Bool.false_ne_true), run_bind_of_ok hget,
    run_bind_of_ok hown]
  exact run_placing b.planner _ rfl fun _ => rfl

/-- A lenient request for a member without receiver or type variables plans a layer onto its natural
shape. -/
theorem run_lenient_buildDirect {t : Target} {r : Request}
    (htarget : (Builder.targetOf Γ b r.member r.container r.shape.returnsVoid).run.run w =
      (.ok t, w))
    (hgeneric : t.isGeneric = false) (ht : t.IsNormal) (hbound : r.bound = .unbound) :
    (Builder.withPolicy false (Builder.buildDirect Γ b r)).run.run w =
      let out := (Γ.planLayer r.shape t.naturalShape).run.run (Eval.plannerAt w b.planner)
      (w.setPlanner b.planner out.2).settled
        (out.1.map (Option.map fun l => .member (l.onto t))) := by
  have hroute := run_adapterFor_unbound (Γ := Γ) hgeneric ht w.heap r.shape
    (Eval.plannerAt w b.planner)
  rw [run_adapterFor hgeneric, ← hbound] at hroute
  obtain ⟨hmade, hplanner⟩ := Prod.ext_iff.1 hroute
  dsimp only at hmade hplanner
  have hcompares := (failsOnly_planLayer (Γ := Γ) r.shape t.naturalShape
    (Eval.plannerAt w b.planner) trivial).2
  have hplanning := run_planning (w := w) b.planner
    (Γ.planSignature w.heap r.shape t r.bound).run
  rw [run_withPolicy]
  dsimp only
  rw [← hmade, ← hplanner]
  unfold Builder.buildDirect
  rw [run_bind_of_ok htarget, if_neg (by rw [hgeneric]; exact Bool.false_ne_true),
    run_bind_of_ok (run_heap w)]
  cases hout : ((Γ.planSignature w.heap r.shape t r.bound).run.run.run
      (Eval.plannerAt w b.planner)).1 with
  | error e =>
    rw [hout] at hplanning hmade
    rw [run_bind_of_error hplanning]
    -- planning fails only where types cannot be compared, which no policy hides
    obtain rfl : e = .typeError := by
      cases hlayer : ((Γ.planLayer r.shape t.naturalShape).run.run
          (Eval.plannerAt w b.planner)).1 with
      | error e' =>
        rw [hlayer] at hmade hcompares
        exact (Except.error.inj hmade).trans hcompares
      | ok made =>
        rw [hlayer] at hmade
        cases hmade
    rfl
  | ok made =>
    rw [hout] at hplanning
    rw [run_bind_of_ok hplanning]
    cases made with
    | error m => rfl
    | ok sig => rfl

theorem run_targetOf_function (hb : b.host = .classes) (hf : Γ.function? id = some f)
    (setter : Bool) :
    (Builder.targetOf Γ b (.value (.code (.function id))) none setter).run.run w =
      (.ok (Γ.functionTarget id f), w) := by
  have hget : (get : Eval World).run.run w = (.ok w, w) := rfl
  have hdescribed : (Eval.lift ((b.host.source Γ w).describe (.value (.code (.function id)))
      none)).run.run w = (.ok (some (.target (Γ.functionTarget id f))), w) := by
    rw [hb]
    show (Eval.lift (.ok ((Reflection.describeCallable Γ w.heap
      (.code (.function id))).map Member.target))).run.run w = _
    rw [describeCallable_function hf]
    rfl
  unfold Builder.targetOf
  rw [run_bind_of_ok hget, run_bind_of_ok hdescribed]
  rfl

theorem run_create_function (hb : b.host = .classes) (hplain : Γ.IsPlainFunction id f) :
    (Builder.create Γ b (.shape S) (some (.value (.code (.function id))))
        { throwOnFailure := some false }).run.run w =
      let out := (Γ.planLayer S (Γ.functionTarget id f).naturalShape).run.run
        (Eval.plannerAt w b.planner)
      (w.setPlanner b.planner out.2).settled
        (out.1.map (Option.map fun l => .member (l.onto (Γ.functionTarget id f)))) := by
  unfold Builder.create
  rw [run_bind_of_ok (run_prepare _ _ _)]
  exact run_lenient_buildDirect (run_targetOf_function hb hplain.declared _)
    (isGeneric_functionTarget hplain) (isNormal_functionTarget hplain) rfl

end Builds

/-! ## One builder -/

/-- What a builder made of two requests, each from a world where its planner is as it was, or one
after the other in either order. The planner was new at first, and may have been asked anything
before and in between. -/
inductive Builder.AsksBoth (Γ : Program) (b : Builder) (x y : Eval Value) :
    Except Failure Value × World → Except Failure Value × World → Prop
  | apart {memoize : Bool} {history : List PlanRequest} {w w' : World} :
    Eval.plannerAt w b.planner = Γ.afterRequests history ⟨memoize, [], []⟩ →
    Eval.plannerAt w' b.planner = Eval.plannerAt w b.planner →
    AsksBoth Γ b x y (x.run.run w) (y.run.run w')
  | inOrder {memoize : Bool} {history between : List PlanRequest} {w w' : World} :
    Eval.plannerAt w b.planner = Γ.afterRequests history ⟨memoize, [], []⟩ →
    Eval.plannerAt w' b.planner =
      Γ.afterRequests between (Eval.plannerAt (x.run.run w).2 b.planner) →
    AsksBoth Γ b x y (x.run.run w) (y.run.run w')
  | reversed {memoize : Bool} {history between : List PlanRequest} {w w' : World} :
    Eval.plannerAt w b.planner = Γ.afterRequests history ⟨memoize, [], []⟩ →
    Eval.plannerAt w' b.planner =
      Γ.afterRequests between (Eval.plannerAt (y.run.run w).2 b.planner) →
    AsksBoth Γ b x y (x.run.run w') (y.run.run w)

section Asking

variable {Γ : Program} {w : World} {b : Builder} {x y : Eval Value} {α : Type} {plan : PlanM α}
  {make make' : Except Failure α → Except Failure (Option Adapter)}

/-- The request plans with a planner, and places the adapter that is made of what it planned. -/
def Eval.Settles (x : Eval Value) (i : Nat) (plan : PlanM α)
    (make : Except Failure α → Except Failure (Option Adapter)) : Prop :=
  ∀ w : World, x.run.run w =
    let out := plan.run.run (Eval.plannerAt w i)
    (w.setPlanner i out.2).settled (make out.1)

theorem plannerAt_settled (w : World) (made : Except Failure (Option Adapter)) (i : Nat) :
    Eval.plannerAt (w.settled made).2 i = Eval.plannerAt w i := by
  rcases made with e | _ | a <;> rfl

/-- A planner that is put back remembers what it was asked, also where there is no place for it. -/
theorem remembers_setPlanner {i : Nat} {p : Planner}
    (hp : p.memoize = (Eval.plannerAt w i).memoize) :
    (Eval.plannerAt (w.setPlanner i p) i).Remembers p := by
  by_cases hi : i < w.planners.size
  · have hput : Eval.plannerAt (w.setPlanner i p) i = p := by
      unfold Eval.plannerAt World.setPlanner
      dsimp only
      rw [Array.getElem?_setIfInBounds, if_pos rfl, if_pos hi]
      rfl
    rw [hput]
    exact .refl p
  · have hnone : w.planners[i]? = none := Array.getElem?_eq_none (Nat.le_of_not_lt hi)
    have hold : Eval.plannerAt w i = ⟨false, [], []⟩ := by
      unfold Eval.plannerAt
      rw [hnone]
      rfl
    have hnew : Eval.plannerAt (w.setPlanner i p) i = ⟨false, [], []⟩ := by
      unfold Eval.plannerAt World.setPlanner
      dsimp only
      rw [Array.getElem?_setIfInBounds, if_pos rfl, if_neg hi]
      rfl
    rw [hold] at hp
    exact .of_forgetful (congrArg Planner.memoize hnew) hp

/-- After a request, and whatever is asked next, its planning has the same outcome. -/
theorem Steady.again (hplan : Steady plan) {i : Nat} (hx : x.Settles i plan make)
    {between : List PlanRequest} {w' : World}
    (hw' : Eval.plannerAt w' i = Γ.afterRequests between (Eval.plannerAt (x.run.run w).2 i)) :
    (plan.run.run (Eval.plannerAt w' i)).1 = (plan.run.run (Eval.plannerAt w i)).1 := by
  obtain ⟨hgrows, hagain⟩ := hplan (Eval.plannerAt w i)
  refine hagain _ ?_
  rw [hw', hx w]
  dsimp only
  rw [plannerAt_settled]
  exact (remembers_afterRequests between _).trans (remembers_setPlanner hgrows.memoize)

/-- Two requests for what is planned alike make it of one outcome, which a sound planner gives. -/
theorem Builder.AsksBoth.outcome {r r' : Except Failure Value × World}
    (h : b.AsksBoth Γ x y r r') (hplan : Steady plan) (hx : x.Settles b.planner plan make)
    (hy : y.Settles b.planner plan make') :
    ∃ (memoize : Bool) (p : Planner) (w w' : World), p.Sound Γ memoize NormalPair HistoryReuse ∧
      r = w.settled (make (plan.run.run p).1) ∧ r' = w'.settled (make' (plan.run.run p).1) := by
  cases h with
  | @apart memoize history w w' hw hw' =>
    have hlater := hy w'
    rw [hw'] at hlater
    exact ⟨memoize, _, _, _, hw ▸ sound_history memoize history, hx w, hlater⟩
  | @inOrder memoize history between w w' hw hw' =>
    have hlater := hy w'
    dsimp only at hlater
    rw [hplan.again hx hw'] at hlater
    exact ⟨memoize, _, _, _, hw ▸ sound_history memoize history, hx w, hlater⟩
  | @reversed memoize history between w w' hw hw' =>
    have hlater := hx w'
    dsimp only at hlater
    rw [hplan.again hy hw'] at hlater
    exact ⟨memoize, _, _, _, hw ▸ sound_history memoize history, hlater, hy w⟩

end Asking

/-! ## Two adapters -/

/-- Arguments by position alone, as many as there are parameters, are refused where a parameter
takes none by position. -/
theorem Environment.bind_of_keyword {params : List Param} {values : List Value} {p : Param}
    (hp : p ∈ params) (hkeyword : p.passing = .keyword)
    (hfixed : ∀ p ∈ params, p.passing ≠ .variadic) (hlength : values.length = params.length) :
    Environment.bind params values [] = .error .typeError := by
  have hfewer : (params.filter Param.takesPosition).length < values.length := by
    rw [hlength, List.length_filter_lt_length_iff_exists]
    exact ⟨p, hp, by rw [Param.takesPosition, hkeyword]; exact Bool.false_ne_true⟩
  have hextra : (values.drop (params.filter Param.takesPosition).length).isEmpty = false := by
    rw [List.isEmpty_eq_false_iff, ne_eq, List.drop_eq_nil_iff]
    omega
  have hvariadic : (params.any fun p => p.passing == .variadic) = false := by
    rw [List.any_eq_false]
    exact fun p hp h => hfixed p hp (eq_of_beq h)
  have hrefused : (!(values.drop (params.filter Param.takesPosition).length).isEmpty &&
      !(params.any fun p => p.passing == .variadic)) = true := by
    rw [hextra, hvariadic]
    rfl
  unfold Environment.bind
  dsimp only
  rw [if_pos hrefused]
  rfl

/-- However deep calls may nest, every call fails, with nothing changed that existed. -/
def Adapter.Refuses (Γ : Program) (a : Adapter) : Prop :=
  ∀ (depth : Nat) (args : List Value) (w : World), ∃ e w',
    (a.call Γ (Γ.runtimeTo depth) args).run.run w = (.error e, w') ∧ w.Keeps w'

section Calls

variable {Γ : Program} {id : Nat} {f : Function} {w : World} {R : Reuse} {l : Layer}

theorem invoke_functionTarget (hplain : Γ.IsPlainFunction id f) (hf : f.TakesPositions)
    (rt : Runtime) (values : List Value) :
    rt.invoke Γ (Γ.functionTarget id f) values = rt.call (.code (.function id)) values [] := by
  have hpositions := (isPlain_functionTarget hplain).2 hf
  unfold functionTarget at hpositions ⊢
  rw [Target.marked_eq] at hpositions ⊢
  show (if Target.isPlain _ = true then _ else _) = _
  rw [if_pos hpositions]
  rfl

/-- Where all arguments go by position, the wrapped function is called as the described one is. -/
theorem sameCalls_function (hplain : Γ.IsPlainFunction id f) (hf : f.TakesPositions)
    (hl : SlotsPlanned Γ R 0 l.shape.params (Γ.functionTarget id f).inputs l.slots) :
    (Adapter.overCallable l (.code (.function id))).SameCalls Γ
      (.member (l.onto (Γ.functionTarget id f))) := by
  intro rt args w
  by_cases hargs : args.length = l.shape.arity
  · rw [run_onto_of_arity hl hargs]
    simp only [invoke_functionTarget hplain hf]
    unfold Adapter.call
    rw [if_pos hargs]
    exact .refl _
  · show SameRun ((if args.length = l.shape.arity then _ else _ : Eval Value).run.run w)
      ((if args.length = l.shape.arity then _ else _ : Eval Value).run.run w)
    rw [if_neg hargs, if_neg hargs]
    exact sameRun_arityMismatch (.overCallable l (.code (.function id)))
      (.member (l.onto (Γ.functionTarget id f))) _

/-- A function with a parameter that is given by name only cannot be called with its arguments by
position. -/
theorem run_call_of_keyword (hplain : Γ.IsPlainFunction id f) (hf : ¬f.TakesPositions)
    {values : List Value} (hlength : values.length = f.params.length) (depth : Nat) :
    ∃ e, ((Γ.runtimeTo depth).call (.code (.function id)) values []).run.run w = (.error e, w) := by
  obtain ⟨p, hp, hkeyword⟩ : ∃ p ∈ f.params, p.passing = .keyword := by
    simpa [Function.TakesPositions] using hf
  cases depth with
  | zero => exact ⟨_, rfl⟩
  | succ depth =>
    refine ⟨.typeError, ?_⟩
    show (Runtime.callDeclared Γ (Γ.runtimeTo depth) id values []).run.run w = _
    unfold Runtime.callDeclared
    rw [hplain.declared]
    dsimp only
    rw [Environment.bind_of_keyword hp hkeyword (fun p hp => (hplain.fixed p hp).1) hlength]
    rfl

/-- So the wrapped function is never called. -/
theorem refuses_function (hplain : Γ.IsPlainFunction id f) (hf : ¬f.TakesPositions)
    (hl : SlotsPlanned Γ R 0 l.shape.params (Γ.functionTarget id f).inputs l.slots) :
    (Adapter.overCallable l (.code (.function id))).Refuses Γ := by
  intro depth args w
  unfold Adapter.call
  split
  · have hkeeps := keepsWorld_marshalAll (Γ := Γ) l.slots .unbound args w
    rcases hrun : (Γ.marshalAll l.slots .unbound args).run.run w with ⟨e | values, w₁⟩
    · rw [hrun] at hkeeps
      exact ⟨e, w₁, run_bind_of_error hrun, hkeeps⟩
    · rw [hrun] at hkeeps
      have hlength : values.length = f.params.length := by
        rw [← (cells_of_marshalAll hl hrun).length_eq, inputs_functionTarget hplain,
          List.length_map]
      obtain ⟨e, he⟩ := run_call_of_keyword (w := w₁) hplain hf hlength depth
      refine ⟨e, w₁, ?_, hkeeps⟩
      rw [run_bind_of_ok hrun]
      exact run_bind_of_error he
  · exact ⟨_, w, rfl, .refl w⟩

/-! ## Agreement -/

theorem settled_eq_none_iff {made : Except Failure (Option Adapter)} :
    (w.settled made).1 = .ok .none ↔ made = .ok none := by
  rcases made with e | _ | a <;> simp [World.settled]

theorem eq_of_holds_place {a a' : Adapter}
    (h : (w.place (.adapter a)).Holds (.object (.builtin .adapter) w.heap.instances.size) a') :
    a' = a := by
  obtain ⟨c, addr, hv, hart⟩ := h
  obtain ⟨c', addr', hv', hart'⟩ := holds_place w a
  cases hv
  cases hv'
  rw [hart] at hart'
  cases hart'
  rfl

theorem sameCalls_of_settled {w w' : World} {a a' : Adapter}
    (h : SameBuild Γ (w.settled (.ok (some a))) (w'.settled (.ok (some a')))) :
    a.SameCalls Γ a' := by
  generalize hr : w.settled (.ok (some a)) = r at h
  generalize hr' : w'.settled (.ok (some a')) = r' at h
  cases h with
  | absent | failed => cases hr
  | adapters hv hv' hcalls =>
    cases hr
    cases hr'
    rwa [eq_of_holds_place hv, eq_of_holds_place hv'] at hcalls

end Calls

/-! ## A sum -/

/-- A function that adds two integers; the second is passed in the given way. -/
def sumFunction (second : Passing) : Function where
  name := "sum"
  qualname := "sum"
  params := [⟨"a", some (.builtin .int), .positional, none⟩,
    ⟨"b", some (.builtin .int), second, none⟩]
  returns := some (.builtin .int)
  body := .block [.ret (.add (.arg "a") (.arg "b"))]
  abstract := false
  overloaded := false
  hasReceiver := false

def sumProgram (second : Passing) : Program :=
  { Program.empty with functions := #[sumFunction second] }

def sumShape : Shape := ⟨[.builtin .int, .builtin .int], .builtin .int⟩

def sumBuilder : Builder := ⟨{}, .classes, 0, none⟩

/-- Wraps the sum. -/
def wrapSum (second : Passing) : Eval Value :=
  Builder.wrap (sumProgram second) sumBuilder (.shape sumShape) (.code (.function 0))

/-- Describes the sum as a member. -/
def createSum (second : Passing) : Eval Value :=
  Builder.create (sumProgram second) sumBuilder (.shape sumShape)
    (some (.value (.code (.function 0)))) { throwOnFailure := some false }

theorem isPlainFunction_sum {second : Passing} (hvariadic : second ≠ .variadic)
    (hkeyword : second ≠ .variadicKeyword) :
    (sumProgram second).IsPlainFunction 0 (sumFunction second) := by
  have hhints : (sumProgram second).functionHints 0 =
      [("a", .builtin .int), ("b", .builtin .int), ("return", .builtin .int)] := rfl
  refine ⟨rfl, ?_, ?_, nofun, ?_⟩
  · simp [sumFunction, hvariadic, hkeyword]
  · simp [sumFunction]
  · rw [hhints]
    simp only [List.forall_mem_cons]
    exact ⟨rfl, rfl, rfl, nofun⟩

/-- With a planner that keeps plans. -/
def sumWorld : World := { World.empty with planners := #[⟨true, [], []⟩] }

/-- The layer between the shape and the sum. -/
def sumLayer : Layer where
  shape := sumShape
  slots :=
    [⟨.argument 0, .of (.builtin .int) (.builtin .int) .identity, .value⟩,
      ⟨.argument 1, .of (.builtin .int) (.builtin .int) .identity, .value⟩]
  result := .of (.builtin .int) (.builtin .int) .identity

end CallAdapter
