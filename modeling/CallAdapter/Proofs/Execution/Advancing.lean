import CallAdapter.Proofs.Adapter.Failure
import CallAdapter.Proofs.Builder.Answer
import CallAdapter.Proofs.Execution.Handle

/-!
# Running lets deferred values advance

Whatever runs, at whatever depth, deferred values do no more than advance
(`onlyAdvances_runtimeTo`): a settled one keeps its outcome, and one whose recipe runs is not
touched. The statement is closed under sequences, and what a runtime does is made of sequences of a
few changes of the world. Of these only taking a value changes a deferred value that exists, and it
sets the one that it takes (`advancing_force`). There is one rule for every function that runs,
tagged so that the functions which use it find it.
-/

namespace CallAdapter

open Program

/-- The computation lets deferred values do no more than advance, whether it succeeds or not. -/
def Advancing {α : Type} (x : Eval α) : Prop := ∀ w : World, w.Advances (x.run.run w).2

@[grind ←] theorem KeepsWorld.advancing {α : Type} {x : Eval α} (hx : KeepsWorld x) :
    Advancing x := by
  intro w
  refine World.advances_of_artifacts (hx w).heap.size_le ?_
  rw [← (hx w).rest]

namespace Advancing

variable {α β : Type}

/-! ## Sequences -/

@[grind ←] theorem pure (a : α) : Advancing (Pure.pure a : Eval α) := fun _ => .refl _

@[grind ←] theorem throw (e : Failure) : Advancing (MonadExcept.throw e : Eval α) :=
  fun _ => .refl _

@[grind ←] theorem bind {x : Eval α} {f : α → Eval β} (hx : Advancing x)
    (hf : ∀ a, Advancing (f a)) : Advancing (x >>= f) :=
  relates_run_bind World.Advances.trans hx hf

@[grind ←] theorem tryCatch {x : Eval α} {g : Failure → Eval α} (hx : Advancing x)
    (hg : ∀ e, Advancing (g e)) : Advancing (MonadExcept.tryCatch x g) := by
  intro w
  have hfirst := hx w
  cases hrun : x.run.run w with
  | mk r w' =>
    rw [hrun] at hfirst
    cases r with
    | error e =>
      have hcatch := run_tryCatch_of_error (g := g) hrun
      exact hcatch ▸ hfirst.trans (hg e w')
    | ok a =>
      have hcatch := run_tryCatch_of_ok (g := g) hrun
      exact hcatch ▸ hfirst

@[grind ←] theorem mapM {as : List α} {f : α → Eval β} (hf : ∀ a, Advancing (f a)) :
    Advancing (as.mapM f) := by
  induction as with
  | nil =>
    rw [List.mapM_nil]
    exact .pure _
  | cons a as ih =>
    rw [List.mapM_cons]
    exact (hf a).bind fun b => ih.bind fun bs => .pure _

@[grind ←] theorem foldlM {as : List β} {f : α → β → Eval α} {a : α}
    (hf : ∀ a b, Advancing (f a b)) : Advancing (as.foldlM f a) := by
  induction as generalizing a with
  | nil =>
    rw [List.foldlM_nil]
    exact .pure _
  | cons b as ih =>
    rw [List.foldlM_cons]
    exact (hf a b).bind fun a => ih

/-! ## Changes of the world -/

@[grind ←] theorem get : Advancing (MonadState.get : Eval World) := fun _ => .refl _

@[grind ←] theorem heap : Advancing Eval.heap := fun _ => .refl _

@[grind ←] theorem lift (x : Except Failure α) : Advancing (Eval.lift x) := by
  cases x with
  | error e => exact .throw e
  | ok a => exact .pure a

/-- A change of the heap that removes no place. -/
@[grind ←] theorem modifyHeap {f : Heap → Heap}
    (hf : ∀ h : Heap, h.instances.size ≤ (f h).instances.size) : Advancing (Eval.modifyHeap f) :=
  fun w => World.advances_of_artifacts (w := w) (hf w.heap) rfl

@[grind ←] theorem alloc (c : Cls) (i : Instance) : Advancing (Eval.alloc c i) :=
  fun w => World.advances_of_artifacts (w := w) (Heap.keeps_alloc w.heap i).size_le rfl

@[grind ←] theorem newList (vs : List Value) : Advancing (Eval.newList vs) := alloc _ _

/-- A new artifact stands behind every place that there was. -/
@[grind ←] theorem newArtifact (a : Artifact) : Advancing (Eval.newArtifact a) := by
  intro w
  refine ⟨(Heap.keeps_alloc w.heap _).size_le, fun addr haddr d hd => ⟨d, ?_, .refl d⟩⟩
  rw [run_newArtifact, ← hd]
  unfold Eval.deferredAt?
  rw [artifactAt?_place, if_neg (Nat.ne_of_lt haddr)]

@[grind ←] theorem planning (planner : Nat) (x : PlanM α) :
    Advancing (Eval.planning planner x) := by
  intro w
  rw [run_planning]
  exact World.advances_of_artifacts (Nat.le_refl _) rfl

@[grind ←] theorem cached (cache : Nat) (k : CacheKey) {build : Eval Value}
    (hbuild : Advancing build) : Advancing (Eval.cached cache k build) := by
  intro w
  have hset : ∀ (w : World) (c : BindingCache), w.Advances (w.setCache cache c) :=
    fun w c => World.advances_of_artifacts (Nat.le_refl _) rfl
  cases hfind : (Eval.cacheAt w cache).find? k with
  | some o =>
    rw [run_cached_of_hit hfind]
    exact hset w _
  | none =>
    rw [run_cached_of_miss hfind]
    exact ((hset w _).trans (hbuild _)).trans (hset _ _)

end Advancing

theorem Heap.size_foldl_setAttr (es : List (String × Value)) (h : Heap) (addr : Nat) :
    (es.foldl (fun h e => h.setAttr addr e.1 e.2) h).instances.size = h.instances.size := by
  induction es generalizing h with
  | nil => rfl
  | cons e es ih => exact (ih _).trans (size_setAttr ..)

/-- A runtime whose operations let deferred values do no more than advance. -/
structure Runtime.OnlyAdvances (rt : Runtime) : Prop where
  call : ∀ v args keywords, Advancing (rt.call v args keywords)
  getAttr : ∀ v name, Advancing (rt.getAttr v name)
  setAttr : ∀ v name w, Advancing (rt.setAttr v name w)

attribute [grind ←] Runtime.OnlyAdvances.call Runtime.OnlyAdvances.getAttr
  Runtime.OnlyAdvances.setAttr keepsWorld_converting keepsWorld_marshalAll keepsWorld_values
  keepsWorld_newCell

section Operations

variable {Γ : Program} {rt : Runtime}

namespace Runtime

/-! ## Members -/

@[grind ←] theorem advancing_assigning (t : Target) {assign : Eval Unit}
    (hassign : Advancing assign) : Advancing (assigning t assign) := by
  unfold assigning
  grind

@[grind ←] theorem advancing_invokeMember (hrt : rt.OnlyAdvances) (t : Target) (receiver : Value)
    (values : List Value) :
    Advancing (rt.invokeMember Γ t receiver values) := by
  unfold invokeMember
  grind

end Runtime

@[grind ←] theorem advancing_runDirect (hrt : rt.OnlyAdvances) (p : SignaturePlan)
    (args : List Value) :
    Advancing (p.runDirect rt args) := by
  unfold SignaturePlan.runDirect
  grind

@[grind ←] theorem advancing_runGeneral (hrt : rt.OnlyAdvances) (p : SignaturePlan)
    (args : List Value) :
    Advancing (p.runGeneral Γ rt args) := by
  unfold SignaturePlan.runGeneral
  have hresult : ∀ raw, Advancing (Γ.converting p.result raw) :=
    fun raw => (keepsWorld_converting _ raw).advancing
  refine .bind (keepsWorld_marshalAll _ _ _).advancing fun values => ?_
  dsimp only
  split
  · split
    · exact .bind (.throw _) hresult
    · exact .bind (Runtime.advancing_invokeMember hrt _ _ _) hresult
  · exact .bind (Runtime.advancing_invokeMember hrt _ _ _) hresult

@[grind ←] theorem advancing_run (hrt : rt.OnlyAdvances) (p : SignaturePlan) (args : List Value) :
    Advancing (p.run Γ rt args) := by
  unfold SignaturePlan.run
  split
  · exact .throw _
  split
  · exact advancing_runDirect hrt p args
  · exact advancing_runGeneral hrt p args

@[grind ←] theorem advancing_callAdapter (hrt : rt.OnlyAdvances) (a : Adapter)
    (args : List Value) : Advancing (a.call Γ rt args) := by
  induction a generalizing args with
  | member p =>
    unfold Adapter.call
    split
    · exact advancing_run hrt p args
    · exact .throw _
  | overAdapter l source inner ih =>
    unfold Adapter.call
    split
    · exact (keepsWorld_marshalAll _ _ _).advancing.bind fun values =>
        (ih values).bind fun raw => (keepsWorld_converting _ raw).advancing
    · exact .throw _
  | overCallable l source =>
    unfold Adapter.call
    split
    · exact (keepsWorld_marshalAll _ _ _).advancing.bind fun values =>
        (hrt.call source values []).bind fun raw => (keepsWorld_converting _ raw).advancing
    · exact .throw _

@[grind ←] theorem advancing_invoke (hrt : rt.OnlyAdvances) (i : Invoker) (receiver : Value)
    (args : List Value) :
    Advancing (i.invoke Γ rt receiver args) := by
  unfold Invoker.invoke
  refine .bind (keepsWorld_values i.call args).advancing fun values => ?_
  split
  · exact Runtime.advancing_invokeMember hrt _ _ _
  split
  · exact .throw _
  · exact .bind (keepsWorld_converting _ receiver).advancing fun v =>
      Runtime.advancing_invokeMember hrt _ v values

@[grind ←] theorem advancing_create (hrt : rt.OnlyAdvances) (c : InstanceCreator)
    (args : List Value) :
    Advancing (c.create Γ rt args) := by
  unfold InstanceCreator.create
  exact .bind (keepsWorld_values c.call args).advancing fun values =>
    Runtime.advancing_invokeMember hrt _ _ values

namespace Runtime

/-! ## Attributes -/

@[grind ←] theorem advancing_computedAttribute (h : Heap) (v : Value) (name : String) :
    Advancing (computedAttribute Γ h v name) := by
  unfold computedAttribute
  grind

@[grind ←] theorem advancing_slotContent (h : Heap) (v : Value) (name : String) :
    Advancing (slotContent Γ h v name) := by
  unfold slotContent
  split
  · split
    · exact .pure _
    · exact advancing_computedAttribute h _ name
  · exact advancing_computedAttribute h v name

@[grind ←] theorem advancing_readEntry (hrt : rt.OnlyAdvances) (v : Value) (c : Cls) (entry : Value)
    (name : String) :
    Advancing (rt.readEntry Γ v c entry name) := by
  unfold readEntry
  split
  all_goals grind

@[grind ←] theorem advancing_callHook (hrt : rt.OnlyAdvances) (v hook : Value) (name : String)
    (args : List Value) :
    Advancing (rt.callHook Γ v hook name args) := by
  unfold callHook
  exact .bind (advancing_readEntry hrt _ _ hook name) fun f => hrt.call f args []

@[grind ←] theorem advancing_readClass (hrt : rt.OnlyAdvances) (c : Cls) (name : String) :
    Advancing (rt.readClass Γ c name) := by
  unfold readClass
  grind

@[grind ←] theorem advancing_readOrdinary (hrt : rt.OnlyAdvances) (v : Value) (name : String) :
    Advancing (rt.readOrdinary Γ v name) := by
  unfold readOrdinary
  grind

@[grind ←] theorem advancing_readFirst (hrt : rt.OnlyAdvances) (h : Heap) (v : Value)
    (name : String) :
    Advancing (rt.readFirst Γ h v name) := by
  unfold readFirst
  split
  · exact advancing_callHook hrt v _ _ _
  · exact advancing_readOrdinary hrt v name

@[grind ←] theorem advancing_readAttribute (hrt : rt.OnlyAdvances) (v : Value) (name : String) :
    Advancing (rt.readAttribute Γ v name) := by
  unfold readAttribute
  refine .bind .heap fun h => ?_
  split
  · exact .tryCatch (advancing_readFirst hrt h v name) (by grind)
  · exact advancing_readFirst hrt h v name

@[grind ←] theorem advancing_writeOrdinary (hrt : rt.OnlyAdvances) (c : Cls) (addr : Nat)
    (name : String) (w : Value) :
    Advancing (rt.writeOrdinary Γ c addr name w) := by
  unfold writeOrdinary
  grind

@[grind ←] theorem advancing_writeAttribute (hrt : rt.OnlyAdvances) (v : Value) (name : String)
    (w : Value) :
    Advancing (rt.writeAttribute Γ v name w) := by
  unfold writeAttribute
  split
  all_goals grind

/-! ## Operations on plain values -/

@[grind ←] theorem advancing_sized (v : Value) (h : Heap) :
    Advancing (size.sized Γ v h) := by
  unfold size.sized
  grind

@[grind ←] theorem advancing_size (hrt : rt.OnlyAdvances) (v : Value) :
    Advancing (rt.size Γ v) := by
  unfold size
  grind

@[grind ←] theorem advancing_largest (h : Heap) (vs : List Value) :
    Advancing (largest Γ h vs) := by
  unfold largest
  grind

@[grind ←] theorem advancing_callFunction (hrt : rt.OnlyAdvances) (name : String)
    (args : List Value) :
    Advancing (rt.callFunction Γ name args) := by
  unfold callFunction
  grind

@[grind ←] theorem advancing_sortByKeys (h : Heap) (reverse : Bool) (keyed : List (Value × Value)) :
    Advancing (sortByKeys Γ h reverse keyed) := by
  unfold sortByKeys
  grind

@[grind ←] theorem advancing_callListMethod (hrt : rt.OnlyAdvances) (name : String) (addr : Nat)
    (items args : List Value) (keywords : Environment) :
    Advancing (rt.callListMethod Γ name addr items args keywords) := by
  unfold callListMethod
  refine .bind .heap fun h => ?_
  split
  · grind
  · grind
  · dsimp only
    -- the order that is asked for and the keys are read one after the other
    split
    · grind
    · split
      · split <;> grind
      · split
        · split <;> grind
        · grind
  · grind

@[grind ←] theorem advancing_callTextMethod (name text : String) (args : List Value)
    (keywords : Environment) :
    Advancing (callTextMethod name text args keywords) := by
  unfold callTextMethod
  grind

@[grind ←] theorem advancing_callMethod (hrt : rt.OnlyAdvances) (owner : Builtin) (name : String)
    (receiver : Value) (args : List Value) (keywords : Environment) :
    Advancing (rt.callMethod Γ owner name receiver args keywords) := by
  unfold callMethod
  grind

@[grind ←] theorem advancing_sum (v w : Value) :
    Advancing (sum Γ v w) := by
  unfold sum
  grind

/-! ## Bodies -/

@[grind ←] theorem advancing_newSet (vs : List Value) :
    Advancing (newSet Γ vs) := by
  unfold newSet
  grind

@[grind ←] theorem advancing_newDict (kvs : List (Value × Value)) :
    Advancing (newDict Γ kvs) := by
  unfold newDict
  grind

mutual

theorem advancing_eval (hrt : rt.OnlyAdvances) (f : Function) (env : Environment) (e : Expr) :
    Advancing (rt.eval Γ f env e) := by
  -- an expression does what its parts do, one after the other
  cases e with
  | attr e name =>
    unfold eval
    exact .bind (advancing_eval hrt f env e) fun v => hrt.getAttr v name
  | add a b =>
    unfold eval
    exact .bind (advancing_eval hrt f env a) fun v =>
      .bind (advancing_eval hrt f env b) (advancing_sum v)
  | list es =>
    unfold eval
    exact .bind (advancing_evalAll hrt f env es) .newList
  | tuple es =>
    unfold eval
    exact .bind (advancing_evalAll hrt f env es) fun _ => .pure _
  | set es =>
    unfold eval
    exact .bind (advancing_evalAll hrt f env es) advancing_newSet
  | dict ks vs =>
    unfold eval
    exact .bind (advancing_evalAll hrt f env ks) fun _ =>
      .bind (advancing_evalAll hrt f env vs) fun _ => advancing_newDict _
  | cell e =>
    unfold eval
    exact .bind (advancing_eval hrt f env e) fun v => (keepsWorld_newCell v).advancing
  | call g es =>
    unfold eval
    exact .bind (advancing_eval hrt f env g) fun _ =>
      .bind (advancing_evalAll hrt f env es) fun _ => hrt.call _ _ _
  | entry e name =>
    unfold eval
    refine .bind (advancing_eval hrt f env e) fun v => ?_
    grind
  | value | arg | fresh | classNamed | echo =>
    unfold eval
    grind

theorem advancing_evalAll (hrt : rt.OnlyAdvances) (f : Function) (env : Environment)
    (es : List Expr) : Advancing (rt.evalAll Γ f env es) := by
  cases es with
  | nil =>
    unfold evalAll
    exact .pure _
  | cons e es =>
    unfold evalAll
    exact .bind (advancing_eval hrt f env e) fun _ =>
      .bind (advancing_evalAll hrt f env es) fun _ => .pure _

end

attribute [grind ←] advancing_eval

@[grind ←] theorem advancing_runBlock (hrt : rt.OnlyAdvances) (f : Function) (env : Environment)
    (stmts : List Stmt) : Advancing (rt.runBlock Γ f env stmts) := by
  induction stmts with
  | nil =>
    unfold runBlock
    exact .pure _
  | cons s stmts ih =>
    cases s <;> unfold runBlock <;> grind

@[grind ←] theorem advancing_inheritInit (hrt : rt.OnlyAdvances) (receiver : Value)
    (args : List Value) (keywords : Environment) :
    Advancing (rt.inheritInit Γ receiver args keywords) := by
  unfold inheritInit
  grind

@[grind ←] theorem advancing_runBody (hrt : rt.OnlyAdvances) (f : Function) (env : Environment) :
    Advancing (rt.runBody Γ f env) := by
  unfold runBody
  dsimp only
  split
  · exact advancing_runBlock hrt f env _
  · split
    · exact .bind (.modifyHeap fun h => (Heap.size_foldl_setAttr _ h _).ge) fun _ => .pure _
    · exact .pure _
  all_goals grind

/-! ## Instances -/

@[grind ←] theorem advancing_makeNumber (rule : NumericRule) (zero : Scalar) (args : List Value) :
    Advancing (makeNumber Γ rule zero args) := by
  unfold makeNumber
  grind

@[grind ←] theorem advancing_complexParts (v : Value) :
    Advancing (complexParts Γ v) := by
  unfold complexParts
  grind

@[grind ←] theorem advancing_makeComplex (args : List Value) :
    Advancing (makeComplex Γ args) := by
  unfold makeComplex
  grind

@[grind ←] theorem advancing_makeFraction (args : List Value) :
    Advancing (makeFraction Γ args) := by
  unfold makeFraction
  grind

@[grind ←] theorem advancing_elementsOf (args : List Value) :
    Advancing (elementsOf Γ args) := by
  unfold elementsOf
  grind

@[grind ←] theorem advancing_makePlain (b : Builtin) (args : List Value) (keywords : Environment) :
    Advancing (makePlain Γ b args keywords) := by
  unfold makePlain
  grind

@[grind ←] theorem advancing_makePayload (c : Cls) (initialises : Bool) (args : List Value)
    (keywords : Environment) :
    Advancing (makePayload Γ c initialises args keywords) := by
  unfold makePayload
  grind

@[grind ←] theorem advancing_initialise (hrt : rt.OnlyAdvances) (v : Value) (c : Cls)
    (args : List Value) (keywords : Environment) :
    Advancing (rt.initialise Γ v c args keywords) := by
  unfold initialise
  grind

@[grind ←] theorem advancing_makeInstance (hrt : rt.OnlyAdvances) (d : ClassRef) (args : List Value)
    (keywords : Environment) :
    Advancing (rt.makeInstance Γ d args keywords) := by
  unfold makeInstance
  grind

@[grind ←] theorem advancing_make (hrt : rt.OnlyAdvances) (c : Cls) (args : List Value)
    (keywords : Environment) :
    Advancing (rt.make Γ c args keywords) := by
  unfold make
  grind

@[grind ←] theorem advancing_markOrigin (hrt : rt.OnlyAdvances) (t : Ty) (v : Value) :
    Advancing (rt.markOrigin Γ t v) := by
  unfold markOrigin
  grind

@[grind ←] theorem advancing_makeFrom (hrt : rt.OnlyAdvances) (t : Ty) (args : List Value)
    (keywords : Environment) :
    Advancing (rt.makeFrom Γ t args keywords) := by
  unfold makeFrom
  grind

end Runtime

/-! ## Builders -/

namespace Builder

@[grind ←] theorem advancing_targetOf (b : Builder) (member : Handle) (container : Option Ty)
    (setter : Bool) :
    Advancing (targetOf Γ b member container setter) := by
  unfold targetOf
  grind

@[grind ←] theorem advancing_buildDirect (b : Builder) (r : Request) :
    Advancing (buildDirect Γ b r) := by
  unfold buildDirect
  grind

@[grind ←] theorem advancing_buildNamed (b : Builder) (container : Ty) (name : String)
    (shape : Shape) (options : SearchMask) (bound : Value) :
    Advancing (buildNamed Γ b container name shape options bound) := by
  unfold buildNamed
  grind

@[grind ←] theorem advancing_named (b : Builder) (r : Request) (name : String) :
    Advancing (named Γ b r name) := by
  unfold named
  grind

@[grind ←] theorem advancing_withPolicy (throws : Bool) {build : Eval Value}
    (hbuild : Advancing build) : Advancing (withPolicy throws build) := by
  unfold withPolicy
  grind

@[grind ←] theorem advancing_answer (b : Builder) (r : Request) :
    Advancing (answer Γ b r) := by
  unfold answer
  grind

end Builder

/-! ## Deferred values and calls -/

namespace Runtime

@[grind ←] theorem advancing_callDeclared (hrt : rt.OnlyAdvances) (id : Nat) (args : List Value)
    (keywords : Environment) :
    Advancing (rt.callDeclared Γ id args keywords) := by
  unfold callDeclared
  grind

theorem advancing_follow (hrt : rt.OnlyAdvances) (r : Recipe) :
    Advancing (rt.follow Γ r) := by
  unfold follow
  grind

/-- The value that is taken is marked while its recipe runs, so that nothing else sets it. -/
@[grind ←] theorem advancing_force (hrt : rt.OnlyAdvances) (addr : Nat) :
    Advancing (rt.force Γ addr) := by
  intro w
  cases hd : Eval.deferredAt? w addr with
  | none =>
    rw [run_force_of_none hd]
    exact .refl w
  | some d =>
    cases hp : d.progress with
    | settled o =>
      rw [run_force_of_settled hd hp]
      exact .refl w
    | running =>
      rw [run_force_of_running hd hp]
      exact .refl w
    | pending =>
      rw [run_force_of_pending hd hp]
      have hrun := advancing_follow (Γ := Γ) hrt d.recipe (w.setDeferred addr d.start)
      refine ⟨hrun.size_le, fun other hother e he => ?_⟩
      rw [deferredAt?_setDeferred]
      by_cases h : other = addr
      · subst h
        obtain rfl := Option.some.inj (hd.symm.trans he)
        rw [if_pos rfl]
        exact ⟨_, rfl, Deferred.advances_finish hp _⟩
      · rw [if_neg h]
        refine hrun.deferred other hother e ?_
        rw [deferredAt?_setDeferred, if_neg h, he]

@[grind ←] theorem advancing_callArtifact (hrt : rt.OnlyAdvances) (addr : Nat) (a : Artifact)
    (args : List Value) :
    Advancing (rt.callArtifact Γ addr a args) := by
  unfold callArtifact
  grind

theorem advancing_callValue (hrt : rt.OnlyAdvances) (v : Value) (args : List Value)
    (keywords : Environment) :
    Advancing (rt.callValue Γ v args keywords) := by
  unfold callValue
  grind

theorem onlyAdvances_exhausted : exhausted.OnlyAdvances :=
  ⟨fun _ _ _ => .throw _, fun _ _ => .throw _, fun _ _ _ => .throw _⟩

theorem OnlyAdvances.step (hrt : rt.OnlyAdvances) : (Runtime.step Γ rt).OnlyAdvances :=
  ⟨advancing_callValue hrt, advancing_readAttribute hrt, advancing_writeAttribute hrt⟩

end Runtime

end Operations

/-- Whatever a program calls, reads or writes lets deferred values do no more than advance. -/
theorem onlyAdvances_runtimeTo (Γ : Program) (n : Nat) : (Γ.runtimeTo n).OnlyAdvances := by
  induction n with
  | zero => exact Runtime.onlyAdvances_exhausted
  | succ n ih => exact ih.step

end CallAdapter
