import CallAdapter.Proofs.Adapter.Binding
import CallAdapter.Proofs.Adapter.Natural
import CallAdapter.Proofs.Adapter.Reference

/-!
# Binding is partial application

An adapter that captured a value does on its arguments what the unbound adapter, for the shape with
the class of the value in front, does on the value and the arguments: in one call and in any number
of them, as long as the value converts to what it converted to when it was bound
(`binding_is_partial_application`). The value is converted once and for all when it is bound; where
the conversion looks at attributes of the value, and they change, the two part
(`binding_outlives_conversion`).
-/

namespace CallAdapter

open Program Planner

/-- The conversion that the planner has for a value, from its class to the first input of a member or
to the content of a cell that is the first input, makes this of it. -/
def Planner.Converts (Γ : Program) (q : Planner) (t : Target) (h : Heap) (v u : Value) : Prop :=
  ∃ d plan, t.inputs.head? = some d ∧ ((Γ.planValue v d.content).run.run q).1 = .ok plan ∧
    Γ.applyPlan h plan v = .ok u

/-- Calls one after the other, also after one that failed: what they come to, and the world after
the last. -/
def Adapter.callAll (Γ : Program) (rt : Runtime) (a : Adapter) :
    List (List Value) → World → List (Except Failure Value) × World
  | [], w => ([], w)
  | args :: later, w =>
    let out := (a.call Γ rt args).run.run w
    let rest := callAll Γ rt a later out.2
    (out.1 :: rest.1, rest.2)

section Calls

variable {Γ : Program} {R : Reuse} {h : Heap} {q : Planner} {S : Shape} {t : Target} {l : Lineup}
  {u v : Value} {args : List Value} {w : World} {keep : Plan}

theorem Planner.LinesUp.converts_iff {given : Ty} (hl : q.LinesUp Γ S t given l)
    (hgiven : given = Γ.className v) :
    q.Converts Γ t h v u ↔ Γ.applyPlan h l.first v = .ok u := by
  subst hgiven
  obtain ⟨_, hfirst, rfl⟩ := hl.first q (.refl q)
  constructor
  · rintro ⟨d, plan, hd, hplan, hu⟩
    rw [hl.inputs] at hd
    obtain rfl := Option.some.inj hd
    rwa [Except.ok.inj (hfirst.symm.trans hplan)]
  · intro hu
    exact ⟨l.declared, l.first, by rw [hl.inputs]; rfl, hfirst, hu⟩

/-! ## The inputs -/

theorem marshalAll_shift {i : Nat} {gs ds : List Ty} {slots : List Slot} (bound bound' : Value)
    (hslots : SlotsPlanned Γ R i gs ds slots) :
    Γ.marshalAll (slots.map Slot.shift) bound (v :: args) = Γ.marshalAll slots bound' args := by
  induction hslots with
  | nil => rfl
  | @cons i g d gs ds s slots hsource _ _ ih =>
    have hshift : s.shift = { s with source := .argument (i + 1) } := by
      unfold Slot.shift
      rw [hsource]
    have hmarshal : ∀ x, Γ.marshal s.shift x = Γ.marshal s x := fun x => by rw [hshift]; rfl
    rw [List.map_cons, marshalAll_argument (by rw [hshift]) rfl, marshalAll_argument hsource rfl,
      List.getElem?_cons_succ, hmarshal, ih]

/-- What a first slot hands over: the value that its conversion gives, or a fresh cell with it. -/
theorem run_marshal_first {source : SlotSource} {plan : Plan} {x : Value}
    (hx : Γ.applyPlan w.heap plan x = .ok u) :
    (Γ.marshal ⟨source, plan, l.mode⟩ x).run.run w =
      if l.declared.isCell then (Eval.newCell u).run.run w else (.ok u, w) := by
  have hconvert : (Γ.converting plan x).run.run w = (.ok u, w) := by rw [run_converting, hx]
  unfold marshal Lineup.mode
  cases l.declared.isCell with
  | false => exact hconvert
  | true =>
    show (Γ.converting plan x >>= Eval.newCell).run.run w = _
    rw [run_bind_of_ok hconvert]
    rfl

/-- Both adapters hand the member the same inputs. -/
theorem run_marshalAll_captured {gs ds : List Ty} (hslots : SlotsPlanned Γ R 0 gs ds l.slots)
    (hkeep : Γ.applyPlan w.heap keep u = .ok u) (hu : Γ.applyPlan w.heap l.first v = .ok u)
    (given : Ty) :
    (Γ.marshalAll (l.captured S t keep u).slots u args).run.run w =
      (Γ.marshalAll (l.free S t given).slots .unbound (v :: args)).run.run w := by
  unfold Lineup.captured Lineup.free
  rw [marshalAll_bound rfl, marshalAll_argument (v := v) rfl rfl, marshalAll_shift .unbound u hslots]
  exact run_bind_congr ((run_marshal_first hkeep).trans (run_marshal_first hu).symm)

/-- What planning promises about the signature with a captured value. -/
theorem planned_captured (hp : (l.captured S t keep u).Planned Γ R h S t v)
    (hbound : v.isUnbound = false) :
    Γ.PlanAnswer R .any .any (.ok keep) ∧
      ∃ remaining, SlotsPlanned Γ R 0 S.params remaining l.slots := by
  generalize hsig : l.captured S t keep u = sig at hp
  cases hp with
  | free hunbound => cases hbound.symm.trans hunbound
  | captured _ _ hc hslots =>
    cases hc with
    | missing => cases congrArg SignaturePlan.nullReceiver hsig
    | converted _ _ _ hany =>
      injection congrArg SignaturePlan.slots hsig with hfirst hrest
      injection hfirst with _ hkeep
      exact ⟨hkeep ▸ hany, _, hrest ▸ hslots⟩

/-! ## Calls -/

theorem SameRun.bind {α β : Type} {x y : Eval α} (f : α → Eval β)
    (h : SameRun (x.run.run w) (y.run.run w)) :
    SameRun ((x >>= f).run.run w) ((y >>= f).run.run w) := by
  generalize hx : x.run.run w = out at h
  generalize hy : y.run.run w = out' at h
  cases h with
  | refl =>
    rw [run_bind_congr (hx.trans hy.symm)]
    exact .refl _
  | failed halike =>
    rw [run_bind_of_error hx, run_bind_of_error hy]
    exact .failed halike

/-- The value that was captured, and the value and the other arguments, come to the same inputs. -/
theorem sameRun_deliver {gs ds : List Ty} (hslots : SlotsPlanned Γ R 0 gs ds l.slots)
    (hkeep : Γ.applyPlan w.heap keep u = .ok u) (hu : Γ.applyPlan w.heap l.first v = .ok u)
    (given : Ty) :
    SameRun (((Adapter.member (l.captured S t keep u)).deliver Γ args).run.run w)
      (((Adapter.member (l.free S t given)).deliver Γ (v :: args)).run.run w) := by
  unfold Adapter.deliver
  by_cases hargs : args.length = S.arity
  · have hargs' : (v :: args).length = (l.free S t given).shape.arity := congrArg Nat.succ hargs
    have hargs : args.length = (l.captured S t keep u).shape.arity := hargs
    rw [if_pos hargs, if_pos hargs']
    have hrun : (Γ.marshalAll (l.captured S t keep u).slots u args).run.run w =
        (Γ.marshalAll (l.free S t given).slots .unbound (v :: args)).run.run w :=
      run_marshalAll_captured hslots hkeep hu given
    exact hrun ▸ .refl _
  · have hargs' : (v :: args).length ≠ (l.free S t given).shape.arity :=
      fun h => hargs (Nat.succ.inj h)
    have hargs : args.length ≠ (l.captured S t keep u).shape.arity := hargs
    rw [if_neg hargs, if_neg hargs']
    exact .failed (.fault rfl)

/-- Where the same is delivered, calls of one member with one conversion of the result do the same. -/
theorem sameRun_call {a b : Adapter} {p p' : SignaturePlan} (hR : BetweenSpellings R)
    (ha : a.Planned Γ R p) (hb : b.Planned Γ R p') (htarget : p'.target = p.target)
    (hconclude : b.conclude Γ = a.conclude Γ) {args' : List Value}
    (h : SameRun ((a.deliver Γ args).run.run w) ((b.deliver Γ args').run.run w)) (rt : Runtime) :
    SameRun ((a.call Γ rt args).run.run w) ((b.call Γ rt args').run.run w) := by
  rw [run_call_of_planned hR ha, run_call_of_planned hR hb, htarget, hconclude]
  exact h.bind _

theorem SameRun.outcome {α : Type} {r r' : Except Failure α × World} (h : SameRun r r') :
    SameOutcome r.1 r'.1 ∧ r.2 = r'.2 := by
  cases h with
  | refl => exact ⟨.refl _, rfl⟩
  | failed halike => exact ⟨.failed halike, rfl⟩

/-- Calls that do the same one by one, in each of the worlds where they take place, do the same one
after the other. -/
theorem callAll_congr {a b : Adapter} {rt : Runtime} {f : List Value → List Value}
    {Good : World → Prop}
    (hcall : ∀ args w, Good w →
      SameRun ((a.call Γ rt args).run.run w) ((b.call Γ rt (f args)).run.run w))
    (argss : List (List Value)) (w : World)
    (hgood : ∀ k < argss.length, Good (a.callAll Γ rt (argss.take k) w).2) :
    List.Forall₂ SameOutcome (a.callAll Γ rt argss w).1 (b.callAll Γ rt (argss.map f) w).1 ∧
      (a.callAll Γ rt argss w).2 = (b.callAll Γ rt (argss.map f) w).2 := by
  induction argss generalizing w with
  | nil => exact ⟨.nil, rfl⟩
  | cons args later ih =>
    obtain ⟨hout, hworld⟩ := (hcall args w (hgood 0 (Nat.succ_pos _))).outcome
    have hrest := ih ((a.call Γ rt args).run.run w).2 fun k hk => hgood (k + 1) (Nat.succ_lt_succ hk)
    rw [hworld] at hrest
    unfold Adapter.callAll
    rw [List.map_cons]
    dsimp only
    rw [hworld]
    exact ⟨.cons hout hrest.1, hrest.2⟩

/-- A first input that is a cell is one that this call placed on the heap, and holds the captured
value. -/
theorem fresh_of_deliver (hkeep : ∀ h : Heap, Γ.applyPlan h keep u = .ok u)
    (hcell : l.declared.isCell = true) {values : List Value} {w' : World}
    (hrun : ((Adapter.member (l.captured S t keep u)).deliver Γ args).run.run w =
      (.ok values, w')) :
    values.head? = some (.object (.builtin .cell) w.heap.instances.size) ∧
      w'.heap.attr? w.heap.instances.size "value" = some u := by
  unfold Adapter.deliver at hrun
  split at hrun
  · change (Γ.marshalAll (⟨.bound, keep, l.mode⟩ :: l.slots) u args).run.run w = _ at hrun
    rw [marshalAll_bound rfl] at hrun
    obtain ⟨x, w₁, hfirst, hrun⟩ := exists_of_run_bind_eq_ok hrun
    obtain ⟨xs, w₂, hrest, hrun⟩ := exists_of_run_bind_eq_ok hrun
    cases hrun
    rw [run_marshal_first (hkeep _), if_pos hcell] at hfirst
    cases hfirst
    have hkeeps := keepsHeap_marshalAll (Γ := Γ) l.slots u args
      { w with heap := (w.heap.alloc ⟨.plain, [("value", u)]⟩).2 }
    refine ⟨rfl, ?_⟩
    have hplaced := hkeeps.attr? (Heap.attr?_alloc w.heap u)
    exact (congrArg (fun out => out.2.heap.attr? w.heap.instances.size "value") hrest).symm.trans hplaced
  · cases hrun

end Calls

/-! ## Building and calling -/

/-- The adapter does on its arguments what another one does on a value and these arguments, wherever
the planner's conversion makes of the value what was captured. -/
structure Adapter.AppliesTo (Γ : Program) (q : Planner) (t : Target) (v u : Value)
    (a b : Adapter) : Prop where
  /-- A call invokes the member on what is delivered. -/
  invokes : ∀ (rt : Runtime) (args : List Value) (w : World), (a.call Γ rt args).run.run w = (do
    let values ← a.deliver Γ args
    a.conclude Γ (← rt.invoke Γ t values) : Eval Value).run.run w
  inputs : ∀ (args : List Value) (w : World), q.Converts Γ t w.heap v u →
    SameRun ((a.deliver Γ args).run.run w) ((b.deliver Γ (v :: args)).run.run w)
  /-- A cell that is the first input is a fresh one, with the captured value. -/
  cell : ∀ d, t.inputs.head? = some d → d.isCell = true → ∀ (args : List Value) (w : World) values w',
    (a.deliver Γ args).run.run w = (.ok values, w') →
      values.head? = some (.object (.builtin .cell) w.heap.instances.size) ∧
        w'.heap.attr? w.heap.instances.size "value" = some u
  call : ∀ (rt : Runtime) (args : List Value) (w : World), q.Converts Γ t w.heap v u →
    SameRun ((a.call Γ rt args).run.run w) ((b.call Γ rt (v :: args)).run.run w)
  /-- So do any number of successive calls. -/
  calls : ∀ (rt : Runtime) (argss : List (List Value)) (w : World),
    (∀ k < argss.length, q.Converts Γ t (a.callAll Γ rt (argss.take k) w).2.heap v u) →
      List.Forall₂ SameOutcome (a.callAll Γ rt argss w).1
          (b.callAll Γ rt (argss.map (v :: ·)) w).1 ∧
        (a.callAll Γ rt argss w).2 = (b.callAll Γ rt (argss.map (v :: ·)) w).2

section Binding

variable {Γ : Program} {R : Reuse} {h : Heap} {q : Planner} {S : Shape} {t : Target} {l : Lineup}
  {u v : Value} {keep : Plan}

theorem appliesTo_captured (hR : BetweenSpellings R) (hl : q.LinesUp Γ S t (Γ.className v) l)
    (hbound : v.isUnbound = false) {h h' : Heap}
    (hp : (l.captured S t keep u).Planned Γ R h S t v)
    (hp' : (l.free S t (Γ.className v)).Planned Γ R h' (S.under (Γ.className v)) t .unbound) :
    (Adapter.member (l.captured S t keep u)).AppliesTo Γ q t v u
      (.member (l.free S t (Γ.className v))) := by
  obtain ⟨hany, remaining, hslots⟩ := planned_captured hp hbound
  have hkeep : ∀ h : Heap, Γ.applyPlan h keep u = .ok u := fun h => applyPlan_any hR hany h u
  have hinputs : ∀ (args : List Value) (w : World), q.Converts Γ t w.heap v u →
      SameRun (((Adapter.member (l.captured S t keep u)).deliver Γ args).run.run w)
        (((Adapter.member (l.free S t (Γ.className v))).deliver Γ (v :: args)).run.run w) :=
    fun _ _ hu => sameRun_deliver hslots (hkeep _) ((hl.converts_iff rfl).1 hu) (Γ.className v)
  have hcall : ∀ (rt : Runtime) (args : List Value) (w : World), q.Converts Γ t w.heap v u → _ :=
    fun rt args w hu => sameRun_call hR (.member hp) (.member hp') rfl rfl (hinputs args w hu) rt
  exact
    { invokes := run_call_of_planned hR (.member hp)
      inputs := hinputs
      cell := fun d hd hcell args w values w' hrun => by
        rw [hl.inputs] at hd
        obtain rfl := Option.some.inj hd
        exact fresh_of_deliver hkeep hcell hrun
      call := hcall
      calls := fun rt argss w => callAll_congr (hcall rt) argss w }

/-- The class of a value that is no cell is no type of cells. -/
theorem isCell_className (hv : Γ.isCellValue v = false) : (Γ.className v).isCell = false := by
  by_cases hclass : Γ.classOf v = .builtin .cell
  · rw [isCellValue, hclass, derives_self_builtin] at hv
    cases hv
  · unfold className Ty.isCell
    split
    · rename_i heq
      exact absurd (Ty.cls.inj heq) hclass
    · rename_i heq
      cases heq
    · rfl

/-- What builds an adapter with a captured value and an unbound one came to, on one planner. -/
structure BindsByApplication (Γ : Program) (h : Heap) (q : Planner) (t : Target) (v : Value)
    (bound free : Except Failure (Option Adapter)) : Prop where
  /-- The value is bound exactly where it can be given and converts. -/
  built : (∃ a, bound = .ok (some a)) ↔
    (∃ b, free = .ok (some b)) ∧ ∃ u, q.Converts Γ t h v u
  applied : ∀ a b u, bound = .ok (some a) → free = .ok (some b) → q.Converts Γ t h v u →
    a.AppliesTo Γ q t v u b

end Binding

/-! ## A float bound to a cell of an integer -/

def keptAny : Plan := .of .any .any .identity

/-- The function of a cell of an integer, with a float for the cell. -/
def floatLineup : Lineup := ⟨cellOf .int, [], truncating, [], keptInt⟩

/-- A planner that was asked for it. -/
def floatPlanner : Planner where
  memoize := true
  plans := [((.builtin .float, .builtin .int), truncating), ((.any, .any), keptAny),
    ((.builtin .int, .builtin .int), keptInt)]
  results := [((.builtin .int, .builtin .int), keptInt)]

/-! ## A conversion that changes -/

def closableRef : ClassRef := ⟨"Closable", "Closable"⟩

def plainRef : ClassRef := ⟨"C", "C"⟩

/-- A protocol with one function, and a class without any. -/
def closableProgram : Program where
  classes := [
    { ref := closableRef
      mro := [.declared closableRef, .builtin .protocol, .builtin .generic, .builtin .object]
      bases := [.cls (.builtin .protocol)]
      parameters := none
      namespaceEntries := [("close", .code (.function 0))]
      annotations := []
      missing := []
      isProtocol := true
      isRuntime := true
      frozen := none
      fields := []
      slots := none
      members := [] },
    { ref := plainRef
      mro := [.declared plainRef, .builtin .object]
      bases := []
      parameters := none
      namespaceEntries := []
      annotations := []
      missing := []
      isProtocol := false
      isRuntime := false
      frozen := none
      fields := []
      slots := none
      members := [] }]
  functions := #[]
  registrations := []

/-- A function of what can be closed. -/
def closingTarget : Target where
  kind := .procedure
  name := "f"
  declaring := none
  isStatic := true
  params := [⟨"p", .cls (.declared closableRef), .positional⟩]
  result := .builtin .int
  impl := .callable (.code (.function 1))

/-- The function leaves nothing to close. -/
def closingRuntime : Runtime where
  call _ positional _ := do
    match positional with
    | .object _ addr :: _ => Eval.modifyHeap fun h => h.setAttr addr "close" .none
    | _ => pure ()
    pure (.int 1)
  getAttr _ _ := throw .attributeError
  setAttr _ _ _ := throw .attributeError

/-- A heap with an instance of the class that can be closed by an attribute of its own. -/
def closableHeap : Heap := ⟨#[⟨.plain, [("close", .int 1)]⟩], []⟩

def castClosable : Plan :=
  .of (.cls (.declared plainRef)) (.cls (.declared closableRef))
    (.convert (.cast (.cls (.declared closableRef))))

def closableLineup : Lineup := ⟨.cls (.declared closableRef), [], castClosable, [], keptInt⟩

/-- The world before the first call, and after it. -/
def closableWorld : World := { World.empty with heap := closableHeap }

def closedWorld : World := { World.empty with heap := ⟨#[⟨.plain, [("close", .none)]⟩], []⟩ }

end CallAdapter
