import CallAdapter.Proofs.Adapter.Wrapping

/-!
# What a call hands to the member

A call of an adapter goes through its layers to the member and back: each layer produces the
arguments of the next one, the innermost the inputs of the member (`Adapter.deliver`), and each
layer converts what the next one gave (`run_call_of_planned`). On the way to the member cells are
placed on the heap, and nothing that was there is changed (`keepsWorld_deliver`).
-/

namespace CallAdapter

open Program

/-! ## Adapters of a member -/

namespace Adapter

/-- The adapters of a member with a signature: compiled for a shape, or wrapped around another one for
a further shape, by planners of any history. -/
inductive Made (Γ : Program) (p : SignaturePlan) : Adapter → Prop
  | compiled {h : Heap} {shape : Shape} {t : Target} {bound : Value} {memoize : Bool}
      {history : List PlanRequest} {q : Planner} :
    (Γ.adapterFor h (some shape) (some t) bound).run.run
      (Γ.afterRequests history ⟨memoize, [], []⟩) = (.ok (some (.member p)), q) →
    Made Γ p (.member p)
  | wrapped {inner : Adapter} {shape : Shape} {l : Layer} {source : Value} {memoize : Bool}
      {history : List PlanRequest} {q : Planner} : Made Γ p inner →
    (Γ.planLayer shape inner.shape).run.run
      (Γ.afterRequests history ⟨memoize, [], []⟩) = (.ok (some l), q) →
    Made Γ p (.overAdapter l source inner)

/-- What planning promises about the adapters of a member. -/
inductive Planned (Γ : Program) (R : Reuse) (p : SignaturePlan) : Adapter → Prop
  | member {h : Heap} {shape : Shape} {t : Target} {bound : Value} :
    p.Planned Γ R h shape t bound → Planned Γ R p (.member p)
  | layer {inner : Adapter} {l : Layer} {source : Value} : Planned Γ R p inner →
    SlotsPlanned Γ R 0 l.shape.params inner.shape.params l.slots →
    Planned Γ R p (.overAdapter l source inner)

/-- What a call hands to the member, or why the member is not invoked. -/
def deliver (Γ : Program) : Adapter → List Value → Eval (List Value)
  | member p, args =>
    if args.length = p.shape.arity then
      if p.nullReceiver then throw p.target.nullReceiver else Γ.marshalAll p.slots p.bound args
    else throw ((member p).arityMismatch args.length)
  | overAdapter l source inner, args => do
    if args.length = l.shape.arity then inner.deliver Γ (← Γ.marshalAll l.slots .unbound args)
    else throw ((overAdapter l source inner).arityMismatch args.length)
  | overCallable l source, args => do
    if args.length = l.shape.arity then Γ.marshalAll l.slots .unbound args
    else throw ((overCallable l source).arityMismatch args.length)

/-- What a call makes of what the member gave. -/
def conclude (Γ : Program) : Adapter → Value → Eval Value
  | member p, raw => Γ.converting p.result raw
  | overAdapter l _ inner, raw => do Γ.converting l.result (← inner.conclude Γ raw)
  | overCallable l _, raw => Γ.converting l.result raw

end Adapter

section Made

variable {Γ : Program} {R : Reuse} {p : SignaturePlan} {a : Adapter}

theorem planned_of_adapterFor {keeps : Bool} {h : Heap} {shape : Shape} {t : Target} {bound : Value}
    {q : Planner} (hq : q.Sound Γ keeps NormalPair R)
    (hmade : ((Γ.adapterFor h (some shape) (some t) bound).run.run q).1 = .ok (some (.member p))) :
    p.Planned Γ R h shape t bound := by
  obtain ⟨-, sig, hsig, hrun⟩ := exists_of_run_adapterFor (Prod.ext hmade rfl)
  obtain rfl := Adapter.member.inj hsig
  exact planned_of_planSignature hq (congrArg Prod.fst hrun)

theorem Adapter.Made.planned (ha : a.Made Γ p) : a.Planned Γ HistoryReuse p := by
  induction ha with
  | compiled hmade =>
    exact .member (planned_of_adapterFor (sound_history _ _) (congrArg Prod.fst hmade))
  | wrapped _ hlayer ih =>
    obtain ⟨rfl, hslots⟩ := slotsPlanned_of_planLayer (sound_history _ _) (congrArg Prod.fst hlayer)
    exact .layer ih hslots

end Made

/-! ## Keeping the heap -/

/-- Everything on the first heap is on the second, unchanged. -/
structure Heap.Keeps (h h' : Heap) : Prop where
  statics : h'.statics = h.statics
  size_le : h.instances.size ≤ h'.instances.size
  get? : ∀ addr < h.instances.size, h'.get? addr = h.get? addr

namespace Heap

variable {h h' h'' : Heap}

theorem Keeps.refl (h : Heap) : h.Keeps h := ⟨rfl, Nat.le_refl _, fun _ _ => rfl⟩

theorem Keeps.trans (hh : h.Keeps h') (hh' : h'.Keeps h'') : h.Keeps h'' :=
  ⟨hh'.statics.trans hh.statics, Nat.le_trans hh.size_le hh'.size_le, fun addr haddr =>
    (hh'.get? addr (Nat.lt_of_lt_of_le haddr hh.size_le)).trans (hh.get? addr haddr)⟩

theorem keeps_alloc (h : Heap) (i : Instance) : h.Keeps (h.alloc i).2 := by
  refine ⟨rfl, ?_, fun addr haddr => ?_⟩
  · show h.instances.size ≤ (h.instances.push i).size
    rw [Array.size_push]
    omega
  · show (h.instances.push i)[addr]? = h.instances[addr]?
    rw [Array.getElem?_push, if_neg (Nat.ne_of_lt haddr)]

theorem lt_size_of_attr? {addr : Nat} {name : String} {v : Value} (hv : h.attr? addr name = some v) :
    addr < h.instances.size := by
  unfold attr? attrsAt at hv
  cases hget : h.get? addr with
  | none =>
    rw [hget] at hv
    cases hv
  | some i => exact (Array.getElem?_eq_some_iff.1 hget).1

theorem Keeps.attr? (hh : h.Keeps h') {addr : Nat} {name : String} {v : Value}
    (hv : h.attr? addr name = some v) : h'.attr? addr name = some v := by
  have hget := hh.get? addr (lt_size_of_attr? hv)
  unfold Heap.attr? attrsAt at hv ⊢
  rwa [hget]

end Heap

/-- Only the heap differs, and what was on it is unchanged. -/
structure World.Keeps (w w' : World) : Prop where
  heap : w.heap.Keeps w'.heap
  rest : { w with heap := w'.heap } = w'

theorem World.Keeps.refl (w : World) : w.Keeps w := ⟨.refl _, rfl⟩

theorem World.Keeps.trans {w w' w'' : World} (hw : w.Keeps w') (hw' : w'.Keeps w'') :
    w.Keeps w'' := by
  refine ⟨hw.heap.trans hw'.heap, ?_⟩
  calc { w with heap := w''.heap } = { { w with heap := w'.heap } with heap := w''.heap } := rfl
    _ = { w' with heap := w''.heap } := by rw [hw.rest]
    _ = w'' := hw'.rest

section Keeping

variable {Γ : Program}

/-- The computation keeps what is on the heap, whether it succeeds or not. -/
def KeepsHeap {α : Type} (x : Eval α) : Prop :=
  ∀ w : World, w.heap.Keeps (x.run.run w).2.heap

/-- The computation places objects on the heap at most, whether it succeeds or not. -/
def KeepsWorld {α : Type} (x : Eval α) : Prop := ∀ w : World, w.Keeps (x.run.run w).2

namespace KeepsWorld

variable {α β : Type}

theorem keepsHeap {x : Eval α} (hx : KeepsWorld x) : KeepsHeap x := fun w => (hx w).heap

theorem pure (a : α) : KeepsWorld (Pure.pure a : Eval α) := fun _ => .refl _

theorem throw (e : Failure) : KeepsWorld (MonadExcept.throw e : Eval α) := fun _ => .refl _

theorem bind {x : Eval α} {f : α → Eval β} (hx : KeepsWorld x) (hf : ∀ a, KeepsWorld (f a)) :
    KeepsWorld (x >>= f) :=
  relates_run_bind World.Keeps.trans hx hf

theorem mapM {as : List α} {f : α → Eval β} (hf : ∀ a, KeepsWorld (f a)) :
    KeepsWorld (as.mapM f) := by
  induction as with
  | nil => exact .pure _
  | cons a as ih =>
    rw [List.mapM_cons]
    exact .bind (hf a) fun _ => .bind ih fun _ => .pure _

end KeepsWorld

theorem keepsWorld_converting (p : Plan) (v : Value) : KeepsWorld (Γ.converting p v) := by
  intro w
  rw [run_converting]
  exact .refl _

theorem keepsWorld_newCell (v : Value) : KeepsWorld (Eval.newCell v) :=
  fun w => ⟨Heap.keeps_alloc w.heap _, rfl⟩

theorem keepsWorld_contentOf (v : Value) : KeepsWorld (Γ.contentOf v) := by
  refine .bind (fun _ => .refl _) fun h => ?_
  split
  · exact .pure _
  · exact .throw _

theorem keepsWorld_marshal (s : Slot) (v : Value) : KeepsWorld (Γ.marshal s v) := by
  unfold marshal
  split
  · exact keepsWorld_converting _ _
  · exact .bind (keepsWorld_converting _ _) keepsWorld_newCell
  · split
    · exact .pure _
    · exact .throw _
  · split
    · exact .bind (keepsWorld_contentOf _) fun _ =>
        .bind (keepsWorld_converting _ _) keepsWorld_newCell
    · exact .throw _
  · split
    · exact .bind (keepsWorld_contentOf _) fun _ => keepsWorld_converting _ _
    · exact .throw _

theorem keepsWorld_marshalAll (slots : List Slot) (bound : Value) (args : List Value) :
    KeepsWorld (Γ.marshalAll slots bound args) :=
  .mapM fun _ => keepsWorld_marshal _ _

theorem keepsHeap_marshal (s : Slot) (v : Value) : KeepsHeap (Γ.marshal s v) :=
  (keepsWorld_marshal s v).keepsHeap

theorem keepsHeap_marshalAll (slots : List Slot) (bound : Value) (args : List Value) :
    KeepsHeap (Γ.marshalAll slots bound args) :=
  (keepsWorld_marshalAll slots bound args).keepsHeap

/-- On the way to the member nothing that was on the heap is changed. -/
theorem keepsWorld_deliver (a : Adapter) (args : List Value) : KeepsWorld (a.deliver Γ args) := by
  induction a generalizing args with
  | member p =>
    unfold Adapter.deliver
    split
    · split
      · exact .throw _
      · exact keepsWorld_marshalAll _ _ _
    · exact .throw _
  | overAdapter l source inner ih =>
    unfold Adapter.deliver
    split
    · exact .bind (keepsWorld_marshalAll _ _ _) ih
    · exact .throw _
  | overCallable l source =>
    unfold Adapter.deliver
    split
    · exact keepsWorld_marshalAll _ _ _
    · exact .throw _

theorem keepsHeap_deliver (a : Adapter) (args : List Value) : KeepsHeap (a.deliver Γ args) :=
  (keepsWorld_deliver a args).keepsHeap

/-- Converting what the member gave changes nothing. -/
theorem world_conclude (a : Adapter) (raw : Value) (w : World) :
    ((a.conclude Γ raw).run.run w).2 = w := by
  induction a with
  | member p => exact congrArg Prod.snd (run_converting Γ p.result raw w)
  | overCallable l source => exact congrArg Prod.snd (run_converting Γ l.result raw w)
  | overAdapter l source inner ih =>
    exact (world_bind_converting Γ l.result (inner.conclude Γ raw) w).trans ih

end Keeping

/-! ## Calls -/

section Calls

variable {Γ : Program} {R : Reuse} {p : SignaturePlan} {a : Adapter} {rt : Runtime}
  {args values : List Value} {w w' : World}

/-- A signature with a receiver, or one that needs none, is called through its slots. -/
theorem run_of_planned (hR : BetweenSpellings R) {h : Heap} {shape : Shape} {t : Target}
    {bound : Value} (hp : p.Planned Γ R h shape t bound) (hnull : p.nullReceiver = false)
    (hargs : args.length = p.shape.arity) :
    (p.run Γ rt args).run.run w = (p.runGeneral Γ rt args).run.run w := by
  cases hp with
  | free _ hslots =>
    rw [← run_member_of_arity hnull hslots rfl hargs, Adapter.call, if_pos hargs]
  | captured hbound _ hc =>
    have hunbound := isUnbound_captured hR hc hbound
    unfold SignaturePlan.run
    rw [hnull, if_neg Bool.false_ne_true, if_neg]
    simp [SignaturePlan.isDirect, hunbound]

/-- A call delivers the inputs, invokes the member and converts what it gave, layer by layer. -/
theorem run_call_of_planned (hR : BetweenSpellings R) (ha : a.Planned Γ R p) (rt : Runtime)
    (args : List Value) (w : World) :
    (a.call Γ rt args).run.run w = (do
      let values ← a.deliver Γ args
      a.conclude Γ (← rt.invoke Γ p.target values) : Eval Value).run.run w := by
  induction ha generalizing args w with
  | member hp =>
    unfold Adapter.call Adapter.deliver
    split
    · rename_i hargs
      cases hnull : p.nullReceiver with
      | true =>
        unfold SignaturePlan.run
        rw [hnull]
        rfl
      | false =>
        rw [run_of_planned hR hp hnull hargs, runGeneral_eq]
        simp only [conclude_eq]
        rfl
    · rfl
  | @layer inner l source _ hslots ih =>
    unfold Adapter.call Adapter.deliver
    split
    · have hconclude : ∀ raw, (Adapter.overAdapter l source inner).conclude Γ raw = (do
          Γ.converting l.result (← inner.conclude Γ raw)) := fun _ => rfl
      simp only [hconclude, bind_assoc]
      refine run_bind_congr_right fun values w' hrun => ?_
      rw [run_bind_congr (ih values w')]
      simp only [bind_assoc]
    · rfl

end Calls

end CallAdapter
