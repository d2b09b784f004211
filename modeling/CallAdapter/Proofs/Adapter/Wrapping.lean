import CallAdapter.Proofs.Adapter.Lockstep
import CallAdapter.Proofs.Adapter.Soundness
import CallAdapter.Proofs.Adapter.Steady

/-!
# Two routes to an adapter

A member can be adapted to a shape directly, or to its own declared types first (its natural shape)
and from there to the shape. The slots of a natural adapter hand everything over as it is, so the layer
around it is all that works on the inputs, and its slots are those of the direct route: the adapters
do the same when they are called (`sameCalls_overAdapter`).
-/

namespace CallAdapter

open Program

/-! ## Slots that hand over -/

/-- What says that there is nothing to do. -/
structure Plan.IsIdle (p : Plan) : Prop where
  kind : p.kind = .identity
  handsOn : p.HandsOn

/-- A slot that hands its argument over as it is; where a cell is declared, only a cell. -/
structure Slot.HandsOver (i : Nat) (d : Ty) (s : Slot) : Prop where
  source : s.source = .argument i
  mode : s.mode = if d.isCell then .passThrough else .value
  idle : s.plan.IsIdle

/-- The slots from an index on hand over the arguments for the declared types. -/
inductive HandOver : Nat → List Ty → List Slot → Prop
  | nil {i : Nat} : HandOver i [] []
  | cons {i : Nat} {d : Ty} {ds : List Ty} {s : Slot} {slots : List Slot} :
    s.HandsOver i d → HandOver (i + 1) ds slots → HandOver i (d :: ds) (s :: slots)

section HandingOver

variable {Γ : Program} {i : Nat} {d : Ty} {gs ds : List Ty} {s : Slot} {slots slots' : List Slot}
  {bound : Value} {args : List Value} {w : World}

theorem applyPlan_of_isIdle {p : Plan} (hp : p.IsIdle) (h : Heap) (v : Value) :
    Γ.applyPlan h p v = .ok v := by
  have hkind : p.verdict.kind ≠ .explicitConvert := by simp [hp.kind]
  rw [applyPlan_of_handsOn hp.handsOn, runVerdict_of_kind_ne hkind]

theorem run_marshal_of_handsOver (hs : s.HandsOver i d) (v : Value) :
    (Γ.marshal s v).run.run w =
      (if d.isCell = true ∧ Γ.isCellValue v = false then .error (Γ.notACell v) else .ok v, w) := by
  unfold marshal
  rw [hs.mode]
  cases hd : d.isCell with
  | false =>
    show (Γ.converting s.plan v).run.run w = _
    rw [run_converting, applyPlan_of_isIdle hs.idle, if_neg (fun h => nomatch h.1)]
  | true =>
    show (if Γ.isCellValue v = true then pure v else throw (Γ.notACell v) : Eval Value).run.run w = _
    cases hv : Γ.isCellValue v <;> rfl

/-- Slots that hand over the arguments for the same types do the same. -/
theorem marshalAll_eq_of_handOver (hs : HandOver i ds slots) (hs' : HandOver i ds slots') :
    Γ.marshalAll slots bound args = Γ.marshalAll slots' bound args := by
  induction hs generalizing slots' with
  | nil =>
    cases hs'
    rfl
  | @cons i d ds s slots hs _ ih =>
    cases hs' with
    | @cons _ _ _ s' slots' hs' hrest' =>
      have hmarshal : ∀ v, Γ.marshal s v = Γ.marshal s' v := by
        intro v
        funext w
        exact (run_marshal_of_handsOver hs v).trans (run_marshal_of_handsOver hs' v).symm
      rw [marshalAll_argument hs.source rfl, marshalAll_argument hs'.source rfl, hmarshal,
        ih hrest']

/-- Cells where cells are declared are handed over. -/
theorem run_marshalAll_of_handOver (hs : HandOver i ds slots)
    (hargs : List.Forall₂ (fun d v => d.isCell = true → Γ.isCellValue v = true) ds (args.drop i)) :
    (Γ.marshalAll slots bound args).run.run w = (.ok (args.drop i), w) := by
  induction hs with
  | nil =>
    generalize args.drop _ = rest at hargs ⊢
    cases hargs
    rfl
  | @cons i d ds s slots hs _ ih =>
    generalize hrest : args.drop i = rest at hargs ⊢
    cases hargs with
    | @cons _ v _ _ hv hvs =>
      obtain ⟨hget, hdrop⟩ := drop_eq_cons hrest
      have hmarshal := run_marshal_of_handsOver (Γ := Γ) (w := w) hs v
      rw [if_neg fun h => Bool.false_ne_true (h.2.symm.trans (hv h.1))] at hmarshal
      rw [marshalAll_argument hs.source hget, run_bind_of_ok hmarshal,
        run_bind_of_ok (ih (hdrop ▸ hvs)), hdrop]
      rfl

theorem isCellValue_newCell {v u : Value} {w' : World}
    (hrun : (Eval.newCell v).run.run w = (.ok u, w')) : Γ.isCellValue u = true := by
  obtain rfl : .object (.builtin .cell) w.heap.instances.size = u :=
    Except.ok.inj (congrArg Prod.fst hrun)
  exact derives_self_builtin Γ .cell

/-- What fills a cell parameter is a cell. -/
theorem isCellValue_of_marshal {R : Reuse} {g : Ty} (hs : s.Planned Γ R g d)
    (hd : d.isCell = true) {v u : Value} {w' : World}
    (hrun : (Γ.marshal s v).run.run w = (.ok u, w')) : Γ.isCellValue u = true := by
  unfold marshal at hrun
  rw [hs.mode, hd] at hrun
  cases hg : g.isCell with
  | false =>
    rw [hg] at hrun
    obtain ⟨_, _, -, hcell⟩ := exists_of_run_bind_eq_ok hrun
    exact isCellValue_newCell hcell
  | true =>
    rw [hg] at hrun
    cases hid : s.plan.isIdentity with
    | true =>
      rw [hid] at hrun
      change (if Γ.isCellValue v = true then pure v else throw _ : Eval Value).run.run w = _ at hrun
      split at hrun
      · exact Except.ok.inj (congrArg Prod.fst hrun) ▸ ‹_›
      · cases hrun
    | false =>
      rw [hid] at hrun
      change (if Γ.isCellValue v = true then _ else throw _ : Eval Value).run.run w = _ at hrun
      split at hrun
      · obtain ⟨_, _, -, hrun⟩ := exists_of_run_bind_eq_ok hrun
        obtain ⟨_, _, -, hcell⟩ := exists_of_run_bind_eq_ok hrun
        exact isCellValue_newCell hcell
      · cases hrun

/-- What planned slots make for cell parameters are cells. -/
theorem cells_of_marshalAll {R : Reuse} (hslots : SlotsPlanned Γ R i gs ds slots)
    {us : List Value} {w' : World}
    (hrun : (Γ.marshalAll slots bound args).run.run w = (.ok us, w')) :
    List.Forall₂ (fun d v => d.isCell = true → Γ.isCellValue v = true) ds us := by
  induction hslots generalizing w us w' with
  | nil =>
    obtain rfl : [] = us := Except.ok.inj (congrArg Prod.fst hrun)
    exact .nil
  | cons hsource hs _ ih =>
    rw [marshalAll_argument hsource rfl] at hrun
    obtain ⟨u, _, hmarshal, hrun⟩ := exists_of_run_bind_eq_ok hrun
    obtain ⟨us', _, hrest, hrun⟩ := exists_of_run_bind_eq_ok hrun
    obtain rfl : u :: us' = us := Except.ok.inj (congrArg Prod.fst hrun)
    exact .cons (fun hd => isCellValue_of_marshal hs hd hmarshal) (ih hrest)

end HandingOver

/-! ## Calls -/

/-- Failures of one class: faults with one reason, or one exception. -/
inductive Failure.Alike : Failure → Failure → Prop
  | fault {f f' : Fault} : f.kind.reason = f'.kind.reason → Failure.Alike (.fault f) (.fault f')
  | refl (e : Failure) : Failure.Alike e e

/-- Equal values, or failures of one class, in worlds that are equal. -/
inductive SameRun {α : Type} : Except Failure α × World → Except Failure α × World → Prop
  | refl (r : Except Failure α × World) : SameRun r r
  | failed {e e' : Failure} {w : World} : e.Alike e' → SameRun (.error e, w) (.error e', w)

/-- The adapters do the same wherever and with whatever they are called. -/
def Adapter.SameCalls (Γ : Program) (a b : Adapter) : Prop :=
  ∀ (rt : Runtime) (args : List Value) (w : World),
    SameRun ((a.call Γ rt args).run.run w) ((b.call Γ rt args).run.run w)

/-- The layer put on a member, as the adapter of the member to the shape of the layer. -/
def Layer.onto (l : Layer) (t : Target) : SignaturePlan :=
  { shape := l.shape, target := t, slots := l.slots, result := l.result }

section Calls

variable {Γ : Program} {rt : Runtime} {t : Target} {l n : Layer} {args : List Value} {w : World}

theorem sameRun_arityMismatch (a b : Adapter) (got : Nat) :
    SameRun ((throw (a.arityMismatch got) : Eval Value).run.run w)
      ((throw (b.arityMismatch got) : Eval Value).run.run w) :=
  .failed (.fault rfl)

/-- A free signature is called through its slots. -/
theorem run_member_of_arity {p : SignaturePlan} (hnull : p.nullReceiver = false) {R : Reuse}
    {gs : List Ty} (hslots : SlotsPlanned Γ R 0 gs p.target.inputs p.slots)
    (hgs : gs.length = p.shape.arity) (hargs : args.length = p.shape.arity) :
    ((Adapter.member p).call Γ rt args).run.run w = (p.runGeneral Γ rt args).run.run w := by
  show (if args.length = p.shape.arity then p.run Γ rt args else _ : Eval Value).run.run w = _
  rw [if_pos hargs]
  unfold SignaturePlan.run
  rw [hnull, if_neg Bool.false_ne_true]
  split
  · exact run_runDirect rt ‹_› hslots (hgs.trans hargs.symm)
      (hslots.length_eq.symm.trans (hgs.trans hargs.symm))
  · rfl

/-- Invokes a member on its inputs, unless the receiver is absent. -/
def Runtime.invoke (Γ : Program) (rt : Runtime) (t : Target) (values : List Value) : Eval Value :=
  if t.takesReceiver && (values.head?.getD .none).isNone then throw t.nullReceiver
  else rt.deliver Γ t values

/-- Once its inputs are there, a call invokes the member and converts the result. -/
theorem conclude_eq (p : SignaturePlan) (values : List Value) :
    p.conclude Γ rt values = (do Γ.converting p.result (← rt.invoke Γ p.target values)) := by
  unfold SignaturePlan.conclude Runtime.invoke
  split <;> rfl

/-- A layer on a member produces the inputs, invokes the member and converts the result. -/
theorem run_layer_onto (l : Layer) (t : Target) :
    ((l.onto t).runGeneral Γ rt args).run.run w = (do
      let values ← Γ.marshalAll l.slots .unbound args
      Γ.converting l.result (← rt.invoke Γ t values) : Eval Value).run.run w := by
  rw [runGeneral_eq]
  simp only [conclude_eq]
  rfl

/-- What a layer promises between its own shape and the inputs and result of a member. -/
structure Layer.Fits (Γ : Program) (l : Layer) (t : Target) : Prop where
  slots : SlotsPlanned Γ NoReuse 0 l.shape.params t.inputs l.slots

theorem Layer.Fits.arity_eq (hl : l.Fits Γ t) : l.shape.arity = t.inputs.length :=
  hl.slots.length_eq

theorem run_onto_of_arity {R : Reuse}
    (hl : SlotsPlanned Γ R 0 l.shape.params t.inputs l.slots)
    (hargs : args.length = l.shape.arity) :
    ((Adapter.member (l.onto t)).call Γ rt args).run.run w = (do
      let values ← Γ.marshalAll l.slots .unbound args
      Γ.converting l.result (← rt.invoke Γ t values) : Eval Value).run.run w :=
  (run_member_of_arity rfl hl rfl hargs).trans (run_layer_onto l t)

/-- The layer hands everything over, and the result back. -/
structure Layer.HandsOver (l : Layer) (t : Target) : Prop where
  slots : HandOver 0 t.inputs l.slots
  result : l.result.IsIdle

/-- Two layers that hand everything over do the same. -/
theorem sameCalls_of_handsOver (hl : l.Fits Γ t) (hn : n.Fits Γ t) (hl' : l.HandsOver t)
    (hn' : n.HandsOver t) : (Adapter.member (l.onto t)).SameCalls Γ (.member (n.onto t)) := by
  intro rt args w
  have harity : l.shape.arity = n.shape.arity := hl.arity_eq.trans hn.arity_eq.symm
  by_cases hargs : args.length = l.shape.arity
  · rw [run_onto_of_arity hl.slots hargs, run_onto_of_arity hn.slots (hargs.trans harity)]
    have hresult : Γ.converting l.result = Γ.converting n.result := by
      funext v w
      show (Γ.converting l.result v).run.run w = (Γ.converting n.result v).run.run w
      rw [run_converting, run_converting, applyPlan_of_isIdle hl'.result,
        applyPlan_of_isIdle hn'.result]
    rw [marshalAll_eq_of_handOver hl'.slots hn'.slots, hresult]
    exact .refl _
  · show SameRun ((if args.length = l.shape.arity then _ else _ : Eval Value).run.run w)
      ((if args.length = n.shape.arity then _ else _ : Eval Value).run.run w)
    rw [if_neg hargs, if_neg (harity ▸ hargs)]
    exact sameRun_arityMismatch (.member (l.onto t)) (.member (n.onto t)) _

/-- An adapter that hands everything over invokes the member with what it is given. -/
theorem run_handsOver {R : Reuse} (rt : Runtime) (w : World)
    (hn : SlotsPlanned Γ R 0 n.shape.params t.inputs n.slots) (hn' : n.HandsOver t)
    {values : List Value}
    (hcells : List.Forall₂ (fun d v => d.isCell = true → Γ.isCellValue v = true) t.inputs values) :
    ((Adapter.member (n.onto t)).call Γ rt values).run.run w =
      (rt.invoke Γ t values).run.run w := by
  have hslots : (Γ.marshalAll n.slots .unbound values).run.run w = (.ok values, w) :=
    run_marshalAll_of_handOver hn'.slots hcells
  have harity : values.length = n.shape.arity := hcells.length_eq.symm.trans hn.length_eq.symm
  rw [run_onto_of_arity hn harity, run_bind_of_ok hslots]
  exact run_bind_converting (fun h v => applyPlan_of_isIdle hn'.result h v) _ w

/-- Around an adapter that hands everything over, a layer does what it does on the member. -/
theorem sameCalls_overAdapter (hl : l.Fits Γ t) (hn : n.Fits Γ t) (hn' : n.HandsOver t)
    (source : Value) :
    (Adapter.member (l.onto t)).SameCalls Γ (.overAdapter l source (.member (n.onto t))) := by
  intro rt args w
  by_cases hargs : args.length = l.shape.arity
  · have heq : ((Adapter.member (l.onto t)).call Γ rt args).run.run w =
        (do
          let values ← Γ.marshalAll l.slots .unbound args
          Γ.converting l.result (← (Adapter.member (n.onto t)).call Γ rt values) :
          Eval Value).run.run w := by
      rw [run_onto_of_arity hl.slots hargs]
      refine run_bind_congr_right fun values w' hrun => run_bind_congr ?_
      exact (run_handsOver rt w' hn.slots hn' (cells_of_marshalAll hl.slots hrun)).symm
    rw [heq]
    show SameRun _ ((if args.length = l.shape.arity then _ else _ : Eval Value).run.run w)
    rw [if_pos hargs]
    exact .refl _
  · show SameRun ((if args.length = l.shape.arity then _ else _ : Eval Value).run.run w)
      ((if args.length = l.shape.arity then _ else _ : Eval Value).run.run w)
    rw [if_neg hargs, if_neg hargs]
    exact sameRun_arityMismatch (.member (l.onto t)) (.overAdapter l source (.member (n.onto t))) _

end Calls

end CallAdapter
