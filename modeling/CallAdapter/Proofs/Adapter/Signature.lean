import CallAdapter.Proofs.Adapter.Slot

/-!
# What planning a signature promises

`SignaturePlan.Planned` says what is true of every plan that `planSignature` gives: each slot
carries a sound conversion from the type of its source to the declared type of its input, a
captured value has been converted to the first input, and the result reaches the result type of
the shape (`planSignature_yields`). It holds for planners with any history.
-/

namespace CallAdapter

open Program

/-- From a planner with the invariant, the computation ends in one, and a match that it finds is
good. -/
def Yields {α : Type} (Inv : Planner → Prop) (x : MatchM α) (good : α → Prop) : Prop :=
  Keeps Inv x.run (OutcomeIs (fun r => ∀ a, r = .ok a → good a) fun _ => True)

namespace Yields

variable {α β : Type} {Inv : Planner → Prop} {good : α → Prop} {good' : β → Prop}

theorem pure {a : α} (h : good a) : Yields Inv (Pure.pure a) good :=
  Keeps.pure fun _ ha => Except.ok.inj ha ▸ h

theorem throw {m : Mismatch} : Yields Inv (throwThe Mismatch m : MatchM α) good :=
  Keeps.pure fun _ ha => by cases ha

theorem fail {e : Failure} : Yields Inv (throwThe Failure e : MatchM α) good :=
  Keeps.throw trivial

theorem bind {x : MatchM α} {f : α → MatchM β} (hx : Yields Inv x good)
    (hf : ∀ a, good a → Yields Inv (f a) good') : Yields Inv (x >>= f) good' := by
  refine Keeps.bind hx (fun _ _ => trivial) fun r hr => ?_
  cases r with
  | ok a => exact hf a (hr a rfl)
  | error m => exact .pure fun _ ha => by cases ha

theorem lift {x : PlanM α} {post : Except Failure α → Prop} (hx : Keeps Inv x post) :
    Yields Inv (liftM x : MatchM α) fun a => post (.ok a) := by
  refine Keeps.bind hx (fun _ _ => trivial) fun a ha => ?_
  exact .pure fun b hb => Except.ok.inj hb ▸ ha

end Yields

section Signature

variable {Γ : Program} {keeps : Bool} {R : Reuse} {h : Heap}

/-- The slots from an index on, between the parameters of a shape and declared types. -/
inductive SlotsPlanned (Γ : Program) (R : Reuse) : Nat → List Ty → List Ty → List Slot → Prop
  | nil {i : Nat} : SlotsPlanned Γ R i [] [] []
  | cons {i : Nat} {g d : Ty} {gs ds : List Ty} {s : Slot} {slots : List Slot} :
    s.source = .argument i → s.Planned Γ R g d → SlotsPlanned Γ R (i + 1) gs ds slots →
    SlotsPlanned Γ R i (g :: gs) (d :: ds) (s :: slots)

/-- The value captured for the first input: nothing where a receiver is expected, or the given
value converted to the input, or to the content of a cell that is an input. -/
inductive Capture.Planned (Γ : Program) (R : Reuse) (h : Heap) (t : Target) (declared : Ty)
    (bound : Value) : Capture → Prop
  | missing {q : Plan} : bound.isNone = true → t.takesReceiver = true →
    Capture.Planned Γ R h t declared bound ⟨⟨.bound, q, .value⟩, .none, true⟩
  | converted {p q : Plan} {v : Value} :
    Γ.PlanAnswer R (Γ.className bound).normalize declared.content.normalize (.ok p) →
    p.isPossible = true → Γ.applyPlan h p bound = .ok v → Γ.PlanAnswer R .any .any (.ok q) →
    Capture.Planned Γ R h t declared bound
      ⟨⟨.bound, q, if declared.isCell then .temporary else .value⟩, v, false⟩

/-- The result of the member reaches the result of the shape. -/
structure ResultPlanned (Γ : Program) (R : Reuse) (given wanted : Ty) (p : Plan) : Prop where
  possible : p.isPossible = true
  answer : Γ.MemoAnswer R .results given.normalize wanted.normalize (.ok p)

/-- What planning promises about a shape, a member and a bound value that fit. -/
inductive SignaturePlan.Planned (Γ : Program) (R : Reuse) (h : Heap) (shape : Shape) (t : Target)
    (bound : Value) : SignaturePlan → Prop
  | free {slots : List Slot} {result : Plan} : bound.isUnbound = true →
    SlotsPlanned Γ R 0 shape.params t.inputs slots →
    ResultPlanned Γ R t.result shape.returns result →
    SignaturePlan.Planned Γ R h shape t bound ⟨shape, t, slots, result, .unbound, false⟩
  | captured {declared : Ty} {remaining : List Ty} {c : Capture} {slots : List Slot}
      {result : Plan} : bound.isUnbound = false → t.inputs = declared :: remaining →
    c.Planned Γ R h t declared bound → SlotsPlanned Γ R 0 shape.params remaining slots →
    ResultPlanned Γ R t.result shape.returns result →
    SignaturePlan.Planned Γ R h shape t bound
      ⟨shape, t, c.slot :: slots, result, c.value, c.nullReceiver⟩

theorem SlotsPlanned.length_eq {i : Nat} {gs ds : List Ty} {slots : List Slot}
    (hslots : SlotsPlanned Γ R i gs ds slots) : gs.length = ds.length := by
  induction hslots with
  | nil => rfl
  | cons _ _ _ ih => rw [List.length_cons, List.length_cons, ih]

theorem Capture.Planned.source_eq {t : Target} {declared : Ty} {bound : Value} {c : Capture}
    (hc : c.Planned Γ R h t declared bound) : c.slot.source = .bound := by
  cases hc <;> rfl

theorem SignaturePlan.Planned.shape_eq {shape : Shape} {t : Target} {bound : Value}
    {p : SignaturePlan} (hp : p.Planned Γ R h shape t bound) : p.shape = shape := by
  cases hp <;> rfl

theorem content_of_not_isCell {t : Ty} (ht : t.isCell = false) : t.content = t := by
  rw [Ty.content, ht]
  rfl

/-- A slot is planned on contents, whether or not cells are involved. -/
theorem planSlot_eq (i : Nat) (g d : Ty) :
    Γ.planSlot i g d = (do
      let plan ← (Γ.planByRef g d : PlanM Plan)
      if plan.isPossible then
        pure ⟨.argument i, plan, SlotMode.of g.isCell d.isCell plan.isIdentity⟩
      else throw (.slot i g d)) := by
  unfold planSlot
  split
  · rfl
  · rename_i hcell
    rw [Bool.or_eq_true, not_or, Bool.not_eq_true, Bool.not_eq_true] at hcell
    rw [planByRef, content_of_not_isCell hcell.1, content_of_not_isCell hcell.2]

/-- Without a bound value, a shape is lined up with all inputs. -/
theorem planSignature_unbound (shape : Shape) (t : Target) :
    Γ.planSignature h shape t .unbound =
      if shape.arity = t.inputs.length then Γ.lineUp shape t t.inputs none
      else throw (.argumentCount t t.inputs.length shape.arity) :=
  if_pos rfl

theorem plan_keeps_normal (s d : Ty) :
    Keeps (Planner.Sound Γ keeps NormalPair R) (Γ.plan s d)
      (Γ.PlanAnswer R s.normalize d.normalize) :=
  plan_keeps closedPairs_normalPair ⟨Ty.normalize_normalize s, Ty.normalize_normalize d⟩

theorem planSlot_yields (i : Nat) (g d : Ty) :
    Yields (Planner.Sound Γ keeps NormalPair R) (Γ.planSlot i g d) fun s =>
      s.source = .argument i ∧ s.Planned Γ R g d := by
  rw [planSlot_eq]
  refine .bind (.lift (plan_keeps_normal g.content d.content)) fun plan hplan => ?_
  split
  · exact .pure ⟨rfl, rfl, ‹_›, hplan⟩
  · exact .throw

theorem planSlots_yields (i : Nat) {gs ds : List Ty} (hlen : gs.length = ds.length) :
    Yields (Planner.Sound Γ keeps NormalPair R) (Γ.planSlots i gs ds)
      (SlotsPlanned Γ R i gs ds) := by
  induction gs generalizing i ds with
  | nil =>
    obtain rfl := List.length_eq_zero_iff.1 hlen.symm
    exact .pure .nil
  | cons g gs ih =>
    cases ds with
    | nil => cases hlen
    | cons d ds =>
      refine .bind (planSlot_yields i g d) fun s hs => ?_
      refine .bind (ih (i + 1) (Nat.succ.inj hlen)) fun slots hslots => ?_
      exact .pure (.cons hs.1 hs.2 hslots)

theorem capture_yields (t : Target) (declared : Ty) (bound : Value) :
    Yields (Planner.Sound Γ keeps NormalPair R) (Γ.capture h t declared bound)
      (Capture.Planned Γ R h t declared bound) := by
  have hany : Ty.any.normalize = .any := by simp [Ty.normalize]
  have hkeep : Keeps (Planner.Sound Γ keeps NormalPair R) (Γ.plan .any .any)
      (Γ.PlanAnswer R .any .any) := by
    have hplan : Keeps (Planner.Sound Γ keeps NormalPair R) (Γ.plan .any .any)
        (Γ.PlanAnswer R (Ty.normalize .any) (Ty.normalize .any)) := plan_keeps_normal .any .any
    rwa [hany] at hplan
  unfold capture
  split
  · rename_i hmissing
    rw [Bool.and_eq_true] at hmissing
    refine .bind (.lift (plan_keeps_normal .none .any)) fun _ _ => ?_
    exact .pure (.missing hmissing.1 hmissing.2)
  · refine .bind (.lift (plan_keeps_normal (Γ.className bound) declared.content)) ?_
    intro plan hplan
    split
    · split
      · exact .bind (.lift hkeep) fun q hq => .pure (.converted hplan ‹_› ‹_› hq)
      · split
        · exact .throw
        · exact .fail
      · exact .fail
    · exact .throw

theorem planResult_keeps (s d : Ty) :
    Keeps (Planner.Sound Γ keeps NormalPair R) (Γ.planResult s d)
      (Γ.MemoAnswer R .results s.normalize d.normalize) := by
  have hn : NormalPair s.normalize d.normalize :=
    ⟨Ty.normalize_normalize s, Ty.normalize_normalize d⟩
  exact remembered_keeps hn (resultPlan_keeps closedPairs_normalPair hn)

theorem lineUp_yields {shape : Shape} {t : Target} {remaining : List Ty}
    {captured : Option Capture} {good : SignaturePlan → Prop}
    (hlen : shape.params.length = remaining.length)
    (hgood : ∀ slots result, SlotsPlanned Γ R 0 shape.params remaining slots →
      ResultPlanned Γ R t.result shape.returns result →
      good
        { shape := shape, target := t
          slots := (captured.map (·.slot)).toList ++ slots
          result := result
          bound := (captured.map (·.value)).getD .unbound
          nullReceiver := (captured.map (·.nullReceiver)).getD false }) :
    Yields (Planner.Sound Γ keeps NormalPair R) (Γ.lineUp shape t remaining captured) good := by
  refine .bind (planSlots_yields 0 hlen) fun slots hslots => ?_
  refine .bind (.lift (planResult_keeps t.result shape.returns)) fun result hresult => ?_
  split
  · exact .pure (hgood slots result hslots ⟨‹_›, hresult⟩)
  · exact .throw

/-- Whatever a planner was asked before, the plan that it gives for a signature is as promised. -/
theorem planSignature_yields (shape : Shape) (t : Target) (bound : Value) :
    Yields (Planner.Sound Γ keeps NormalPair R) (Γ.planSignature h shape t bound)
      (SignaturePlan.Planned Γ R h shape t bound) := by
  unfold planSignature
  split
  · split
    · exact lineUp_yields ‹_› fun slots result hslots hresult => .free ‹_› hslots hresult
    · exact .throw
  · rename_i hbound
    rw [Bool.not_eq_true] at hbound
    split
    · exact .throw
    · rename_i declared remaining hinputs
      split
      · refine .bind (capture_yields t declared bound) fun c hc => ?_
        exact lineUp_yields ‹_› fun slots result hslots hresult =>
          .captured hbound hinputs hc hslots hresult
      · exact .throw

theorem planned_of_planSignature {shape : Shape} {t : Target} {bound : Value} {q : Planner}
    {sig : SignaturePlan} (hq : q.Sound Γ keeps NormalPair R)
    (hplan : ((Γ.planSignature h shape t bound).run.run.run q).1 = .ok (.ok sig)) :
    sig.Planned Γ R h shape t bound := by
  have hyields := (planSignature_yields (h := h) shape t bound q hq).2
  rw [hplan] at hyields
  exact hyields sig rfl

end Signature

end CallAdapter
