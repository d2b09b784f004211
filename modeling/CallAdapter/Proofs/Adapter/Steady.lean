import CallAdapter.Proofs.Adapter.Signature
import CallAdapter.Proofs.Conversion.Steady

/-!
# Signatures are planned once

A planner that lined a shape up with a member does so again, slot by slot, whatever it was asked in
between (`steady_planSignature`). On planners that keep nothing there is one answer to each
question.
-/

namespace CallAdapter

open Program

section Run

variable {α β : Type} {x : MatchM α} {f : α → MatchM β} {p q : Planner}

theorem run_match_bind_of_ok {a : α} (h : x.run.run.run p = (.ok (.ok a), q)) :
    (x >>= f).run.run.run p = (f a).run.run.run q :=
  run_bind_of_ok (x := x.run) h

theorem run_match_bind_of_mismatch {m : Mismatch} (h : x.run.run.run p = (.ok (.error m), q)) :
    (x >>= f).run.run.run p = (.ok (.error m), q) :=
  run_bind_of_ok (x := x.run) h

theorem run_match_bind_of_error {e : Failure} (h : x.run.run.run p = (.error e, q)) :
    (x >>= f).run.run.run p = (.error e, q) :=
  run_bind_of_error (x := x.run) h

theorem run_match_lift {y : PlanM α} {a : α} (h : y.run.run p = (.ok a, q)) :
    (liftM y : MatchM α).run.run.run p = (.ok (.ok a), q) :=
  run_bind_of_ok h

theorem run_match_lift_of_error {y : PlanM α} {e : Failure} (h : y.run.run p = (.error e, q)) :
    (liftM y : MatchM α).run.run.run p = (.error e, q) :=
  run_bind_of_error h

end Run

/-- The match stays the same on every planner that remembers it. -/
abbrev SteadyMatch {α : Type} (x : MatchM α) : Prop := Steady x.run

namespace SteadyMatch

variable {α β : Type}

theorem pure (a : α) : SteadyMatch (Pure.pure a) := Steady.pure _

theorem throw (m : Mismatch) : SteadyMatch (throwThe Mismatch m : MatchM α) := Steady.pure _

theorem fail (e : Failure) : SteadyMatch (throwThe Failure e : MatchM α) := Steady.throw _

theorem lift {x : PlanM α} (hx : Steady x) : SteadyMatch (liftM x : MatchM α) :=
  .bind hx fun _ => .pure _

theorem bind {x : MatchM α} {f : α → MatchM β} (hx : SteadyMatch x)
    (hf : ∀ a, SteadyMatch (f a)) : SteadyMatch (x >>= f) :=
  Steady.bind hx fun r => by
    cases r with
    | ok a => exact hf a
    | error m => exact Steady.pure _

end SteadyMatch

section Planning

variable {Γ : Program} {h : Heap}

/-- The slot between two types, from the plan for their contents. -/
theorem run_planSlot {i : Nat} {g d : Ty} {plan : Plan} {p q : Planner}
    (h : (Γ.planByRef g d).run.run p = (.ok plan, q)) :
    (Γ.planSlot i g d).run.run.run p =
      (.ok (if plan.isPossible then
          .ok ⟨.argument i, plan, SlotMode.of g.isCell d.isCell plan.isIdentity⟩
        else .error (.slot i g d)), q) := by
  rw [planSlot_eq, run_match_bind_of_ok (run_match_lift h)]
  split <;> rfl

/-- Lining up plans the slots, and then the result. -/
theorem run_lineUp (shape : Shape) (t : Target) (remaining : List Ty) (captured : Option Capture)
    (p : Planner) :
    (Γ.lineUp shape t remaining captured).run.run.run p =
      match (Γ.planSlots 0 shape.params remaining).run.run.run p with
      | (.error e, q) => (.error e, q)
      | (.ok (.error m), q) => (.ok (.error m), q)
      | (.ok (.ok slots), q) =>
        match (Γ.planResult t.result shape.returns).run.run q with
        | (.error e, q) => (.error e, q)
        | (.ok result, q) =>
          (.ok (if result.isPossible then
            .ok
              { shape := shape, target := t
                slots := (captured.map (·.slot)).toList ++ slots
                result := result
                bound := (captured.map (·.value)).getD .unbound
                nullReceiver := (captured.map (·.nullReceiver)).getD false }
            else .error (.result t.result shape.returns)), q) := by
  unfold lineUp
  rcases hslots : (Γ.planSlots 0 shape.params remaining).run.run.run p with ⟨e | m | slots, q⟩
  · exact run_match_bind_of_error hslots
  · exact run_match_bind_of_mismatch hslots
  rw [run_match_bind_of_ok hslots]
  dsimp only
  rcases hresult : (Γ.planResult t.result shape.returns).run.run q with ⟨e | result, q'⟩
  · exact run_match_bind_of_error (run_match_lift_of_error hresult)
  · rw [run_match_bind_of_ok (run_match_lift hresult)]
    dsimp only
    split <;> rfl

/-- So does planning a layer. -/
theorem run_planLayer {shape inner : Shape} (harity : inner.arity = shape.arity) (p : Planner) :
    (Γ.planLayer shape inner).run.run p =
      match (Γ.planSlots 0 shape.params inner.params).run.run.run p with
      | (.error e, q) => (.error e, q)
      | (.ok (.error _), q) => (.ok none, q)
      | (.ok (.ok slots), q) =>
        match (Γ.planResult inner.returns shape.returns).run.run q with
        | (.error e, q) => (.error e, q)
        | (.ok result, q) =>
          (.ok (if result.isPossible then some ⟨shape, slots, result⟩ else none), q) := by
  unfold planLayer
  rw [if_neg (not_not_intro harity)]
  rcases hslots : (Γ.planSlots 0 shape.params inner.params).run.run.run p with ⟨e | m | slots, q⟩
  · exact run_bind_of_error hslots
  · rw [run_bind_of_ok hslots]
    rfl
  rw [run_bind_of_ok hslots]
  dsimp only
  rcases hresult : (Γ.planResult inner.returns shape.returns).run.run q with ⟨e | result, q'⟩
  · exact run_bind_of_error hresult
  · rw [run_bind_of_ok hresult]
    rfl

/-- The slots of a layer are planned between its shape and the shape of what it adapts. -/
theorem slotsPlanned_of_planLayer {keeps : Bool} {R : Reuse} {shape inner : Shape} {l : Layer}
    {p : Planner} (hp : p.Sound Γ keeps NormalPair R)
    (hl : ((Γ.planLayer shape inner).run.run p).1 = .ok (some l)) :
    l.shape = shape ∧ SlotsPlanned Γ R 0 shape.params inner.params l.slots := by
  by_cases harity : inner.arity = shape.arity
  · obtain ⟨-, hyields⟩ := planSlots_yields (Γ := Γ) 0
      (show shape.params.length = inner.params.length from harity.symm) p hp
    rw [run_planLayer harity] at hl
    split at hl
    · cases hl
    · cases hl
    · rename_i slots q hslots
      rw [hslots] at hyields
      split at hl
      · cases hl
      · dsimp only at hl
        split at hl
        · obtain rfl := Option.some.inj (Except.ok.inj hl)
          exact ⟨rfl, hyields slots rfl⟩
        · cases hl
  · unfold planLayer at hl
    rw [if_pos harity] at hl
    cases hl

/-- An adapter for a member without open type variables is made of its signature. -/
theorem run_adapterFor {t : Target} (hgeneric : t.isGeneric = false) (shape : Shape) (bound : Value)
    (p : Planner) :
    (Γ.adapterFor h (some shape) (some t) bound).run.run p =
      let out := (Γ.planSignature h shape t bound).run.run.run p
      (out.1.map fun r => r.toOption.map .member, out.2) := by
  unfold adapterFor
  dsimp only [Target.stated]
  rw [hgeneric, if_neg Bool.false_ne_true]
  rcases hrun : (Γ.planSignature h shape t bound).run.run.run p with ⟨e | m | sig, q⟩
  · exact run_bind_of_error hrun
  all_goals
    rw [run_bind_of_ok hrun]
    rfl

/-- An adapter that was made for a member has a signature, and the member no open type variables. -/
theorem exists_of_run_adapterFor {t : Target} {shape : Shape} {bound : Value} {a : Adapter}
    {p q : Planner}
    (hrun : (Γ.adapterFor h (some shape) (some t) bound).run.run p = (.ok (some a), q)) :
    t.isGeneric = false ∧ ∃ sig, a = .member sig ∧
      (Γ.planSignature h shape t bound).run.run.run p = (.ok (.ok sig), q) := by
  cases hgeneric : t.isGeneric with
  | true =>
    unfold adapterFor at hrun
    dsimp only [Target.stated] at hrun
    rw [hgeneric, if_pos rfl] at hrun
    cases hrun
  | false =>
    refine ⟨rfl, ?_⟩
    rw [run_adapterFor hgeneric] at hrun
    rcases hsig : (Γ.planSignature h shape t bound).run.run.run p with ⟨e | m | sig, q'⟩ <;>
      rw [hsig] at hrun <;> cases hrun
    exact ⟨sig, rfl, rfl⟩

theorem steady_planSlot (i : Nat) (g d : Ty) : SteadyMatch (Γ.planSlot i g d) := by
  rw [planSlot_eq]
  refine .bind (.lift (.plan _ _)) fun plan => ?_
  split
  · exact .pure _
  · exact .throw _

theorem steady_planSlots (i : Nat) (gs ds : List Ty) : SteadyMatch (Γ.planSlots i gs ds) := by
  induction gs generalizing i ds with
  | nil => exact .pure _
  | cons g gs ih =>
    cases ds with
    | nil => exact .pure _
    | cons d ds =>
      exact .bind (steady_planSlot i g d) fun _ => .bind (ih _ _) fun _ => .pure _

theorem steady_capture (t : Target) (declared : Ty) (bound : Value) :
    SteadyMatch (Γ.capture h t declared bound) := by
  unfold capture
  split
  · exact .bind (.lift (.plan _ _)) fun _ => .pure _
  · refine .bind (.lift (.plan _ _)) fun plan => ?_
    split
    · split
      · exact .bind (.lift (.plan _ _)) fun _ => .pure _
      · split
        · exact .throw _
        · exact .fail _
      · exact .fail _
    · exact .throw _

theorem steady_lineUp (shape : Shape) (t : Target) (remaining : List Ty)
    (captured : Option Capture) : SteadyMatch (Γ.lineUp shape t remaining captured) := by
  refine .bind (steady_planSlots _ _ _) fun slots => .bind (.lift (.planResult _ _)) fun result => ?_
  split
  · exact .pure _
  · exact .throw _

/-- A shape and a member that were lined up are lined up in the same way again. -/
theorem steady_planSignature (shape : Shape) (t : Target) (bound : Value) :
    SteadyMatch (Γ.planSignature h shape t bound) := by
  unfold planSignature
  split
  · split
    · exact steady_lineUp _ _ _ _
    · exact .throw _
  split
  · exact .throw _
  split
  · exact .bind (steady_capture _ _ _) fun _ => steady_lineUp _ _ _ _
  · exact .throw _

theorem steady_adapterFor (shape : Option Shape) (t : Option Target) (bound : Value) :
    Steady (Γ.adapterFor h shape t bound) := by
  unfold adapterFor
  split
  · exact .throw _
  split
  · exact .throw _
  split
  · exact .pure _
  · refine .bind (steady_planSignature _ _ _) fun r => ?_
    cases r <;> exact .pure _

theorem steady_planLayer (shape inner : Shape) : Steady (Γ.planLayer shape inner) := by
  unfold planLayer
  split
  · exact .pure _
  · refine .bind (steady_planSlots _ _ _) fun r => ?_
    cases r with
    | error m => exact .pure _
    | ok slots => exact .bind (.planResult _ _) fun _ => .pure _

end Planning

end CallAdapter
