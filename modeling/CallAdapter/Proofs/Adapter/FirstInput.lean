import CallAdapter.Proofs.Adapter.Application

/-!
# The first input, captured or given

A member that a value is captured for and a member that takes an argument of the value's class are
lined up with a shape in one way: where the value is accepted for the first input, both fit or
neither does, and planning is refused for both or for neither (`Planner.Accepts.alongside`). So
the two signatures differ in the plan of the first slot alone. A planner that has answered the
questions that come up is asked, since it answers them in any order (`Planner.Settles`).
-/

namespace CallAdapter

open Program Planner

/-! ## Questions that are settled -/

/-- Every planner that remembers this one has the same answer. -/
def Planner.Settles {α : Type} (q : Planner) (x : PlanM α) : Prop :=
  ∀ q' : Planner, q'.Remembers q → (x.run.run q').1 = (x.run.run q).1

/-- What two matches come to on planners that remember this one: both are refused alike, or neither
matches, or both do and what they give is related. -/
def Planner.Alongside {α β : Type} (q : Planner) (x : MatchM α) (y : MatchM β)
    (rel : α → β → Prop) : Prop :=
  ∀ q' q'' : Planner, q'.Remembers q → q''.Remembers q →
    Agree (Matched rel) (x.run.run.run q').1 (y.run.run.run q'').1

namespace Planner

section Settled

variable {α β γ δ : Type} {p q q' : Planner}

theorem Settles.mono {x : PlanM α} (hx : q.Settles x) (hq : q'.Remembers q) : q'.Settles x :=
  fun r hr => (hx r (hr.trans hq)).trans (hx q' hq).symm

theorem Settles.gives {x : PlanM α} {a : α} (hx : q.Settles x) (ha : (x.run.run q).1 = .ok a) :
    q.Gives x (· = a) :=
  fun q' hq' => ⟨a, (hx q' hq').trans ha, rfl⟩

/-- A planner can be asked any number of questions, and then remembers the answers. -/
theorem exists_settles (xs : List (PlanM α)) (hsteady : ∀ x ∈ xs, Steady x) (p : Planner) :
    ∃ q : Planner, q.Remembers p ∧ ∀ x ∈ xs, q.Settles x := by
  induction xs with
  | nil => exact ⟨p, .refl p, by simp⟩
  | cons x xs ih =>
    obtain ⟨q, hq, hxs⟩ := ih fun y hy => hsteady y (List.mem_cons_of_mem _ hy)
    obtain ⟨hgrows, hagain⟩ := hsteady x List.mem_cons_self q
    refine ⟨(x.run.run q).2, hgrows.trans hq, fun y hy => ?_⟩
    rcases List.mem_cons.1 hy with rfl | hy
    · exact fun r hr => (hagain r hr).trans (hagain _ (.refl _)).symm
    · exact (hxs y hy).mono hgrows

variable {rel : α → β → Prop} {rel' : γ → δ → Prop}

theorem Alongside.pure {a : α} {b : β} (h : rel a b) :
    q.Alongside (Pure.pure a) (Pure.pure b) rel :=
  fun _ _ _ _ => .ok (.fits h)

theorem Alongside.throw {m m' : Mismatch} :
    q.Alongside (throwThe Mismatch m : MatchM α) (throwThe Mismatch m' : MatchM β) rel :=
  fun _ _ _ _ => .ok .differs

theorem Settles.alongside {x : PlanM α} (hx : q.Settles x) :
    q.Alongside (liftM x : MatchM α) (liftM x) (· = ·) := by
  intro q' q'' hq' hq''
  have hsame : (x.run.run q'').1 = (x.run.run q').1 := (hx q'' hq'').trans (hx q' hq').symm
  cases hrun : x.run.run q' with
  | mk r p =>
    rw [hrun] at hsame
    have hrun' : x.run.run q'' = (r, (x.run.run q'').2) := Prod.ext hsame rfl
    cases r with
    | error e =>
      rw [run_match_lift_of_error hrun, run_match_lift_of_error hrun']
      exact .error
    | ok a =>
      rw [run_match_lift hrun, run_match_lift hrun']
      exact .ok (.fits rfl)

theorem Alongside.bind {x : MatchM α} {y : MatchM β} {f : α → MatchM γ} {g : β → MatchM δ}
    (hx : SteadyMatch x) (hy : SteadyMatch y) (h : q.Alongside x y rel)
    (hfg : ∀ a b, rel a b → q.Alongside (f a) (g b) rel') :
    q.Alongside (x >>= f) (y >>= g) rel' := by
  intro q' q'' hq' hq''
  have hout := h q' q'' hq' hq''
  have hgrows : (x.run.run.run q').2.Remembers q := (hx q').1.trans hq'
  have hgrows' : (y.run.run.run q'').2.Remembers q := (hy q'').1.trans hq''
  cases hrun : x.run.run.run q' with
  | mk r p =>
    cases hrun' : y.run.run.run q'' with
    | mk r' p' =>
      rw [hrun] at hout hgrows
      rw [hrun'] at hout hgrows'
      cases hout with
      | error =>
        rw [run_match_bind_of_error hrun, run_match_bind_of_error hrun']
        exact .error
      | ok hmatched =>
        cases hmatched with
        | differs =>
          rw [run_match_bind_of_mismatch hrun, run_match_bind_of_mismatch hrun']
          exact .ok .differs
        | fits hab =>
          rw [run_match_bind_of_ok hrun, run_match_bind_of_ok hrun']
          exact hfg _ _ hab p p' hgrows hgrows'

/-- Where the first part of one is known to match, what comes next is compared. -/
theorem Alongside.bind_left {x : MatchM α} {f : α → MatchM γ} {y : MatchM δ} {good : α → Prop}
    (hx : SteadyMatch x) (hgood : q.Matches x good)
    (hf : ∀ a, good a → q.Alongside (f a) y rel') : q.Alongside (x >>= f) y rel' := by
  intro q' q'' hq' hq''
  obtain ⟨_, hrun, a, rfl, ha⟩ := hgood q' hq'
  rw [run_match_bind_of_ok (Prod.ext hrun rfl)]
  exact hf a ha _ q'' ((hx q').1.trans hq') hq''

theorem Alongside.bind_right {x : MatchM γ} {y : MatchM β} {g : β → MatchM δ} {good : β → Prop}
    (hy : SteadyMatch y) (hgood : q.Matches y good)
    (hg : ∀ b, good b → q.Alongside x (g b) rel') : q.Alongside x (y >>= g) rel' := by
  intro q' q'' hq' hq''
  obtain ⟨_, hrun, b, rfl, hb⟩ := hgood q'' hq''
  rw [run_match_bind_of_ok (Prod.ext hrun rfl)]
  exact hg b hb q' _ hq' ((hy q'').1.trans hq'')

end Settled

/-! ## Lining up alongside -/

section Planning

variable {Γ : Program} {h : Heap} {p q q' : Planner} {S : Shape} {t : Target} {v : Value}

/-- The slots for the arguments, and for the arguments one place further on. -/
theorem Alongside.planSlots {gs ds : List Ty} (i : Nat)
    (hsettled : ∀ x ∈ List.zipWith Γ.planByRef gs ds, q.Settles x) :
    q.Alongside (Γ.planSlots i gs ds) (Γ.planSlots (i + 1) gs ds)
      fun slots slots' => slots' = slots.map Slot.shift := by
  induction gs generalizing i ds with
  | nil => exact .pure rfl
  | cons g gs ih =>
    cases ds with
    | nil => exact .pure rfl
    | cons d ds =>
      rw [List.zipWith_cons_cons] at hsettled
      have hplan : q.Settles (Γ.planByRef g d) := hsettled _ List.mem_cons_self
      have hslot : q.Alongside (Γ.planSlot i g d) (Γ.planSlot (i + 1) g d)
          fun s s' => s' = s.shift := by
        rw [planSlot_eq, planSlot_eq]
        refine .bind (.lift (.plan _ _)) (.lift (.plan _ _)) hplan.alongside ?_
        rintro plan _ rfl
        by_cases hpossible : plan.isPossible = true
        · rw [if_pos hpossible, if_pos hpossible]
          exact .pure rfl
        · rw [if_neg hpossible, if_neg hpossible]
          exact .throw
      unfold Program.planSlots
      refine .bind (steady_planSlot _ _ _) (steady_planSlot _ _ _) hslot ?_
      rintro s _ rfl
      refine .bind (steady_planSlots _ _ _) (steady_planSlots _ _ _)
        (ih (i + 1) fun x hx => hsettled x (List.mem_cons_of_mem _ hx)) ?_
      rintro slots _ rfl
      exact .pure rfl

theorem Alongside.planSlots_cons {gs ds : List Ty} {g d : Ty} {first : Plan}
    (hfirst : q.Gives (Γ.plan g d.content) (· = first)) (hpossible : first.isPossible = true)
    (hcell : g.isCell = false) (hsettled : ∀ x ∈ List.zipWith Γ.planByRef gs ds, q.Settles x) :
    q.Alongside (Γ.planSlots 0 gs ds) (Γ.planSlots 0 (g :: gs) (d :: ds)) fun slots slots' =>
      slots' = ⟨.argument 0, first, if d.isCell then .temporary else .value⟩ ::
        slots.map Slot.shift := by
  rw [← bind_pure (Γ.planSlots 0 gs ds)]
  refine .bind_right (steady_planSlot _ _ _) (hfirst.planSlot hpossible hcell) ?_
  rintro _ rfl
  refine .bind (steady_planSlots _ _ _) (steady_planSlots _ _ _) (.planSlots 0 hsettled) ?_
  rintro slots _ rfl
  exact .pure rfl

/-- Where the slots line up, so do the signatures. -/
theorem Alongside.lineUp {S' : Shape} {remaining remaining' : List Ty} (c c' : Option Capture)
    {rel : List Slot → List Slot → Prop} {goal : SignaturePlan → SignaturePlan → Prop}
    (hslots : q.Alongside (Γ.planSlots 0 S.params remaining) (Γ.planSlots 0 S'.params remaining') rel)
    (hresult : q.Settles (Γ.planResult t.result S.returns)) (hreturns : S'.returns = S.returns)
    (hgoal : ∀ slots slots' result, rel slots slots' → goal
      { shape := S, target := t, slots := (c.map (·.slot)).toList ++ slots, result := result
        bound := (c.map (·.value)).getD .unbound
        nullReceiver := (c.map (·.nullReceiver)).getD false }
      { shape := S', target := t, slots := (c'.map (·.slot)).toList ++ slots', result := result
        bound := (c'.map (·.value)).getD .unbound
        nullReceiver := (c'.map (·.nullReceiver)).getD false }) :
    q.Alongside (Γ.lineUp S t remaining c) (Γ.lineUp S' t remaining' c') goal := by
  unfold Program.lineUp
  rw [hreturns]
  refine .bind (steady_planSlots _ _ _) (steady_planSlots _ _ _) hslots fun slots slots' hrel => ?_
  refine .bind (.lift (.planResult _ _)) (.lift (.planResult _ _)) hresult.alongside ?_
  rintro result _ rfl
  by_cases hpossible : result.isPossible = true
  · rw [if_pos hpossible, if_pos hpossible]
    exact .pure (hgoal slots slots' result hrel)
  · rw [if_neg hpossible, if_neg hpossible]
    exact .throw

/-- The questions that lining up a member comes to, with a value or an argument of its class for the
first input. -/
def questions (Γ : Program) (S : Shape) (v : Value) (t : Target) : List (PlanM Plan) :=
  Γ.planValue v (t.inputs.headD .any).content :: Γ.planResult t.result S.returns ::
    List.zipWith Γ.planByRef S.params t.inputs.tail

theorem steady_of_mem_questions {x : PlanM Plan} (hx : x ∈ questions Γ S v t) : Steady x := by
  rcases List.mem_cons.1 hx with rfl | hx
  · exact .plan _ _
  rcases List.mem_cons.1 hx with rfl | hx
  · exact .planResult _ _
  obtain ⟨i, hi, rfl⟩ := List.mem_iff_getElem.1 hx
  rw [List.getElem_zipWith]
  exact .plan _ _

/-- The planner has for a value a conversion to the first input of a member that costs this much, and
the value converts. -/
def Accepts (Γ : Program) (h : Heap) (q : Planner) (v : Value) (t : Target) (cost : Cost) : Prop :=
  ∃ d plan u, t.inputs.head? = some d ∧ ((Γ.planValue v d.content).run.run q).1 = .ok plan ∧
    plan.isPossible = true ∧ Cost.of [plan] = cost ∧ Γ.applyPlan h plan v = .ok u

theorem Accepts.congr {cost : Cost} (hsettled : ∀ x ∈ questions Γ S v t, q.Settles x)
    (hq : q'.Remembers q) : q'.Accepts Γ h v t cost ↔ q.Accepts Γ h v t cost := by
  have hfirst := hsettled _ List.mem_cons_self
  have hsame : ∀ {d}, t.inputs.head? = some d →
      ((Γ.planValue v d.content).run.run q').1 = ((Γ.planValue v d.content).run.run q).1 := by
    intro d hd
    rw [List.headD_eq_head?_getD, hd] at hfirst
    exact hfirst q' hq
  unfold Accepts
  constructor
  · rintro ⟨d, plan, u, hd, hplan, hrest⟩
    exact ⟨d, plan, u, hd, (hsame hd).symm.trans hplan, hrest⟩
  · rintro ⟨d, plan, u, hd, hplan, hrest⟩
    exact ⟨d, plan, u, hd, (hsame hd).trans hplan, hrest⟩

/-- The signature with a captured value, and the one with an argument more, are made of the same
plans but for the first one, which converts the argument at this cost. -/
def SameRest (Γ : Program) (h : Heap) (v : Value) (keep : Plan) (cost : Cost)
    (captured free : SignaturePlan) : Prop :=
  ∃ slot rest u, Cost.of [slot.plan] = cost ∧ Γ.applyPlan h slot.plan v = .ok u ∧
    free.slots.head? = some slot ∧ captured.plans = keep :: rest ∧ free.plans = slot.plan :: rest

theorem SameRest.captured_free {l : Lineup} {u : Value} (hu : Γ.applyPlan h l.first v = .ok u)
    (S : Shape) (t : Target) (keep : Plan) (given : Ty) :
    SameRest Γ h v keep (Cost.of [l.first]) (l.captured S t keep u) (l.free S t given) := by
  have hshift : (l.slots.map Slot.shift).map (·.plan) = l.slots.map (·.plan) := by
    rw [List.map_map]
    refine List.map_congr_left fun s _ => ?_
    unfold Slot.shift
    rw [Function.comp_apply]
    split <;> rfl
  refine ⟨⟨.argument 0, l.first, l.mode⟩, l.slots.map (·.plan) ++ [l.result], u, rfl, hu, rfl, rfl, ?_⟩
  rw [← hshift]
  rfl

/-- A value that is accepted, and an argument of its class, fit the same members: the signatures
agree but for the first slot. -/
theorem Accepts.alongside {cost : Cost} {keep : Plan} (haccepts : q.Accepts Γ h v t cost)
    (hsettled : ∀ x ∈ questions Γ S v t, q.Settles x)
    (hkeep : q.Gives (Γ.plan .any .any) (· = keep)) (hunbound : v.isUnbound = false)
    (hnone : v.isNone = false) (hcell : (Γ.className v).isCell = false) :
    q.Alongside (Γ.planSignature h S t v)
      (Γ.planSignature h (S.under (Γ.className v)) t .unbound) (SameRest Γ h v keep cost) := by
  obtain ⟨d, first, u, hd, hfirst, hpossible, rfl, hu⟩ := haccepts
  obtain ⟨remaining, hinputs⟩ : ∃ remaining, t.inputs = d :: remaining :=
    ⟨_, (List.head?_eq_some_iff.1 hd).choose_spec⟩
  have hgives : q.Gives (Γ.plan (Γ.className v) d.content) (· = first) := by
    have hsettles := hsettled _ List.mem_cons_self
    rw [hinputs] at hsettles
    exact hsettles.gives hfirst
  have hresult := hsettled _ (List.mem_cons_of_mem _ List.mem_cons_self)
  have hslots : ∀ x ∈ List.zipWith Γ.planByRef S.params remaining, q.Settles x := by
    intro x hx
    refine hsettled x (List.mem_cons_of_mem _ (List.mem_cons_of_mem _ ?_))
    rwa [hinputs]
  rw [planSignature_unbound]
  unfold planSignature
  rw [hunbound, if_neg Bool.false_ne_true, hinputs]
  dsimp only
  -- the value and its class give the first slot alike, and the other slots are the same
  by_cases harity : S.arity = remaining.length
  · have harity' : (S.under (Γ.className v)).arity = (d :: remaining).length :=
      congrArg Nat.succ harity
    rw [if_pos harity, if_pos harity']
    refine .bind_left (steady_capture _ _ _)
      (hgives.capture (fun _ => hnone) hpossible hu hkeep) ?_
    rintro _ ⟨_, rfl, rfl⟩
    refine (Alongside.lineUp _ _ (.planSlots_cons hgives hpossible hcell hslots) hresult rfl ?_)
    rintro slots _ result rfl
    exact .captured_free (l := ⟨d, remaining, first, slots, result⟩) hu S t _ (Γ.className v)
  · have harity' : (S.under (Γ.className v)).arity ≠ (d :: remaining).length :=
      fun h => harity (Nat.succ.inj h)
    rw [if_neg harity, if_neg harity']
    exact .throw

/-- A member that a value is captured for accepts it. -/
theorem exists_accepts_of_captured {sig : SignaturePlan} (hclosed : t.isGeneric = false)
    (hunbound : v.isUnbound = false) (hnone : v.isNone = false)
    (hsettled : ∀ x ∈ questions Γ S v t, q.Settles x) (hq : q'.Remembers q)
    (hrun : ((Γ.planSignature h S t v).run.run.run q').1 = .ok (.ok sig)) :
    ∃ cost, q.Accepts Γ h v t cost := by
  have hadapter : (Γ.adapterFor h (some S) (some t) v).run.run q' =
      (.ok (some (.member sig)), ((Γ.planSignature h S t v).run.run.run q').2) := by
    rw [run_adapterFor hclosed]
    dsimp only
    rw [hrun]
    rfl
  obtain ⟨l, u, hl, hu⟩ := linesUp_of_bound hunbound (fun _ => hnone) hadapter
  obtain ⟨_, hfirst, rfl⟩ := hl.first _ (.refl _)
  have hgrows := (steady_planSignature (Γ := Γ) (h := h) S t v q').1
  refine ⟨Cost.of [l.first], (Accepts.congr hsettled (hgrows.trans hq)).1 ?_⟩
  exact ⟨l.declared, l.first, u, by rw [hl.inputs]; rfl, hfirst, hl.firstPossible, rfl, hu⟩

/-- A member that takes an argument of the value's class accepts the value where it converts. -/
theorem exists_accepts_of_free {sig : SignaturePlan} {slot : Slot} {u : Value}
    (hclosed : t.isGeneric = false) (hcell : (Γ.className v).isCell = false)
    (hsettled : ∀ x ∈ questions Γ S v t, q.Settles x) (hq : q'.Remembers q)
    (hrun : ((Γ.planSignature h (S.under (Γ.className v)) t .unbound).run.run.run q').1 =
      .ok (.ok sig))
    (hslot : sig.slots.head? = some slot) (hu : Γ.applyPlan h slot.plan v = .ok u) :
    ∃ cost, q.Accepts Γ h v t cost := by
  have hadapter : (Γ.adapterFor h (some (S.under (Γ.className v))) (some t) .unbound).run.run q' =
      (.ok (some (.member sig)),
        ((Γ.planSignature h (S.under (Γ.className v)) t .unbound).run.run.run q').2) := by
    rw [run_adapterFor hclosed]
    dsimp only
    rw [hrun]
    rfl
  obtain ⟨l, hl⟩ := linesUp_of_free hcell hadapter
  obtain ⟨_, hmade, _, rfl, rfl⟩ := (hl.free (h := h) hcell).outcome (steady_adapterFor _ _ _)
    hadapter (.refl _)
  obtain rfl := Adapter.member.inj (Option.some.inj (Except.ok.inj hmade))
  obtain rfl := Option.some.inj hslot
  obtain ⟨_, hfirst, rfl⟩ := hl.first _ (.refl _)
  have hgrows := (steady_planSignature (Γ := Γ) (h := h) (S.under (Γ.className v)) t .unbound q').1
  refine ⟨Cost.of [l.first], (Accepts.congr hsettled (hgrows.trans hq)).1 ?_⟩
  exact ⟨l.declared, l.first, u, by rw [hl.inputs]; rfl, hfirst, hl.firstPossible, rfl, hu⟩

end Planning

end Planner

end CallAdapter
