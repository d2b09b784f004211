import CallAdapter.Proofs.Adapter.Delivery

/-!
# A value bound, and a value given

A value is bound to a member for a shape where the member fits the shape with the class of the value
in front of its parameters, and the value converts to the first input; then both plan the same slots
for the other parameters (`LinesUp.bound`, `LinesUp.free` and their converses). It does not matter in
which order one planner is asked for the two, or what it is asked in between: what it answered once,
it answers from then on (`Planner.Gives`).
-/

namespace CallAdapter

open Program Planner

/-! ## What a planner answers from now on -/

/-- The planner, and every one that remembers what it does, gives something good. -/
def Planner.Gives {α : Type} (q : Planner) (x : PlanM α) (good : α → Prop) : Prop :=
  ∀ q' : Planner, q'.Remembers q → ∃ a, (x.run.run q').1 = .ok a ∧ good a

/-- The planner, and every one that remembers what it does, finds a match that is good. -/
def Planner.Matches {α : Type} (q : Planner) (x : MatchM α) (good : α → Prop) : Prop :=
  q.Gives x.run fun r => ∃ a, r = .ok a ∧ good a

namespace Planner

variable {α β : Type} {p p' q q' : Planner} {good : α → Prop} {good' : β → Prop}

theorem Gives.mono {x : PlanM α} (h : q.Gives x good) (hq : q'.Remembers q) : q'.Gives x good :=
  fun r hr => h r (hr.trans hq)

theorem Gives.pure {a : α} (h : good a) : q.Gives (Pure.pure a) good := fun _ _ => ⟨a, rfl, h⟩

theorem Gives.bind {x : PlanM α} {f : α → PlanM β} (hsteady : Steady x) (hx : q.Gives x good)
    (hf : ∀ a, good a → q.Gives (f a) good') : q.Gives (x >>= f) good' := by
  intro q' hq'
  obtain ⟨a, ha, hgood⟩ := hx q' hq'
  obtain ⟨b, hb, hgood'⟩ := hf a hgood _ ((hsteady q').1.trans hq')
  have hrun : x.run.run q' = (.ok a, (x.run.run q').2) := Prod.ext ha rfl
  exact ⟨b, by rw [run_bind_of_ok hrun, hb], hgood'⟩

/-- What was given once is given from then on. -/
theorem gives_of_run {x : PlanM α} (hsteady : Steady x) {a : α} (hrun : x.run.run p = (.ok a, p')) :
    p'.Gives x (· = a) := by
  intro q hq
  have hagain := (hsteady p).2 q (by rwa [hrun])
  rw [hrun] at hagain
  exact ⟨a, hagain, rfl⟩

theorem Matches.mono {x : MatchM α} (h : q.Matches x good) (hq : q'.Remembers q) :
    q'.Matches x good :=
  Gives.mono h hq

theorem Matches.pure {a : α} (h : good a) : q.Matches (Pure.pure a) good :=
  Gives.pure ⟨a, rfl, h⟩

theorem Matches.bind {x : MatchM α} {f : α → MatchM β} (hsteady : SteadyMatch x)
    (hx : q.Matches x good) (hf : ∀ a, good a → q.Matches (f a) good') :
    q.Matches (x >>= f) good' :=
  Gives.bind hsteady hx fun r hr => by
    obtain ⟨a, rfl, hgood⟩ := hr
    exact hf a hgood

theorem Matches.lift {x : PlanM α} (h : q.Gives x good) : q.Matches (liftM x : MatchM α) good := by
  intro q' hq'
  obtain ⟨a, ha, hgood⟩ := h q' hq'
  have hrun : x.run.run q' = (.ok a, (x.run.run q').2) := Prod.ext ha rfl
  exact ⟨.ok a, congrArg Prod.fst (run_match_lift hrun), a, rfl, hgood⟩

theorem matches_of_run {x : MatchM α} (hsteady : SteadyMatch x) {a : α}
    (hrun : x.run.run.run p = (.ok (.ok a), p')) : p'.Matches x (· = a) := by
  intro q hq
  obtain ⟨r, hr, rfl⟩ := gives_of_run hsteady hrun q hq
  exact ⟨_, hr, a, rfl, rfl⟩

/-- A match that was found went through its first part. -/
theorem exists_of_run_match_bind {x : MatchM α} {f : α → MatchM β} {b : β}
    (hrun : (x >>= f).run.run.run p = (.ok (.ok b), p')) :
    ∃ a p₁, x.run.run.run p = (.ok (.ok a), p₁) ∧ (f a).run.run.run p₁ = (.ok (.ok b), p') := by
  obtain ⟨r, p₁, hx, hf⟩ := exists_of_run_bind_eq_ok (x := x.run) hrun
  cases r with
  | error m => cases hf
  | ok a => exact ⟨a, p₁, hx, hf⟩

theorem exists_of_run_match_lift {x : PlanM α} {a : α}
    (hrun : (liftM x : MatchM α).run.run.run p = (.ok (.ok a), p')) :
    x.run.run p = (.ok a, p') := by
  obtain ⟨b, p₁, hx, hb⟩ := exists_of_run_bind_eq_ok (x := x) hrun
  cases hb
  exact hx

/-- Types that can be keys are always compared. -/
theorem gives_plan_of_keyPair {Γ : Program} {s d : Ty} (hkeys : KeyPair s d) :
    q.Gives (Γ.plan s d) fun _ => True := by
  intro q' _
  have hplan : Keeps (fun _ => True) (Γ.planNormal planDepth s d)
      (OutcomeIs (fun _ => True) fun _ => False) :=
    planNormal_preserves closedPairs_keyPair (fun h he => direct?_ne_error h he)
      (fun _ _ _ _ => trivial) hkeys (Nat.le_refl _)
  have hremembered : Keeps (fun _ => True) (remembered .plans (Γ.planNormal planDepth) s d)
      (OutcomeIs (fun _ => True) fun _ => False) :=
    remembered_preserves hplan fun _ _ _ => trivial
  obtain ⟨-, houtcome⟩ := hremembered q' trivial
  unfold plan
  rw [hkeys.1.1, hkeys.1.2]
  generalize (remembered .plans (Γ.planNormal planDepth) s d).run.run q' = r at houtcome
  cases hr : r.1 with
  | ok plan => exact ⟨plan, rfl, trivial⟩
  | error e =>
    rw [hr] at houtcome
    exact houtcome.elim

end Planner

/-! ## One argument further on -/

/-- The slot whose argument stands one place further on. -/
def Slot.shift (s : Slot) : Slot :=
  match s.source with
  | .bound => s
  | .argument i => { s with source := .argument (i + 1) }

section Planning

variable {Γ : Program} {h : Heap} {p p' q : Planner} {S : Shape} {t : Target} {v u : Value}

theorem run_planSlot_succ_eq_ok {i : Nat} {g d : Ty} {s' : Slot} :
    (Γ.planSlot (i + 1) g d).run.run.run p = (.ok (.ok s'), q) ↔
      ∃ s, (Γ.planSlot i g d).run.run.run p = (.ok (.ok s), q) ∧ s' = s.shift := by
  cases hplan : (Γ.planByRef g d).run.run p with
  | mk r q' =>
    cases r with
    | error e =>
      have herror : ∀ i, (Γ.planSlot i g d).run.run.run p = (.error e, q') := fun i => by
        rw [planSlot_eq]
        exact run_match_bind_of_error (run_match_lift_of_error hplan)
      rw [herror, herror]
      exact ⟨fun h => (nomatch h), fun ⟨_, h, _⟩ => (nomatch h)⟩
    | ok plan =>
      rw [run_planSlot hplan, run_planSlot hplan]
      cases plan.isPossible with
      | false => exact ⟨fun h => (nomatch h), fun ⟨_, h, _⟩ => (nomatch h)⟩
      | true =>
        constructor
        · intro h
          cases h
          exact ⟨_, rfl, rfl⟩
        · rintro ⟨s, h, rfl⟩
          cases h
          rfl

theorem run_pure_succ_eq_ok {slots' : List Slot} :
    (pure [] : MatchM (List Slot)).run.run.run p = (.ok (.ok slots'), q) ↔
      ∃ slots, (pure [] : MatchM (List Slot)).run.run.run p = (.ok (.ok slots), q) ∧
        slots' = slots.map Slot.shift := by
  constructor
  · intro h
    cases h
    exact ⟨[], rfl, rfl⟩
  · rintro ⟨slots, h, rfl⟩
    cases h
    rfl

/-- From the next index on, the same slots are planned for the arguments one place further on. -/
theorem run_planSlots_succ_eq_ok {i : Nat} {gs ds : List Ty} {slots' : List Slot} :
    (Γ.planSlots (i + 1) gs ds).run.run.run p = (.ok (.ok slots'), q) ↔
      ∃ slots, (Γ.planSlots i gs ds).run.run.run p = (.ok (.ok slots), q) ∧
        slots' = slots.map Slot.shift := by
  induction gs generalizing i ds slots' p q with
  | nil => exact run_pure_succ_eq_ok
  | cons g gs ih =>
    cases ds with
    | nil => exact run_pure_succ_eq_ok
    | cons d ds =>
      constructor
      · intro hrun
        obtain ⟨s', p₁, hs', hrun⟩ := exists_of_run_match_bind hrun
        obtain ⟨rest', p₂, hrest', hrun⟩ := exists_of_run_match_bind hrun
        cases hrun
        obtain ⟨s, hs, rfl⟩ := run_planSlot_succ_eq_ok.1 hs'
        obtain ⟨rest, hrest, rfl⟩ := ih.1 hrest'
        refine ⟨s :: rest, ?_, rfl⟩
        unfold planSlots
        rw [run_match_bind_of_ok hs, run_match_bind_of_ok hrest]
        rfl
      · rintro ⟨slots, hrun, rfl⟩
        obtain ⟨s, p₁, hs, hrun⟩ := exists_of_run_match_bind hrun
        obtain ⟨rest, p₂, hrest, hrun⟩ := exists_of_run_match_bind hrun
        cases hrun
        unfold planSlots
        rw [run_match_bind_of_ok (run_planSlot_succ_eq_ok.2 ⟨s, hs, rfl⟩),
          run_match_bind_of_ok (ih.2 ⟨rest, hrest, rfl⟩)]
        rfl

theorem Planner.Matches.planSlots_succ {i : Nat} {gs ds : List Ty} {slots : List Slot}
    (h : q.Matches (Γ.planSlots i gs ds) (· = slots)) :
    q.Matches (Γ.planSlots (i + 1) gs ds) (· = slots.map Slot.shift) := by
  intro q' hq'
  obtain ⟨_, hrun, planned, rfl, rfl⟩ := h q' hq'
  have hnext := run_planSlots_succ_eq_ok.2 ⟨planned, Prod.ext hrun rfl, rfl⟩
  exact ⟨_, congrArg Prod.fst hnext, _, rfl, rfl⟩

/-! ## Lining up -/

/-- Where slots and result are planned, a shape and a member line up. -/
theorem Planner.Matches.lineUp {remaining : List Ty} {slots : List Slot} {result : Plan}
    (captured : Option Capture)
    (hslots : q.Matches (Γ.planSlots 0 S.params remaining) (· = slots))
    (hresult : q.Gives (Γ.planResult t.result S.returns) (· = result))
    (hpossible : result.isPossible = true) :
    q.Matches (Γ.lineUp S t remaining captured)
      (· = { shape := S, target := t
             slots := (captured.map (·.slot)).toList ++ slots
             result := result
             bound := (captured.map (·.value)).getD .unbound
             nullReceiver := (captured.map (·.nullReceiver)).getD false }) := by
  refine .bind (steady_planSlots _ _ _) hslots ?_
  rintro _ rfl
  refine .bind (.lift (.planResult _ _)) (.lift hresult) ?_
  rintro _ rfl
  rw [if_pos hpossible]
  exact .pure rfl

/-- A shape and a member that were lined up have slots and a result. -/
theorem planned_of_lineUp {remaining : List Ty} {captured : Option Capture} {sig : SignaturePlan}
    (hrun : (Γ.lineUp S t remaining captured).run.run.run p = (.ok (.ok sig), p')) :
    ∃ slots result p₁, (Γ.planSlots 0 S.params remaining).run.run.run p = (.ok (.ok slots), p₁) ∧
      p'.Remembers p₁ ∧ p'.Gives (Γ.planResult t.result S.returns) (· = result) ∧
      result.isPossible = true := by
  obtain ⟨slots, p₁, hslots, hrun⟩ := exists_of_run_match_bind hrun
  obtain ⟨result, p₂, hresult, hrun⟩ := exists_of_run_match_bind hrun
  have hgrows := (Steady.planResult (Γ := Γ) t.result S.returns p₁).1
  rw [exists_of_run_match_lift hresult] at hgrows
  split at hrun
  · cases hrun
    exact ⟨slots, result, p₁, hslots, hgrows,
      gives_of_run (.planResult _ _) (exists_of_run_match_lift hresult), ‹_›⟩
  · cases hrun

theorem Planner.Gives.adapterFor {shape : Shape} {good : SignaturePlan → Prop}
    (hgeneric : t.isGeneric = false) (hsig : q.Matches (Γ.planSignature h shape t v) good) :
    q.Gives (Γ.adapterFor h (some shape) (some t) v) fun made =>
      ∃ sig, made = some (.member sig) ∧ good sig := by
  intro q' hq'
  obtain ⟨_, hrun, sig, rfl, hgood⟩ := hsig q' hq'
  refine ⟨some (.member sig), ?_, sig, rfl, hgood⟩
  rw [run_adapterFor hgeneric]
  dsimp only
  rw [hrun]
  rfl

/-- The shape with a parameter in front of its own. -/
def Shape.under (S : Shape) (given : Ty) : Shape := { S with params := given :: S.params }

/-- A member that is lined up with a shape but for its first input, which has a conversion. -/
structure Lineup where
  declared : Ty
  remaining : List Ty
  first : Plan
  slots : List Slot
  result : Plan

namespace Lineup

/-- A value that is handed over as it is, or in a fresh cell. -/
def mode (l : Lineup) : SlotMode := if l.declared.isCell then .temporary else .value

/-- The signature with a captured value for the first input. -/
def captured (l : Lineup) (S : Shape) (t : Target) (keep : Plan) (u : Value) : SignaturePlan where
  shape := S
  target := t
  slots := ⟨.bound, keep, l.mode⟩ :: l.slots
  result := l.result
  bound := u

/-- The signature with an argument more. -/
def free (l : Lineup) (S : Shape) (t : Target) (given : Ty) : SignaturePlan where
  shape := S.under given
  target := t
  slots := ⟨.argument 0, l.first, l.mode⟩ :: l.slots.map Slot.shift
  result := l.result

end Lineup

/-- The planner lines up a shape and a member, with a type for the first input. -/
structure Planner.LinesUp (Γ : Program) (q : Planner) (S : Shape) (t : Target) (given : Ty)
    (l : Lineup) : Prop where
  closed : t.isGeneric = false
  inputs : t.inputs = l.declared :: l.remaining
  arity : S.arity = l.remaining.length
  first : q.Gives (Γ.plan given l.declared.content) (· = l.first)
  firstPossible : l.first.isPossible = true
  slots : q.Matches (Γ.planSlots 0 S.params l.remaining) (· = l.slots)
  result : q.Gives (Γ.planResult t.result S.returns) (· = l.result)
  resultPossible : l.result.isPossible = true

theorem Planner.LinesUp.mono {given : Ty} {l : Lineup} (h : q.LinesUp Γ S t given l)
    {q' : Planner} (hq : q'.Remembers q) : q'.LinesUp Γ S t given l where
  closed := h.closed
  inputs := h.inputs
  arity := h.arity
  first := h.first.mono hq
  firstPossible := h.firstPossible
  slots := h.slots.mono hq
  result := h.result.mono hq
  resultPossible := h.resultPossible

/-- A captured value was converted to the input. -/
theorem converted_of_capture {declared : Ty} {c : Capture}
    (hreceiver : t.takesReceiver = true → v.isNone = false)
    (hrun : (Γ.capture h t declared v).run.run.run p = (.ok (.ok c), p')) :
    ∃ plan u, p'.Gives (Γ.plan (Γ.className v) declared.content) (· = plan) ∧
      plan.isPossible = true ∧ Γ.applyPlan h plan v = .ok u := by
  unfold capture at hrun
  split at hrun
  · rename_i habsent
    rw [Bool.and_eq_true] at habsent
    cases habsent.1.symm.trans (hreceiver habsent.2)
  · obtain ⟨plan, p₁, hplan, hrun⟩ := exists_of_run_match_bind hrun
    have hgives := gives_of_run (.plan _ _) (exists_of_run_match_lift hplan)
    split at hrun
    · split at hrun
      · obtain ⟨keep, p₂, hkeep, hrun⟩ := exists_of_run_match_bind hrun
        cases hrun
        have hgrows := (Steady.plan (Γ := Γ) .any .any p₁).1
        rw [exists_of_run_match_lift hkeep] at hgrows
        exact ⟨plan, _, hgives.mono hgrows, ‹_›, ‹_›⟩
      · split at hrun <;> cases hrun
      · cases hrun
    · cases hrun

theorem gives_plan_any : q.Gives (Γ.plan .any .any) fun _ => True := by
  refine gives_plan_of_keyPair ⟨?_, ?_, ?_⟩ <;> simp [NormalPair, Ty.normalize, Ty.hashable]

/-- A value that converts to the input is captured. -/
theorem Planner.Gives.capture {declared : Ty} {plan : Plan} {good : Plan → Prop}
    (hreceiver : t.takesReceiver = true → v.isNone = false)
    (hplan : q.Gives (Γ.plan (Γ.className v) declared.content) (· = plan))
    (hpossible : plan.isPossible = true) (hu : Γ.applyPlan h plan v = .ok u)
    (hkeep : q.Gives (Γ.plan .any .any) good) :
    q.Matches (Γ.capture h t declared v) fun c => ∃ keep, good keep ∧
      c = ⟨⟨.bound, keep, if declared.isCell then .temporary else .value⟩, u, false⟩ := by
  have hpresent : ¬(v.isNone && t.takesReceiver) = true := by
    intro habsent
    rw [Bool.and_eq_true] at habsent
    cases habsent.1.symm.trans (hreceiver habsent.2)
  unfold Program.capture
  rw [if_neg hpresent]
  refine .bind (.lift (.plan _ _)) (.lift hplan) ?_
  rintro _ rfl
  rw [if_pos hpossible, hu]
  refine .bind (.lift (.plan _ _)) (.lift hkeep) fun keep hgood => ?_
  exact .pure ⟨keep, hgood, rfl⟩

/-! ## A value bound -/

/-- What binds a value lines up with its class, and the value converts. -/
theorem linesUp_of_bound {a : Adapter} (hbound : v.isUnbound = false)
    (hreceiver : t.takesReceiver = true → v.isNone = false)
    (hrun : (Γ.adapterFor h (some S) (some t) v).run.run p = (.ok (some a), p')) :
    ∃ l u, p'.LinesUp Γ S t (Γ.className v) l ∧ Γ.applyPlan h l.first v = .ok u := by
  obtain ⟨hclosed, sig, -, hrun⟩ := exists_of_run_adapterFor hrun
  unfold planSignature at hrun
  rw [hbound, if_neg Bool.false_ne_true] at hrun
  split at hrun
  · cases hrun
  · rename_i declared remaining hinputs
    split at hrun
    · obtain ⟨c, p₁, hcapture, hrun⟩ := exists_of_run_match_bind hrun
      obtain ⟨plan, u, hplan, hpossible, hu⟩ := converted_of_capture hreceiver hcapture
      obtain ⟨slots, result, p₂, hslots, hlater, hresult, hresult'⟩ := planned_of_lineUp hrun
      have hgrows := (steady_lineUp (Γ := Γ) S t remaining (some c) p₁).1
      rw [hrun] at hgrows
      have hmatches := matches_of_run (steady_planSlots _ _ _) hslots
      exact ⟨⟨declared, remaining, plan, slots, result⟩, u,
        ⟨hclosed, hinputs, ‹_›, hplan.mono hgrows, hpossible, hmatches.mono hlater, hresult,
          hresult'⟩, hu⟩
    · cases hrun

/-- Where all lines up with the class of a value that converts, the value is bound. -/
theorem Planner.LinesUp.bound {l : Lineup} (hl : q.LinesUp Γ S t (Γ.className v) l)
    (hbound : v.isUnbound = false) (hreceiver : t.takesReceiver = true → v.isNone = false)
    (hu : Γ.applyPlan h l.first v = .ok u) :
    q.Gives (Γ.adapterFor h (some S) (some t) v) fun made =>
      ∃ sig, made = some (.member sig) ∧ ∃ keep, sig = l.captured S t keep u := by
  refine .adapterFor hl.closed ?_
  unfold planSignature
  rw [hbound, if_neg Bool.false_ne_true, hl.inputs]
  dsimp only
  rw [if_pos hl.arity]
  refine .bind (steady_capture _ _ _)
    (hl.first.capture hreceiver hl.firstPossible hu gives_plan_any) ?_
  rintro _ ⟨keep, -, rfl⟩
  intro q' hq'
  obtain ⟨_, hrun, sig, rfl, rfl⟩ := (hl.slots.lineUp _ hl.result hl.resultPossible) q' hq'
  exact ⟨_, hrun, _, rfl, keep, rfl⟩

/-! ## A value given -/

/-- What takes an argument of a type lines up with the type. -/
theorem linesUp_of_free {given : Ty} {a : Adapter} (hcell : given.isCell = false)
    (hrun : (Γ.adapterFor h (some (S.under given)) (some t) .unbound).run.run p =
      (.ok (some a), p')) : ∃ l, p'.LinesUp Γ S t given l := by
  obtain ⟨hclosed, sig, -, hrun⟩ := exists_of_run_adapterFor hrun
  rw [planSignature_unbound] at hrun
  split at hrun
  · rename_i harity
    cases hinputs : t.inputs with
    | nil =>
      rw [hinputs] at harity
      cases harity
    | cons declared remaining =>
      rw [hinputs] at harity hrun
      obtain ⟨made, result, p₃, hmade, hlater, hresult, hresult'⟩ := planned_of_lineUp hrun
      obtain ⟨first, p₁, hfirst, hmade⟩ := exists_of_run_match_bind hmade
      obtain ⟨slots', p₂, hslots', hmade⟩ := exists_of_run_match_bind hmade
      cases hmade
      obtain ⟨slots, hslots, rfl⟩ := run_planSlots_succ_eq_ok.1 hslots'
      have hmatches := matches_of_run (steady_planSlots _ _ _) hslots
      have hgrows := (steady_planSlots (Γ := Γ) 0 S.params remaining p₁).1
      rw [hslots] at hgrows
      rw [planSlot_eq] at hfirst
      obtain ⟨plan, p₄, hplan, hfirst⟩ := exists_of_run_match_bind hfirst
      have hgives := gives_of_run (.plan _ _) (exists_of_run_match_lift hplan)
      rw [content_of_not_isCell hcell] at hgives
      split at hfirst
      · cases hfirst
        exact ⟨⟨declared, remaining, plan, slots, result⟩, hclosed, hinputs, Nat.succ.inj harity,
          hgives.mono (hlater.trans hgrows), ‹_›, hmatches.mono hlater, hresult, hresult'⟩
      · cases hfirst
  · cases hrun

theorem SlotMode.of_false_left (declared isIdentity : Bool) :
    SlotMode.of false declared isIdentity = if declared then .temporary else .value := by
  cases declared <;> rfl

/-- A type that is no cell takes a slot to the content of an input, or to a fresh cell. -/
theorem Planner.Gives.planSlot {i : Nat} {g d : Ty} {first : Plan}
    (hfirst : q.Gives (Γ.plan g d.content) (· = first)) (hpossible : first.isPossible = true)
    (hcell : g.isCell = false) :
    q.Matches (Γ.planSlot i g d)
      (· = ⟨.argument i, first, if d.isCell then .temporary else .value⟩) := by
  rw [planSlot_eq, planByRef, content_of_not_isCell hcell, hcell]
  refine .bind (.lift (.plan _ _)) (.lift hfirst) ?_
  rintro _ rfl
  rw [if_pos hpossible, SlotMode.of_false_left]
  exact .pure rfl

/-- Where all lines up with a type, an argument of the type is taken. -/
theorem Planner.LinesUp.free {given : Ty} {l : Lineup} (hl : q.LinesUp Γ S t given l)
    (hcell : given.isCell = false) :
    q.Gives (Γ.adapterFor h (some (S.under given)) (some t) .unbound) fun made =>
      ∃ sig, made = some (.member sig) ∧ sig = l.free S t given := by
  have harity : (S.under given).arity = (l.declared :: l.remaining).length :=
    congrArg Nat.succ hl.arity
  refine .adapterFor hl.closed ?_
  rw [planSignature_unbound, hl.inputs, if_pos harity]
  have hslot : q.Matches (Γ.planSlot 0 given l.declared)
      (· = ⟨.argument 0, l.first, l.mode⟩) :=
    hl.first.planSlot hl.firstPossible hcell
  refine Matches.lineUp none (.bind (steady_planSlot _ _ _) hslot ?_) hl.result hl.resultPossible
  rintro _ rfl
  refine .bind (steady_planSlots _ _ _) hl.slots.planSlots_succ ?_
  rintro _ rfl
  exact .pure rfl

/-! ## One planner -/

/-- The outcomes of two questions that one planner was asked, in either order, and the planner after
both. It may have been asked anything else before and in between. -/
inductive Program.AskedBoth (Γ : Program) {α β : Type} (x : PlanM α) (y : PlanM β) :
    Except Failure α → Except Failure β → Planner → Prop
  | inOrder {memoize : Bool} {history between : List PlanRequest} {r : Except Failure α}
      {r' : Except Failure β} {p q : Planner} :
    x.run.run (Γ.afterRequests history ⟨memoize, [], []⟩) = (r, p) →
    y.run.run (Γ.afterRequests between p) = (r', q) → AskedBoth Γ x y r r' q
  | reversed {memoize : Bool} {history between : List PlanRequest} {r : Except Failure α}
      {r' : Except Failure β} {p q : Planner} :
    y.run.run (Γ.afterRequests history ⟨memoize, [], []⟩) = (r', p) →
    x.run.run (Γ.afterRequests between p) = (r, q) → AskedBoth Γ x y r r' q

section Both

variable {α β : Type} {x : PlanM α} {y : PlanM β} {r : Except Failure α} {r' : Except Failure β}

theorem Program.AskedBoth.symm (h : Γ.AskedBoth x y r r' q) : Γ.AskedBoth y x r' r q := by
  cases h with
  | inOrder hx hy => exact .reversed hx hy
  | reversed hy hx => exact .inOrder hy hx

/-- The first question was put to a planner whose plans are sound, and the last planner remembers
how that went. -/
theorem Program.AskedBoth.start (h : Γ.AskedBoth x y r r' q) (hsteady : Steady y)
    (hsound : ∀ {memoize p}, p.Sound Γ memoize NormalPair HistoryReuse →
      (y.run.run p).2.Sound Γ memoize NormalPair HistoryReuse) :
    ∃ memoize p p', p.Sound Γ memoize NormalPair HistoryReuse ∧ x.run.run p = (r, p') ∧
      q.Remembers p' := by
  cases h with
  | @inOrder memoize history between _ _ p _ hx hy =>
    refine ⟨memoize, _, p, sound_history memoize history, hx, ?_⟩
    have hgrows := (hsteady (Γ.afterRequests between p)).1
    rw [hy] at hgrows
    exact hgrows.trans (remembers_afterRequests between p)
  | @reversed memoize history between _ _ p _ hy hx =>
    have hp := hsound (sound_history (Γ := Γ) memoize history)
    rw [hy] at hp
    exact ⟨memoize, _, q, sound_afterRequests memoize between _ hp, hx, .refl q⟩

/-- A question has the outcome that a planner gives which remembers how it went. -/
theorem Planner.Gives.outcome {good : α → Prop} (h : q.Gives x good) (hsteady : Steady x)
    (hrun : x.run.run p = (r, p')) (hq : q.Remembers p') : ∃ a, r = .ok a ∧ good a := by
  obtain ⟨a, ha, hgood⟩ := h q (.refl q)
  have hagain := (hsteady p).2 q (by rwa [hrun])
  rw [hrun] at hagain
  exact ⟨a, hagain.symm.trans ha, hgood⟩

end Both

/-- What a planner is asked for an adapter leaves its plans sound. -/
theorem sound_adapterFor {keeps : Bool} {R : Reuse} (hp : p.Sound Γ keeps NormalPair R)
    (shape : Shape) (t : Target) (bound : Value) :
    ((Γ.adapterFor h (some shape) (some t) bound).run.run p).2.Sound Γ keeps NormalPair R := by
  cases hgeneric : t.isGeneric with
  | true =>
    unfold adapterFor
    dsimp only [Target.stated]
    rw [hgeneric, if_pos rfl]
    exact hp
  | false =>
    rw [run_adapterFor hgeneric]
    exact (planSignature_yields shape t bound p hp).1

end Planning

end CallAdapter
