import CallAdapter.Proofs.Adapter.Lockstep
import CallAdapter.Proofs.Conversion.Widening

/-!
# Which members a shape fits

A shape fits a member where each of its parameters is converted to the input in its place, and the
result of the member to the result of the shape. Which conversions there are is the same for all
planners, whatever they were asked before, and so is which members a shape fits
(`planSignature_matchesIff`).
-/

namespace CallAdapter

open Program

/-! ## Matches -/

/-- From a used planner, the computation ends with one, and it finds a match exactly where the
condition holds. -/
def MatchesIff {α : Type} (Γ : Program) (x : MatchM α) (P : Prop) : Prop :=
  Keeps (Planner.Used Γ) x.run fun r => (∃ a, r = .ok (.ok a)) ↔ P

namespace MatchesIff

variable {Γ : Program} {α β : Type} {x : MatchM α} {f : α → MatchM β} {P Q : Prop}

theorem pure (a : α) : MatchesIff Γ (Pure.pure a) True :=
  Keeps.pure (iff_of_true ⟨a, rfl⟩ trivial)

theorem throw (m : Mismatch) : MatchesIff Γ (throwThe Mismatch m : MatchM α) False :=
  Keeps.pure (iff_of_false (by simp) id)

theorem congr (hx : MatchesIff Γ x P) (hPQ : P ↔ Q) : MatchesIff Γ x Q :=
  Keeps.mono hx fun _ hr => hr.trans hPQ

theorem bind (hx : MatchesIff Γ x P) (hf : ∀ a, MatchesIff Γ (f a) Q) :
    MatchesIff Γ (x >>= f) (P ∧ Q) := by
  refine Keeps.bind hx (fun e he => ?_) fun r hr => ?_
  · have hP : ¬P := fun hP => by simpa using he.2 hP
    simp [hP]
  cases r with
  | error m =>
    have hP : ¬P := fun hP => by simpa using hr.2 hP
    exact Keeps.pure (by simp [hP])
  | ok a =>
    have hP : P := hr.1 ⟨a, rfl⟩
    exact (hf a).mono fun r h => by simpa [hP] using h

/-- A plan that has to be possible. -/
theorem possible {plan : PlanM Plan}
    (hplan : Keeps (Planner.Used Γ) plan fun r =>
      (∃ p, r = .ok p ∧ p.isPossible = true) ↔ P) (make : Plan → α) (m : Mismatch) :
    MatchesIff Γ (liftM plan >>= fun p : Plan =>
      if p.isPossible then Pure.pure (make p) else throwThe Mismatch m) P := by
  have hlifted : Keeps (Planner.Used Γ) (liftM plan : MatchM Plan).run
      (OutcomeIs (fun r => ∃ p, r = .ok p ∧ (p.isPossible = true ↔ P)) fun _ => ¬P) :=
    Keeps.bind hplan (fun e he hP => by simpa using he.2 hP)
      fun p hp => Keeps.pure ⟨p, rfl, by simpa using hp⟩
  refine Keeps.bind hlifted (fun e he => ?_) fun r hr => ?_
  · exact iff_of_false (by simp) he
  · obtain ⟨p, rfl, hp⟩ := hr
    show MatchesIff Γ (if p.isPossible then Pure.pure (make p) else throwThe Mismatch m) P
    by_cases hpossible : p.isPossible = true
    · rw [if_pos hpossible]
      exact (pure _).congr (iff_of_true trivial (hp.1 hpossible))
    · rw [if_neg hpossible]
      exact (throw m).congr (iff_of_false id fun hP => hpossible (hp.2 hP))

end MatchesIff

/-! ## Conversions that there are -/

/-- A planner that was not asked before leads from one type to the other. -/
def Program.Leads (Γ : Program) (s d : Ty) : Prop :=
  ∃ w, Γ.freshVerdict s.normalize d.normalize = .ok w ∧ w.isPossible = true

/-- A result is dropped, made out of nothing, or converted. -/
def Program.Returns (Γ : Program) (given wanted : Ty) : Prop :=
  given.normalize.isVoid = true ∨ wanted.normalize.isVoid = true ∨ Γ.Leads given wanted

section Leading

variable {Γ : Program} {s d : Ty} {r : Except Failure Plan}

/-- What a used planner answers is possible where a fresh answer is. -/
theorem leads_of_planAnswer (hr : Γ.PlanAnswer HistoryReuse s.normalize d.normalize r) :
    (∃ p, r = .ok p ∧ p.isPossible = true) ↔ Γ.Leads s d := by
  have hn := Planner.normalPair_normalize s d
  have hok : r.isOk = (Γ.freshVerdict s.normalize d.normalize).isOk := by
    cases r with
    | error e => exact isOk_eq_of_plans (fun _ _ _ _ h => h.2) hr (plans_freshVerdict hn)
    | ok p => exact isOk_eq_of_plans (fun _ _ _ _ h => h.2) hr.2 (plans_freshVerdict hn)
  unfold Leads
  cases r with
  | error e =>
    cases hw : Γ.freshVerdict s.normalize d.normalize with
    | error e' => simp
    | ok w =>
      rw [hw] at hok
      cases hok
  | ok p =>
    cases hw : Γ.freshVerdict s.normalize d.normalize with
    | error e =>
      rw [hw] at hok
      cases hok
    | ok w =>
      have hkind : p.verdict.kind = w.kind := kind_eq_freshVerdict betweenSpellings_historyReuse
        hr.2 (Ty.same_refl _) (Ty.same_refl _) hn hw
      rw [p.kind_verdict] at hkind
      simp [Plan.isPossible_iff, Verdict.isPossible_iff, hkind]

theorem keeps_used {α : Type} {x : PlanM α} {post : Except Failure α → Prop}
    (hx : ∀ keeps, Keeps (Planner.Sound Γ keeps NormalPair HistoryReuse) x post) :
    Keeps (Planner.Used Γ) x post :=
  fun p ⟨keeps, hp⟩ => ⟨⟨keeps, (hx keeps p hp).1⟩, (hx keeps p hp).2⟩

theorem plan_leads (s d : Ty) :
    Keeps (Planner.Used Γ) (Γ.plan s d) fun r =>
      (∃ p, r = .ok p ∧ p.isPossible = true) ↔ Γ.Leads s d :=
  (keeps_used fun _ => plan_keeps_normal s d).mono fun _ hr => leads_of_planAnswer hr

theorem planResult_returns (s d : Ty) :
    Keeps (Planner.Used Γ) (Γ.planResult s d) fun r =>
      (∃ p, r = .ok p ∧ p.isPossible = true) ↔ Γ.Returns s d := by
  refine (keeps_used fun _ => planResult_keeps s d).mono fun r hr => ?_
  unfold MemoAnswer Memo.settled at hr
  unfold Returns
  by_cases hd : d.normalize.isVoid = true
  · simp only [hd, if_true] at hr
    obtain ⟨p, rfl, -, hw, -⟩ := hr
    refine iff_of_true ⟨p, rfl, ?_⟩ (.inr (.inl hd))
    rw [p.isPossible_eq, hw]
    split <;> rfl
  by_cases hs : s.normalize.isVoid = true
  · simp only [hd, hs, if_true, Bool.false_eq_true, if_false] at hr
    obtain ⟨p, rfl, -, hw, -⟩ := hr
    refine iff_of_true ⟨p, rfl, ?_⟩ (.inl hs)
    rw [p.isPossible_eq, hw]
    rfl
  · simp only [hd, hs, Bool.false_eq_true, if_false] at hr
    simp [hd, hs, leads_of_planAnswer hr]

end Leading

/-! ## Signatures -/

/-- The shape has a parameter for every input of the member, and all of them and the result are
converted. -/
structure Program.Accepts (Γ : Program) (S : Shape) (t : Target) : Prop where
  inputs : List.Forall₂ (fun g d => Γ.Leads g.content d.content) S.params t.inputs
  result : Γ.Returns t.result S.returns

section Signature

variable {Γ : Program} {h : Heap} {S : Shape} {t u : Target}

/-- What a shape fits, it fits by the types of the inputs and of the result. -/
theorem Program.Accepts.congr (hinputs : t.inputs = u.inputs) (hresult : t.result = u.result) :
    Γ.Accepts S t ↔ Γ.Accepts S u :=
  ⟨fun h => ⟨hinputs ▸ h.inputs, hresult ▸ h.result⟩,
    fun h => ⟨hinputs ▸ h.inputs, hresult ▸ h.result⟩⟩

theorem planSlot_matchesIff (i : Nat) (g d : Ty) :
    MatchesIff Γ (Γ.planSlot i g d) (Γ.Leads g.content d.content) := by
  rw [planSlot_eq]
  exact .possible (plan_leads g.content d.content) _ _

theorem planSlots_matchesIff (i : Nat) {gs ds : List Ty} (hlength : gs.length = ds.length) :
    MatchesIff Γ (Γ.planSlots i gs ds)
      (List.Forall₂ (fun g d => Γ.Leads g.content d.content) gs ds) := by
  induction gs generalizing i ds with
  | nil =>
    obtain rfl := List.length_eq_zero_iff.1 hlength.symm
    exact (MatchesIff.pure []).congr (iff_of_true trivial .nil)
  | cons g gs ih =>
    cases ds with
    | nil => cases hlength
    | cons d ds =>
      refine (MatchesIff.bind (planSlot_matchesIff i g d) fun s =>
        .bind (ih (i + 1) (Nat.succ.inj hlength)) fun slots => .pure (s :: slots)).congr ?_
      simp [List.forall₂_cons]

/-- Whatever a planner was asked before, it finds that a shape fits the members that the shape
accepts. -/
theorem planSignature_matchesIff (S : Shape) (t : Target) :
    MatchesIff Γ (Γ.planSignature h S t .unbound) (Γ.Accepts S t) := by
  rw [planSignature_unbound]
  by_cases harity : S.arity = t.inputs.length
  · rw [if_pos harity]
    refine (MatchesIff.bind (planSlots_matchesIff 0 harity) fun slots =>
      .possible (planResult_returns t.result S.returns) _ _).congr ?_
    exact ⟨fun ⟨hinputs, hresult⟩ => ⟨hinputs, hresult⟩, fun h => ⟨h.inputs, h.result⟩⟩
  · rw [if_neg harity]
    exact (MatchesIff.throw _).congr (iff_of_false id fun h => harity h.inputs.length_eq)

end Signature

end CallAdapter
