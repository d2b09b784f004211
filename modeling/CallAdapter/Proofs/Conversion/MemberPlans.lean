import CallAdapter.Proofs.Conversion.Steady

/-!
# Plans for unions are made of plans for their members

Planning a union asks the planner for its members, and these are no unions, so the depth that
planning is given is always enough: planning is its own recursion (`planNormal_eq`). A planner
therefore answers for a union with a plan that is put together from what it answers for the members,
also when the plan is an old one that was made for another spelling of the union
(`exists_splits_of_run`). Every plan that a planner keeps is of this kind (`Planner.Split`), and
planning keeps it so.
-/

namespace CallAdapter

open Program

section Recursion

variable {Γ : Program} {s d : Ty}

/-- What is remembered of a pair depends on how its own plan is made. -/
theorem remembered_congr {memo : Memo} {make make' : Ty → Ty → PlanM Plan}
    (h : make s d = make' s d) : remembered memo make s d = remembered memo make' s d := by
  unfold remembered
  rw [h]

theorem intoUnion_congr {sub sub' : Ty → PlanM Plan} {ms : List Ty} {found : Option Operation}
    (h : ∀ m ∈ ms, sub m = sub' m) : intoUnion sub ms found = intoUnion sub' ms found := by
  induction ms generalizing found with
  | nil => cases found <;> rfl
  | cons m ms ih =>
    obtain ⟨hm, hms⟩ := List.forall_mem_cons.1 h
    unfold intoUnion
    rw [hm]
    congr 1
    funext p
    cases p.verdict <;> first | rfl | exact ih hms

theorem mapM_congr_of_mem {α β : Type} {as : List α} {f g : α → PlanM β}
    (h : ∀ a ∈ as, f a = g a) : as.mapM f = as.mapM g := by
  induction as with
  | nil => rfl
  | cons a as ih =>
    obtain ⟨ha, has⟩ := List.forall_mem_cons.1 h
    rw [List.mapM_cons, List.mapM_cons, ha, ih has]

/-- The verdict on a pair asks about members only. -/
theorem verdict_congr {sub sub' : Ty → Ty → PlanM Plan}
    (hsource : s.isUnion = true → ∀ m ∈ s.unionMembers, sub m d = sub' m d)
    (hdest : s.isUnion = false → d.isUnion = true → ∀ m ∈ d.unionMembers, sub s m = sub' s m) :
    Γ.verdict sub s d = Γ.verdict sub' s d := by
  unfold verdict
  split
  · rfl
  · rfl
  · rename_i hnone
    cases hs : s.isUnion with
    | true =>
      rw [if_pos rfl, if_pos rfl]
      congr 1
      exact mapM_congr_of_mem fun m hm => by rw [hsource hs m hm]
    | false =>
      have hd := isUnion_dest_of_direct?_eq_none hnone hs
      exact intoUnion_congr (hdest hs hd)

theorem unionLevels_lt_source {m : Ty} (hn : NormalPair s d) (hs : s.isUnion = true)
    (hm : m ∈ s.unionMembers) : unionLevels m d < unionLevels s d := by
  have hmember := Ty.isNormalMember_of_mem hn.1 hs hm
  simp [unionLevels, hs, hmember.2]

theorem unionLevels_lt_dest {m : Ty} (hn : NormalPair s d) (hd : d.isUnion = true)
    (hm : m ∈ d.unionMembers) : unionLevels s m < unionLevels s d := by
  have hmember := Ty.isNormalMember_of_mem hn.2 hd hm
  simp [unionLevels, hd, hmember.2]

/-- Where there is depth enough, how much is not seen. -/
theorem planNormal_depth {depth depth' : Nat} (hn : NormalPair s d)
    (hdepth : unionLevels s d ≤ depth) (hdepth' : unionLevels s d ≤ depth') :
    Γ.planNormal depth s d = Γ.planNormal depth' s d := by
  induction depth generalizing s d depth' with
  | zero => exact absurd hdepth (by simp [unionLevels])
  | succ depth ih =>
    cases depth' with
    | zero => exact absurd hdepth' (by simp [unionLevels])
    | succ depth' =>
      have hsub : ∀ {s' d'}, NormalPair s' d' → unionLevels s' d' < unionLevels s d →
          remembered .plans (Γ.planNormal depth) s'.normalize d'.normalize =
            remembered .plans (Γ.planNormal depth') s'.normalize d'.normalize := by
        intro s' d' hn' hless
        rw [hn'.1, hn'.2]
        exact remembered_congr (ih hn' (by omega) (by omega))
      unfold planNormal
      rw [verdict_congr (fun hs m hm => ?_) (fun _ hd m hm => ?_)]
      · exact hsub (closedPairs_normalPair.source hn hs hm) (unionLevels_lt_source hn hs hm)
      · exact hsub (closedPairs_normalPair.dest hn hd hm) (unionLevels_lt_dest hn hd hm)

/-- Planning asks the planner itself for the members of unions. -/
theorem planNormal_eq (hn : NormalPair s d) :
    Γ.planNormal planDepth s d = (do
      let v ← Γ.verdict Γ.plan s d
      pure (.of s d v)) := by
  have hsub : ∀ {s' d'}, NormalPair s' d' → unionLevels s' d' < unionLevels s d →
      remembered .plans (Γ.planNormal 2) s'.normalize d'.normalize = Γ.plan s' d' := by
    intro s' d' hn' hless
    have hlevels := unionLevels_le s d
    unfold plan planDepth at *
    rw [hn'.1, hn'.2]
    exact remembered_congr (planNormal_depth hn' (by omega) (by omega))
  show (do
    let v ← Γ.verdict (fun s d => remembered .plans (Γ.planNormal 2) s.normalize d.normalize) s d
    pure (.of s d v) : PlanM Plan) = _
  rw [verdict_congr (fun hs m hm => ?_) (fun _ hd m hm => ?_)]
  · exact hsub (closedPairs_normalPair.source hn hs hm) (unionLevels_lt_source hn hs hm)
  · exact hsub (closedPairs_normalPair.dest hn hd hm) (unionLevels_lt_dest hn hd hm)

end Recursion

/-! ## Answers that a planner knows -/

/-- The planner answers for the pair with the plan from now on, and it has kept it if it keeps
plans for such pairs. -/
structure Planner.Knows (Γ : Program) (q : Planner) (s d : Ty) (plan : Plan) : Prop where
  answer : ∀ q' : Planner, q'.Remembers q → ((Γ.plan s d).run.run q').1 = .ok plan
  found : q.memoize = true → s.normalize.hashable = true → d.normalize.hashable = true →
    q.plans.find s.normalize d.normalize = some plan

section Knows

variable {Γ : Program} {s d s' d' : Ty} {p q : Planner} {plan : Plan}

theorem Planner.Knows.mono (h : q.Knows Γ s d plan) {q' : Planner} (hq : q'.Remembers q) :
    q'.Knows Γ s d plan where
  answer r hr := h.answer r (hr.trans hq)
  found hmemo hs hd :=
    have hmemo' := hq.memoize ▸ hmemo
    hq.find hmemo' .plans _ _ _ (h.found hmemo' hs hd)

/-- What is found is answered, for every spelling. -/
theorem knows_of_find (hmemo : q.memoize = true) (hs : s.normalize.hashable = true)
    (hd : d.normalize.hashable = true)
    (hfind : q.plans.find s.normalize d.normalize = some plan) : q.Knows Γ s d plan where
  answer r hr := by
    have hfound := hr.find hmemo .plans _ _ _ hfind
    unfold Program.plan
    rw [remembered_of_find (hr.memoize.trans hmemo) hs hd hfound]
  found _ _ _ := hfind

/-- What a planner answered, it knows. -/
theorem knows_of_run (hrun : (Γ.plan s d).run.run p = (.ok plan, q)) : q.Knows Γ s d plan := by
  obtain ⟨-, hagain⟩ := Steady.plan (Γ := Γ) s d p
  rw [hrun] at hagain
  refine ⟨hagain, fun hmemo hs hd => ?_⟩
  have hmemo' : p.memoize = true := by
    have hgrows := (Steady.plan (Γ := Γ) s d p).1
    rw [hrun] at hgrows
    rw [← hgrows.memoize, hmemo]
  have hfound := isSome_find_of_remembered hmemo' hs hd hrun
  obtain ⟨plan', hplan'⟩ := Option.isSome_iff_exists.1 hfound
  have hanswer := (knows_of_find (Γ := Γ) hmemo hs hd hplan').answer q (.refl q)
  cases (hagain q (.refl q)).symm.trans hanswer
  exact hplan'

/-- What is kept for a pair is kept for all its spellings. -/
theorem Planner.Knows.respelled (h : q.Knows Γ s d plan) (hmemo : q.memoize = true)
    (hs : s.normalize.hashable = true) (hd : d.normalize.hashable = true)
    (hs' : s'.normalize.hashable = true) (hd' : d'.normalize.hashable = true)
    (hss : s.normalize.same s'.normalize = true) (hdd : d.normalize.same d'.normalize = true) :
    q.Knows Γ s' d' plan :=
  knows_of_find hmemo hs' hd' (find_congr q.plans hss hdd ▸ h.found hmemo hs hd)

theorem knows_of_run_mapM {ms : List Ty} {plans : List (Ty × Verdict)}
    (hrun : (ms.mapM fun m => do pure (m, (← Γ.plan m d).verdict)).run.run p = (.ok plans, q)) :
    ∃ answers : List (Ty × Plan), answers.map (·.1) = ms ∧
      plans = (answers.map fun a => (a.1, a.2.verdict)) ∧ ∀ a ∈ answers, q.Knows Γ a.1 d a.2 := by
  induction ms generalizing p plans with
  | nil =>
    cases hrun
    exact ⟨[], rfl, rfl, nofun⟩
  | cons m ms ih =>
    rw [List.mapM_cons] at hrun
    obtain ⟨first, p₁, hfirst, hrest⟩ := exists_of_run_bind_eq_ok hrun
    obtain ⟨rest, p₂, hrest, hcons⟩ := exists_of_run_bind_eq_ok hrest
    obtain ⟨plan, p₃, hplan, hpair⟩ := exists_of_run_bind_eq_ok hfirst
    cases hpair
    cases hcons
    obtain ⟨answers, hmembers, rfl, hanswers⟩ := ih hrest
    have hgrows : q.Remembers p₁ := by
      have hsteady : Steady (ms.mapM fun m => do pure (m, (← Γ.plan m d).verdict)) :=
        .mapM fun m => .bind (.plan m d) fun _ => .pure _
      have hgrows := (hsteady p₁).1
      rwa [hrest] at hgrows
    refine ⟨(m, plan) :: answers, by rw [List.map_cons, hmembers], rfl, ?_⟩
    exact List.forall_mem_cons.2 ⟨(knows_of_run hplan).mono hgrows, hanswers⟩

end Knows

/-! ## Unions as sources -/

/-- The plan for a union is put together from what the planner answers for the members in turn. -/
structure Planner.SplitsInto (Γ : Program) (q : Planner) (s d : Ty) (plan : Plan)
    (answers : List (Ty × Plan)) : Prop where
  members : answers.map (·.1) = s.unionMembers
  knows : ∀ a ∈ answers, q.Knows Γ a.1 d a.2
  verdict : plan.verdict = fromUnion d (answers.map fun a => (a.1, a.2.verdict))

/-- Where members decide about a union as a source, they did. -/
def Planner.Splits (Γ : Program) (q : Planner) (s d : Ty) (plan : Plan) : Prop :=
  s.isUnion = true → Γ.direct? s d = none → ∃ answers, q.SplitsInto Γ s d plan answers

/-- All plans that the planner keeps for unions are put together from its plans for members. -/
def Planner.Split (Γ : Program) (p : Planner) : Prop :=
  ∀ e ∈ p.plans, p.Splits Γ e.1.1 e.1.2 e.2

section Split

variable {Γ : Program} {s d : Ty} {p q : Planner} {plan : Plan}

theorem Planner.Splits.mono (h : q.Splits Γ s d plan) {q' : Planner} (hq : q'.Remembers q) :
    q'.Splits Γ s d plan := by
  intro hs hnone
  obtain ⟨answers, hmembers, hknows, hverdict⟩ := h hs hnone
  exact ⟨answers, hmembers, fun a ha => (hknows a ha).mono hq, hverdict⟩

theorem splits_of_run (hn : NormalPair s d)
    (hrun : (Γ.planNormal planDepth s d).run.run p = (.ok plan, q)) : q.Splits Γ s d plan := by
  intro hs hnone
  rw [planNormal_eq hn] at hrun
  obtain ⟨v, p₁, hv, hplan⟩ := exists_of_run_bind_eq_ok hrun
  cases hplan
  unfold verdict at hv
  rw [hnone] at hv
  dsimp only at hv
  rw [if_pos hs] at hv
  obtain ⟨branches, p₂, hbranches, hpure⟩ := exists_of_run_bind_eq_ok hv
  cases hpure
  obtain ⟨answers, hmembers, rfl, hknows⟩ := knows_of_run_mapM hbranches
  exact ⟨answers, hmembers, hknows, Plan.verdict_of ..⟩

theorem split_remembered {make : Ty → Ty → PlanM Plan}
    (hmake : Keeps (Planner.Split Γ) (make s d) (OutcomeIs (fun _ => True) fun _ => True))
    (hsplits : ∀ {p plan q}, (make s d).run.run p = (.ok plan, q) → q.Splits Γ s d plan) :
    Keeps (Planner.Split Γ) (remembered .plans make s d)
      (OutcomeIs (fun _ => True) fun _ => True) := by
  intro p hp
  refine ⟨?_, by unfold OutcomeIs; split <;> trivial⟩
  cases hkey : p.memoize && s.hashable && d.hashable with
  | false =>
    rw [run_remembered_of_not_key hkey]
    exact (hmake p hp).1
  | true =>
    rw [Bool.and_eq_true, Bool.and_eq_true] at hkey
    obtain ⟨⟨hmemo, hs⟩, hd⟩ := hkey
    cases hfind : (p.table .plans).find s d with
    | some plan =>
      rw [remembered_of_find hmemo hs hd hfind]
      exact hp
    | none =>
      rw [run_remembered_of_miss hmemo hs hd hfind]
      have hkept := (hmake p hp).1
      rcases hrun : (make s d).run.run p with ⟨e | plan, p₁⟩
      · rw [hrun] at hkept
        rw [run_bind_of_error hrun]
        exact hkept
      · rw [hrun] at hkept
        rw [run_bind_of_ok hrun]
        have hgrows := Planner.Remembers.keep .plans s d plan (p := p₁)
        intro e he
        rcases List.mem_append.1 he with he | he
        · exact (hkept e he).mono hgrows
        · rw [List.mem_singleton.1 he]
          exact (hsplits hrun).mono hgrows

theorem plan_normalize (s d : Ty) : Γ.plan s.normalize d.normalize = Γ.plan s d := by
  unfold plan
  rw [Ty.normalize_normalize, Ty.normalize_normalize]

theorem plan_normalize_dest (s d : Ty) : Γ.plan s d.normalize = Γ.plan s d := by
  unfold plan
  rw [Ty.normalize_normalize]

theorem split_plan_of_normal (hn : NormalPair s d) :
    Keeps (Planner.Split Γ) (Γ.plan s d) (OutcomeIs (fun _ => True) fun _ => True) := by
  induction hlevels : unionLevels s d using Nat.strongRecOn generalizing s d with
  | ind n ih =>
    subst hlevels
    unfold plan
    rw [hn.1, hn.2]
    refine split_remembered ?_ (splits_of_run hn)
    rw [planNormal_eq hn]
    refine .bind (verdict_preserves (fun _ _ => trivial) (fun hs m hm => ?_) fun _ hd m hm => ?_)
      (fun _ _ => trivial) fun v _ => .pure trivial
    · exact ih _ (unionLevels_lt_source hn hs hm) (closedPairs_normalPair.source hn hs hm) rfl
    · exact ih _ (unionLevels_lt_dest hn hd hm) (closedPairs_normalPair.dest hn hd hm) rfl

theorem split_plan (s d : Ty) :
    Keeps (Planner.Split Γ) (Γ.plan s d) (OutcomeIs (fun _ => True) fun _ => True) := by
  rw [← plan_normalize]
  exact split_plan_of_normal ⟨Ty.normalize_normalize s, Ty.normalize_normalize d⟩

/-- Plans for results are kept apart. -/
theorem split_planResult (s d : Ty) :
    Keeps (Planner.Split Γ) (Γ.planResult s d) (OutcomeIs (fun _ => True) fun _ => True) := by
  refine remembered_preserves ?_ fun p plan hp e he => ?_
  · unfold resultPlan
    split
    · exact .pure trivial
    split
    · exact .pure trivial
    · exact split_plan _ _
  · exact (hp e he).mono (.keep .results _ _ plan)

theorem split_afterRequests (memoize : Bool) (history : List PlanRequest) :
    (Γ.afterRequests history ⟨memoize, [], []⟩).Split Γ := by
  have hstep : ∀ (history : List PlanRequest) (p : Planner), p.Split Γ →
      (Γ.afterRequests history p).Split Γ := by
    intro history
    induction history with
    | nil => exact fun p hp => hp
    | cons r rs ih =>
      intro p hp
      refine ih _ ?_
      cases r with
      | types s d => exact (split_plan s d p hp).1
      | result s d => exact (split_planResult s d p hp).1
      | content s d => exact (split_plan s.content d.content p hp).1
      | value v d => exact (split_plan (Γ.className v) d p hp).1
  exact hstep history _ nofun

/-- A planner whose plans are put together from those for members answers with such a plan, which it
may have made for another spelling. -/
theorem exists_splits_of_run (hp : p.Split Γ)
    (hrun : (Γ.plan s d).run.run p = (.ok plan, q)) :
    ∃ s' d', s'.same s.normalize = true ∧ d'.same d.normalize = true ∧ q.Splits Γ s' d' plan ∧
      (s' = s.normalize ∧ d' = d.normalize ∨
        q.memoize = true ∧ s.normalize.hashable = true ∧ d.normalize.hashable = true) := by
  have hn : NormalPair s.normalize d.normalize :=
    ⟨Ty.normalize_normalize s, Ty.normalize_normalize d⟩
  unfold Program.plan at hrun
  cases hkey : p.memoize && s.normalize.hashable && d.normalize.hashable with
  | false =>
    rw [run_remembered_of_not_key hkey] at hrun
    exact ⟨_, _, Ty.same_refl _, Ty.same_refl _, splits_of_run hn hrun, .inl ⟨rfl, rfl⟩⟩
  | true =>
    rw [Bool.and_eq_true, Bool.and_eq_true] at hkey
    obtain ⟨⟨hmemo, hs⟩, hd⟩ := hkey
    cases hfind : (p.table .plans).find s.normalize d.normalize with
    | some plan' =>
      rw [remembered_of_find hmemo hs hd hfind] at hrun
      cases hrun
      obtain ⟨s', d', hmem, hss, hdd⟩ := PlanTable.mem_of_find hfind
      exact ⟨s', d', hss, hdd, hp _ hmem, .inr ⟨hmemo, hs, hd⟩⟩
    | none =>
      rw [run_remembered_of_miss hmemo hs hd hfind] at hrun
      obtain ⟨plan', p₁, hmake, hkeep⟩ := exists_of_run_bind_eq_ok hrun
      cases hkeep
      exact ⟨_, _, Ty.same_refl _, Ty.same_refl _, (splits_of_run hn hmake).mono (.keep _ _ _ _),
        .inl ⟨rfl, rfl⟩⟩

end Split

end CallAdapter
