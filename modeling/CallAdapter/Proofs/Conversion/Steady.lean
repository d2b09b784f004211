import CallAdapter.Proofs.Conversion.Remembering

/-!
# Answers that stay

A planner that keeps plans never forgets one, and a plan that is made for keys never comes to
nothing. What a planner answered once it therefore answers again, whatever it was asked in between
(`Steady`): every question of planning is steady. A planner that keeps nothing has nothing to
remember, so there the answers of all such planners are one (`Steady.eq_fresh`).
-/

namespace CallAdapter

open Program

/-- Every plan that the other planner would find is found. -/
structure Planner.Remembers (q p : Planner) : Prop where
  memoize : q.memoize = p.memoize
  find : p.memoize = true → ∀ memo s d plan, (p.table memo).find s d = some plan →
    (q.table memo).find s d = some plan

/-- The computation forgets nothing, and on every planner that remembers how it ended, it has the
same outcome again. -/
def Steady {α : Type} (x : PlanM α) : Prop :=
  ∀ p, (x.run.run p).2.Remembers p ∧
    ∀ q : Planner, q.Remembers (x.run.run p).2 → (x.run.run q).1 = (x.run.run p).1

namespace Planner.Remembers

variable {p q r : Planner}

theorem refl (p : Planner) : p.Remembers p := ⟨rfl, fun _ _ _ _ _ => id⟩

theorem trans (hrq : r.Remembers q) (hqp : q.Remembers p) : r.Remembers p :=
  ⟨hrq.memoize.trans hqp.memoize, fun hp memo s d plan h =>
    hrq.find (hqp.memoize.trans hp) memo s d plan (hqp.find hp memo s d plan h)⟩

theorem of_forgetful (hq : q.memoize = false) (hp : p.memoize = false) : q.Remembers p :=
  ⟨hq.trans hp.symm, fun h => nomatch hp.symm.trans h⟩

theorem find_insert_of_find {t : PlanTable} {s d s' d' : Ty} {plan plan' : Plan}
    (h : t.find s d = some plan) : (t.insert s' d' plan').find s d = some plan := by
  unfold PlanTable.find PlanTable.insert at *
  rw [List.find?_append]
  obtain ⟨e, he, rfl⟩ := Option.map_eq_some_iff.1 h
  rw [he]
  rfl

theorem keep (memo : Memo) (s d : Ty) (plan : Plan) : (p.keep memo s d plan).Remembers p := by
  refine ⟨by cases memo <;> rfl, fun _ memo' s' d' plan' h => ?_⟩
  cases memo <;> cases memo' <;> first | exact h | exact find_insert_of_find h

end Planner.Remembers

namespace Steady

variable {α β : Type}

theorem pure (a : α) : Steady (Pure.pure a) := fun p => ⟨.refl p, fun _ _ => rfl⟩

theorem throw (e : Failure) : Steady (MonadExcept.throw e : PlanM α) :=
  fun p => ⟨.refl p, fun _ _ => rfl⟩

theorem bind {x : PlanM α} {f : α → PlanM β} (hx : Steady x) (hf : ∀ a, Steady (f a)) :
    Steady (x >>= f) := by
  intro p
  obtain ⟨hgrows, hagain⟩ := hx p
  obtain ⟨e, p₁, hrun, hbind⟩ | ⟨a, p₁, hrun, hbind⟩ := run_bind_cases x f p
  · rw [hrun] at hgrows hagain
    rw [hbind]
    refine ⟨hgrows, fun q hq => ?_⟩
    have hxq : x.run.run q = (.error e, (x.run.run q).2) := Prod.ext (hagain q hq) rfl
    rw [run_bind_of_error hxq]
  · rw [hrun] at hgrows hagain
    rw [hbind]
    obtain ⟨hgrows', hagain'⟩ := hf a p₁
    refine ⟨hgrows'.trans hgrows, fun q hq => ?_⟩
    have hxq : x.run.run q = (.ok a, (x.run.run q).2) :=
      Prod.ext (hagain q (hq.trans hgrows')) rfl
    rw [run_bind_of_ok hxq]
    exact hagain' _ ((hx q).1.trans hq)

theorem mapM {as : List α} {f : α → PlanM β} (hf : ∀ a, Steady (f a)) : Steady (as.mapM f) := by
  induction as with
  | nil =>
    rw [List.mapM_nil]
    exact .pure _
  | cons a as ih =>
    rw [List.mapM_cons]
    exact .bind (hf a) fun b => .bind ih fun bs => .pure _

/-- On planners that keep nothing, the computation has the outcome that it has on an empty one. -/
theorem eq_fresh {x : PlanM α} (hx : Steady x) {p : Planner} (hp : p.memoize = false) :
    (x.run.run p).1 = (x.run.run ⟨false, [], []⟩).1 :=
  (hx ⟨false, [], []⟩).2 p <| .of_forgetful hp (hx ⟨false, [], []⟩).1.memoize

end Steady

/-! ## What planning leaves alone -/

section Preserves

variable {Γ : Program} {s d : Ty} {Inv : Planner → Prop} {bad : Failure → Prop}

theorem remembered_preserves {memo : Memo} {make : Ty → Ty → PlanM Plan}
    (hmake : Keeps Inv (make s d) (OutcomeIs (fun _ => True) bad))
    (hkeep : ∀ p plan, Inv p → Inv (p.keep memo s d plan)) :
    Keeps Inv (remembered memo make s d) (OutcomeIs (fun _ => True) bad) := by
  refine .get_bind fun p hp => ?_
  split
  · cases (p.table memo).find s d with
    | some plan => exact ⟨hp, trivial⟩
    | none =>
      exact hmake.bind (fun _ he => he)
        (fun plan _ => .modify_bind (fun q hq => hkeep q plan hq) (.pure trivial)) p hp
  · exact hmake p hp

theorem intoUnion_preserves {sub : Ty → PlanM Plan} {ms : List Ty} {found : Option Operation}
    (hsub : ∀ m ∈ ms, Keeps Inv (sub m) (OutcomeIs (fun _ => True) bad)) :
    Keeps Inv (intoUnion sub ms found) (OutcomeIs (fun _ => True) bad) := by
  induction ms generalizing found with
  | nil => cases found <;> exact .pure trivial
  | cons m ms ih =>
    have hrest : ∀ found, Keeps Inv (intoUnion sub ms found) (OutcomeIs (fun _ => True) bad) :=
      fun _ => ih fun m' hm' => hsub m' (List.mem_cons_of_mem _ hm')
    refine .bind (hsub m List.mem_cons_self) (fun _ he => he) fun p _ => ?_
    cases p.verdict with
    | identity | widen => exact .pure trivial
    | convert | impossible => exact hrest _

theorem verdict_preserves {sub : Ty → Ty → PlanM Plan}
    (hdirect : ∀ e, Γ.direct? s d = some (.error e) → bad e)
    (hsource : s.isUnion = true → ∀ m ∈ s.unionMembers,
      Keeps Inv (sub m d) (OutcomeIs (fun _ => True) bad))
    (hdest : s.isUnion = false → d.isUnion = true → ∀ m ∈ d.unionMembers,
      Keeps Inv (sub s m) (OutcomeIs (fun _ => True) bad)) :
    Keeps Inv (Γ.verdict sub s d) (OutcomeIs (fun _ => True) bad) := by
  unfold verdict
  split
  · exact .pure trivial
  · exact .throw (hdirect _ ‹_›)
  cases hs : s.isUnion with
  | true =>
    have hask : ∀ m ∈ s.unionMembers, Keeps Inv (do pure (m, (← sub m d).verdict))
        (OutcomeIs (fun _ : Ty × Verdict => True) bad) :=
      fun m hm => .bind (hsource hs m hm) (fun _ he => he) fun _ _ => .pure trivial
    refine .bind (.mapM hask) ?_ fun _ _ => .pure trivial
    rintro e ⟨m, -, he⟩
    exact he
  | false =>
    have hd : d.isUnion = true := isUnion_dest_of_direct?_eq_none ‹_› hs
    exact intoUnion_preserves (hdest hs hd)

/-- What is preserved when plans for smaller pairs are kept is preserved by planning, which fails
only where comparing two types of the set does. -/
theorem planNormal_preserves {D : Ty → Ty → Prop} (hclosed : ClosedPairs D)
    (hdirect : ∀ {s d e}, D s d → Γ.direct? s d = some (.error e) → bad e) {n : Nat}
    (hkeep : ∀ {p s d} plan, Inv p → D s d → unionLevels s d < n → Inv (p.keep .plans s d plan))
    {depth : Nat} (hD : D s d) (hlevels : unionLevels s d ≤ n) :
    Keeps Inv (Γ.planNormal depth s d) (OutcomeIs (fun _ => True) bad) := by
  induction depth generalizing s d with
  | zero => exact .pure trivial
  | succ depth ih =>
    have hsub : ∀ {s' d' : Ty}, D s' d' → unionLevels s' d' < n →
        Keeps Inv (remembered .plans (Γ.planNormal depth) s'.normalize d'.normalize)
          (OutcomeIs (fun _ => True) bad) := by
      intro s' d' hD' hless
      rw [(hclosed.normal hD').1, (hclosed.normal hD').2]
      exact remembered_preserves (ih hD' (Nat.le_of_lt hless)) fun p plan hp =>
        hkeep plan hp hD' hless
    refine .bind (verdict_preserves (fun e he => hdirect hD he) ?_ ?_) (fun _ he => he)
      fun v _ => .pure trivial
    · intro hs m hm
      have hmember := Ty.isNormalMember_of_mem (hclosed.normal hD).1 hs hm
      refine hsub (hclosed.source hD hs hm) ?_
      simp only [unionLevels, hs, hmember.2] at hlevels ⊢
      simp at hlevels ⊢
      omega
    · intro hs hd m hm
      have hmember := Ty.isNormalMember_of_mem (hclosed.normal hD).2 hd hm
      refine hsub (hclosed.dest hD hd hm) ?_
      simp only [unionLevels, hd, hs, hmember.2] at hlevels ⊢
      simp at hlevels ⊢
      omega

end Preserves

/-! ## Keys -/

section Keys

variable {Γ : Program} {s d : Ty}

/-- Pairs of keys in normal form. -/
def KeyPair (s d : Ty) : Prop := NormalPair s d ∧ s.hashable = true ∧ d.hashable = true

theorem closedPairs_keyPair : ClosedPairs KeyPair where
  normal h := h.1
  source h hu hm := ⟨closedPairs_normalPair.source h.1 hu hm,
    hashable_of_mem_unionMembers hu h.2.1 hm, h.2.2⟩
  dest h hu hm := ⟨closedPairs_normalPair.dest h.1 hu hm, h.2.1,
    hashable_of_mem_unionMembers hu h.2.2 hm⟩

/-- Comparing keys is not refused. -/
theorem direct?_ne_error {e : Failure} (h : KeyPair s d) :
    Γ.direct? s d ≠ some (.error e) := by
  unfold direct?
  rw [not_refusesPlanning_of_hashable h.2.1 h.2.2]
  grind

theorem find_insert_of_not_same {t : PlanTable} {s' d' : Ty} {plan : Plan}
    (hnone : t.find s d = none) (hne : ¬(s'.same s = true ∧ d'.same d = true)) :
    (t.insert s' d' plan).find s d = none := by
  have hkey : (s'.same s && d'.same d) = false := by
    rwa [← Bool.not_eq_true, Bool.and_eq_true]
  unfold PlanTable.find PlanTable.insert at *
  rw [Option.map_eq_none_iff] at hnone ⊢
  rw [List.find?_append, hnone, List.find?_cons, hkey]
  rfl

theorem find_insert_self {t : PlanTable} {plan : Plan} (hnone : t.find s d = none) :
    (t.insert s d plan).find s d = some plan := by
  unfold PlanTable.find PlanTable.insert at *
  rw [Option.map_eq_none_iff] at hnone
  rw [List.find?_append, hnone, List.find?_cons, Ty.same_refl, Ty.same_refl]
  rfl

theorem unionLevels_congr {s' d' : Ty} (hs : s'.same s = true) (hd : d'.same d = true) :
    unionLevels s' d' = unionLevels s d := by
  unfold unionLevels
  rw [Ty.isUnion_congr hs, Ty.isUnion_congr hd]

/-- An answer is certain for the pair: wherever the table has none yet, one is made, and making it
does not put it into the table. -/
def Certain (memo : Memo) (make : Ty → Ty → PlanM Plan) (s d : Ty) : Prop :=
  s.hashable = true → d.hashable = true →
    Keeps (fun p => (p.table memo).find s d = none) (make s d)
      (OutcomeIs (fun _ => True) fun _ => False)

theorem certain_planNormal {depth : Nat} (hn : NormalPair s d) :
    Certain .plans (Γ.planNormal depth) s d := by
  intro hs hd
  refine planNormal_preserves closedPairs_keyPair (fun h he => direct?_ne_error h he) ?_
    ⟨hn, hs, hd⟩ (Nat.le_refl _)
  -- the plans that are kept on the way are for pairs with fewer unions
  intro p s' d' plan hnone _ hless
  refine find_insert_of_not_same hnone fun hsame => ?_
  rw [unionLevels_congr hsame.1 hsame.2] at hless
  exact Nat.lt_irrefl _ hless

theorem certain_resultPlan (hn : NormalPair s d) : Certain .results Γ.resultPlan s d := by
  intro hs hd
  have hplan : Keeps (fun p => (p.table .results).find s d = none) (Γ.plan s d)
      (OutcomeIs (fun _ => True) fun _ => False) := by
    unfold plan
    rw [hn.1, hn.2]
    refine remembered_preserves ?_ fun _ _ hp => hp
    exact planNormal_preserves closedPairs_keyPair (fun h he => direct?_ne_error h he)
      (fun _ hp _ _ => hp) ⟨hn, hs, hd⟩ (Nat.le_refl _)
  unfold resultPlan
  split
  · exact .pure trivial
  split
  · exact .pure trivial
  · exact hplan

end Keys

/-! ## Questions are steady -/

section Questions

variable {Γ : Program} {s d : Ty}

/-- Nothing is remembered: every planner makes the answer anew. -/
theorem run_remembered_of_not_key {memo : Memo} {make : Ty → Ty → PlanM Plan} {p : Planner}
    (hkey : (p.memoize && s.hashable && d.hashable) = false) :
    (remembered memo make s d).run.run p = (make s d).run.run p := by
  show (if (p.memoize && s.hashable && d.hashable) = true then _ else _ : PlanM Plan).run.run p = _
  rw [if_neg (by rw [hkey]; exact Bool.false_ne_true)]

/-- An answer that is found again is steady where making it is. -/
theorem Steady.remembered {memo : Memo} {make : Ty → Ty → PlanM Plan} (hmake : Steady (make s d))
    (hcertain : Certain memo make s d) : Steady (Program.remembered memo make s d) := by
  intro p
  cases hkey : p.memoize && s.hashable && d.hashable with
  | false =>
    rw [run_remembered_of_not_key hkey]
    refine ⟨(hmake p).1, fun q hq => ?_⟩
    rw [run_remembered_of_not_key (by rw [hq.memoize, (hmake p).1.memoize, hkey])]
    exact (hmake p).2 q hq
  | true =>
    rw [Bool.and_eq_true, Bool.and_eq_true] at hkey
    obtain ⟨⟨hmemo, hs⟩, hd⟩ := hkey
    have hfound : ∀ {p₁ : Planner} {plan : Plan}, p₁.memoize = true →
        (p₁.table memo).find s d = some plan → ∀ q : Planner, q.Remembers p₁ →
          ((Program.remembered memo make s d).run.run q).1 = .ok plan := by
      intro p₁ plan hp₁ hfind q hq
      rw [remembered_of_find (hq.memoize.trans hp₁) hs hd (hq.find hp₁ _ _ _ _ hfind)]
    cases hfind : (p.table memo).find s d with
    | some plan =>
      rw [remembered_of_find hmemo hs hd hfind]
      exact ⟨.refl p, hfound hmemo hfind⟩
    | none =>
      have hmiss : ∀ {p₁ : Planner} {plan : Plan}, (make s d).run.run p = (.ok plan, p₁) →
          (Program.remembered memo make s d).run.run p = (.ok plan, p₁.keep memo s d plan) := by
        intro p₁ plan hrun
        rw [run_remembered_of_miss hmemo hs hd hfind, run_bind_of_ok hrun]
        rfl
      obtain ⟨hnone, hanswer⟩ := hcertain hs hd p hfind
      obtain ⟨hgrows, -⟩ := hmake p
      rcases hrun : (make s d).run.run p with ⟨e | plan, p₁⟩ <;> rw [hrun] at hnone hanswer hgrows
      · exact hanswer.elim
      · have hkept : ((p₁.keep memo s d plan).table memo).find s d = some plan := by
          cases memo <;> exact find_insert_self hnone
        have hmemo' : (p₁.keep memo s d plan).memoize = true := by
          rw [(Planner.Remembers.keep memo s d plan).memoize, hgrows.memoize, hmemo]
        rw [hmiss hrun]
        exact ⟨(Planner.Remembers.keep memo s d plan).trans hgrows, hfound hmemo' hkept⟩

theorem Steady.intoUnion {sub : Ty → PlanM Plan} (hsub : ∀ m, Steady (sub m)) {ms : List Ty}
    {found : Option Operation} : Steady (Program.intoUnion sub ms found) := by
  induction ms generalizing found with
  | nil => cases found <;> exact .pure _
  | cons m ms ih =>
    refine .bind (hsub m) fun p => ?_
    cases p.verdict with
    | identity | widen => exact .pure _
    | convert | impossible => exact ih

theorem Steady.verdict {sub : Ty → Ty → PlanM Plan} (hsub : ∀ s d, Steady (sub s d)) :
    Steady (Γ.verdict sub s d) := by
  unfold Program.verdict
  split
  · exact .pure _
  · exact .throw _
  split
  · exact .bind (.mapM fun m => .bind (hsub m d) fun _ => .pure _) fun _ => .pure _
  · exact .intoUnion fun m => hsub s m

theorem Steady.planNormal (depth : Nat) : Steady (Γ.planNormal depth s d) := by
  induction depth generalizing s d with
  | zero => exact .pure _
  | succ depth ih =>
    refine .bind (.verdict fun s' d' => .remembered ih (certain_planNormal ?_)) fun _ => .pure _
    exact ⟨Ty.normalize_normalize s', Ty.normalize_normalize d'⟩

theorem Steady.plan (s d : Ty) : Steady (Γ.plan s d) :=
  .remembered (.planNormal _)
    (certain_planNormal ⟨Ty.normalize_normalize s, Ty.normalize_normalize d⟩)

theorem Steady.resultPlan : Steady (Γ.resultPlan s d) := by
  unfold Program.resultPlan
  split
  · exact .pure _
  split
  · exact .pure _
  · exact .plan s d

theorem Steady.planResult (s d : Ty) : Steady (Γ.planResult s d) :=
  .remembered .resultPlan
    (certain_resultPlan ⟨Ty.normalize_normalize s, Ty.normalize_normalize d⟩)

/-- What a planner answers to a request it answers again, whatever it was asked in between. -/
theorem steady_planFor (r : PlanRequest) : Steady (Γ.planFor r) := by
  cases r with
  | types s d => exact .plan s d
  | result s d => exact .planResult s d
  | content s d => exact .plan s.content d.content
  | value v d => exact .plan (Γ.className v) d

theorem remembers_afterRequests (history : List PlanRequest) (p : Planner) :
    (Γ.afterRequests history p).Remembers p := by
  induction history generalizing p with
  | nil => exact .refl p
  | cons r rs ih => exact (ih _).trans (steady_planFor r p).1

end Questions

end CallAdapter
