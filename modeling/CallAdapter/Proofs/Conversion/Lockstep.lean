import CallAdapter.Proofs.Conversion.Remembering

/-!
# Two planners side by side

`Together` runs one computation on a planner that was used before and another on a planner that
keeps nothing, and relates their outcomes. Asked for the same pair of keys, in any spelling, both
give plans of one kind (`plan_together`, `planResult_together`), and where the destination is no
union the plans do the same to every value (`effect_applyPlan_eq`).
-/

namespace CallAdapter

open Program

namespace Planner

/-- The planner may have been asked for anything, whether it keeps plans or not. -/
def Used (Γ : Program) (p : Planner) : Prop :=
  ∃ keeps, p.Sound Γ keeps NormalPair HistoryReuse

/-- The planner keeps nothing. -/
abbrev Forgetful (Γ : Program) (p : Planner) : Prop := p.Sound Γ false NormalPair NoReuse

theorem used_empty (Γ : Program) (keeps : Bool) : Used Γ ⟨keeps, [], []⟩ :=
  ⟨keeps, sound_of_empty fun _ _ _ _ _ _ hn hkeys => ⟨hn, hkeys⟩⟩

theorem forgetful_empty (Γ : Program) : Forgetful Γ ⟨false, [], []⟩ :=
  sound_of_empty fun h => nomatch h

end Planner

/-- The left computation on a planner that was used, the right one on a planner that keeps nothing:
both leave such planners, and their outcomes are related. -/
def Together {α β : Type} (Γ : Program) (x : PlanM α) (y : PlanM β)
    (rel : Except Failure α → Except Failure β → Prop) : Prop :=
  ∀ p q, Planner.Used Γ p → Planner.Forgetful Γ q →
    Planner.Used Γ (x.run.run p).2 ∧ Planner.Forgetful Γ (y.run.run q).2 ∧
      rel (x.run.run p).1 (y.run.run q).1

namespace Together

variable {Γ : Program} {α β γ δ : Type}

theorem pure {a : α} {b : β} {rel : Except Failure α → Except Failure β → Prop}
    (h : rel (.ok a) (.ok b)) : Together Γ (Pure.pure a) (Pure.pure b) rel :=
  fun _ _ hp hq => ⟨hp, hq, h⟩

theorem throw {e f : Failure} {rel : Except Failure α → Except Failure β → Prop}
    (h : rel (.error e) (.error f)) :
    Together Γ (MonadExcept.throw e : PlanM α) (MonadExcept.throw f : PlanM β) rel :=
  fun _ _ hp hq => ⟨hp, hq, h⟩

theorem bind {x : PlanM α} {y : PlanM β} {f : α → PlanM γ} {g : β → PlanM δ}
    {mid : α → β → Prop} {rel : γ → δ → Prop} (hxy : Together Γ x y (Agree mid))
    (hfg : ∀ a b, mid a b → Together Γ (f a) (g b) (Agree rel)) :
    Together Γ (x >>= f) (y >>= g) (Agree rel) := by
  intro p q hp hq
  obtain ⟨hp', hq', hmid⟩ := hxy p q hp hq
  cases hx : x.run.run p with
  | mk r p' =>
    cases hy : y.run.run q with
    | mk s q' =>
      rw [hx, hy] at hmid
      rw [hx] at hp'
      rw [hy] at hq'
      cases hmid with
      | ok hab =>
        rw [run_bind_of_ok hx, run_bind_of_ok hy]
        exact hfg _ _ hab p' q' hp' hq'
      | error =>
        rw [run_bind_of_error hx, run_bind_of_error hy]
        exact ⟨hp', hq', .error⟩

theorem of_keeps {x : PlanM α} {y : PlanM β} {post : Except Failure α → Prop}
    {post' : Except Failure β → Prop} {rel : Except Failure α → Except Failure β → Prop}
    (hx : ∀ keeps, Keeps (Planner.Sound Γ keeps NormalPair HistoryReuse) x post)
    (hy : Keeps (Planner.Forgetful Γ) y post') (h : ∀ r s, post r → post' s → rel r s) :
    Together Γ x y rel := by
  rintro p q ⟨keeps, hp⟩ hq
  obtain ⟨hp', hpost⟩ := hx keeps p hp
  obtain ⟨hq', hpost'⟩ := hy q hq
  exact ⟨⟨keeps, hp'⟩, hq', h _ _ hpost hpost'⟩

end Together

/-- Plans that weigh the same in a choice among members. -/
def Plan.Alike (p q : Plan) : Prop := p.kind = q.kind ∧ p.discard = q.discard

/-- An answer with the help of other spellings, and a fresh one for another spelling. -/
structure PlansFor (Γ : Program) (s d s' d' : Ty) (p q : Plan) : Prop where
  kept : Γ.PlanAnswer HistoryReuse s d (.ok p)
  fresh : Γ.PlanAnswer NoReuse s' d' (.ok q)
  kind : p.kind = q.kind

theorem PlansFor.alike {Γ : Program} {s d s' d' : Ty} {p q : Plan}
    (h : PlansFor Γ s d s' d' p q) : p.Alike q :=
  ⟨h.kind, h.kept.1.discard.trans h.fresh.1.discard.symm⟩

section Agreement

variable {Γ : Program} {s d s' d' : Ty}

theorem hashable_ofMembers {p : Bool} {ts : List Ty} (h : ∀ t ∈ ts, t.hashable = true) :
    (Ty.ofMembers p ts).hashable = true := by
  by_cases hd : ∃ t, Ty.dedupe ts = [t]
  · obtain ⟨t, ht⟩ := hd
    rw [Ty.ofMembers_of_dedupe p ht]
    exact h t (Ty.mem_of_mem_dedupe (ht ▸ List.mem_cons_self))
  · rw [Ty.ofMembers_of_not_dedupe p hd, Ty.hashable, Ty.allHashable_iff]
    exact fun t ht => h t (Ty.mem_of_mem_dedupe ht)

/-- The normal form of a key is a key. -/
theorem hashable_normalize {t : Ty} (h : t.hashable = true) : t.normalize.hashable = true := by
  induction t using Ty.memInduction with
  | union p ms ih =>
    rw [Ty.hashable, Ty.allHashable_iff] at h
    rw [Ty.normalize, Ty.normalizeAll_eq_map, Ty.unionOf]
    refine hashable_ofMembers fun t ht => ?_
    obtain ⟨n, hn, ht⟩ := List.mem_flatMap.1 ht
    obtain ⟨m, hm, rfl⟩ := List.mem_map.1 hn
    have hkey := ih m hm (h m hm)
    cases hu : m.normalize.isUnion with
    | true =>
      refine hashable_of_mem_unionMembers hu hkey ?_
      cases hmn : m.normalize with
      | union q ns =>
        rw [hmn] at ht
        exact ht
      | _ =>
        rw [hmn] at hu
        cases hu
    | false =>
      rw [Ty.flat_of_isUnion_eq_false hu, List.mem_singleton] at ht
      exact ht ▸ hkey
  | applied k as ih =>
    have has : ∀ a ∈ as, a.hashable = true := by
      rw [Ty.hashable, Bool.and_eq_true, Ty.allHashable_iff] at h
      exact h.1
    cases as with
    | nil => cases k <;> first | rfl | exact h
    | cons a as =>
      cases k with
      | classVar | final | annotated => exact ih a List.mem_cons_self (has a List.mem_cons_self)
      | _ => exact h
  | form f => cases f <;> rfl
  | null | text => rfl
  | _ => exact h

theorem hashable_content {t : Ty} (h : t.hashable = true) : t.content.hashable = true := by
  unfold Ty.content
  split
  · unfold Ty.cellElement
    cases t with
    | applied k as =>
      rw [Ty.hashable, Bool.and_eq_true, Ty.allHashable_iff] at h
      cases as with
      | nil => rfl
      | cons a as => exact hashable_normalize (h.1 a List.mem_cons_self)
    | union p ms => cases ‹_›
    | _ => rfl
  · exact h

/-- Two spellings of a pair of keys are both answered, with plans of one kind. -/
theorem agree_of_planAnswer (hs : s.same s' = true) (hd : d.same d' = true)
    (hskey : s.hashable = true) (hdkey : d.hashable = true) {r r' : Except Failure Plan}
    (h : Γ.PlanAnswer HistoryReuse s d r) (h' : Γ.PlanAnswer NoReuse s' d' r') :
    Agree (PlansFor Γ s d s' d') r r' := by
  have hkeys : ∀ s d s' d', HistoryReuse s d s' d' → Confusable s d s' d' := fun _ _ _ _ h => h.2
  have hno : ∀ s d s' d', NoReuse s d s' d' → Confusable s d s' d' := fun _ _ _ _ h => h.elim
  cases r with
  | error e => cases isOk_of_plans hkeys h hskey hdkey
  | ok p =>
    cases r' with
    | error e =>
      cases isOk_of_plans hno h' (Ty.hashable_congr hs ▸ hskey) (Ty.hashable_congr hd ▸ hdkey)
    | ok q =>
      refine .ok ⟨h, h', ?_⟩
      rw [← p.kind_verdict, ← q.kind_verdict]
      exact kind_eq_of_plans (fun s d s' d' h => (betweenSpellings_historyReuse s d s' d' h).2)
        h.2 rfl hs hd h'.2

theorem plan_together (hs : s.same s' = true) (hd : d.same d' = true) (hskey : s.hashable = true)
    (hdkey : d.hashable = true) :
    Together Γ (Γ.plan s d) (Γ.plan s' d')
      (Agree (PlansFor Γ s.normalize d.normalize s'.normalize d'.normalize)) := by
  have hn : ∀ s d : Ty, NormalPair s.normalize d.normalize :=
    fun s d => ⟨Ty.normalize_normalize s, Ty.normalize_normalize d⟩
  refine .of_keeps (fun _ => plan_keeps closedPairs_normalPair (hn s d))
    (plan_keeps closedPairs_normalPair (hn s' d')) fun r r' h h' => ?_
  exact agree_of_planAnswer (Ty.same_normalize hs) (Ty.same_normalize hd)
    (hashable_normalize hskey) (hashable_normalize hdkey) h h'

/-- The same for results. -/
theorem planResult_together (hs : s.same s' = true) (hd : d.same d' = true)
    (hskey : s.hashable = true) (hdkey : d.hashable = true) :
    Together Γ (Γ.planResult s d) (Γ.planResult s' d') (Agree Plan.Alike) := by
  have hn : ∀ s d : Ty, NormalPair s.normalize d.normalize :=
    fun s d => ⟨Ty.normalize_normalize s, Ty.normalize_normalize d⟩
  have hkeeps : ∀ (keeps : Bool) (R : Reuse) (s d : Ty),
      Keeps (Planner.Sound Γ keeps NormalPair R) (Γ.planResult s d)
        (Γ.MemoAnswer R .results s.normalize d.normalize) := fun keeps R s d =>
    remembered_keeps (hn s d) (resultPlan_keeps closedPairs_normalPair (hn s d))
  refine .of_keeps (fun keeps => hkeeps keeps _ s d) (hkeeps false _ s' d') fun r r' h h' => ?_
  unfold MemoAnswer at h h'
  rw [Memo.results.settled_congr (Ty.same_normalize hs) (Ty.same_normalize hd)] at h
  cases hsettled : Memo.results.settled s'.normalize d'.normalize with
  | some w =>
    rw [hsettled] at h h'
    obtain ⟨p, rfl, -, hw, hdiscard⟩ := h
    obtain ⟨q, rfl, -, hw', hdiscard'⟩ := h'
    refine .ok ⟨?_, hdiscard.trans hdiscard'.symm⟩
    rw [← p.kind_verdict, ← q.kind_verdict, hw, hw']
  | none =>
    rw [hsettled] at h h'
    have hagree := agree_of_planAnswer (Ty.same_normalize hs) (Ty.same_normalize hd)
      (hashable_normalize hskey) (hashable_normalize hdkey) h h'
    cases hagree with
    | ok hpq => exact .ok hpq.alike
    | error => exact .error

/-- Between types that are no unions, the plans do the same to every value. -/
theorem effect_applyPlan_eq {p q : Plan} (h : PlansFor Γ s d s' d' p q) (hs : s.same s' = true)
    (hd : d.same d' = true) (hsu : s.isUnion = false) (hdu : d.isUnion = false)
    (hn : NormalPair s d) (hn' : NormalPair s' d') (heap : Heap) (v : Value) :
    effect (Γ.applyPlan heap p v) = effect (Γ.applyPlan heap q v) := by
  obtain ⟨s₁, d₁, hs₁, hd₁, hn₁, hlike⟩ :=
    runs_like_spelling betweenSpellings_historyReuse h.kept.2 hn rfl heap v
  have hlike' := hlike.respelled (Ty.same_trans hs₁ hs) (Ty.same_trans hd₁ hd)
    ((Ty.isUnion_congr hs₁).trans hsu) ((Ty.isUnion_congr hd₁).trans hdu) hn₁ hn'
  rw [applyPlan_of_handsOn h.kept.1, applyPlan_of_handsOn h.fresh.1]
  exact hlike' _ (eq_freshVerdict hn' h.fresh.2).symm

/-- A plan for the absent value never works on it. -/
theorem applyPlan_of_void {p q : Plan} (h : PlansFor Γ s d s' d' p q) (hs : s'.isVoid = true)
    (heap heap' : Heap) (v : Value) :
    Γ.applyPlan heap p v = .ok v ∧ Γ.applyPlan heap' q v = .ok v := by
  have hdirect : ∃ r, Γ.direct? s' d' = some r ∧ ∀ w, r = .ok w → w.kind ≠ .explicitConvert := by
    unfold direct?
    rw [if_pos hs]
    split
    · exact ⟨_, rfl, fun w hw => by cases hw⟩
    split
    · exact ⟨_, rfl, fun w hw => by rw [← Except.ok.inj hw]; decide⟩
    split
    · exact ⟨_, rfl, fun w hw => by rw [← Except.ok.inj hw]; decide⟩
    · refine ⟨_, rfl, fun w hw => ?_⟩
      rw [← Except.ok.inj hw]
      split <;> decide
  obtain ⟨r, hr, hkind⟩ := hdirect
  have hne := hkind _ (eq_of_plans_noReuse hr h.fresh.2).symm
  have hne' : p.verdict.kind ≠ .explicitConvert := by
    rwa [p.kind_verdict, h.kind, ← q.kind_verdict]
  rw [applyPlan_of_handsOn h.kept.1, applyPlan_of_handsOn h.fresh.1]
  exact ⟨runVerdict_of_kind_ne hne' v, runVerdict_of_kind_ne hne v⟩

end Agreement

end CallAdapter
