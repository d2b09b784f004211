import CallAdapter.Proofs.Adapter.Delivery

/-!
# The natural shape of a member

The shape whose types are those that a member declares. Between it and the member there is nothing
to convert: where the declared types can be compared with themselves, its slots hand everything over
(`run_planLayer_of_same`), and whatever was planned before, an adapter to the natural shape invokes
the member with what it is given (`run_natural`). A member is planned for a shape as its natural shape
is (`run_adapterFor_unbound`).
-/

namespace CallAdapter

open Program

/-- Normal forms of comparable types are comparable. -/
theorem Ty.Comparable.normalize {t : Ty} (h : t.Comparable) : t.normalize.Comparable := by
  induction t using memInduction with
  | union p ms _ =>
    have hkey : (union p ms).hashable = true := by
      simpa [Comparable, refusesComparison, hashable] using h
    exact comparable_of_hashable (hashable_normalize hkey)
  | applied k as ih =>
    cases as with
    | nil => cases k <;> first | rfl | exact h
    | cons a as =>
      cases k with
      | classVar | final | annotated =>
        exact ih a List.mem_cons_self (h.of_mem_args (by simp) a List.mem_cons_self)
      | _ => exact h
  | form f => cases f <;> rfl
  | null | text => rfl
  | _ => exact h

/-- What cells of a comparable type hold is of a comparable type. -/
theorem Ty.Comparable.content {d : Ty} (h : d.Comparable) : d.content.Comparable := by
  unfold Ty.content
  split
  · rename_i hd
    unfold cellElement
    cases hargs : d.args with
    | nil => rfl
    | cons a as =>
      exact (h.of_mem_of_isClass (isUnion_of_isCell hd) (isClass_origin_of_isCell hd)
        (hargs ▸ List.mem_cons_self)).normalize
  · exact h

/-- Comparing the shape with another one of comparable types is not refused. -/
structure Shape.Comparable (S : Shape) : Prop where
  params : ∀ g ∈ S.params, g.Comparable
  returns : S.returns.Comparable

theorem Shape.Comparable.not_refuses {S S' : Shape} (h : S.Comparable) (h' : S'.Comparable) :
    S.refusesComparison S' = false := by
  have hparams : Ty.refusesAny S.params S'.params = false :=
    Ty.refusesAny_of_forall fun g hg d hd => (h.params g hg).not_refuses (h'.params d hd)
  unfold Shape.refusesComparison
  rw [hparams, h.returns.not_refuses h'.returns, Bool.and_false, Bool.false_or]

/-- The shape whose types are those that the member declares. -/
def Target.naturalShape (t : Target) : Shape := .make t.inputs t.result

/-- All declared types are in normal form. -/
def Target.IsNormal (t : Target) : Prop :=
  (∀ d ∈ t.inputs, d.normalize = d) ∧ t.result.normalize = t.result

theorem naturalShape_eq {t : Target} (ht : t.IsNormal) : t.naturalShape = ⟨t.inputs, t.result⟩ := by
  unfold Target.naturalShape Shape.make
  rw [List.map_congr_left ht.1, List.map_id', ht.2]

/-- The declared types can be compared. -/
structure Target.Comparable (t : Target) : Prop where
  inputs : ∀ d ∈ t.inputs, d.Comparable
  result : t.result.Comparable

theorem Target.Comparable.natural {t : Target} (h : t.Comparable) (ht : t.IsNormal) :
    t.naturalShape.Comparable := by
  rw [naturalShape_eq ht]
  exact ⟨h.inputs, h.result⟩

section Routes

variable {Γ : Program} {s d : Ty} {p : Planner} {t : Target} {S : Shape}

theorem run_plan_of_direct? {v : Verdict} (hp : p.memoize = false)
    (h : Γ.direct? s.normalize d.normalize = some (.ok v)) :
    (Γ.plan s d).run.run p = (.ok (.of s.normalize d.normalize v), p) := by
  unfold plan
  rw [run_remembered_of_not_key (by rw [hp]; rfl)]
  unfold planNormal planDepth
  have hverdict : ∀ sub, (Γ.verdict sub s.normalize d.normalize).run.run p = (.ok v, p) := by
    intro sub
    unfold verdict
    rw [h]
    rfl
  rw [run_bind_of_ok (hverdict _)]
  rfl

theorem Plan.IsIdle.isPossible {p : Plan} (hp : p.IsIdle) : p.isPossible = true := by
  simp [Plan.isPossible, hp.kind]

theorem Plan.IsIdle.isIdentity {p : Plan} (hp : p.IsIdle) : p.isIdentity = true := by
  simp [Plan.isIdentity, hp.kind]

theorem Plan.isIdle_of_identity (s d : Ty) : (Plan.of s d .identity).IsIdle :=
  ⟨rfl, Plan.handsOn_of s d .identity⟩

/-- Between spellings of one type that can be compared, planners of the kind plan that there is
nothing to do, and stay of the kind. -/
structure IdlesBetweenSame (Γ : Program) (Inv : Planner → Prop) : Prop where
  plan : ∀ {s d : Ty}, s.same d = true → d.normalize.Comparable →
    Keeps Inv (Γ.plan s d) (OutcomeIs Plan.IsIdle fun _ => False)
  result : ∀ {s d : Ty}, s.same d = true → d.normalize.Comparable →
    Keeps Inv (Γ.planResult s d) (OutcomeIs Plan.IsIdle fun _ => False)

theorem exists_of_keeps {α : Type} {Inv : Planner → Prop} {x : PlanM α} {good : α → Prop}
    (h : Keeps Inv x (OutcomeIs good fun _ => False)) (hp : Inv p) :
    ∃ a p', x.run.run p = (.ok a, p') ∧ Inv p' ∧ good a := by
  obtain ⟨hinv, houtcome⟩ := h p hp
  cases hrun : x.run.run p with
  | mk r p' =>
    rw [hrun] at hinv houtcome
    cases r with
    | error e => exact houtcome.elim
    | ok a => exact ⟨a, p', rfl, hinv, houtcome⟩

/-- A planner that keeps nothing plans so, and stays as it is. -/
theorem idles_forgetting (hp : p.memoize = false) : IdlesBetweenSame Γ (· = p) := by
  have hplan : ∀ {s d : Ty}, s.same d = true → d.normalize.Comparable →
      (Γ.plan s d).run.run p = (.ok (.of s.normalize d.normalize .identity), p) := by
    intro s d hsame hcomparable
    have hn := Ty.same_normalize hsame
    refine run_plan_of_direct? hp ?_
    unfold direct?
    rw [Ty.refusesPlanning_congr hn (Ty.same_refl _),
      hcomparable.not_refusesPlanning hcomparable, hn]
    rfl
  constructor
  · rintro s d hsame hcomparable _ rfl
    rw [hplan hsame hcomparable]
    exact ⟨rfl, Plan.isIdle_of_identity _ _⟩
  · rintro s d hsame hcomparable _ rfl
    have hn := Ty.same_normalize hsame
    unfold planResult
    rw [run_remembered_of_not_key (by rw [hp]; rfl)]
    unfold resultPlan
    rw [Ty.isVoid_congr hn]
    split
    · exact ⟨rfl, Plan.isIdle_of_identity _ _⟩
    · rw [hplan hn (by rwa [Ty.normalize_normalize])]
      exact ⟨rfl, Plan.isIdle_of_identity _ _⟩

/-- For spellings of one type the rules answer that there is nothing to do, unless they cannot be
compared. -/
theorem plans_of_same {R : Reuse} (hR : BetweenSpellings R) {r : Except Failure Verdict}
    (h : Γ.Plans R s d r) (hsame : s.same d = true) :
    r = if Ty.refusesPlanning d d then .error .typeError else .ok .identity := by
  have hdirect : ∀ {s d : Ty}, s.same d = true → Γ.direct? s d =
      some (if Ty.refusesPlanning d d then .error .typeError else .ok .identity) := by
    intro s d hsame
    unfold direct?
    rw [Ty.refusesPlanning_congr hsame (Ty.same_refl _), hsame, if_pos rfl]
    split <;> rfl
  induction h with
  | direct h => exact Option.some.inj (h.symm.trans (hdirect hsame))
  | reused hreuse _ ih =>
    obtain ⟨-, hss, hdd⟩ := hR _ _ _ _ hreuse
    rw [ih (Ty.same_trans hss (Ty.same_trans hsame (Ty.same_symm hdd))),
      Ty.refusesPlanning_congr hdd hdd]
  | fromUnion h | fromUnionError h | intoUntouched h | intoFirst h | intoError h =>
    cases h.symm.trans (hdirect hsame)

/-- So a plan between spellings of one type has nothing to do. -/
theorem isIdle_of_planAnswer {R : Reuse} (hR : BetweenSpellings R) {p : Plan}
    (h : Γ.PlanAnswer R s d (.ok p)) (hsame : s.same d = true) : p.IsIdle := by
  have hverdict := plans_of_same hR h.2 hsame
  split at hverdict
  · cases hverdict
  · refine ⟨?_, h.1⟩
    rw [← p.kind_verdict, Except.ok.inj hverdict]
    rfl

theorem isIdle_of_memoAnswer {R : Reuse} (hR : BetweenSpellings R) {p : Plan}
    (h : Γ.MemoAnswer R .results s d (.ok p)) (hsame : s.same d = true) : p.IsIdle := by
  unfold MemoAnswer Memo.settled at h
  rw [Ty.isVoid_congr hsame] at h
  cases hvoid : d.isVoid with
  | false =>
    rw [hvoid] at h
    exact isIdle_of_planAnswer hR h hsame
  | true =>
    rw [hvoid] at h
    obtain ⟨_, hp, hpaired, hverdict, hdiscard⟩ := h
    obtain rfl := Except.ok.inj hp
    refine ⟨?_, hpaired, hdiscard⟩
    rw [← p.kind_verdict, hverdict]
    rfl

/-- Planners of every history plan so. -/
theorem idles_sound (keeps : Bool) :
    IdlesBetweenSame Γ (Planner.Sound Γ keeps NormalPair HistoryReuse) := by
  have hR := betweenSpellings_historyReuse
  have herror : ∀ {s d : Ty} {e : Failure},
      Γ.PlanAnswer HistoryReuse s.normalize d.normalize (.error e) → s.same d = true →
      d.normalize.Comparable → False := by
    intro s d e h hsame hcomparable
    have hplans := plans_of_same hR h (Ty.same_normalize hsame)
    rw [hcomparable.not_refusesPlanning hcomparable] at hplans
    cases hplans
  constructor
  · intro s d hsame hcomparable
    refine (plan_keeps_normal s d).mono fun r h => ?_
    cases r with
    | error e => exact herror h hsame hcomparable
    | ok plan => exact isIdle_of_planAnswer hR h (Ty.same_normalize hsame)
  · intro s d hsame hcomparable
    refine (planResult_keeps s d).mono fun r h => ?_
    cases r with
    | error e =>
      unfold MemoAnswer at h
      split at h
      · obtain ⟨_, hp, -⟩ := h
        cases hp
      · exact herror h hsame hcomparable
    | ok plan => exact isIdle_of_memoAnswer hR h (Ty.same_normalize hsame)

variable {Inv : Planner → Prop}

/-- Between parameters and inputs of the same types, all slots hand over. -/
theorem run_planSlots_of_same (hidle : IdlesBetweenSame Γ Inv) (hp : Inv p) {i : Nat}
    {gs ds : List Ty} (hsame : List.Forall₂ (fun g d => g.same d = true) gs ds)
    (hcomparable : ∀ d ∈ ds, d.content.normalize.Comparable) :
    ∃ slots p', (Γ.planSlots i gs ds).run.run.run p = (.ok (.ok slots), p') ∧ Inv p' ∧
      HandOver i ds slots := by
  induction hsame generalizing i p with
  | nil => exact ⟨[], p, rfl, hp, .nil⟩
  | @cons g d gs ds hg _ ih =>
    obtain ⟨plan, p₁, hplan, hp₁, hplanned⟩ :=
      exists_of_keeps (hidle.plan (Ty.same_content hg) (hcomparable d List.mem_cons_self)) hp
    obtain ⟨slots, p₂, hslots, hp₂, hover⟩ :=
      ih (i := i + 1) hp₁ fun d hd => hcomparable d (List.mem_cons_of_mem _ hd)
    have hslot := run_planSlot (i := i) hplan
    rw [if_pos hplanned.isPossible, hplanned.isIdentity] at hslot
    refine ⟨⟨.argument i, plan, SlotMode.of g.isCell d.isCell true⟩ :: slots, p₂, ?_, hp₂,
      .cons ⟨rfl, ?_, hplanned⟩ hover⟩
    · unfold planSlots
      rw [run_match_bind_of_ok hslot, run_match_bind_of_ok hslots]
      rfl
    · rw [Ty.isCell_congr hg]
      cases d.isCell <;> rfl

/-- A layer between shapes of the same types hands everything over. -/
theorem run_planLayer_of_same (hidle : IdlesBetweenSame Γ Inv) (hp : Inv p) (ht : t.IsNormal)
    (hsame : S.same t.naturalShape = true) (hcomparable : t.Comparable) :
    ∃ l p', (Γ.planLayer S t.naturalShape).run.run p = (.ok (some l), p') ∧ Inv p' ∧
      l.shape = S ∧ l.HandsOver t := by
  rw [naturalShape_eq ht] at hsame ⊢
  obtain ⟨hparams, hreturns⟩ := Shape.same_iff.1 hsame
  have hcontents : ∀ d ∈ t.inputs, d.content.normalize.Comparable := by
    intro d hd
    rw [normalize_content (ht.1 d hd)]
    exact (hcomparable.inputs d hd).content
  obtain ⟨slots, p₁, hslots, hp₁, hover⟩ :=
    run_planSlots_of_same (Γ := Γ) (i := 0) hidle hp hparams hcontents
  have hreturn : S.returns.normalize.Comparable := by
    refine hcomparable.result.congr ?_
    have hn := Ty.same_normalize hreturns
    rw [ht.2] at hn
    exact Ty.same_symm hn
  obtain ⟨result, p₂, hresult, hp₂, hplanned⟩ :=
    exists_of_keeps (hidle.result (Ty.same_symm hreturns) hreturn) hp₁
  refine ⟨⟨S, slots, result⟩, p₂, ?_, hp₂, rfl, hover, hplanned⟩
  unfold planLayer
  rw [if_neg (fun h => h hparams.length_eq.symm), run_bind_of_ok hslots]
  dsimp only
  rw [run_bind_of_ok hresult, if_pos hplanned.isPossible]
  rfl

/-- The direct route plans what the layer onto the natural shape plans. -/
theorem run_adapterFor_unbound (hgeneric : t.isGeneric = false) (ht : t.IsNormal) (h : Heap)
    (S : Shape) (p : Planner) :
    (Γ.adapterFor h (some S) (some t) .unbound).run.run p =
      let out := (Γ.planLayer S t.naturalShape).run.run p
      (out.1.map (Option.map fun l => .member (l.onto t)), out.2) := by
  rw [run_adapterFor hgeneric, naturalShape_eq ht, planSignature_unbound]
  by_cases harity : S.arity = t.inputs.length
  · have harity' : (⟨t.inputs, t.result⟩ : Shape).arity = S.arity := harity.symm
    rw [if_pos harity, run_lineUp, run_planLayer harity']
    dsimp only
    split
    · rfl
    · rfl
    · split
      · rfl
      · split <;> rfl
  · have harity' : (⟨t.inputs, t.result⟩ : Shape).arity ≠ S.arity := fun h => harity h.symm
    unfold planLayer
    rw [if_neg harity, if_pos harity']
    rfl

/-- Slots that were planned between the same types hand over. -/
theorem handOver_of_slotsPlanned {R : Reuse} (hR : BetweenSpellings R) {i : Nat} {gs ds : List Ty}
    {slots : List Slot} (h : SlotsPlanned Γ R i gs ds slots)
    (hsame : List.Forall₂ (fun g d => g.same d = true) gs ds) : HandOver i ds slots := by
  induction h with
  | nil => exact .nil
  | @cons i g d gs ds s slots hsource hs _ ih =>
    cases hsame with
    | cons hg hgs =>
      have hidle := isIdle_of_planAnswer hR hs.answer (Ty.same_normalize (Ty.same_content hg))
      refine .cons ⟨hsource, ?_, hidle⟩ (ih hgs)
      rw [hs.mode, hidle.isIdentity, Ty.isCell_congr hg]
      cases d.isCell <;> rfl

/-- However an adapter of a member to its natural shape came about, it invokes the member with what
it is given. -/
theorem run_natural_of_planned {R : Reuse} (hR : BetweenSpellings R) (ht : t.IsNormal) {h : Heap}
    {sig : SignaturePlan} (hp : sig.Planned Γ R h t.naturalShape t .unbound) {values : List Value}
    (hcells : List.Forall₂ (fun d v => d.isCell = true → Γ.isCellValue v = true) t.inputs values)
    (rt : Runtime) (w : World) :
    ((Adapter.member sig).call Γ rt values).run.run w = (rt.invoke Γ t values).run.run w := by
  rw [naturalShape_eq ht] at hp
  cases hp with
  | captured hbound => cases hbound
  | @free slots result _ hslots hresult =>
    have hidle := isIdle_of_memoAnswer hR hresult.answer (Ty.same_refl _)
    have hover := handOver_of_slotsPlanned hR hslots (List.forall₂_same.2 fun d _ => Ty.same_refl d)
    exact run_handsOver (n := ⟨⟨t.inputs, t.result⟩, slots, result⟩) rt w hslots
      ⟨hover, hidle⟩ hcells

/-- A layer that was planned afresh fits the member. -/
theorem fits_of_planLayer (ht : t.IsNormal) {l : Layer}
    (h : ((Γ.planLayer S t.naturalShape).run.run ⟨false, [], []⟩).1 = .ok (some l)) :
    l.shape = S ∧ l.Fits Γ t := by
  rw [naturalShape_eq ht] at h
  obtain ⟨rfl, hslots⟩ := slotsPlanned_of_planLayer (Planner.forgetful_empty Γ) h
  exact ⟨rfl, ⟨hslots⟩⟩

end Routes

section Compiled

variable {Γ : Program} {t : Target} {h : Heap} {memoize : Bool} {history : List PlanRequest}

/-- A member whose declared types can be compared is adapted to its natural shape. -/
theorem exists_natural (hgeneric : t.isGeneric = false) (ht : t.IsNormal)
    (hcomparable : t.Comparable) (h : Heap) (memoize : Bool) (history : List PlanRequest) :
    ∃ a q, (Γ.adapterFor h (some t.naturalShape) (some t) .unbound).run.run
      (Γ.afterRequests history ⟨memoize, [], []⟩) = (.ok (some a), q) := by
  obtain ⟨l, q, hlayer, -⟩ := run_planLayer_of_same (idles_sound memoize)
    (sound_history memoize history) ht (Shape.same_refl _) hcomparable
  refine ⟨.member (l.onto t), q, ?_⟩
  rw [run_adapterFor_unbound hgeneric ht, hlayer]
  rfl

/-- An adapter of a member to its natural shape invokes the member with what it is given. -/
theorem run_natural (ht : t.IsNormal) {a : Adapter} {q : Planner}
    (hrun : (Γ.adapterFor h (some t.naturalShape) (some t) .unbound).run.run
      (Γ.afterRequests history ⟨memoize, [], []⟩) = (.ok (some a), q)) {values : List Value}
    (hcells : List.Forall₂ (fun d v => d.isCell = true → Γ.isCellValue v = true) t.inputs values)
    (rt : Runtime) (w : World) :
    (a.call Γ rt values).run.run w = (rt.invoke Γ t values).run.run w := by
  obtain ⟨-, sig, rfl, -⟩ := exists_of_run_adapterFor hrun
  exact run_natural_of_planned betweenSpellings_historyReuse ht
    (planned_of_adapterFor (sound_history memoize history) (congrArg Prod.fst hrun)) hcells rt w

end Compiled

end CallAdapter
