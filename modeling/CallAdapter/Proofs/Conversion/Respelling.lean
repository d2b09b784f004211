import CallAdapter.Proofs.Conversion.Derivation

/-!
# Other spellings of a question

The rules that need no members give the same decision to every spelling of a pair, except for the
destination that an operation names (`direct?_respelled`). So all answers to the spellings of a
pair are of one kind (`kind_eq_of_plans`), and a pair of keys is never refused (`isOk_of_plans`).
For types that are no unions even the operations agree in what they do.
-/

namespace CallAdapter

/-- Two operations that differ at most in the spelling `d` or `d'` of their destination. -/
inductive Operation.Respelled (d d' : Ty) : Operation → Operation → Prop
  | refl (op : Operation) : Respelled d d' op op
  | cast : Respelled d d' (.cast d) (.cast d')
  | unbox : Respelled d d' (.unbox d) (.unbox d')

/-- Two verdicts that differ at most in the spelling of the destination. -/
inductive Verdict.Respelled (d d' : Ty) : Verdict → Verdict → Prop
  | refl (v : Verdict) : Respelled d d' v v
  | convert {op op' : Operation} : op.Respelled d d' op' →
    Respelled d d' (.convert op) (.convert op')

/-- Two outcomes of the rules that look at no members, alike up to the spelling of the
destination. -/
inductive AnswerRespelled (d d' : Ty) :
    Option (Except Failure Verdict) → Option (Except Failure Verdict) → Prop
  | members : AnswerRespelled d d' none none
  | refused : AnswerRespelled d d' (some (.error .typeError)) (some (.error .typeError))
  | decided {v v' : Verdict} : v.Respelled d d' v' →
    AnswerRespelled d d' (some (.ok v)) (some (.ok v'))

theorem Verdict.Respelled.kind_eq {d d' : Ty} {v v' : Verdict} (h : v.Respelled d d' v') :
    v.kind = v'.kind := by
  cases h <;> rfl

theorem rel_ite {α : Type} {P : α → α → Prop} {c : Prop} [Decidable c] {a a' b b' : α}
    (ha : c → P a a') (hb : ¬c → P b b') : P (if c then a else b) (if c then a' else b') := by
  split
  · exact ha ‹_›
  · exact hb ‹_›

namespace Program

variable {Γ : Program} {s d s' d' : Ty}

theorem isSubclass_congr (hs : s.same s' = true) (hd : d.same d' = true) :
    Γ.isSubclass s d = Γ.isSubclass s' d' := by
  cases hcs : s.isClass with
  | false => simp [isSubclass, ← Ty.isClass_congr hs, hcs]
  | true =>
    cases hcd : d.isClass with
    | false => simp [isSubclass, ← Ty.isClass_congr hd, hcd]
    | true => rw [Ty.eq_of_isClass hs hcs, Ty.eq_of_isClass hd hcd]

theorem isAbstractType_congr (hs : s.same s' = true) :
    Γ.isAbstractType s = Γ.isAbstractType s' :=
  Ty.same_congr_head Γ.isAbstractType (fun _ _ _ _ => rfl) (fun _ _ _ => rfl) (fun _ _ => rfl)
    (fun _ _ => rfl) hs

theorem aliasVerdict_respelled (hs : s.same s' = true) (hd : d.same d' = true)
    (hsu : s.isUnion = false) (hdu : d.isUnion = false) :
    (Γ.aliasVerdict s d).Respelled d d' (Γ.aliasVerdict s' d') := by
  have hso := Ty.same_origin hs hsu
  have hdo := Ty.same_origin hd hdu
  by_cases hclass : (s.origin.isClass && d.origin.isClass) = true
  swap
  · simp only [aliasVerdict, ← Ty.isClass_congr hso, ← Ty.isClass_congr hdo,
      eq_false_of_ne_true hclass, Bool.not_false, if_true]
    exact .refl _
  rw [Bool.and_eq_true] at hclass
  simp only [aliasVerdict, ← Ty.isClass_congr hso, ← Ty.isClass_congr hdo,
    ← isSubclass_congr hso hdo, ← isSubclass_congr hdo hso, ← isAbstractType_congr hso,
    ← Ty.isAlias_congr hs, ← Ty.isAlias_congr hd,
    ← Ty.sameAll_congr (Ty.args_congr hs hsu (Ty.origin_ne_literal hclass.1))
      (Ty.args_congr hd hdu (Ty.origin_ne_literal hclass.2))]
  have hcast : (Verdict.convert (.cast d)).Respelled d d' (.convert (.cast d')) := .convert .cast
  refine rel_ite (fun _ => .refl _) fun _ => rel_ite (fun _ => ?_) fun _ => ?_
  · exact rel_ite (fun _ => .refl _) fun _ => rel_ite (fun _ => hcast) fun _ => .refl _
  refine rel_ite (fun _ => ?_) fun _ => ?_
  · exact rel_ite (fun _ => hcast) fun _ => .refl _
  exact rel_ite (fun _ => .refl _) fun _ => rel_ite (fun _ => .refl _) fun _ =>
    rel_ite (fun _ => hcast) fun _ => .refl _

/-- The rules that look at no members answer all spellings alike. -/
theorem direct?_respelled (hs : s.same s' = true) (hd : d.same d' = true) :
    AnswerRespelled d d' (Γ.direct? s d) (Γ.direct? s' d') := by
  unfold direct?
  rw [← Ty.refusesPlanning_congr hs hd, ← Ty.same_congr hs hd, ← Ty.isTop_congr hs,
    ← Ty.isTop_congr hd, ← Ty.isVoid_congr hs, ← Ty.isVoid_congr hd, ← Ty.isOptional_congr hd,
    ← Ty.isUnion_congr hs, ← Ty.isUnion_congr hd, ← Ty.isAlias_congr hs, ← Ty.isAlias_congr hd,
    ← Ty.isClass_congr hs, ← Ty.isClass_congr hd]
  have hrefl : ∀ v : Verdict, AnswerRespelled d d' (some (.ok v)) (some (.ok v)) :=
    fun v => .decided (.refl v)
  refine rel_ite (fun _ => .refused) fun _ => rel_ite (fun _ => hrefl _) fun _ =>
    rel_ite (fun _ => hrefl _) fun _ => rel_ite (fun _ => hrefl _) fun _ =>
    rel_ite (fun _ => hrefl _) fun _ => rel_ite (fun _ => .decided (.convert .unbox)) fun _ =>
    rel_ite (fun _ => .members) fun hu => ?_
  rw [Bool.or_eq_true, not_or, Bool.not_eq_true, Bool.not_eq_true] at hu
  refine rel_ite (fun _ => .decided (aliasVerdict_respelled hs hd hu.1 hu.2)) fun _ =>
    rel_ite (fun hclass => ?_) fun _ => hrefl _
  rw [Bool.and_eq_true] at hclass
  rw [Ty.eq_of_isClass hs hclass.1, Ty.eq_of_isClass hd hclass.2]
  exact .decided (.refl _)

theorem direct?_eq_none_congr (hs : s.same s' = true) (hd : d.same d' = true)
    (h : Γ.direct? s d = none) : Γ.direct? s' d' = none := by
  have hspelled : AnswerRespelled d d' (Γ.direct? s d) (Γ.direct? s' d') := direct?_respelled hs hd
  rw [h] at hspelled
  generalize Γ.direct? s' d' = o' at hspelled ⊢
  cases hspelled
  rfl

/-! ## Kinds of answers -/

/-- Every kind that one list of answers has, the other has too. -/
def KindsWithin (as bs : List (Ty × Verdict)) : Prop :=
  ∀ a ∈ as, ∃ b ∈ bs, a.2.kind = b.2.kind

theorem isImplicit_eq_of_kind_eq {v w : Verdict} (h : v.kind = w.kind) :
    v.isImplicit = w.isImplicit := by
  cases v <;> cases w <;> first | rfl | cases h

theorem all_isImplicit_of_kindsWithin {as bs : List (Ty × Verdict)} (h : KindsWithin as bs)
    (hb : (bs.all fun b => b.2.isImplicit) = true) : (as.all fun a => a.2.isImplicit) = true := by
  rw [List.all_eq_true] at hb ⊢
  intro a ha
  obtain ⟨b, hmem, hab⟩ := h a ha
  rw [isImplicit_eq_of_kind_eq hab]
  exact hb b hmem

theorem any_isPossible_of_kindsWithin {as bs : List (Ty × Verdict)} (h : KindsWithin as bs)
    (ha : (as.any fun a => a.2.isPossible) = true) : (bs.any fun b => b.2.isPossible) = true := by
  rw [List.any_eq_true] at ha ⊢
  obtain ⟨a, hmem, ha⟩ := ha
  obtain ⟨b, hb, hab⟩ := h a hmem
  refine ⟨b, hb, ?_⟩
  rw [Verdict.isPossible_iff] at ha ⊢
  rwa [← hab]

theorem kind_fromUnion_eq {as bs : List (Ty × Verdict)} (d d' : Ty) (hab : KindsWithin as bs)
    (hba : KindsWithin bs as) : (fromUnion d as).kind = (fromUnion d' bs).kind := by
  have himplicit : (as.all fun a => a.2.isImplicit) = bs.all fun b => b.2.isImplicit :=
    Bool.eq_iff_iff.2
      ⟨all_isImplicit_of_kindsWithin hba, all_isImplicit_of_kindsWithin hab⟩
  have hpossible : (as.any fun a => a.2.isPossible) = bs.any fun b => b.2.isPossible :=
    Bool.eq_iff_iff.2
      ⟨any_isPossible_of_kindsWithin hab, any_isPossible_of_kindsWithin hba⟩
  unfold fromUnion
  rw [himplicit, hpossible]
  split
  · rfl
  split <;> rfl

/-- The first operation is one that some answer has. -/
theorem firstOperation_cases (as : List (Ty × Verdict)) :
    (∃ a ∈ as, ∃ op, a.2 = .convert op ∧ firstOperation as = .convert op) ∨
      (∀ a ∈ as, a.2.kind ≠ .explicitConvert) ∧ firstOperation as = .impossible := by
  unfold firstOperation
  cases hfirst : as.findSome? fun a => a.2.operation? with
  | some op =>
    obtain ⟨a, ha, hop⟩ := List.exists_of_findSome?_eq_some hfirst
    refine .inl ⟨a, ha, op, ?_, rfl⟩
    cases hv : a.2 with
    | convert op' =>
      rw [hv] at hop
      exact congrArg Verdict.convert (Option.some.inj hop)
    | _ =>
      rw [hv] at hop
      cases hop
  | none =>
    refine .inr ⟨fun a ha hkind => ?_, rfl⟩
    rw [← Verdict.operation?_isSome_iff, List.findSome?_eq_none_iff.1 hfirst a ha] at hkind
    cases hkind

/-- What holds of all answers holds of the first operation, if there is one. -/
theorem firstOperation_induction {as : List (Ty × Verdict)} {good : Verdict → Prop}
    (hnone : good .impossible) (hanswers : ∀ a ∈ as, good a.2) : good (firstOperation as) := by
  rcases firstOperation_cases as with ⟨a, ha, op, hop, hfirst⟩ | ⟨-, hfirst⟩
  · rw [hfirst, ← hop]
    exact hanswers a ha
  · rw [hfirst]
    exact hnone

theorem kind_firstOperation_eq {as bs : List (Ty × Verdict)} (hab : KindsWithin as bs)
    (hba : KindsWithin bs as) : (firstOperation as).kind = (firstOperation bs).kind := by
  rcases firstOperation_cases as with ⟨a, ha, op, haop, has⟩ | ⟨hnone, has⟩
  · rcases firstOperation_cases bs with ⟨b, hb, op', hbop, hbs⟩ | ⟨hnone, hbs⟩
    · rw [has, hbs]
      rfl
    · obtain ⟨b, hb, hkind⟩ := hab a ha
      rw [haop] at hkind
      exact absurd hkind.symm (hnone b hb)
  · rcases firstOperation_cases bs with ⟨b, hb, op', hbop, hbs⟩ | ⟨-, hbs⟩
    · obtain ⟨a, ha, hkind⟩ := hba b hb
      rw [hbop] at hkind
      exact absurd hkind.symm (hnone a ha)
    · rw [has, hbs]

/-- An answer that reuses nothing is the one of the rules. -/
theorem eq_of_plans_noReuse {r r' : Except Failure Verdict} (hdirect : Γ.direct? s d = some r')
    (h : Γ.Plans NoReuse s d r) : r = r' := by
  cases h with
  | direct h => exact Option.some.inj (h.symm.trans hdirect)
  | reused hR _ => cases hR
  | fromUnion hnone | fromUnionError hnone | intoUntouched hnone | intoFirst hnone
  | intoError hnone => cases hnone.symm.trans hdirect

/-- The answer on a union as a source that reuses nothing. -/
theorem fromUnion_of_plans_noReuse {w : Verdict} (hnone : Γ.direct? s d = none)
    (hs : s.isUnion = true) (h : Γ.Plans NoReuse s d (.ok w)) :
    ∃ as, as.map (·.1) = s.unionMembers ∧ (∀ a ∈ as, Γ.Plans NoReuse a.1 d (.ok a.2)) ∧
      w = fromUnion d as := by
  cases h with
  | direct hdirect => cases hnone.symm.trans hdirect
  | reused hR _ => cases hR
  | intoUntouched _ hs' | intoFirst _ hs' => cases hs.symm.trans hs'
  | fromUnion _ _ hmap hplans => exact ⟨_, hmap, hplans, rfl⟩

/-- The answer on a union as a destination that reuses nothing. -/
theorem intoUnion_of_plans_noReuse {w : Verdict} (hnone : Γ.direct? s d = none)
    (hs : s.isUnion = false) (h : Γ.Plans NoReuse s d (.ok w)) :
    (w = .widen ∧ ∃ m ∈ d.unionMembers, ∃ v, v.isImplicit = true ∧ Γ.Plans NoReuse s m (.ok v)) ∨
      ∃ as, as.map (·.1) = d.unionMembers ∧
        (∀ a ∈ as, a.2.isImplicit = false ∧ Γ.Plans NoReuse s a.1 (.ok a.2)) ∧
        w = firstOperation as := by
  cases h with
  | direct hdirect => cases hnone.symm.trans hdirect
  | reused hR _ => cases hR
  | fromUnion _ hs' => cases hs'.symm.trans hs
  | intoUntouched _ _ hmembers _ _ hv hplan =>
    exact .inl ⟨rfl, _, by simp [hmembers], _, hv, hplan⟩
  | intoFirst _ _ hmap hanswers hplans =>
    exact .inr ⟨_, hmap, fun a ha => ⟨hanswers a ha, hplans a ha⟩, rfl⟩

/-- A refusal on a union as a source that reuses nothing comes from a member. -/
theorem sourceRefused_of_plans_noReuse {e : Failure} (hnone : Γ.direct? s d = none)
    (hs : s.isUnion = true) (h : Γ.Plans NoReuse s d (.error e)) :
    ∃ m ∈ s.unionMembers, Γ.Plans NoReuse m d (.error e) := by
  cases h with
  | direct hdirect => cases hnone.symm.trans hdirect
  | reused hR _ => cases hR
  | intoError _ hs' => cases hs.symm.trans hs'
  | fromUnionError _ _ hm hplan => exact ⟨_, hm, hplan⟩

/-- A refusal on a union as a destination that reuses nothing comes from a member, before which
nothing was reached untouched. -/
theorem destRefused_of_plans_noReuse {e : Failure} (hnone : Γ.direct? s d = none)
    (hs : s.isUnion = false) (h : Γ.Plans NoReuse s d (.error e)) :
    ∃ as : List (Ty × Verdict), ∃ m rest, d.unionMembers = as.map (·.1) ++ m :: rest ∧
      (∀ a ∈ as, a.2.isImplicit = false ∧ Γ.Plans NoReuse s a.1 (.ok a.2)) ∧
      Γ.Plans NoReuse s m (.error e) := by
  cases h with
  | direct hdirect => cases hnone.symm.trans hdirect
  | reused hR _ => cases hR
  | fromUnionError _ hs' => cases hs'.symm.trans hs
  | intoError _ _ hmembers hanswers hplans hplan =>
    exact ⟨_, _, _, hmembers, fun a ha => ⟨hanswers a ha, hplans a ha⟩, hplan⟩

theorem kindsWithin_of_members {as bs : List (Ty × Verdict)}
    (hmembers : ∀ m ∈ as.map (·.1), ∃ n ∈ bs.map (·.1), m.same n = true)
    (hkind : ∀ a ∈ as, ∀ b ∈ bs, a.1.same b.1 = true → a.2.kind = b.2.kind) :
    KindsWithin as bs := by
  intro a ha
  obtain ⟨n, hn, hmn⟩ := hmembers a.1 (List.mem_map_of_mem ha)
  obtain ⟨b, hb, rfl⟩ := List.mem_map.1 hn
  exact ⟨b, hb, hkind a ha b hb hmn⟩

/-- Answers for the members of two spellings have the same kinds. -/
theorem kindsWithin_of_sameMembers {as bs : List (Ty × Verdict)}
    (hmembers : Ty.SameMembers (as.map (·.1)) (bs.map (·.1)))
    (hkind : ∀ a ∈ as, ∀ b ∈ bs, a.1.same b.1 = true → a.2.kind = b.2.kind) :
    KindsWithin as bs ∧ KindsWithin bs as :=
  ⟨kindsWithin_of_members hmembers.1 hkind,
    kindsWithin_of_members hmembers.symm.1
      fun b hb a ha hba => (hkind a ha b hb (Ty.same_symm hba)).symm⟩

/-- All answers to the spellings of a pair are of one kind. -/
theorem kind_eq_of_plans {R : Reuse}
    (hR : ∀ s d s' d', R s d s' d' → s'.same s = true ∧ d'.same d = true)
    {r : Except Failure Verdict} (h : Γ.Plans R s d r) {w w' : Verdict} (hr : r = .ok w)
    (hs : s.same s' = true) (hd : d.same d' = true) (h' : Γ.Plans NoReuse s' d' (.ok w')) :
    w.kind = w'.kind := by
  induction h generalizing w w' s' d' with
  | @direct s d r hdirect =>
    subst hr
    generalize hdirect' : Γ.direct? s' d' = o'
    have hspelled : AnswerRespelled d d' (some (.ok w)) o' :=
      hdirect ▸ hdirect' ▸ direct?_respelled hs hd
    cases hspelled with
    | decided hv =>
      obtain rfl := Except.ok.inj (eq_of_plans_noReuse hdirect' h')
      exact hv.kind_eq
  | reused hreuse _ ih =>
    obtain ⟨hss, hdd⟩ := hR _ _ _ _ hreuse
    exact ih hr (Ty.same_trans hss hs) (Ty.same_trans hdd hd) h'
  | fromUnionError | intoError => cases hr
  | @fromUnion s d as hnone hu has _ ih =>
    obtain rfl := Except.ok.inj hr
    have hu' : s'.isUnion = true := Ty.isUnion_congr hs ▸ hu
    obtain ⟨bs, hbs, hplans', rfl⟩ :=
      fromUnion_of_plans_noReuse (direct?_eq_none_congr hs hd hnone) hu' h'
    have hmembers : Ty.SameMembers (as.map (·.1)) (bs.map (·.1)) := by
      rw [has, hbs]
      exact Ty.unionMembers_congr hs hu
    obtain ⟨hab, hba⟩ := kindsWithin_of_sameMembers hmembers
      fun a ha b hb hab => ih a ha rfl hab hd (hplans' b hb)
    exact kind_fromUnion_eq _ _ hab hba
  | @intoUntouched s d m as rest v hnone hu hmembers _ _ hv _ _ ih =>
    obtain rfl := Except.ok.inj hr
    have hu' : s'.isUnion = false := Ty.isUnion_congr hs ▸ hu
    have hdu : d.isUnion = true := isUnion_dest_of_direct?_eq_none hnone hu
    rcases intoUnion_of_plans_noReuse (direct?_eq_none_congr hs hd hnone) hu' h' with
      ⟨rfl, -⟩ | ⟨bs, hbs, hanswers', rfl⟩
    · rfl
    · -- the member that is reached untouched is among those that are not
      obtain ⟨n, hn, hmn⟩ := (Ty.unionMembers_congr hd hdu).1 m (by simp [hmembers])
      rw [← hbs] at hn
      obtain ⟨b, hb, rfl⟩ := List.mem_map.1 hn
      have hkind := ih rfl hs hmn (hanswers' b hb).2
      rw [isImplicit_eq_of_kind_eq hkind, (hanswers' b hb).1] at hv
      cases hv
  | @intoFirst s d as hnone hu has hanswers _ ih =>
    obtain rfl := Except.ok.inj hr
    have hu' : s'.isUnion = false := Ty.isUnion_congr hs ▸ hu
    have hdu : d.isUnion = true := isUnion_dest_of_direct?_eq_none hnone hu
    have hmembers := Ty.unionMembers_congr hd hdu
    rw [← has] at hmembers
    rcases intoUnion_of_plans_noReuse (direct?_eq_none_congr hs hd hnone) hu' h' with
      ⟨rfl, n, hn, v, hv, hplan'⟩ | ⟨bs, hbs, hanswers', rfl⟩
    · obtain ⟨m, hm, hmn⟩ := hmembers.2 n hn
      obtain ⟨a, ha, rfl⟩ := List.mem_map.1 hm
      have hkind := ih a ha rfl hs hmn hplan'
      rw [← isImplicit_eq_of_kind_eq hkind, hanswers a ha] at hv
      cases hv
    · rw [← hbs] at hmembers
      obtain ⟨hab, hba⟩ := kindsWithin_of_sameMembers hmembers
        fun a ha b hb hab => ih a ha rfl hs hab (hanswers' b hb).2
      exact kind_firstOperation_eq hab hba

/-! ## Refused comparisons -/

theorem not_refusesPlanning_of_hashable (hs : s.hashable = true) (hd : d.hashable = true) :
    Ty.refusesPlanning s d = false :=
  (Ty.comparable_of_hashable hs).not_refusesPlanning (Ty.comparable_of_hashable hd)

/-- Members of a key are keys. -/
theorem hashable_of_mem_unionMembers {m : Ty} (hs : s.isUnion = true) (hkey : s.hashable = true)
    (hm : m ∈ s.unionMembers) : m.hashable = true := by
  cases s with
  | union p ms =>
    rw [Ty.hashable, Ty.allHashable_iff] at hkey
    exact hkey m hm
  | _ => cases hs

/-- Planning between keys is never refused. -/
theorem isOk_of_plans {R : Reuse} (hR : ∀ s d s' d', R s d s' d' → Confusable s d s' d')
    {r : Except Failure Verdict} (h : Γ.Plans R s d r) (hs : s.hashable = true)
    (hd : d.hashable = true) : r.isOk = true := by
  induction h with
  | @direct s d r hdirect =>
    cases r with
    | ok v => rfl
    | error e =>
      unfold direct? at hdirect
      rw [not_refusesPlanning_of_hashable hs hd] at hdirect
      grind
  | reused hreuse _ ih =>
    obtain ⟨-, -, -, -, hs', hd'⟩ := hR _ _ _ _ hreuse
    exact ih hs' hd'
  | fromUnion | intoUntouched | intoFirst => rfl
  | fromUnionError _ hu hm _ ih => exact ih (hashable_of_mem_unionMembers hu hs hm) hd
  | @intoError s d m as rest e hnone hu hmembers _ _ _ _ ih =>
    have hdu : d.isUnion = true := isUnion_dest_of_direct?_eq_none hnone hu
    exact ih hs (hashable_of_mem_unionMembers hdu hd (by simp [hmembers]))

/-- Two walks over one list that stop somewhere: at one place, or one of them went past the
other's. -/
theorem stops_cases {α : Type} {as bs cs ds : List α} {a b : α}
    (h : as ++ a :: cs = bs ++ b :: ds) : (as = bs ∧ a = b) ∨ b ∈ as ∨ a ∈ bs := by
  induction as generalizing bs with
  | nil =>
    cases bs with
    | nil => exact .inl ⟨rfl, (List.cons.inj h).1⟩
    | cons x bs => exact .inr (.inr ((List.cons.inj h).1 ▸ List.mem_cons_self))
  | cons x as ih =>
    cases bs with
    | nil => exact .inr (.inl ((List.cons.inj h).1 ▸ List.mem_cons_self))
    | cons y bs =>
      obtain ⟨rfl, htail⟩ := List.cons.inj h
      rcases ih htail with ⟨rfl, rfl⟩ | hb | ha
      · exact .inl ⟨rfl, rfl⟩
      · exact .inr (.inl (List.mem_cons_of_mem _ hb))
      · exact .inr (.inr (List.mem_cons_of_mem _ ha))

/-- Whether planning a pair is refused does not depend on what is reused. -/
theorem isOk_eq_of_plans {R : Reuse} (hR : ∀ s d s' d', R s d s' d' → Confusable s d s' d')
    {r r' : Except Failure Verdict} (h : Γ.Plans R s d r) (h' : Γ.Plans NoReuse s d r') :
    r.isOk = r'.isOk := by
  have hnoReuse : ∀ s d s' d', NoReuse s d s' d' → Confusable s d s' d' := fun _ _ _ _ h => h.elim
  have himplicit : ∀ {s m : Ty} {v w : Verdict}, Γ.Plans R s m (.ok v) →
      Γ.Plans NoReuse s m (.ok w) → v.isImplicit = w.isImplicit := by
    intro s m v w hv hw
    have hsame : ∀ s d s' d', R s d s' d' → s'.same s = true ∧ d'.same d = true :=
      fun s d s' d' h => ⟨(hR s d s' d' h).1, (hR s d s' d' h).2.1⟩
    exact isImplicit_eq_of_kind_eq
      (kind_eq_of_plans hsame hv rfl (Ty.same_refl s) (Ty.same_refl m) hw)
  induction h generalizing r' with
  | direct hdirect => rw [eq_of_plans_noReuse hdirect h']
  | reused hreuse hplan ih =>
    obtain ⟨-, -, hs, hd, hs', hd'⟩ := hR _ _ _ _ hreuse
    rw [isOk_of_plans hR hplan hs' hd', isOk_of_plans hnoReuse h' hs hd]
  | @fromUnion s d as hnone hu has _ ih =>
    cases r' with
    | ok w => rfl
    | error e =>
      obtain ⟨m, hm, hplan⟩ := sourceRefused_of_plans_noReuse hnone hu h'
      rw [← has] at hm
      obtain ⟨a, ha, rfl⟩ := List.mem_map.1 hm
      exact ih a ha hplan
  | fromUnionError hnone hu hm _ ih =>
    cases r' with
    | error e => rfl
    | ok w =>
      obtain ⟨as, has, hplans, rfl⟩ := fromUnion_of_plans_noReuse hnone hu h'
      rw [← has] at hm
      obtain ⟨a, ha, rfl⟩ := List.mem_map.1 hm
      cases ih (hplans a ha)
  | @intoUntouched s d m as rest v hnone hu hmembers hanswers _ hv hplan ihas ih =>
    cases r' with
    | ok w => rfl
    | error e =>
      obtain ⟨bs, n, rest', hmembers', hanswers', herror⟩ :=
        destRefused_of_plans_noReuse hnone hu h'
      -- both walks go through the members of the destination, and one of them stops first
      rcases stops_cases (hmembers.symm.trans hmembers') with ⟨-, rfl⟩ | hn | hm
      · exact ih herror
      · obtain ⟨a, ha, rfl⟩ := List.mem_map.1 hn
        exact ihas a ha herror
      · obtain ⟨b, hb, rfl⟩ := List.mem_map.1 hm
        rw [himplicit hplan (hanswers' b hb).2, (hanswers' b hb).1] at hv
        cases hv
  | @intoFirst s d as hnone hu has hanswers _ ih =>
    cases r' with
    | ok w => rfl
    | error e =>
      obtain ⟨bs, n, rest, hmembers', -, herror⟩ := destRefused_of_plans_noReuse hnone hu h'
      obtain ⟨a, ha, rfl⟩ := List.mem_map.1
        (show n ∈ as.map (·.1) by rw [has, hmembers']; simp)
      exact ih a ha herror
  | @intoError s d m as rest e hnone hu hmembers hanswers hplans _ ihas ih =>
    cases h' with
    | direct hdirect => cases hnone.symm.trans hdirect
    | reused hreuse _ => cases hreuse
    | fromUnionError | intoError => rfl
    | fromUnion _ hu' => cases hu'.symm.trans hu
    | @intoFirst _ _ bs _ _ hmap _ hplans' =>
      obtain ⟨b, hb, rfl⟩ := List.mem_map.1
        (show m ∈ bs.map (·.1) by rw [hmap, hmembers]; simp)
      cases ih (hplans' b hb)
    | @intoUntouched _ _ n bs rest' v _ _ hmembers' hanswers' hplans' hv hplan' =>
      rcases stops_cases (hmembers.symm.trans hmembers') with ⟨-, rfl⟩ | hn | hm
      · cases ih hplan'
      · obtain ⟨a, ha, rfl⟩ := List.mem_map.1 hn
        rw [← himplicit (hplans a ha) hplan', hanswers a ha] at hv
        cases hv
      · obtain ⟨b, hb, rfl⟩ := List.mem_map.1 hm
        cases ih (hplans' b hb)

/-! ## The answer that reuses nothing -/

theorem eq_of_forall_mem_eq {as bs : List (Ty × Verdict)} (hmap : as.map (·.1) = bs.map (·.1))
    (h : ∀ a ∈ as, ∀ v, (a.1, v) ∈ bs → a.2 = v) : as = bs := by
  induction as generalizing bs with
  | nil => exact (List.map_eq_nil_iff.1 hmap.symm).symm
  | cons a as ih =>
    cases bs with
    | nil => cases hmap
    | cons b bs =>
      obtain ⟨hab, htail⟩ := List.cons.inj hmap
      have hab : a.1 = b.1 := hab
      have hv : a.2 = b.2 := h a List.mem_cons_self b.2 (by rw [hab]; exact List.mem_cons_self)
      rw [Prod.ext hab hv, ih htail fun a' ha' v hv =>
        h a' (List.mem_cons_of_mem _ ha') v (List.mem_cons_of_mem _ hv)]

theorem eq_ok_of_plans_noReuse {r : Except Failure Verdict} {w : Verdict}
    (h : Γ.Plans NoReuse s d r) (hr : r.isOk = true) (h' : Γ.Plans NoReuse s d (.ok w)) :
    r = .ok w := by
  induction h generalizing w with
  | direct hdirect => exact (eq_of_plans_noReuse hdirect h').symm
  | reused hreuse _ => cases hreuse
  | fromUnionError | intoError => cases hr
  | @fromUnion s d as hnone hu has _ ih =>
    obtain ⟨bs, hbs, hplans', rfl⟩ := fromUnion_of_plans_noReuse hnone hu h'
    rw [eq_of_forall_mem_eq (has.trans hbs.symm) fun a ha v hv =>
      Except.ok.inj (ih a ha rfl (hplans' _ hv))]
  | @intoUntouched s d m as rest v hnone hu hmembers hanswers _ hv _ ihas ih =>
    rcases intoUnion_of_plans_noReuse hnone hu h' with ⟨rfl, -⟩ | ⟨bs, hbs, hanswers', rfl⟩
    · rfl
    · obtain ⟨b, hb, rfl⟩ := List.mem_map.1
        (show m ∈ bs.map (·.1) by rw [hbs, hmembers]; simp)
      obtain rfl := Except.ok.inj (ih rfl (hanswers' b hb).2)
      rw [(hanswers' b hb).1] at hv
      cases hv
  | @intoFirst s d as hnone hu has hanswers _ ih =>
    rcases intoUnion_of_plans_noReuse hnone hu h' with
      ⟨rfl, m, hm, v, hv, hplan'⟩ | ⟨bs, hbs, hanswers', rfl⟩
    · rw [← has] at hm
      obtain ⟨a, ha, rfl⟩ := List.mem_map.1 hm
      obtain rfl := Except.ok.inj (ih a ha rfl hplan')
      rw [hanswers a ha] at hv
      cases hv
    · rw [eq_of_forall_mem_eq (has.trans hbs.symm) fun a ha v hv =>
        Except.ok.inj (ih a ha rfl (hanswers' _ hv).2)]

/-- Without reuse there is one answer. -/
theorem plans_noReuse_unique {r r' : Except Failure Verdict} (h : Γ.Plans NoReuse s d r)
    (h' : Γ.Plans NoReuse s d r') : r = r' := by
  have hok : r.isOk = r'.isOk := isOk_eq_of_plans (fun _ _ _ _ h => h.elim) h h'
  cases r with
  | error e =>
    cases r' with
    | error e' => rw [eq_typeError_of_plans h e rfl, eq_typeError_of_plans h' e' rfl]
    | ok w' => cases hok
  | ok w =>
    cases r' with
    | error e' => cases hok
    | ok w' => exact eq_ok_of_plans_noReuse h rfl h'

/-- Pairs of types in normal form. -/
def NormalPair (s d : Ty) : Prop := s.normalize = s ∧ d.normalize = d

theorem closedPairs_normalPair : ClosedPairs NormalPair where
  normal := id
  source := fun h hu hm => ⟨(Ty.isNormalMember_of_mem h.1 hu hm).1, h.2⟩
  dest := fun h hu hm => ⟨h.1, (Ty.isNormalMember_of_mem h.2 hu hm).1⟩

/-- The verdict of a planner that keeps nothing. -/
def freshVerdict (Γ : Program) (s d : Ty) : Except Failure Verdict :=
  (Γ.freshPlan s d).map (·.verdict)

/-- A fresh plan is that of a decision. -/
theorem exists_of_freshPlan {p : Plan} (h : Γ.freshPlan s d = .ok p) : ∃ v, p = .of s d v := by
  have hrun : (Γ.planNormal planDepth s d).run.run ⟨false, [], []⟩ =
      (.ok p, ((Γ.planNormal planDepth s d).run.run ⟨false, [], []⟩).2) := Prod.ext h rfl
  obtain ⟨v, q, -, hpure⟩ := exists_of_run_bind_eq_ok hrun
  cases hpure
  exact ⟨v, rfl⟩

theorem planAnswer_freshPlan (h : NormalPair s d) : Γ.PlanAnswer NoReuse s d (Γ.freshPlan s d) :=
  have hempty : Planner.Sound Γ false NormalPair NoReuse ⟨false, [], []⟩ :=
    Planner.sound_of_empty fun h => nomatch h
  (planNormal_keeps closedPairs_normalPair h (unionLevels_le s d) _ hempty).2

theorem plans_freshVerdict (h : NormalPair s d) : Γ.Plans NoReuse s d (Γ.freshVerdict s d) := by
  have hanswer := planAnswer_freshPlan (Γ := Γ) h
  unfold freshVerdict
  cases hfresh : Γ.freshPlan s d with
  | error e =>
    rw [hfresh] at hanswer
    exact hanswer
  | ok p =>
    rw [hfresh] at hanswer
    exact hanswer.2

theorem eq_freshVerdict (h : NormalPair s d) {r : Except Failure Verdict}
    (hr : Γ.Plans NoReuse s d r) : r = Γ.freshVerdict s d :=
  plans_noReuse_unique hr (plans_freshVerdict h)

end Program

end CallAdapter
