import CallAdapter.Proofs.Conversion.Widening

/-!
# Nothing through optional types

An optional type lists nothing among its members, and a plan for it hands the absent value to the
first member that has it as an instance. Where that is nothing itself, or everything, the value
stays where the destination lists nothing, and is refused where it has no place
(`none_through_optional`). A member before it may claim the value, though, and then has the last
word (`hashable_claims_none`).
-/

namespace CallAdapter

open Program

namespace Ty

/-- The type, or nothing. -/
def optional (t : Ty) : Ty := unionOf [t, none]

theorem none_mem_dedupe {ts : List Ty} (h : none ∈ ts) : none ∈ dedupe ts := by
  obtain ⟨t, ht, hsame⟩ := (sameMembers_dedupe ts).1 none h
  rwa [(same_iff_eq_of_isAtom rfl _).1 hsame]

theorem none_mem_flat_normalize_union {p : Bool} {ms : List Ty} (h : none ∈ ms) :
    none ∈ (union p ms).normalize.flat := by
  have hmembers : ∀ m ∈ (ms.map normalize).flatMap flat, m.isUnion = false := by
    intro m hm
    obtain ⟨n, hn, hm⟩ := List.mem_flatMap.1 hm
    obtain ⟨k, -, rfl⟩ := List.mem_map.1 hn
    exact ((normalize_spec k).2 m hm).2
  rw [normalize, normalizeAll_eq_map, unionOf, flat_ofMembers hmembers]
  exact none_mem_dedupe (List.mem_flatMap.2
    ⟨none, List.mem_map.2 ⟨none, h, rfl⟩, List.mem_singleton_self none⟩)

/-- An optional type lists nothing. -/
theorem none_mem_flat_optional (t : Ty) : none ∈ t.optional.normalize.flat := by
  have hnone : none ∈ dedupe ([t, none].flatMap flat) :=
    none_mem_dedupe (List.mem_flatMap.2 ⟨none, by simp, List.mem_singleton_self none⟩)
  unfold optional unionOf
  by_cases hsingle : ∃ u, dedupe ([t, none].flatMap flat) = [u]
  · obtain ⟨u, hu⟩ := hsingle
    rw [hu, List.mem_singleton] at hnone
    rw [ofMembers_of_dedupe false hu, ← hnone]
    exact List.mem_singleton_self none
  · rw [ofMembers_of_not_dedupe false hsingle]
    exact none_mem_flat_normalize_union hnone

end Ty

section Effects

variable {r : Except Failure Value} {v : Value}

theorem effect_eq_ok_iff : effect r = .ok v ↔ r = .ok v := by
  cases r <;> simp [effect, Except.mapError]

theorem effect_eq_error_none_iff :
    effect r = .error none ↔ ∃ f, r = .error f ∧ f.isCast = true := by
  cases r <;> simp [effect, Except.mapError]

end Effects

namespace Program

section None

variable {Γ : Program} {h : Heap} {s d m : Ty} {w : Verdict}

theorem fits_of_untouched_none (hd : Γ.Untouched .none d) : Fits Γ h d .none := by
  have hnone : Fits Γ h .none .none := .absent rfl rfl
  cases hd with
  | same hsame => exact hnone.respelled hsame
  | top hdtop => exact .top hdtop
  | absent _ hoptional => exact fits_of_isOptional hnone hoptional
  | fromUnion hu => cases hu
  | intoUnion hsolid => cases hsolid.void
  | subclass hsolid => cases hsolid.void
  | numeric hsolid => cases hsolid.void

/-- Nothing goes over to a type that lists it. -/
theorem untouched_none_of_mem (hd : .none ∈ d.flat) : Γ.Untouched .none d := by
  cases hu : d.isUnion with
  | true =>
    rw [Ty.flat_of_isUnion hu] at hd
    refine .absent rfl ?_
    rw [Ty.isOptional, hu, Bool.true_and, List.any_eq_true]
    exact ⟨.none, hd, rfl⟩
  | false =>
    rw [Ty.flat_of_isUnion_eq_false hu, List.mem_singleton] at hd
    exact hd ▸ .same (Ty.same_refl _)

theorem comparableWith_cls (c : Cls) (d : Ty) : (Ty.cls c).ComparableWith d := by
  intro a ha b _
  rw [Ty.flat_of_isUnion_eq_false rfl, List.mem_singleton] at ha
  exact ha ▸ Ty.cls_refusesPlanning b c

/-- From nothing a value goes over untouched, or not at all. -/
theorem kind_ne_of_none (hn : d.normalize = d) (hw : Γ.freshVerdict .none d = .ok w) :
    w.kind ≠ .explicitConvert := by
  have hpair : NormalPair .none d := ⟨rfl, hn⟩
  have hrefuses : Ty.refusesPlanning .none d = false := Ty.cls_refusesPlanning d _
  have hvoid : Ty.none.isVoid = true := rfl
  cases hdirect : Γ.direct? .none d with
  | none => cases (direct?_eq_none_iff.1 hdirect).2.2.2.1
  | some r =>
    rw [freshVerdict_of_direct? hpair hdirect] at hw
    subst hw
    unfold direct? at hdirect
    grind [Verdict.kind]

theorem exists_freshVerdict_none (Γ : Program) (hn : d.normalize = d) :
    ∃ w, Γ.freshVerdict .none d = .ok w ∧
      (w.kind = .impossible ∨ w.isImplicit = true) ∧
      (w.isImplicit = true ↔ Γ.Untouched .none d) := by
  have hpair : NormalPair .none d := ⟨rfl, hn⟩
  obtain ⟨w, hw⟩ := exists_freshVerdict (Γ := Γ) hpair (comparableWith_cls _ d)
  have hkind := kind_ne_of_none hn hw
  refine ⟨w, hw, ?_, isImplicit_iff_untouched hpair hw⟩
  cases w with
  | impossible => exact .inl rfl
  | convert op => exact absurd rfl hkind
  | _ => exact .inr rfl

/-- An unboxing keeps the absent value exactly where nothing goes over. -/
theorem effect_unboxed_none (hn : d.normalize = d) :
    (Γ.Untouched .none d → effect (Γ.unboxed h d .none) = .ok .none) ∧
      (¬Γ.Untouched .none d → effect (Γ.unboxed h d .none) = .error none) := by
  obtain ⟨w, hw, hkind, huntouched⟩ := exists_freshVerdict_none Γ hn
  have hclass : Γ.classOf .none = .builtin .none := rfl
  rw [unboxed_eq, hclass, if_neg (by decide), hw, ← huntouched]
  cases w with
  | convert op => rcases hkind with h | h <;> cases h
  | impossible => exact ⟨nofun, fun _ => rfl⟩
  | _ => exact ⟨fun _ => rfl, fun h => absurd rfl h⟩

/-- A value of unknown type is unboxed, unless everything is asked for. -/
theorem direct?_of_isTop (hs : s.isTop = true) (hdtop : d.isTop = false)
    (hdvoid : d.isVoid = false) : Γ.direct? s d = some (.ok (.convert (.unbox d))) := by
  have hsame : s.same d = false := by
    by_contra hsame
    rw [Bool.not_eq_false] at hsame
    cases hdtop.symm.trans (Ty.isTop_congr hsame ▸ hs)
  have hsvoid : s.isVoid = false := by
    rcases (Ty.isTop_iff s).1 hs with rfl | rfl <;> rfl
  have hrefuses : Ty.refusesPlanning s d = false := by
    rcases (Ty.isTop_iff s).1 hs with rfl | rfl <;> exact Ty.cls_refusesPlanning d _
  simp [direct?, hrefuses, hsame, hdtop, hsvoid, hdvoid, hs]

/-- What becomes of the absent value with the verdict on a member: a member that cannot be
converted refuses it. -/
def noneThrough (Γ : Program) (h : Heap) (w : Verdict) : Except (Option Failure) Value :=
  if w.kind = .impossible then .error none else effect (Γ.runVerdict h w .none)

theorem noneThrough_of_isImplicit (hw : w.isImplicit = true) :
    Γ.noneThrough h w = .ok .none := by
  cases w <;> first | rfl | cases hw

/-- Planned from nothing, the absent value stays exactly where nothing goes over. -/
theorem noneThrough_of_isVoid (hm : m.isVoid = true) (hn : NormalPair m d)
    (hplans : Γ.Plans HistoryReuse m d (.ok w)) :
    (Γ.Untouched .none d → Γ.noneThrough h w = .ok .none) ∧
      (¬Γ.Untouched .none d → Γ.noneThrough h w = .error none) := by
  rw [Ty.isVoid_iff] at hm
  subst hm
  obtain ⟨w', hw', hdecided, huntouched⟩ := exists_freshVerdict_none Γ hn.2
  have hkind : w.kind = w'.kind := kind_eq_freshVerdict betweenSpellings_historyReuse hplans
    (Ty.same_refl _) (Ty.same_refl _) hn hw'
  rw [← huntouched]
  constructor
  · intro himplicit
    exact noneThrough_of_isImplicit ((isImplicit_eq_of_kind_eq hkind).trans himplicit)
  · intro hexplicit
    rw [noneThrough, if_pos (hkind.trans (hdecided.resolve_right hexplicit))]

/-- Planned from everything to everything, the absent value stays. -/
theorem noneThrough_of_isTop_of_isTop (hm : m.isTop = true) (hdtop : d.isTop = true)
    (hn : NormalPair m d) (hplans : Γ.Plans HistoryReuse m d (.ok w)) :
    Γ.noneThrough h w = .ok .none := by
  obtain ⟨w', hw'⟩ : ∃ w', Γ.freshVerdict m d = .ok w' := by
    rcases (Ty.isTop_iff m).1 hm with rfl | rfl <;>
      exact exists_freshVerdict hn (comparableWith_cls _ d)
  have hkind : w.kind = w'.kind := kind_eq_freshVerdict betweenSpellings_historyReuse hplans
    (Ty.same_refl _) (Ty.same_refl _) hn hw'
  exact noneThrough_of_isImplicit ((isImplicit_eq_of_kind_eq hkind).trans
    ((isImplicit_iff_untouched hn hw').2 (.top hdtop)))

/-- Planned from everything to anything else, the absent value is unboxed. -/
theorem noneThrough_of_isTop (hm : m.isTop = true) (hdtop : d.isTop = false)
    (hdvoid : d.isVoid = false) (hn : NormalPair m d)
    (hplans : Γ.Plans HistoryReuse m d (.ok w)) :
    (Γ.Untouched .none d → Γ.noneThrough h w = .ok .none) ∧
      (¬Γ.Untouched .none d → Γ.noneThrough h w = .error none) := by
  obtain ⟨s', d', hs', hd', hn', hlike⟩ :=
    runs_like_spelling betweenSpellings_historyReuse hplans hn rfl h .none
  have hfresh : Γ.freshVerdict s' d' = .ok (.convert (.unbox d')) :=
    freshVerdict_of_direct? hn' (direct?_of_isTop (Ty.isTop_congr hs' ▸ hm)
      (Ty.isTop_congr hd' ▸ hdtop) (Ty.isVoid_congr hd' ▸ hdvoid))
  have hkind : w.kind = .explicitConvert :=
    kind_eq_freshVerdict betweenSpellings_historyReuse hplans (Ty.same_symm hs') (Ty.same_symm hd')
      hn' hfresh
  have hrun : Γ.noneThrough h w = effect (Γ.unboxed h d' .none) := by
    rw [noneThrough, if_neg (by rw [hkind]; nofun), hlike _ hfresh]
    rfl
  have hcongr : Γ.Untouched .none d ↔ Γ.Untouched .none d' :=
    ⟨fun h => h.congr (Ty.same_refl _) (Ty.same_symm hd'), fun h => h.congr (Ty.same_refl _) hd'⟩
  rw [hrun, hcongr]
  exact effect_unboxed_none hn'.2

/-- Planned from nothing or from everything, the absent value stays exactly where nothing goes
over. -/
theorem noneThrough_eq (hm : m.isVoid = true ∨ m.isTop = true) (hn : NormalPair m d)
    (hdvoid : d.isVoid = false) (hplans : Γ.Plans HistoryReuse m d (.ok w)) :
    (Γ.Untouched .none d → Γ.noneThrough h w = .ok .none) ∧
      (¬Γ.Untouched .none d → Γ.noneThrough h w = .error none) := by
  rcases hm with hm | hm
  · exact noneThrough_of_isVoid hm hn hplans
  cases hdtop : d.isTop with
  | true =>
    have huntouched : Γ.Untouched .none d := .top hdtop
    exact ⟨fun _ => noneThrough_of_isTop_of_isTop hm hdtop hn hplans, fun h => absurd huntouched h⟩
  | false => exact noneThrough_of_isTop hm hdtop hdvoid hn hplans

/-! ### Members that claim the absent value -/

/-- The classes whose values are converted by an operation of their own. -/
def convertedClasses : List Builtin := [.int, .float, .decimal, .fraction]

/-- The type is over none of the classes whose values are converted. -/
def OnlyCasts (Γ : Program) (s : Ty) : Prop :=
  ∀ b ∈ convertedClasses, Γ.isSubclass s (.builtin b) = false

/-- The verdict makes no operation, or a checked cast. -/
def Casts (w : Verdict) : Prop := ∀ op, w.operation? = some op → ∃ t, op = .cast t

theorem mem_convertedClasses : ∀ r ∈ numericRules, r.1.1 ∈ convertedClasses := by
  decide

theorem casts_classVerdict (hs : Γ.OnlyCasts s) : Casts (Γ.classVerdict s d) := by
  have hint : Γ.isSubclass s (.builtin .int) = false := hs .int (by decide)
  have hrules : ∀ r ∈ numericRules, Γ.isSubclass s (.builtin r.1.1) = false :=
    fun r hr => hs r.1.1 (mem_convertedClasses r hr)
  unfold classVerdict
  extract_lets source dest isBool
  have hfind : (numericRules.find? fun r => dest r.1.2 && source r.1.1) = none := by
    refine List.find?_eq_none.2 fun r hr => ?_
    have hsource : source r.1.1 = false := hrules r hr
    rw [hsource, Bool.and_false]
    exact Bool.false_ne_true
  rw [hfind]
  unfold Casts
  grind [Verdict.operation?]

theorem casts_direct? (hs : Γ.OnlyCasts s) (htop : s.isTop = false)
    (hdirect : Γ.direct? s d = some (.ok w)) : Casts w := by
  have hclass := casts_classVerdict (d := d) hs
  have halias : Casts (Γ.aliasVerdict s d) := by
    unfold aliasVerdict Casts
    grind [Verdict.operation?]
  unfold direct? at hdirect
  unfold Casts at *
  grind [Verdict.operation?]

theorem onlyCasts_congr {s' : Ty} (hs : s.same s' = true) (h : Γ.OnlyCasts s) : Γ.OnlyCasts s' := by
  intro b hb
  rw [← isSubclass_congr hs (Ty.same_refl _)]
  exact h b hb

/-- A plan from a type whose values are not converted is a checked cast, if it is an operation. -/
theorem casts_of_plans {R : Reuse} (hR : BetweenSpellings R) {r : Except Failure Verdict}
    (h : Γ.Plans R s d r) (hs : s.IsSolid) (hcasts : Γ.OnlyCasts s) (hr : r = .ok w) : Casts w := by
  induction h generalizing w with
  | direct hdirect => exact casts_direct? hcasts hs.top (hr ▸ hdirect)
  | reused hreuse _ ih =>
    obtain ⟨-, hss, -⟩ := hR _ _ _ _ hreuse
    exact ih (isSolid_congr (Ty.same_symm hss) hs) (onlyCasts_congr (Ty.same_symm hss) hcasts) hr
  | fromUnionError | intoError => cases hr
  | fromUnion _ hu => cases hs.union.symm.trans hu
  | intoUntouched =>
    obtain rfl := Except.ok.inj hr
    exact fun _ h => nomatch h
  | @intoFirst s d as hnone hu has hanswers _ ih =>
    obtain rfl := Except.ok.inj hr
    exact firstOperation_induction (fun _ h => nomatch h) fun a ha => ih a ha hs hcasts rfl

/-- A member whose values are not converted lets the absent value through or refuses it. -/
theorem noneThrough_of_casts (hw : Casts w) :
    Γ.noneThrough h w = .ok .none ∨ Γ.noneThrough h w = .error none := by
  cases w with
  | identity | widen => exact .inl rfl
  | impossible => exact .inr rfl
  | convert op =>
    obtain ⟨t, rfl⟩ := hw op rfl
    have hrun : Γ.noneThrough h (.convert (.cast t)) =
        effect (if Γ.isInstanceOf h .none t == some true then .ok .none
          else .error (Γ.castFailure .none t)) := rfl
    rw [hrun]
    split
    · exact .inl rfl
    · exact .inr rfl

/-- Such a member refuses the absent value where it does not fit the destination. -/
theorem noneThrough_eq_error {K : Cls → Prop} (hK : Lawful Γ K) (hd : Expressible K d)
    (hn : NormalPair m d) (hplans : Γ.Plans HistoryReuse m d (.ok w)) (hm : m.IsSolid)
    (hcasts : Γ.OnlyCasts m) (hclaim : Γ.belongs h .none m = true) (hfits : ¬Fits Γ h d .none) :
    Γ.noneThrough h w = .error none := by
  refine (noneThrough_of_casts
    (casts_of_plans betweenSpellings_historyReuse hplans hm hcasts rfl)).resolve_left fun hok => ?_
  have hpossible : w.isPossible = true := by
    rw [Verdict.isPossible_iff]
    intro hkind
    rw [noneThrough, if_pos hkind] at hok
    cases hok
  rw [noneThrough, if_neg ((Verdict.isPossible_iff w).1 hpossible), effect_eq_ok_iff] at hok
  exact hfits (fits_of_runVerdict hK betweenSpellings_historyReuse hplans hn hd hpossible
    (fits_of_belongs hm.union hclaim) hok)

end None

end Program

section Tries

variable {Γ : Program} {h : Heap} {v : Value} {p q : Planner} {s d src dst m n : Ty} {plan : Plan}

/-- So it is for every planner that was asked before, and such a plan does not go to nothing. -/
theorem exists_tries_of_run (hp : p.Asked Γ) (hunion : src.normalize.isUnion = true)
    (hplan : (Γ.plan src dst).run.run p = (.ok plan, q)) (hkind : plan.kind = .explicitConvert) :
    ∃ d answers, q.Tries Γ src dst answers ∧ dst.normalize.isVoid = false ∧
      plan.verdict = fromUnion d (answers.map fun a => (a.1, a.2.verdict)) ∧
      ∀ a ∈ answers, a.2.HandsOn ∧
        Γ.Plans HistoryReuse a.1.normalize dst.normalize (.ok a.2.verdict) := by
  obtain ⟨memoize, history, rfl⟩ := hp
  obtain ⟨-, -, hplans⟩ := planAnswer_of_run (sound_history memoize history) hplan
  obtain ⟨d, answers, htries, hverdict, hanswers⟩ := exists_tries_of_kind hunion hplan hkind
  have hnone := direct?_eq_none_of_kind (Planner.normalPair_normalize src dst) hunion hplans
    (plan.kind_verdict.trans hkind)
  exact ⟨d, answers, htries, (direct?_eq_none_iff.1 hnone).2.2.2.2.1, hverdict, hanswers⟩

/-- A plan put together from members hands a value to the plan of the first member that it is an
instance of. -/
theorem effect_applyPlan_fromUnion {answers : List (Ty × Plan)} {a : Ty × Plan}
    (hplan : plan.HandsOn)
    (hverdict : plan.verdict = fromUnion d (answers.map fun a => (a.1, a.2.verdict)))
    (hkind : plan.kind = .explicitConvert)
    (hfind : answers.find? (fun a => Γ.belongs h v a.1) = some a) :
    effect (Γ.applyPlan h plan v) =
      if a.2.verdict.kind = .impossible then .error none
      else effect (Γ.runVerdict h a.2.verdict v) := by
  rw [← plan.kind_verdict, hverdict] at hkind
  rw [applyPlan_of_handsOn hplan, hverdict, runVerdict_fromUnion hkind, List.find?_map]
  have hmember : ((fun a : Ty × Verdict => Γ.belongs h v a.1) ∘
      fun a : Ty × Plan => (a.1, a.2.verdict)) = fun a => Γ.belongs h v a.1 := rfl
  rw [hmember, hfind]
  exact effect_runBranch h d a.1 a.2.verdict v

theorem belongs_congr (hmn : m.same n = true) (hm : m.isUnion = false) :
    Γ.belongs h v m = Γ.belongs h v n := by
  unfold belongs
  rw [Ty.isVoid_congr hmn, isInstanceOf_congr hmn hm]

end Tries

/-! ## The absent value -/

/-- The absent value stays where the destination is an optional type, and its cast fails where it
does not fit the destination. -/
structure Plan.PassesNone (Γ : Program) (h : Heap) (dst : Ty) (plan : Plan) : Prop where
  kept : ∀ u : Ty, dst = u.optional → Γ.applyPlan h plan .none = .ok .none
  refused : ¬Fits Γ h dst.normalize .none →
    ∃ f, Γ.applyPlan h plan .none = .error f ∧ f.isCast = true

section Optional

variable {Γ : Program} {h : Heap} {p q : Planner} {t dst : Ty} {plan : Plan}

/-- What stays exactly where nothing goes over passes nothing as it should. -/
theorem passesNone_of_untouched
    (hkept : Γ.Untouched .none dst.normalize → effect (Γ.applyPlan h plan .none) = .ok .none)
    (hrefused : ¬Γ.Untouched .none dst.normalize →
      effect (Γ.applyPlan h plan .none) = .error none) : plan.PassesNone Γ h dst where
  kept := by
    rintro u rfl
    exact effect_eq_ok_iff.1 (hkept (untouched_none_of_mem (Ty.none_mem_flat_optional u)))
  refused hfits :=
    effect_eq_error_none_iff.1
      (hrefused fun huntouched => hfits (fits_of_untouched_none huntouched))

/-- What a type that lists nothing gives untouched, nothing gives. -/
theorem untouched_none_of_flat {s d : Ty} (h : Γ.Untouched s d) (hs : .none ∈ s.flat) :
    Γ.Untouched .none d := by
  cases hu : s.isUnion with
  | false =>
    rw [Ty.flat_of_isUnion_eq_false hu, List.mem_singleton] at hs
    exact hs ▸ h
  | true =>
    rw [Ty.flat_of_isUnion hu] at hs
    rcases h.union_cases hu with hsame | hdtop | hmembers
    · have hnone := untouched_none_of_mem (Γ := Γ) (Ty.flat_of_isUnion hu ▸ hs)
      exact hnone.congr (Ty.same_refl _) hsame
    · exact .top hdtop
    · exact hmembers .none hs

/-- An optional type that makes an operation is a union. -/
theorem isUnion_of_kind (hp : p.Asked Γ)
    (hplan : ((Γ.plan t.optional dst).run.run p).1 = .ok plan)
    (hkind : plan.kind = .explicitConvert) : t.optional.normalize.isUnion = true := by
  by_contra hu
  rw [Bool.not_eq_true] at hu
  have hnone := Ty.none_mem_flat_optional t
  rw [Ty.flat_of_isUnion_eq_false hu, List.mem_singleton] at hnone
  obtain ⟨-, w, hw, hkind'⟩ := hp.freshVerdict_of_plan hplan
  rw [← hnone] at hw
  exact kind_ne_of_none (Ty.normalize_normalize dst) hw (hkind' ▸ hkind)

/-- Nothing is one of the members that are tried. -/
theorem exists_none_of_tries {answers : List (Ty × Plan)}
    (htries : q.Tries Γ t.optional dst answers) (hu : t.optional.normalize.isUnion = true) :
    ∃ a ∈ answers, a.1 = .none := by
  obtain ⟨s, hss, hmembers⟩ := htries.spelled
  have hnone := Ty.none_mem_flat_optional t
  rw [Ty.flat_of_isUnion hu] at hnone
  obtain ⟨n, hn, hsame⟩ := (Ty.unionMembers_congr (Ty.same_symm hss) hu).1 _ hnone
  obtain rfl := (Ty.same_iff_eq_of_isAtom rfl _).1 hsame
  rw [← hmembers] at hn
  obtain ⟨a, ha, hnone⟩ := List.mem_map.1 hn
  exact ⟨a, ha, hnone⟩

/-- What is tried for a union are its members, in some spelling. -/
theorem Planner.Tries.exists_member {src : Ty} {answers : List (Ty × Plan)} {a : Ty × Plan}
    (htries : q.Tries Γ src dst answers) (hu : src.normalize.isUnion = true) (ha : a ∈ answers) :
    ∃ m ∈ src.normalize.flat, m.same a.1 = true ∧ m.normalize = m ∧ m.isUnion = false := by
  obtain ⟨s, hss, hmembers⟩ := htries.spelled
  have hmem : a.1 ∈ s.unionMembers := hmembers ▸ List.mem_map_of_mem ha
  obtain ⟨m, hm, hsame⟩ := (Ty.unionMembers_congr (Ty.same_symm hss) hu).2 _ hmem
  exact ⟨m, Ty.flat_of_isUnion hu ▸ hm, hsame,
    Ty.isNormalMember_of_mem (Ty.normalize_normalize src) hu hm⟩

/-- Nothing and everything are in normal form. -/
theorem normalize_of_isVoid_or_isTop {m : Ty} (hm : m.isVoid = true ∨ m.isTop = true) :
    m.normalize = m := by
  rw [Ty.isVoid_iff, Ty.isTop_iff] at hm
  rcases hm with rfl | rfl | rfl <;> rfl

/-- The absent value is handed to the answer `a`, whose member is a spelling of the member `m`. -/
structure Planner.Claims (Γ : Program) (h : Heap) (q : Planner) (t dst : Ty) (plan : Plan)
    (answers : List (Ty × Plan)) (a : Ty × Plan) (m : Ty) : Prop where
  tries : q.Tries Γ t.optional dst answers
  find : answers.find? (fun a => Γ.belongs h .none a.1) = some a
  effect : effect (Γ.applyPlan h plan .none) = Γ.noneThrough h a.2.verdict
  handsOn : a.2.HandsOn
  plans : Γ.Plans HistoryReuse a.1.normalize dst.normalize (.ok a.2.verdict)
  void : dst.normalize.isVoid = false
  mem : m ∈ t.optional.normalize.flat
  same : m.same a.1 = true
  normal : m.IsNormalMember

/-- An operation hands the absent value to some member. -/
theorem exists_claims (hp : p.Asked Γ) (hplan : (Γ.plan t.optional dst).run.run p = (.ok plan, q))
    (hkind : plan.kind = .explicitConvert) (h : Heap) :
    ∃ answers a m, q.Claims Γ h t dst plan answers a m := by
  have hplan' : ((Γ.plan t.optional dst).run.run p).1 = .ok plan := by rw [hplan]
  have hhands := (hp.freshVerdict_of_plan hplan').1
  have hu := isUnion_of_kind hp hplan' hkind
  obtain ⟨d, answers, htries, hdvoid, hverdict, hanswers⟩ := exists_tries_of_run hp hu hplan hkind
  obtain ⟨b, hb, hbnone⟩ := exists_none_of_tries htries hu
  have hfound : (answers.find? fun a => Γ.belongs h .none a.1).isSome = true :=
    List.find?_isSome.2 ⟨b, hb, by rw [hbnone]; rfl⟩
  obtain ⟨a, hfind⟩ := Option.isSome_iff_exists.1 hfound
  have ha := List.mem_of_find?_eq_some hfind
  obtain ⟨m, hm, hsame, hnormal⟩ := htries.exists_member hu ha
  exact ⟨answers, a, m, htries, hfind, effect_applyPlan_fromUnion hhands hverdict hkind hfind,
    (hanswers a ha).1, (hanswers a ha).2, hdvoid, hm, hsame, hnormal⟩

namespace Planner.Claims

variable {answers : List (Ty × Plan)} {a : Ty × Plan} {m : Ty}

theorem belongs (hc : q.Claims Γ h t dst plan answers a m) : Γ.belongs h .none m = true :=
  (belongs_congr hc.same hc.normal.2).trans
    (List.find?_some (p := fun a : Ty × Plan => Γ.belongs h .none a.1) hc.find)

/-- Claimed by nothing or by everything, the value stays or is refused as it should. -/
theorem passesNone (hc : q.Claims Γ h t dst plan answers a m)
    (hm : m.isVoid = true ∨ m.isTop = true) : plan.PassesNone Γ h dst := by
  have hplans := hc.plans
  rw [Ty.isVoid_congr hc.same, Ty.isTop_congr hc.same] at hm
  rw [normalize_of_isVoid_or_isTop hm] at hplans
  obtain ⟨hkept, hrefused⟩ := noneThrough_eq (h := h) hm
    ⟨normalize_of_isVoid_or_isTop hm, Ty.normalize_normalize dst⟩ hc.void hplans
  exact passesNone_of_untouched (fun h => hc.effect.trans (hkept h))
    fun h => hc.effect.trans (hrefused h)

/-- Claimed by a member that is only cast, the value is refused where it does not fit. -/
theorem refused {K : Cls → Prop} (hc : q.Claims Γ h t dst plan answers a m) (hK : Lawful Γ K)
    (hd : Expressible K dst.normalize) (hcasts : Γ.OnlyCasts m)
    (hfits : ¬Fits Γ h dst.normalize .none) :
    ∃ f, Γ.applyPlan h plan .none = .error f ∧ f.isCast = true := by
  by_cases hm : m.isVoid = true ∨ m.isTop = true
  · exact (hc.passesNone hm).refused hfits
  · rw [not_or, Bool.not_eq_true, Bool.not_eq_true] at hm
    have hsame : m.same a.1.normalize = true := hc.normal.1 ▸ Ty.same_normalize hc.same
    have hclaim := (belongs_congr (h := h) (v := .none) hsame hc.normal.2).symm.trans hc.belongs
    have hsolid := isSolid_congr hsame ⟨hm.2, hm.1, hc.normal.2⟩
    have hpair : NormalPair a.1.normalize dst.normalize := Planner.normalPair_normalize a.1 dst
    exact effect_eq_error_none_iff.1 (hc.effect.trans (noneThrough_eq_error hK hd hpair hc.plans
      hsolid (onlyCasts_congr hsame hcasts) hclaim hfits))

end Planner.Claims

/-- A possible plan without an operation takes the absent value where it fits. -/
theorem fits_of_kind_ne (hp : p.Asked Γ) (hplan : ((Γ.plan t.optional dst).run.run p).1 = .ok plan)
    (hpossible : plan.isPossible = true) (hkind : plan.kind ≠ .explicitConvert) (h : Heap) :
    Γ.applyPlan h plan .none = .ok .none ∧ Fits Γ h dst.normalize .none := by
  have himplicit : plan.verdict.isImplicit = true :=
    plan.isImplicit_verdict_iff.2 ⟨hpossible, hkind⟩
  have huntouched : Γ.Untouched .none dst.normalize :=
    untouched_none_of_flat ((hp.isImplicit_iff_untouched hplan).1 himplicit)
      (Ty.none_mem_flat_optional t)
  exact ⟨Planner.applyPlan_of_isImplicit (hp.freshVerdict_of_plan hplan).1 himplicit h .none,
    fits_of_untouched_none huntouched⟩

end Optional

/-- A float is truncated, and nothing stays. -/
def truncateIfPresent : Plan :=
  .of (.optional (.builtin .float)) (.optional (.builtin .int))
    (.convert (.test (.builtin .float) (.numeric .toInt (.builtin .int))
      (.test .none .keep (.refuse (.optional (.builtin .int))))))

/-- What can be hashed is cast, and nothing stays. -/
def castIfHashable : Plan :=
  .of (.optional (.builtin .hashable)) (.optional (.builtin .int))
    (.convert (.test (.builtin .hashable) (.cast (.builtin .int))
      (.test .none .keep (.refuse (.optional (.builtin .int))))))

end CallAdapter
