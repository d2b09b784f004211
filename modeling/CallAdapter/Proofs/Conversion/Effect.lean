import CallAdapter.Proofs.Conversion.Respelling

/-!
# What plans do to values

The effect of a plan on a value is the value that comes out, or how it failed. A planner that keeps
plans may answer with a plan that was made with the help of other spellings; on every single value
such a plan does what a fresh plan for some spelling of the pair does (`runs_like_spelling`). Where
there is no union, all spellings have one effect (`RunsLike.respelled`).
-/

namespace CallAdapter

/-- A failed cast, whatever it says. -/
def Failure.isCast : Failure → Bool
  | .fault f =>
    match f.kind with
    | .cast _ _ => true
    | _ => false
  | .exception _ _ => false

/-- What a conversion did: the value, or how it failed, where failed casts are not told apart. -/
def effect (r : Except Failure Value) : Except (Option Failure) Value :=
  r.mapError fun e => if e.isCast then none else some e

namespace Program

variable {Γ : Program}

/-- What a plan with this verdict does to a value, where unboxing goes on as given. -/
def runWith (Γ : Program) (h : Heap) (U : Ty → Value → Except Failure Value) (w : Verdict)
    (v : Value) : Except Failure Value :=
  match w with
  | .convert op => Γ.runOperation h U op v
  | _ => .ok v

/-- What a plan with this verdict does to a value. -/
def runVerdict (Γ : Program) (h : Heap) : Verdict → Value → Except Failure Value :=
  Γ.runWith h (Γ.unboxed h)

/-- Where kind and operation go together, a plan does what its decision says, or drops the value. -/
theorem applyPlan_of_paired {h : Heap} {p : Plan} {v : Value} (hp : p.Paired) :
    Γ.applyPlan h p v = if p.discard then .ok .none else Γ.runVerdict h p.verdict v := by
  unfold Plan.Paired at hp
  unfold applyPlan runVerdict runWith Plan.verdict
  cases hop : p.operation? <;> cases hkind : p.kind <;> simp_all

theorem applyPlan_of_handsOn {h : Heap} {p : Plan} {v : Value} (hp : p.HandsOn) :
    Γ.applyPlan h p v = Γ.runVerdict h p.verdict v := by
  rw [applyPlan_of_paired hp.paired, hp.discard, if_neg Bool.false_ne_true]

@[simp] theorem applyPlan_of {h : Heap} {s d : Ty} {w : Verdict} {v : Value} :
    Γ.applyPlan h (.of s d w) v = Γ.runVerdict h w v := by
  rw [applyPlan_of_handsOn (Plan.handsOn_of s d w), Plan.verdict_of]

theorem runVerdict_of_kind_ne {h : Heap} {w : Verdict} (hw : w.kind ≠ .explicitConvert)
    (v : Value) : Γ.runVerdict h w v = .ok v := by
  cases w with
  | convert op => exact absurd rfl hw
  | _ => rfl

/-! ## Spellings of types that are no unions -/

section Respelled

variable {s d s' d' : Ty} {h : Heap} {v : Value}

theorem isInstanceOf_congr (hd : d.same d' = true) (hdu : d.isUnion = false) :
    Γ.isInstanceOf h v d = Γ.isInstanceOf h v d' := by
  have horigin := Ty.origin_eq_cls_congr hd hdu
  unfold isInstanceOf
  cases ho : d.origin with
  | cls c => rw [(horigin c).1 ho]
  | _ =>
    cases ho' : d'.origin with
    | cls c => cases ho.symm.trans ((horigin c).2 ho')
    | _ => rfl

theorem effect_runOperation_respelled {U : Ty → Value → Except Failure Value} {op op' : Operation}
    (hop : op.Respelled d d' op') (hd : d.same d' = true) (hdu : d.isUnion = false)
    (hU : effect (U d v) = effect (U d' v)) :
    effect (Γ.runOperation h U op v) = effect (Γ.runOperation h U op' v) := by
  cases hop with
  | refl => rfl
  | cast =>
    simp only [runOperation, isInstanceOf_congr hd hdu]
    split <;> rfl
  | unbox => exact hU

theorem direct?_of_not_union (hs : s.isUnion = false) (hd : d.isUnion = false) :
    ∃ r, Γ.direct? s d = some r := by
  cases hdirect : Γ.direct? s d with
  | some r => exact ⟨r, rfl⟩
  | none =>
    rcases isUnion_of_direct?_eq_none hdirect with h | h
    · cases hs.symm.trans h
    · cases hd.symm.trans h

theorem freshVerdict_of_direct? {r : Except Failure Verdict} (hn : NormalPair s d)
    (hdirect : Γ.direct? s d = some r) : Γ.freshVerdict s d = r :=
  eq_of_plans_noReuse hdirect (plans_freshVerdict hn)

/-- What an unboxing does, by the verdict on the value's class. -/
theorem unboxed_eq (d : Ty) (v : Value) :
    Γ.unboxed h d v =
      if (Ty.cls (Γ.classOf v)).isTop then .error (Γ.castFailure v d)
      else
        match Γ.freshVerdict (.cls (Γ.classOf v)) d with
        | .error e => .error e
        | .ok .identity | .ok .widen => .ok v
        | .ok .impossible => .error (Γ.castFailure v d)
        | .ok (.convert op) =>
          Γ.runOperation h (fun d w => .error (Γ.castFailure w d)) op v := by
  unfold unboxed freshVerdict
  dsimp only
  cases hfresh : Γ.freshPlan (.cls (Γ.classOf v)) d with
  | error e => rfl
  | ok p =>
    obtain ⟨w, rfl⟩ := exists_of_freshPlan hfresh
    cases w <;> rfl

/-- What an unboxing gives comes from a possible plan on the value's class. -/
theorem exists_of_unboxed_eq_ok {u : Value} (hu : Γ.unboxed h d v = .ok u) :
    ∃ w, Γ.freshVerdict (.cls (Γ.classOf v)) d = .ok w ∧ w ≠ .impossible ∧
      Γ.runWith h (fun d w => .error (Γ.castFailure w d)) w v = .ok u := by
  rw [unboxed_eq] at hu
  split at hu
  · cases hu
  cases hw : Γ.freshVerdict (.cls (Γ.classOf v)) d with
  | error e =>
    rw [hw] at hu
    cases hu
  | ok w =>
    rw [hw] at hu
    cases w with
    | impossible => cases hu
    | _ => exact ⟨_, rfl, Verdict.noConfusion, hu⟩

/-- Going on from a value's class does the same for the spellings of a type that is no union. -/
theorem effect_unboxed_respelled (hd : d.same d' = true) (hdu : d.isUnion = false)
    (hn : d.normalize = d) (hn' : d'.normalize = d') :
    effect (Γ.unboxed h d v) = effect (Γ.unboxed h d' v) := by
  have hdu' : d'.isUnion = false := Ty.isUnion_congr hd ▸ hdu
  rw [unboxed_eq, unboxed_eq]
  refine rel_ite (P := fun a b => effect a = effect b) (fun _ => rfl) fun _ => ?_
  generalize Γ.classOf v = c
  obtain ⟨r, hr⟩ := direct?_of_not_union (Γ := Γ) (s := .cls c) rfl hdu
  obtain ⟨r', hr'⟩ := direct?_of_not_union (Γ := Γ) (s := .cls c) rfl hdu'
  have hspelled : AnswerRespelled d d' (some r) (some r') :=
    hr ▸ hr' ▸ direct?_respelled (Ty.same_refl _) hd
  rw [freshVerdict_of_direct? ⟨Ty.normalize_cls c, hn⟩ hr,
    freshVerdict_of_direct? ⟨Ty.normalize_cls c, hn'⟩ hr']
  cases hspelled with
  | refused => rfl
  | @decided w w' hw =>
    cases hw with
    | refl => cases w <;> rfl
    | convert hop => exact effect_runOperation_respelled hop hd hdu rfl

theorem effect_runVerdict_respelled {w w' : Verdict} (hw : w.Respelled d d' w')
    (hd : d.same d' = true) (hdu : d.isUnion = false) (hn : d.normalize = d)
    (hn' : d'.normalize = d') (v : Value) :
    effect (Γ.runVerdict h w v) = effect (Γ.runVerdict h w' v) := by
  cases hw with
  | refl => rfl
  | convert hop =>
    exact effect_runOperation_respelled hop hd hdu (effect_unboxed_respelled hd hdu hn hn')

end Respelled

/-! ## Unions, run -/

/-- Whether a value is taken to be of a member. -/
def belongs (Γ : Program) (h : Heap) (v : Value) (m : Ty) : Bool :=
  if m.isVoid then v.isNone else Γ.isInstanceOf h v m == some true

/-- What a union does with a value of the member. -/
def runBranch (Γ : Program) (h : Heap) (U : Ty → Value → Except Failure Value) (d m : Ty)
    (w : Verdict) (v : Value) : Except Failure Value :=
  match w with
  | .identity | .widen => .ok v
  | .convert op => Γ.runOperation h U op v
  | .impossible =>
    if m.isVoid then
      .error (Γ.castFailureWith v d ("optional value is None; " ++ d.name ++ " required"))
    else .error (Γ.castFailure v d)

/-- A value goes the way of the first member that it belongs to. -/
theorem runOperation_branches (h : Heap) (U : Ty → Value → Except Failure Value) (d : Ty)
    (as : List (Ty × Verdict)) (v : Value) :
    Γ.runOperation h U (as.foldr (fun a miss => branch d a.1 a.2 miss) (.refuse d)) v =
      match as.find? fun a => Γ.belongs h v a.1 with
      | some a => Γ.runBranch h U d a.1 a.2 v
      | none => .error (Γ.castFailure v d) := by
  induction as with
  | nil => rfl
  | cons a as ih =>
    obtain ⟨m, w⟩ := a
    rw [List.foldr_cons, List.find?_cons]
    simp only [branch, runOperation]
    cases hb : Γ.belongs h v m with
    | true =>
      rw [belongs] at hb
      rw [if_pos hb]
      cases w with
      | impossible =>
        simp only [runBranch]
        split <;> rfl
      | _ => rfl
    | false =>
      rw [belongs] at hb
      rw [if_neg (Bool.eq_false_iff.1 hb)]
      exact ih

theorem runWith_fromUnion {h : Heap} {U : Ty → Value → Except Failure Value} {d : Ty}
    {as : List (Ty × Verdict)} {v : Value} (hkind : (fromUnion d as).kind = .explicitConvert) :
    Γ.runWith h U (fromUnion d as) v =
      match as.find? fun a => Γ.belongs h v a.1 with
      | some a => Γ.runBranch h U d a.1 a.2 v
      | none => .error (Γ.castFailure v d) := by
  unfold fromUnion at hkind ⊢
  split at hkind
  · cases hkind
  split at hkind
  · cases hkind
  rw [if_neg ‹_›, if_neg ‹_›]
  exact runOperation_branches h U d as v

theorem runVerdict_fromUnion {h : Heap} {d : Ty} {as : List (Ty × Verdict)} {v : Value}
    (hkind : (fromUnion d as).kind = .explicitConvert) :
    Γ.runVerdict h (fromUnion d as) v =
      match as.find? fun a => Γ.belongs h v a.1 with
      | some a => Γ.runBranch h (Γ.unboxed h) d a.1 a.2 v
      | none => .error (Γ.castFailure v d) :=
  runWith_fromUnion hkind

/-! ## One value at a time -/

section Pointwise

variable {R : Reuse} {s d s' d' : Ty}

/-- The spelling of a source that is no union is not seen. -/
theorem plans_noReuse_respelled_source {r : Except Failure Verdict} (hs : s.same s' = true)
    (hsu : s.isUnion = false) (h : Γ.Plans NoReuse s d r) : Γ.Plans NoReuse s' d r := by
  have hdirect : ∀ d, Γ.direct? s' d = Γ.direct? s d := by
    intro d
    have hspelled : AnswerRespelled d d (Γ.direct? s d) (Γ.direct? s' d) :=
      direct?_respelled hs (Ty.same_refl d)
    generalize Γ.direct? s d = o, Γ.direct? s' d = o' at hspelled
    cases hspelled with
    | members | refused => rfl
    | decided hw =>
      cases hw with
      | refl => rfl
      | convert hop => cases hop <;> rfl
  have hsu' : s'.isUnion = false := Ty.isUnion_congr hs ▸ hsu
  induction h with
  | direct h => exact .direct (by rw [hdirect, h])
  | reused hreuse _ => cases hreuse
  | fromUnion _ hu | fromUnionError _ hu => cases hu.symm.trans hsu
  | intoUntouched hnone hu hmembers hanswers _ hv _ ihas ih =>
    exact .intoUntouched (by rw [hdirect, hnone]) hsu' hmembers hanswers
      (fun a ha => ihas a ha hs hsu hdirect) hv (ih hs hsu hdirect)
  | intoFirst hnone hu has hanswers _ ih =>
    exact .intoFirst (by rw [hdirect, hnone]) hsu' has hanswers
      fun a ha => ih a ha hs hsu hdirect
  | intoError hnone hu hmembers hanswers _ _ ihas ih =>
    exact .intoError (by rw [hdirect, hnone]) hsu' hmembers hanswers
      (fun a ha => ihas a ha hs hsu hdirect) (ih hs hsu hdirect)

/-- Answers are reused between spellings of normal types only. -/
def BetweenSpellings (R : Reuse) : Prop :=
  ∀ s d s' d', R s d s' d' → NormalPair s' d' ∧ s'.same s = true ∧ d'.same d = true

/-- The verdict `w` does to the value what a fresh plan for the pair does, if there is one. -/
def RunsLike (Γ : Program) (h : Heap) (v : Value) (w : Verdict) (s d : Ty) : Prop :=
  ∀ w', Γ.freshVerdict s d = .ok w' →
    effect (Γ.runVerdict h w v) = effect (Γ.runVerdict h w' v)

theorem kind_eq_freshVerdict (hR : BetweenSpellings R) {w w' : Verdict}
    (h : Γ.Plans R s d (.ok w)) (hs : s.same s' = true) (hd : d.same d' = true)
    (hn : NormalPair s' d') (hw' : Γ.freshVerdict s' d' = .ok w') : w.kind = w'.kind :=
  kind_eq_of_plans (fun s d s' d' h => (hR s d s' d' h).2) h rfl hs hd
    (hw' ▸ plans_freshVerdict hn)

/-- A plan that reuses the value untouched, or that is none, is like every fresh one. -/
theorem runsLike_of_kind_ne (hR : BetweenSpellings R) {h : Heap} {v : Value} {w : Verdict}
    (hplan : Γ.Plans R s d (.ok w)) (hn : NormalPair s d) (hw : w.kind ≠ .explicitConvert) :
    Γ.RunsLike h v w s d := by
  intro w' hw'
  have hkind := kind_eq_freshVerdict hR hplan (Ty.same_refl s) (Ty.same_refl d) hn hw'
  rw [runVerdict_of_kind_ne hw, runVerdict_of_kind_ne (hkind ▸ hw)]

/-- What runs like a fresh plan for one spelling runs like one for any other, where there is no
union. -/
theorem RunsLike.respelled {h : Heap} {v : Value} {w : Verdict} (hw : Γ.RunsLike h v w s d)
    (hs : s.same s' = true) (hd : d.same d' = true) (hsu : s.isUnion = false)
    (hdu : d.isUnion = false) (hn : NormalPair s d) (hn' : NormalPair s' d') :
    Γ.RunsLike h v w s' d' := by
  intro w' hw'
  obtain ⟨r, hr⟩ := direct?_of_not_union (Γ := Γ) hsu hdu
  obtain ⟨r', hr'⟩ := direct?_of_not_union (Γ := Γ) (s := s') (d := d')
    (Ty.isUnion_congr hs ▸ hsu) (Ty.isUnion_congr hd ▸ hdu)
  have hspelled : AnswerRespelled d d' (some r) (some r') := hr ▸ hr' ▸ direct?_respelled hs hd
  have hfresh := freshVerdict_of_direct? hn hr
  rw [freshVerdict_of_direct? hn' hr'] at hw'
  subst hw'
  cases hspelled with
  | decided hww =>
    rw [hw _ hfresh]
    exact effect_runVerdict_respelled hww hd hdu hn.2 hn'.2 v

/-- A value of an impossible member fails, and any other goes on as its verdict says. -/
theorem effect_runBranch (h : Heap) (d m : Ty) (w : Verdict) (v : Value) :
    effect (Γ.runBranch h (Γ.unboxed h) d m w v) =
      if w.kind = .impossible then .error none else effect (Γ.runVerdict h w v) := by
  cases w with
  | impossible =>
    simp only [runBranch]
    split <;> rfl
  | _ => rfl

/-- Two lists of answers for the same members find a value's member at the same place. -/
theorem find?_belongs_eq {h : Heap} {v : Value} {as bs : List (Ty × Verdict)}
    (hmap : as.map (·.1) = bs.map (·.1)) :
    (as.find? fun a => Γ.belongs h v a.1).map (·.1) =
      (bs.find? fun b => Γ.belongs h v b.1).map (·.1) := by
  have hfind : ∀ cs : List (Ty × Verdict), (cs.find? fun a => Γ.belongs h v a.1).map (·.1) =
      (cs.map (·.1)).find? (Γ.belongs h v) := fun cs => by rw [List.find?_map]; rfl
  rw [hfind, hfind, hmap]

/-- First operations of two lists of answers for the same members, of the same kinds. -/
theorem firstOperation_eq_convert {as bs : List (Ty × Verdict)} {op op' : Operation}
    (hmap : as.map (·.1) = bs.map (·.1))
    (hkind : ∀ a ∈ as, ∀ b ∈ bs, a.1 = b.1 → a.2.kind = b.2.kind)
    (ha : firstOperation as = .convert op) (hb : firstOperation bs = .convert op') :
    ∃ m, (m, .convert op) ∈ as ∧ (m, .convert op') ∈ bs := by
  induction as generalizing bs with
  | nil => cases ha
  | cons a as ih =>
    cases bs with
    | nil => cases hmap
    | cons b bs =>
      obtain ⟨m, w⟩ := a
      obtain ⟨n, w'⟩ := b
      obtain ⟨rfl, htail⟩ : m = n ∧ as.map (·.1) = bs.map (·.1) := List.cons.inj hmap
      have hww' : w.kind = w'.kind := hkind _ List.mem_cons_self _ List.mem_cons_self rfl
      have hrest : firstOperation as = .convert op → firstOperation bs = .convert op' →
          ∃ n, (n, .convert op) ∈ (m, w) :: as ∧ (n, .convert op') ∈ (m, w') :: bs := by
        intro ha hb
        obtain ⟨n, hna, hnb⟩ := ih htail (fun a ha b hb =>
          hkind a (List.mem_cons_of_mem _ ha) b (List.mem_cons_of_mem _ hb)) ha hb
        exact ⟨n, List.mem_cons_of_mem _ hna, List.mem_cons_of_mem _ hnb⟩
      -- both answers for this member are operations, or neither is
      cases w with
      | convert op₁ =>
        cases w' with
        | convert op₂ =>
          obtain rfl : op₁ = op := Verdict.convert.inj ha
          obtain rfl : op₂ = op' := Verdict.convert.inj hb
          exact ⟨m, List.mem_cons_self, List.mem_cons_self⟩
        | _ => cases hww'
      | _ =>
        cases w' with
        | convert op₂ => cases hww'
        | _ => exact hrest ha hb

/-- The verdict does to the value what a fresh plan for some spelling of the pair does. -/
def RunsLikeSpelling (Γ : Program) (h : Heap) (v : Value) (w : Verdict) (s d : Ty) : Prop :=
  ∃ s' d', s'.same s = true ∧ d'.same d = true ∧ NormalPair s' d' ∧ Γ.RunsLike h v w s' d'

theorem RunsLike.spelling {h : Heap} {v : Value} {w : Verdict} (hw : Γ.RunsLike h v w s d)
    (hn : NormalPair s d) : Γ.RunsLikeSpelling h v w s d :=
  ⟨s, d, Ty.same_refl s, Ty.same_refl d, hn, hw⟩

/-- The members of a destination decide alike, since they are no unions. -/
theorem runsLike_firstOperation (hR : BetweenSpellings R) (hn : NormalPair s d) {h : Heap}
    {v : Value} {as : List (Ty × Verdict)} (hnone : Γ.direct? s d = none)
    (hu : s.isUnion = false) (has : as.map (·.1) = d.unionMembers)
    (hanswers : ∀ a ∈ as, a.2.isImplicit = false)
    (hplans : ∀ a ∈ as, Γ.Plans R s a.1 (.ok a.2))
    (hlike : ∀ a ∈ as, NormalPair s a.1 → Γ.RunsLikeSpelling h v a.2 s a.1) :
    Γ.RunsLike h v (firstOperation as) s d := by
  have hplan := Plans.intoFirst hnone hu has hanswers hplans
  by_cases hkind : (firstOperation as).kind = .explicitConvert
  · intro w' hw'
    have hww' := kind_eq_freshVerdict hR hplan (Ty.same_refl s) (Ty.same_refl d) hn hw'
    rcases intoUnion_of_plans_noReuse hnone hu (hw' ▸ plans_freshVerdict hn) with
      ⟨rfl, -⟩ | ⟨bs, hbs, hanswers', rfl⟩
    · cases hkind.symm.trans hww'
    have hdu : d.isUnion = true := isUnion_dest_of_direct?_eq_none hnone hu
    have hmember : ∀ m ∈ d.unionMembers, m.normalize = m ∧ m.isUnion = false :=
      fun m hm => Ty.isNormalMember_of_mem hn.2 hdu hm
    cases ha : firstOperation as with
    | convert op =>
      cases hb : firstOperation bs with
      | convert op' =>
        have hkinds : ∀ a ∈ as, ∀ b ∈ bs, a.1 = b.1 → a.2.kind = b.2.kind := by
          intro a ha b hb hab
          have hb' := (hanswers' b hb).2
          rw [← hab] at hb'
          exact kind_eq_of_plans (fun s d s' d' h => (hR s d s' d' h).2) (hplans a ha) rfl
            (Ty.same_refl s) (Ty.same_refl _) hb'
        -- both walks come to their operation at one member
        obtain ⟨m, hma, hmb⟩ := firstOperation_eq_convert (has.trans hbs.symm) hkinds ha hb
        obtain ⟨hnm, hmu⟩ := hmember m (has ▸ List.mem_map_of_mem hma)
        obtain ⟨s₁, m₁, hs₁, hm₁, hn₁, hlike₁⟩ := hlike _ hma ⟨hn.1, hnm⟩
        have hlike' := hlike₁.respelled hs₁ hm₁ (Ty.isUnion_congr hs₁ ▸ hu)
          (Ty.isUnion_congr hm₁ ▸ hmu) hn₁ ⟨hn.1, hnm⟩
        exact hlike' _ (eq_freshVerdict ⟨hn.1, hnm⟩ (hanswers' _ hmb).2).symm
      | _ =>
        rw [ha, hb] at hww'
        cases hww'
    | _ =>
      rw [ha] at hkind
      cases hkind
  · exact runsLike_of_kind_ne hR hplan hn hkind

/-- The member that takes a value decides, and the source keeps its spelling. -/
theorem runsLikeSpelling_fromUnion (hR : BetweenSpellings R) (hn : NormalPair s d) {h : Heap}
    {v : Value} {as : List (Ty × Verdict)} (hnone : Γ.direct? s d = none) (hu : s.isUnion = true)
    (has : as.map (·.1) = s.unionMembers) (hplans : ∀ a ∈ as, Γ.Plans R a.1 d (.ok a.2))
    (hlike : ∀ a ∈ as, NormalPair a.1 d → Γ.RunsLikeSpelling h v a.2 a.1 d) :
    Γ.RunsLikeSpelling h v (fromUnion d as) s d := by
  have hplan := Plans.fromUnion hnone hu has hplans
  by_cases hkind : (fromUnion d as).kind = .explicitConvert
  · cases hfind : as.find? fun a => Γ.belongs h v a.1 with
    | none =>
      refine RunsLike.spelling (fun w' hw' => ?_) hn
      have hww' := kind_eq_freshVerdict hR hplan (Ty.same_refl s) (Ty.same_refl d) hn hw'
      obtain ⟨bs, hbs, -, rfl⟩ :=
        fromUnion_of_plans_noReuse hnone hu (hw' ▸ plans_freshVerdict hn)
      have hfind' := find?_belongs_eq (Γ := Γ) (h := h) (v := v) (has.trans hbs.symm)
      rw [hfind, Option.map_none] at hfind'
      rw [runVerdict_fromUnion hkind, runVerdict_fromUnion (hww' ▸ hkind), hfind,
        Option.map_eq_none_iff.1 hfind'.symm]
    | some a =>
      obtain ⟨m, w⟩ := a
      have ha : (m, w) ∈ as := List.mem_of_find?_eq_some hfind
      obtain ⟨hnm, hmu⟩ := Ty.isNormalMember_of_mem hn.1 hu (has ▸ List.mem_map_of_mem ha)
      -- the spelling that the member runs like is the one for the whole plan
      obtain ⟨m₁, d₁, hm₁, hd₁, hn₁, hlike₁⟩ := hlike _ ha ⟨hnm, hn.2⟩
      have hn' : NormalPair s d₁ := ⟨hn.1, hn₁.2⟩
      refine ⟨s, d₁, Ty.same_refl s, hd₁, hn', fun w' hw' => ?_⟩
      have hdd := Ty.same_symm hd₁
      have hww' := kind_eq_freshVerdict hR hplan (Ty.same_refl s) hdd hn' hw'
      obtain ⟨bs, hbs, hplans', rfl⟩ := fromUnion_of_plans_noReuse
        (direct?_eq_none_congr (Ty.same_refl s) hdd hnone) hu (hw' ▸ plans_freshVerdict hn')
      have hfind' := find?_belongs_eq (Γ := Γ) (h := h) (v := v) (has.trans hbs.symm)
      rw [hfind] at hfind'
      obtain ⟨⟨_, w₁⟩, hfound, rfl⟩ := Option.map_eq_some_iff.1 hfind'.symm
      have hw₁ := hplans' _ (List.mem_of_find?_eq_some hfound)
      have hkind₁ : w.kind = w₁.kind :=
        kind_eq_of_plans (fun s d s' d' h => (hR s d s' d' h).2) (hplans _ ha) rfl
          (Ty.same_refl _) hdd hw₁
      have hfresh := eq_freshVerdict hn₁
        (plans_noReuse_respelled_source (Ty.same_symm hm₁) hmu hw₁)
      rw [runVerdict_fromUnion hkind, runVerdict_fromUnion (hww' ▸ hkind), hfind, hfound]
      simp only [effect_runBranch, hkind₁, hlike₁ w₁ hfresh.symm]
  · exact (runsLike_of_kind_ne hR hplan hn hkind).spelling hn

/-- On every value, a plan made with the help of other spellings does what a fresh plan for some
spelling does. -/
theorem runs_like_spelling (hR : BetweenSpellings R) {r : Except Failure Verdict}
    (hplan : Γ.Plans R s d r) (hn : NormalPair s d) {w : Verdict} (hr : r = .ok w) (h : Heap)
    (v : Value) : Γ.RunsLikeSpelling h v w s d := by
  induction hplan generalizing w with
  | direct hdirect =>
    refine RunsLike.spelling (fun w' hw' => ?_) hn
    rw [freshVerdict_of_direct? hn hdirect, hr] at hw'
    rw [Except.ok.inj hw']
  | reused hreuse _ ih =>
    obtain ⟨hn', hss, hdd⟩ := hR _ _ _ _ hreuse
    obtain ⟨s₁, d₁, hs₁, hd₁, hn₁, hw⟩ := ih hn' hr
    exact ⟨s₁, d₁, Ty.same_trans hs₁ hss, Ty.same_trans hd₁ hdd, hn₁, hw⟩
  | fromUnionError | intoError => cases hr
  | intoUntouched hnone hu hmembers hanswers hplans hv hplan =>
    obtain rfl := Except.ok.inj hr
    have hwiden := Plans.intoUntouched hnone hu hmembers hanswers hplans hv hplan
    exact (runsLike_of_kind_ne hR hwiden hn (by decide)).spelling hn
  | intoFirst hnone hu has hanswers hplans ih =>
    obtain rfl := Except.ok.inj hr
    exact (runsLike_firstOperation hR hn hnone hu has hanswers hplans
      fun a ha hna => ih a ha hna rfl).spelling hn
  | fromUnion hnone hu has hplans ih =>
    obtain rfl := Except.ok.inj hr
    exact runsLikeSpelling_fromUnion hR hn hnone hu has hplans fun a ha hna => ih a ha hna rfl

end Pointwise

end Program

end CallAdapter
