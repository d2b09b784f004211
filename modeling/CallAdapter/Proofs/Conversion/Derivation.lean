import CallAdapter.Conversion.Planner
import CallAdapter.Proofs.Run
import CallAdapter.Proofs.Type.Normal

/-!
# Where the answers of a planner come from

`Program.Plans Γ R s d r` says that `r` is an answer to the pair `s`, `d` that follows from the
rules, where each question on the way, and the pair itself, may have been answered with what was
found for another spelling; `R` bounds which. A planner that keeps plans and one that does not are
the two ends of it: `Planner.Sound` says that all entries of the tables have such derivations,
planning preserves it, and every answer has one (`planNormal_keeps`, `planFor_keeps`).
-/

namespace CallAdapter

/-- `R s d s' d'` says that an answer made for `s'`, `d'` may be given for `s`, `d`. -/
abbrev Reuse := Ty → Ty → Ty → Ty → Prop

/-- The two pairs are keys that a table cannot tell apart. -/
def Confusable : Reuse := fun s d s' d' =>
  s'.same s = true ∧ d'.same d = true ∧
    s.hashable = true ∧ d.hashable = true ∧ s'.hashable = true ∧ d'.hashable = true

/-- No answer is reused. -/
def NoReuse : Reuse := fun _ _ _ _ => False

namespace Program

variable (Γ : Program)

/-- What the members of a union as a destination give, if none is reached untouched: the first
operation. -/
def firstOperation (answers : List (Ty × Verdict)) : Verdict :=
  match answers.findSome? fun a => a.2.operation? with
  | some op => .convert op
  | none => .impossible

/-- The answers that follow from the rules for a pair of types. -/
inductive Plans (R : Reuse) : Ty → Ty → Except Failure Verdict → Prop
  | direct {s d : Ty} {r : Except Failure Verdict} : Γ.direct? s d = some r → Plans R s d r
  | reused {s d s' d' : Ty} {r : Except Failure Verdict} :
    R s d s' d' → Plans R s' d' r → Plans R s d r
  | fromUnion {s d : Ty} {answers : List (Ty × Verdict)} :
    Γ.direct? s d = none → s.isUnion = true → answers.map (·.1) = s.unionMembers →
    (∀ a ∈ answers, Plans R a.1 d (.ok a.2)) → Plans R s d (.ok (Program.fromUnion d answers))
  | fromUnionError {s d m : Ty} {e : Failure} :
    Γ.direct? s d = none → s.isUnion = true → m ∈ s.unionMembers →
    Plans R m d (.error e) → Plans R s d (.error e)
  | intoUntouched {s d m : Ty} {answers : List (Ty × Verdict)} {rest : List Ty} {v : Verdict} :
    Γ.direct? s d = none → s.isUnion = false →
    d.unionMembers = answers.map (·.1) ++ m :: rest →
    (∀ a ∈ answers, a.2.isImplicit = false) → (∀ a ∈ answers, Plans R s a.1 (.ok a.2)) →
    v.isImplicit = true → Plans R s m (.ok v) → Plans R s d (.ok .widen)
  | intoFirst {s d : Ty} {answers : List (Ty × Verdict)} :
    Γ.direct? s d = none → s.isUnion = false → answers.map (·.1) = d.unionMembers →
    (∀ a ∈ answers, a.2.isImplicit = false) → (∀ a ∈ answers, Plans R s a.1 (.ok a.2)) →
    Plans R s d (.ok (firstOperation answers))
  | intoError {s d m : Ty} {answers : List (Ty × Verdict)} {rest : List Ty} {e : Failure} :
    Γ.direct? s d = none → s.isUnion = false →
    d.unionMembers = answers.map (·.1) ++ m :: rest →
    (∀ a ∈ answers, a.2.isImplicit = false) → (∀ a ∈ answers, Plans R s a.1 (.ok a.2)) →
    Plans R s m (.error e) → Plans R s d (.error e)

variable {Γ}

/-- The members of unions decide only where there is a union. -/
theorem isUnion_of_direct?_eq_none {s d : Ty} (h : Γ.direct? s d = none) :
    s.isUnion = true ∨ d.isUnion = true := by
  unfold direct? at h
  split at h
  · cases h
  split at h
  · cases h
  split at h
  · cases h
  split at h
  · cases h
  split at h
  · cases h
  split at h
  · cases h
  split at h
  · rename_i hu
    simpa using hu
  split at h
  · cases h
  split at h <;> cases h

theorem isUnion_dest_of_direct?_eq_none {s d : Ty} (h : Γ.direct? s d = none)
    (hs : s.isUnion = false) : d.isUnion = true :=
  (isUnion_of_direct?_eq_none h).resolve_left (Bool.eq_false_iff.1 hs)

/-- Comparing types fails in one way only. -/
theorem eq_typeError_of_plans {R : Reuse} {s d : Ty} {r : Except Failure Verdict}
    (h : Γ.Plans R s d r) : ∀ e, r = .error e → e = .typeError := by
  induction h with
  | direct hdirect =>
    rintro e rfl
    unfold direct? at hdirect
    grind
  | reused _ _ ih => exact ih
  | fromUnionError _ _ _ _ ih => exact ih
  | intoError _ _ _ _ _ _ _ ih => exact ih
  | fromUnion | intoUntouched | intoFirst =>
    intro e he
    cases he

/-- Derivations carry over to any reuse that the answers of the other allow. -/
theorem Plans.transfer {R R' : Reuse}
    (hR : ∀ {s d s' d' r}, R s d s' d' → Plans Γ R' s' d' r → Plans Γ R' s d r) {s d : Ty}
    {r : Except Failure Verdict} (h : Γ.Plans R s d r) : Γ.Plans R' s d r := by
  induction h with
  | direct hdirect => exact .direct hdirect
  | reused hr _ ih => exact hR hr ih
  | fromUnion hnone hu hmap _ ih => exact .fromUnion hnone hu hmap ih
  | fromUnionError hnone hu hm _ ih => exact .fromUnionError hnone hu hm ih
  | intoUntouched hnone hu hmem hpre _ hv _ ihpre ih =>
    exact .intoUntouched hnone hu hmem hpre ihpre hv ih
  | intoFirst hnone hu hmap hall _ ih => exact .intoFirst hnone hu hmap hall ih
  | intoError hnone hu hmem hpre _ _ ihpre ih =>
    exact .intoError hnone hu hmem hpre ihpre ih

end Program

/-! ## Computations that keep an invariant of the planner -/

/-- The property of an outcome that holds of good values, and of some failures. -/
def OutcomeIs {α : Type} (good : α → Prop) (bad : Failure → Prop) : Except Failure α → Prop
  | .ok a => good a
  | .error e => bad e

/-- From a planner with the invariant, the computation ends in one, whatever its outcome, and the
outcome has the property. -/
def Keeps {α : Type} (Inv : Planner → Prop) (x : PlanM α) (post : Except Failure α → Prop) :
    Prop :=
  ∀ p, Inv p → Inv (x.run.run p).2 ∧ post (x.run.run p).1

namespace Keeps

variable {α β : Type} {Inv : Planner → Prop}

theorem mono {x : PlanM α} {post post' : Except Failure α → Prop} (h : Keeps Inv x post)
    (hpost : ∀ r, post r → post' r) : Keeps Inv x post' :=
  fun p hp => ⟨(h p hp).1, hpost _ (h p hp).2⟩

theorem pure {a : α} {post : Except Failure α → Prop} (h : post (.ok a)) :
    Keeps Inv (Pure.pure a) post :=
  fun _ hp => ⟨hp, h⟩

theorem throw {e : Failure} {post : Except Failure α → Prop} (h : post (.error e)) :
    Keeps Inv (MonadExcept.throw e : PlanM α) post :=
  fun _ hp => ⟨hp, h⟩

theorem bind {x : PlanM α} {f : α → PlanM β} {mid : Except Failure α → Prop}
    {post : Except Failure β → Prop} (hx : Keeps Inv x mid)
    (herror : ∀ e, mid (.error e) → post (.error e))
    (hf : ∀ a, mid (.ok a) → Keeps Inv (f a) post) : Keeps Inv (x >>= f) post := by
  intro p hp
  obtain ⟨hinv, hmid⟩ := hx p hp
  obtain ⟨e, q, hrun, hbind⟩ | ⟨a, q, hrun, hbind⟩ := run_bind_cases x f p
  · rw [hrun] at hinv hmid
    exact hbind ▸ ⟨hinv, herror e hmid⟩
  · rw [hrun] at hinv hmid
    exact hbind ▸ hf a hmid q hinv

theorem get_bind {f : Planner → PlanM α} {post : Except Failure α → Prop}
    (h : ∀ p, Inv p → Inv ((f p).run.run p).2 ∧ post ((f p).run.run p).1) :
    Keeps Inv (get >>= f) post :=
  h

theorem modify_bind {g : Planner → Planner} {x : PlanM α} {post : Except Failure α → Prop}
    (hg : ∀ p, Inv p → Inv (g p)) (hx : Keeps Inv x post) :
    Keeps Inv (modify g >>= fun _ => x) post :=
  fun p hp => hx (g p) (hg p hp)

/-- Asking for each element in turn: either all are answered, or one fails. -/
theorem mapM {γ : Type} {as : List γ} {f : γ → PlanM β} {good : γ → β → Prop}
    {bad : γ → Failure → Prop}
    (hf : ∀ a ∈ as, Keeps Inv (f a) (OutcomeIs (good a) (bad a))) :
    Keeps Inv (as.mapM f)
      (OutcomeIs (fun bs => List.Forall₂ good as bs) fun e => ∃ a ∈ as, bad a e) := by
  induction as with
  | nil =>
    rw [List.mapM_nil]
    exact .pure .nil
  | cons a as ih =>
    rw [List.mapM_cons]
    refine .bind (hf a List.mem_cons_self) (fun e he => ⟨a, List.mem_cons_self, he⟩) ?_
    intro b hb
    refine .bind (ih fun a' ha' => hf a' (List.mem_cons_of_mem _ ha')) ?_ ?_
    · rintro e ⟨a', ha', he⟩
      exact ⟨a', List.mem_cons_of_mem _ ha', he⟩
    · intro bs hbs
      exact .pure (.cons hb hbs)

end Keeps

/-! ## Sound planners -/

/-- A set of pairs of normal types in which planning stays. -/
structure ClosedPairs (D : Ty → Ty → Prop) : Prop where
  normal : ∀ {s d : Ty}, D s d → s.normalize = s ∧ d.normalize = d
  source : ∀ {s d m : Ty}, D s d → s.isUnion = true → m ∈ s.unionMembers → D m d
  dest : ∀ {s d m : Ty}, D s d → d.isUnion = true → m ∈ d.unionMembers → D s m

namespace Program

variable (Γ : Program) (R : Reuse)

/-- A plan, or a failure to plan, that follows from the rules. -/
def PlanAnswer (s d : Ty) : Except Failure Plan → Prop :=
  OutcomeIs (fun p => p.HandsOn ∧ Γ.Plans R s d (.ok p.verdict))
    fun e => Γ.Plans R s d (.error e)

end Program

/-- The verdict on a result where one side is "nothing", and whether the value is dropped. Every
other question is left to the rules. -/
def Memo.settled (memo : Memo) (s d : Ty) : Option (Verdict × Bool) :=
  match memo with
  | .plans => none
  | .results =>
    if d.isVoid then some (if s.isVoid then .identity else .widen, !s.isVoid)
    else if s.isVoid then some (.convert (.constant (Program.defaultValue d)), false)
    else none

/-- An answer that is kept in the table. -/
def Program.MemoAnswer (Γ : Program) (R : Reuse) (memo : Memo) (s d : Ty)
    (r : Except Failure Plan) : Prop :=
  match memo.settled s d with
  | some (w, discard) => ∃ p, r = .ok p ∧ p.Paired ∧ p.verdict = w ∧ p.discard = discard
  | none => Γ.PlanAnswer R s d r

/-- Every entry of the tables follows from the rules, and its key is one that can be asked for. -/
structure Planner.Sound (Γ : Program) (keeps : Bool) (D : Ty → Ty → Prop) (R : Reuse)
    (p : Planner) : Prop where
  memoize : p.memoize = keeps
  reuse : keeps = true → ∀ {s d s' d' : Ty}, D s d → D s' d' → Confusable s d s' d' →
    R s d s' d'
  kept : ∀ memo, ∀ e ∈ p.table memo, D e.1.1 e.1.2 ∧ e.1.1.hashable = true ∧
    e.1.2.hashable = true ∧ Γ.MemoAnswer R memo e.1.1 e.1.2 (.ok e.2)

theorem PlanTable.mem_of_find {t : PlanTable} {s d : Ty} {p : Plan} (h : t.find s d = some p) :
    ∃ s' d', ((s', d'), p) ∈ t ∧ s'.same s = true ∧ d'.same d = true := by
  unfold PlanTable.find at h
  obtain ⟨e, he, rfl⟩ := Option.map_eq_some_iff.1 h
  have hkey := List.find?_some he
  rw [Bool.and_eq_true] at hkey
  exact ⟨e.1.1, e.1.2, List.mem_of_find?_eq_some he, hkey.1, hkey.2⟩

section Sound

variable {Γ : Program} {keeps : Bool} {D : Ty → Ty → Prop} {R : Reuse} {s d : Ty}

theorem Planner.sound_of_empty
    (hreuse : keeps = true → ∀ {s d s' d' : Ty}, D s d → D s' d' → Confusable s d s' d' →
      R s d s' d') : Planner.Sound Γ keeps D R ⟨keeps, [], []⟩ :=
  ⟨rfl, hreuse, fun memo _ h => by cases memo <;> exact absurd h List.not_mem_nil⟩

theorem Ty.same_defaultValue (h : s.same d = true) :
    Program.defaultValue s = Program.defaultValue d := by
  have hn := same_normalize h
  unfold Program.defaultValue
  cases hs : s.normalize with
  | cls c =>
    rw [hs] at hn
    rw [(same_iff_eq_of_isAtom rfl _).1 hn]
  | _ => cases hd : d.normalize <;> simp_all [same]

theorem Memo.settled_congr (memo : Memo) {s' d' : Ty} (hs : s.same s' = true)
    (hd : d.same d' = true) : memo.settled s d = memo.settled s' d' := by
  unfold settled
  rw [Ty.isVoid_congr hs, Ty.isVoid_congr hd, Ty.same_defaultValue hd]

/-- Answers follow what the plans that they carry follow. -/
theorem Program.MemoAnswer.transfer {memo : Memo} {R' : Reuse} {s' d' : Ty}
    {r : Except Failure Plan} (hsettled : memo.settled s' d' = memo.settled s d)
    (hplans : ∀ {v}, Γ.Plans R s' d' v → Γ.Plans R' s d v) (h : Γ.MemoAnswer R memo s' d' r) :
    Γ.MemoAnswer R' memo s d r := by
  unfold MemoAnswer at h ⊢
  rw [hsettled] at h
  cases hs : memo.settled s d with
  | some w =>
    rw [hs] at h
    exact h
  | none =>
    rw [hs] at h
    cases r with
    | error e => exact hplans h
    | ok p => exact ⟨h.1, hplans h.2⟩

/-- What was answered for one spelling answers the others. -/
theorem Program.MemoAnswer.reuse {memo : Memo} {s' d' : Ty} {r : Except Failure Plan}
    (hR : R s d s' d') (hs : s'.same s = true) (hd : d'.same d = true)
    (h : Γ.MemoAnswer R memo s' d' r) : Γ.MemoAnswer R memo s d r :=
  h.transfer (memo.settled_congr hs hd) (Plans.reused hR)

theorem Planner.mem_table_keep {p : Planner} {memo memo' : Memo} {plan : Plan}
    {e : (Ty × Ty) × Plan} (he : e ∈ (p.keep memo s d plan).table memo') :
    e ∈ p.table memo' ∨ memo' = memo ∧ e = ((s, d), plan) := by
  cases memo <;> cases memo'
  · exact (List.mem_append.1 he).imp_right fun h => ⟨rfl, List.mem_singleton.1 h⟩
  · exact .inl he
  · exact .inl he
  · exact (List.mem_append.1 he).imp_right fun h => ⟨rfl, List.mem_singleton.1 h⟩

theorem Planner.Sound.keep {p : Planner} {memo : Memo} {plan : Plan}
    (h : p.Sound Γ keeps D R) (hD : D s d) (hs : s.hashable = true) (hd : d.hashable = true)
    (hplan : Γ.MemoAnswer R memo s d (.ok plan)) :
    (p.keep memo s d plan).Sound Γ keeps D R := by
  refine ⟨?_, h.reuse, fun memo' e he => ?_⟩
  · cases memo <;> exact h.memoize
  · rcases Planner.mem_table_keep he with he | ⟨rfl, rfl⟩
    · exact h.kept memo' e he
    · exact ⟨hD, hs, hd, hplan⟩

/-- Answers from a table are sound, and so is keeping a sound answer. -/
theorem remembered_keeps {memo : Memo} {make : Ty → Ty → PlanM Plan} (hD : D s d)
    (hmake : Keeps (Planner.Sound Γ keeps D R) (make s d) (Γ.MemoAnswer R memo s d)) :
    Keeps (Planner.Sound Γ keeps D R) (Program.remembered memo make s d)
      (Γ.MemoAnswer R memo s d) := by
  refine .get_bind fun p hp => ?_
  by_cases hkey : (p.memoize && s.hashable && d.hashable) = true
  · rw [if_pos hkey]
    rw [Bool.and_eq_true, Bool.and_eq_true] at hkey
    obtain ⟨⟨hmemo, hs⟩, hd⟩ := hkey
    cases hfind : (p.table memo).find s d with
    | some plan =>
      obtain ⟨s', d', hmem, hss, hdd⟩ := PlanTable.mem_of_find hfind
      obtain ⟨hD', hs', hd', hplan⟩ := hp.kept memo _ hmem
      have hR := hp.reuse (hp.memoize ▸ hmemo) hD hD' ⟨hss, hdd, hs, hd, hs', hd'⟩
      exact ⟨hp, hplan.reuse hR hss hdd⟩
    | none =>
      refine hmake.bind (fun _ he => he) (fun plan hplan => ?_) p hp
      exact .modify_bind (fun q hq => hq.keep hD hs hd hplan) (.pure hplan)
  · rw [if_neg hkey]
    exact hmake p hp

/-- Asking for the members of a destination, after some were asked in vain. -/
theorem intoUnion_keeps {sub : Ty → PlanM Plan} (hnone : Γ.direct? s d = none)
    (hs : s.isUnion = false) {ms : List Ty} {answers : List (Ty × Verdict)}
    (hd : d.unionMembers = answers.map (·.1) ++ ms)
    (hanswers : ∀ a ∈ answers, a.2.isImplicit = false)
    (hplans : ∀ a ∈ answers, Γ.Plans R s a.1 (.ok a.2))
    (hsub : ∀ m ∈ ms, Keeps (Planner.Sound Γ keeps D R) (sub m) (Γ.PlanAnswer R s m)) :
    Keeps (Planner.Sound Γ keeps D R)
      (Program.intoUnion sub ms (answers.findSome? fun a => a.2.operation?))
      (Γ.Plans R s d) := by
  induction ms generalizing answers with
  | nil =>
    rw [List.append_nil] at hd
    have hlast := Program.Plans.intoFirst hnone hs hd.symm hanswers hplans
    rw [Program.firstOperation] at hlast
    cases hfound : answers.findSome? fun a => a.2.operation? with
    | none =>
      rw [hfound] at hlast
      exact .pure hlast
    | some op =>
      rw [hfound] at hlast
      exact .pure hlast
  | cons m ms ih =>
    refine .bind (hsub m List.mem_cons_self) ?_ fun p hp => ?_
    · exact fun e he => .intoError hnone hs hd hanswers hplans he
    · -- what is not reached untouched joins the members that were asked in vain
      have hnext : ∀ v, p.verdict = v → v.isImplicit = false →
          Keeps (Planner.Sound Γ keeps D R)
            (Program.intoUnion sub ms
              ((answers ++ [(m, v)]).findSome? fun a => a.2.operation?)) (Γ.Plans R s d) := by
        intro v hv himplicit
        refine ih ?_ ?_ ?_ fun m' hm' => hsub m' (List.mem_cons_of_mem _ hm')
        · simp [hd]
        · intro a ha
          rcases List.mem_append.1 ha with ha | ha
          · exact hanswers a ha
          · rwa [List.mem_singleton.1 ha]
        · intro a ha
          rcases List.mem_append.1 ha with ha | ha
          · exact hplans a ha
          · rw [List.mem_singleton.1 ha, ← hv]
            exact hp.2
      cases hv : p.verdict with
      | identity | widen =>
        exact .pure (.intoUntouched hnone hs hd hanswers hplans (by rw [hv]; rfl) hp.2)
      | convert op =>
        have hrest := hnext _ hv rfl
        rw [List.findSome?_append] at hrest
        exact hrest
      | impossible =>
        have hrest := hnext _ hv rfl
        rw [List.findSome?_append] at hrest
        simpa [Verdict.operation?] using hrest

theorem answers_of_forall₂ (P : Ty → Verdict → Prop) {ms : List Ty}
    {answers : List (Ty × Verdict)}
    (h : List.Forall₂ (fun m a => m = a.1 ∧ P m a.2) ms answers) :
    answers.map (·.1) = ms ∧ ∀ a ∈ answers, P a.1 a.2 := by
  induction h with
  | nil => exact ⟨rfl, fun _ ha => absurd ha List.not_mem_nil⟩
  | cons hma _ ih =>
    obtain ⟨rfl, hP⟩ := hma
    exact ⟨by rw [List.map_cons, ih.1], List.forall_mem_cons.2 ⟨hP, ih.2⟩⟩

theorem verdict_keeps {sub : Ty → Ty → PlanM Plan}
    (hsource : s.isUnion = true → ∀ m ∈ s.unionMembers,
      Keeps (Planner.Sound Γ keeps D R) (sub m d) (Γ.PlanAnswer R m d))
    (hdest : s.isUnion = false → d.isUnion = true → ∀ m ∈ d.unionMembers,
      Keeps (Planner.Sound Γ keeps D R) (sub s m) (Γ.PlanAnswer R s m)) :
    Keeps (Planner.Sound Γ keeps D R) (Γ.verdict sub s d) (Γ.Plans R s d) := by
  unfold Program.verdict
  split
  · rename_i v hdirect
    exact .pure (.direct hdirect)
  · rename_i e hdirect
    exact .throw (.direct hdirect)
  · rename_i hnone
    cases hs : s.isUnion with
    | true =>
      have hask : ∀ m ∈ s.unionMembers,
          Keeps (Planner.Sound Γ keeps D R) (do pure (m, (← sub m d).verdict))
            (OutcomeIs (fun a => m = a.1 ∧ Γ.Plans R m d (.ok a.2))
              fun e => Γ.Plans R m d (.error e)) :=
        fun m hm => .bind (hsource hs m hm) (fun _ he => he) fun p hp => .pure ⟨rfl, hp.2⟩
      refine .bind (.mapM hask) ?_ fun answers hall => ?_
      · rintro e ⟨m, hm, he⟩
        exact .fromUnionError hnone hs hm he
      · obtain ⟨hmap, hplans⟩ := answers_of_forall₂ (fun m v => Γ.Plans R m d (.ok v)) hall
        exact .pure (.fromUnion hnone hs hmap hplans)
    | false =>
      have hd := Program.isUnion_dest_of_direct?_eq_none hnone hs
      have hanswers : ∀ a ∈ ([] : List (Ty × Verdict)), a.2.isImplicit = false :=
        fun _ ha => absurd ha List.not_mem_nil
      exact intoUnion_keeps hnone hs rfl hanswers (fun _ ha => absurd ha List.not_mem_nil)
        (hdest hs hd)

/-- How many unions planning still has to take apart, with the pair itself. -/
def unionLevels (s d : Ty) : Nat :=
  (if s.isUnion then 1 else 0) + (if d.isUnion then 1 else 0) + 1

theorem unionLevels_le (s d : Ty) : unionLevels s d ≤ Program.planDepth := by
  unfold unionLevels Program.planDepth
  split <;> split <;> decide

theorem planNormal_keeps (hclosed : ClosedPairs D) {depth : Nat} (hD : D s d)
    (hdepth : unionLevels s d ≤ depth) :
    Keeps (Planner.Sound Γ keeps D R) (Γ.planNormal depth s d) (Γ.PlanAnswer R s d) := by
  induction depth generalizing s d with
  | zero => exact absurd hdepth (by simp [unionLevels])
  | succ depth ih =>
    have hsub : ∀ {s' d' : Ty}, D s' d' → unionLevels s' d' ≤ depth →
        Keeps (Planner.Sound Γ keeps D R)
          (Program.remembered .plans (Γ.planNormal depth) s'.normalize d'.normalize)
          (Γ.PlanAnswer R s' d') := by
      intro s' d' hD' hlevels
      rw [(hclosed.normal hD').1, (hclosed.normal hD').2]
      exact remembered_keeps hD' (ih hD' hlevels)
    refine .bind (verdict_keeps ?_ ?_) (fun _ he => he) fun v hv =>
      .pure ⟨Plan.handsOn_of s d v, (Plan.verdict_of s d v false).symm ▸ hv⟩
    · intro hs m hm
      have hmember := Ty.isNormalMember_of_mem (hclosed.normal hD).1 hs hm
      refine hsub (hclosed.source hD hs hm) ?_
      simp only [unionLevels, hs, hmember.2] at hdepth ⊢
      simp at hdepth ⊢
      omega
    · intro hs hd m hm
      have hmember := Ty.isNormalMember_of_mem (hclosed.normal hD).2 hd hm
      refine hsub (hclosed.dest hD hd hm) ?_
      simp only [unionLevels, hd, hs, hmember.2] at hdepth ⊢
      simp at hdepth ⊢
      omega

/-- Every plan of a slot follows from the rules for the normal forms of the types. -/
theorem plan_keeps (hclosed : ClosedPairs D) (hD : D s.normalize d.normalize) :
    Keeps (Planner.Sound Γ keeps D R) (Γ.plan s d) (Γ.PlanAnswer R s.normalize d.normalize) :=
  remembered_keeps hD (planNormal_keeps hclosed hD (unionLevels_le _ _))

theorem resultPlan_keeps (hclosed : ClosedPairs D) (hD : D s d) :
    Keeps (Planner.Sound Γ keeps D R) (Γ.resultPlan s d) (Γ.MemoAnswer R .results s d) := by
  unfold Program.resultPlan Program.MemoAnswer Memo.settled
  cases hd : d.isVoid with
  | true =>
    cases hs : s.isVoid with
    | true => exact .pure ⟨_, rfl, Plan.paired_of _ _ _ _, rfl, rfl⟩
    | false => exact .pure ⟨_, rfl, Plan.paired_of _ _ _ _, rfl, rfl⟩
  | false =>
    cases hs : s.isVoid with
    | true => exact .pure ⟨_, rfl, Plan.paired_of _ _ _ _, rfl, rfl⟩
    | false =>
      obtain ⟨hsn, hdn⟩ := hclosed.normal hD
      have hplan : Keeps (Planner.Sound Γ keeps D R) (Γ.plan s d)
          (Γ.PlanAnswer R s.normalize d.normalize) := plan_keeps hclosed (by rwa [hsn, hdn])
      rw [hsn, hdn] at hplan
      exact hplan

/-- The normal forms that a request asks about. -/
def PlanRequest.asked (Γ : Program) : PlanRequest → Ty × Ty
  | .types s d | .result s d => (s.normalize, d.normalize)
  | .content s d => (s.content.normalize, d.content.normalize)
  | .value v d => ((Γ.className v).normalize, d.normalize)

/-- The table that keeps the answer to a request. -/
def PlanRequest.memo : PlanRequest → Memo
  | .result _ _ => .results
  | _ => .plans

/-- How the plan of a table is made. -/
def Program.makePlan (Γ : Program) : Memo → Ty → Ty → PlanM Plan
  | .plans => Γ.planNormal Program.planDepth
  | .results => Γ.resultPlan

theorem planFor_eq (r : PlanRequest) :
    Γ.planFor r =
      Program.remembered r.memo (Γ.makePlan r.memo) (r.asked Γ).1 (r.asked Γ).2 := by
  cases r <;> rfl

/-- The answer to a request. -/
def Program.RequestAnswer (Γ : Program) (R : Reuse) (r : PlanRequest) :
    Except Failure Plan → Prop :=
  Γ.MemoAnswer R r.memo (r.asked Γ).1 (r.asked Γ).2

theorem planFor_keeps (hclosed : ClosedPairs D) (r : PlanRequest)
    (hD : D (r.asked Γ).1 (r.asked Γ).2) :
    Keeps (Planner.Sound Γ keeps D R) (Γ.planFor r) (Γ.RequestAnswer R r) := by
  rw [planFor_eq]
  refine remembered_keeps hD ?_
  cases r.memo with
  | plans => exact planNormal_keeps hclosed hD (unionLevels_le _ _)
  | results => exact resultPlan_keeps hclosed hD

end Sound

end CallAdapter
