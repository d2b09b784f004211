import CallAdapter.Proofs.Builder.Search

/-!
# Answers of builders

A build reports the search that it made (`Reports`), and a request settles a build by its policy
(`settle`). Builds that report one search answer alike, also after they are settled
(`Reports.answersAlike`, `AnswersAlike.settle`), and a lenient request gives the absent value where
a strict one raises. The rest says what planning, placing artifacts and asking a cache do to a world.
-/

namespace CallAdapter

open Program

/-! ## Adapters and answers -/

/-- The value is an adapter for a member. -/
def World.IsAdapter (w : World) (v : Value) (p : SignaturePlan) : Prop :=
  ∃ c addr, v = .object c addr ∧ addr < w.heap.instances.size ∧
    Eval.artifactAt? w addr = some (.adapter (.member p))

/-- The adapters of the first world are adapters of the second. -/
def World.Extends (w w' : World) : Prop := ∀ v p, w.IsAdapter v p → w'.IsAdapter v p

/-- The kind of fault that a search without result becomes. -/
def NotFoundReason.faultKind : NotFoundReason → FaultKind
  | memberNotFound => .memberNotFound
  | noSuchAccessor => .noSuchAccessor
  | openGeneric => .openGeneric

/-- What a build gives when its search ended as it did. -/
inductive Reports (w : World) :
    Except Failure Value → Except Failure (Except NotFound Resolution) → Prop
  | adapter {v p r} : w.IsAdapter v p → p.Alike r.plan → Reports w (.ok v) (.ok (.ok r))
  | missing {f : Fault} {m : NotFound} : f.kind = m.reason.faultKind → f.reason = f.kind.reason →
      Reports w (.error (.fault f)) (.ok (.error m))
  | failed {e} : Reports w (.error e) (.error e)

/-- Answers that differ in the spelling of types and in messages at most: adapters for one member
with one captured value, the absent value, faults of one kind with one reason, or one failure. -/
inductive AnswersAlike (w w' : World) : Except Failure Value → Except Failure Value → Prop
  | adapters {v v' p p'} : w.IsAdapter v p → w'.IsAdapter v' p' → p.target.Same p'.target →
      p.bound = p'.bound → AnswersAlike w w' (.ok v) (.ok v')
  | absent : AnswersAlike w w' (.ok .none) (.ok .none)
  | faults {f f' : Fault} : f.kind = f'.kind → f.reason = f'.reason →
      AnswersAlike w w' (.error (.fault f)) (.error (.fault f'))
  | failures {e} : AnswersAlike w w' (.error e) (.error e)

/-- What a request makes of the outcome of its build: a fault that need not be raised becomes the
absent value where the request is lenient. -/
def settle (throws : Bool) : Except Failure Value → Except Failure Value
  | .error (.fault f) =>
    if throws || f.kind.alwaysRaised then .error (.fault f) else .ok .none
  | r => r

section Answers

variable {w w' : World} {r r' : Except Failure Value}
  {found : Except Failure (Except NotFound Resolution)}

theorem NotFound.kind_fault (m : NotFound) (s : Shape) :
    (m.fault s).kind = m.reason.faultKind ∧ (m.fault s).reason = (m.fault s).kind.reason := by
  unfold NotFound.fault
  cases hreason : m.reason <;> exact ⟨rfl, rfl⟩

theorem Reports.extends (h : Reports w r found) (hw : w.Extends w') : Reports w' r found := by
  cases h with
  | adapter hv hp => exact .adapter (hw _ _ hv) hp
  | missing hkind hreason => exact .missing hkind hreason
  | failed => exact .failed

theorem reports_of_failed {e : Failure} (h : Agree FoundAlike (.error e) found) :
    Reports w (.error e) found := by
  cases h with
  | error => exact .failed

theorem reports_of_missing {m : NotFound} (s : Shape)
    (h : Agree FoundAlike (.ok (.error m)) found) :
    Reports w (.error (.fault (m.fault s))) found := by
  obtain ⟨hkind, hreason⟩ := m.kind_fault s
  cases h with
  | ok h =>
    cases h with
    | missing hm => exact .missing (hm ▸ hkind) hreason

theorem reports_of_found {v : Value} {r : Resolution} (hv : w.IsAdapter v r.plan)
    (h : Agree FoundAlike (.ok (.ok r)) found) : Reports w (.ok v) found := by
  cases h with
  | ok h =>
    cases h with
    | found hr => exact .adapter hv hr

/-- What a request makes of a failure is no value but the absent one. -/
theorem eq_none_of_settle_error {throws : Bool} {e : Failure} {v : Value}
    (h : .ok v = settle throws (.error e)) : v = .none := by
  cases e with
  | exception k text => cases h
  | fault f =>
    unfold settle at h
    dsimp only at h
    split at h
    · cases h
    · exact Except.ok.inj h

/-- Builds that report one search answer alike. -/
theorem Reports.answersAlike (h : Reports w r found) (h' : Reports w' r' found) :
    AnswersAlike w w' r r' := by
  cases h with
  | adapter hv hp =>
    cases h' with
    | adapter hv' hp' =>
      exact .adapters hv hv' (hp.target.trans hp'.target.symm) (hp.bound.trans hp'.bound.symm)
  | missing hkind hreason =>
    cases h' with
    | missing hkind' hreason' =>
      have heq := hkind.trans hkind'.symm
      exact .faults heq (by rw [hreason, hreason', heq])
  | failed =>
    cases h' with
    | failed => exact .failures

theorem AnswersAlike.settle (h : AnswersAlike w w' r r') (throws : Bool) :
    AnswersAlike w w' (settle throws r) (settle throws r') := by
  cases h with
  | adapters hv hv' ht hb => exact .adapters hv hv' ht hb
  | absent => exact .absent
  | faults hkind hreason =>
    unfold CallAdapter.settle
    dsimp only
    rw [hkind]
    split
    · exact .faults hkind hreason
    · exact .absent
  | @failures e =>
    cases e with
    | exception k m => exact .failures
    | fault f =>
      unfold CallAdapter.settle
      dsimp only
      split
      · exact .failures
      · exact .absent

/-- A lenient request gives the absent value where a strict one raises a fault that need not be
raised. -/
theorem Reports.settle_eq_none_iff (h : Reports w r found) (h' : Reports w' r' found) :
    settle false r = .ok .none ↔
      ∃ f, settle true r' = .error (.fault f) ∧ f.kind.alwaysRaised = false := by
  cases h with
  | adapter hv hp =>
    cases h' with
    | adapter hv' hp' =>
      obtain ⟨c, addr, rfl, -⟩ := hv
      exact ⟨fun h => (nomatch Except.ok.inj h), fun ⟨f, hf, _⟩ => (nomatch hf)⟩
  | @missing f m hkind hreason =>
    cases h' with
    | @missing f' _ hkind' hreason' =>
      have hraised : f'.kind.alwaysRaised = false := by
        rw [hkind']
        cases m.reason <;> rfl
      refine ⟨fun _ => ⟨f', rfl, hraised⟩, fun _ => ?_⟩
      unfold settle
      dsimp only
      rw [hkind, ← hkind', hraised]
      rfl
  | @failed e =>
    cases h' with
    | failed =>
      cases e with
      | exception k m => exact ⟨fun h => (nomatch h), fun ⟨f, hf, _⟩ => (nomatch hf)⟩
      | fault f =>
        unfold settle
        dsimp only
        cases hraised : f.kind.alwaysRaised with
        | true =>
          refine ⟨fun h => (nomatch h), fun ⟨g, hg, hgraised⟩ => ?_⟩
          obtain rfl := Failure.fault.inj (Except.error.inj hg)
          rw [hraised] at hgraised
          cases hgraised
        | false => exact ⟨fun _ => ⟨f, rfl, hraised⟩, fun _ => rfl⟩

end Answers

/-! ## Steps in the world -/

section Steps

variable {w : World}

def World.setPlanner (w : World) (id : Nat) (p : Planner) : World :=
  { w with planners := w.planners.setIfInBounds id p }

def World.setCache (w : World) (id : Nat) (c : BindingCache) : World :=
  { w with caches := w.caches.setIfInBounds id c }

/-- The world with a new artifact in the next place on the heap. -/
def World.place (w : World) (a : Artifact) : World :=
  { w with heap := (w.heap.alloc ⟨.plain, []⟩).2,
           artifacts := (w.heap.instances.size, a) :: w.artifacts }

theorem artifactAt?_place (a : Artifact) (addr : Nat) :
    Eval.artifactAt? (w.place a) addr =
      if addr = w.heap.instances.size then some a else Eval.artifactAt? w addr := by
  unfold Eval.artifactAt? World.place
  rw [List.find?_cons]
  by_cases h : addr = w.heap.instances.size
  · rw [if_pos h, h, beq_self_eq_true]
    rfl
  · rw [if_neg h, beq_eq_false_iff_ne.2 (Ne.symm h)]

theorem size_place (a : Artifact) :
    (w.place a).heap.instances.size = w.heap.instances.size + 1 := Array.size_push ..

/-- A place of an array that was written to holds what was written, or what it held before. -/
theorem getElem?_setIfInBounds_cases {α : Type} (xs : Array α) (i j : Nat) (a : α) :
    (i = j ∧ (xs.setIfInBounds i a)[j]? = some a) ∨ (xs.setIfInBounds i a)[j]? = xs[j]? := by
  rw [Array.getElem?_setIfInBounds]
  split
  · rename_i hij
    split
    · exact .inl ⟨hij, rfl⟩
    · rename_i hbounds
      right
      rw [← hij, Array.getElem?_eq_none (Nat.le_of_not_lt hbounds)]
  · exact .inr rfl

theorem plannerAt_setPlanner (id : Nat) (p : Planner) (id' : Nat) :
    Eval.plannerAt (w.setPlanner id p) id' = p ∨
      Eval.plannerAt (w.setPlanner id p) id' = Eval.plannerAt w id' := by
  unfold Eval.plannerAt World.setPlanner
  obtain ⟨-, hput⟩ | hput := getElem?_setIfInBounds_cases w.planners id id' p
  · left
    rw [hput]
    rfl
  · right
    rw [hput]

theorem cacheAt_setCache (id : Nat) (c : BindingCache) (id' : Nat) :
    (id = id' ∧ Eval.cacheAt (w.setCache id c) id' = c) ∨
      Eval.cacheAt (w.setCache id c) id' = Eval.cacheAt w id' := by
  unfold Eval.cacheAt World.setCache
  obtain ⟨hid, hput⟩ | hput := getElem?_setIfInBounds_cases w.caches id id' c
  · refine .inl ⟨hid, ?_⟩
    rw [hput]
    rfl
  · right
    rw [hput]

theorem run_planning {α : Type} (id : Nat) (x : PlanM α) :
    (Eval.planning id x).run.run w =
      ((x.run.run (Eval.plannerAt w id)).1,
        w.setPlanner id (x.run.run (Eval.plannerAt w id)).2) := by
  show (Eval.lift (x.run.run (Eval.plannerAt w id)).1).run.run
    (w.setPlanner id (x.run.run (Eval.plannerAt w id)).2) = _
  cases (x.run.run (Eval.plannerAt w id)).1 <;> rfl

theorem run_newArtifact (a : Artifact) :
    (Eval.newArtifact a).run.run w =
      (.ok (.object (.builtin a.className) w.heap.instances.size), w.place a) := rfl

theorem run_withPolicy (throws : Bool) (x : Eval Value) :
    (Builder.withPolicy throws x).run.run w =
      (settle throws (x.run.run w).1, (x.run.run w).2) := by
  unfold Builder.withPolicy
  cases hx : x.run.run w with
  | mk r w' =>
    cases r with
    | ok v => exact run_tryCatch_of_ok hx
    | error e =>
      rw [run_tryCatch_of_error hx]
      cases e with
      | exception k m => rfl
      | fault f =>
        unfold settle
        dsimp only
        split <;> rfl

theorem run_cached_of_hit {id : Nat} {k : CacheKey} {o : Outcome}
    (h : (Eval.cacheAt w id).find? k = some o) (build : Eval Value) :
    (Eval.cached id k build).run.run w =
      (o.result, w.setCache id (Eval.cacheAt w id).countHit) := by
  simp only [Eval.cached, BindingCache.request, ExceptT.run, StateT.run, h]
  rfl

theorem run_cached_of_miss {id : Nat} {k : CacheKey} (h : (Eval.cacheAt w id).find? k = none)
    (build : Eval Value) :
    (Eval.cached id k build).run.run w =
      let out := build.run.run (w.setCache id (Eval.cacheAt w id).countBuild)
      (out.1, out.2.setCache id ((Eval.cacheAt out.2 id).finish k out.1)) := by
  simp only [Eval.cached, BindingCache.request, ExceptT.run, StateT.run, h]
  rfl

/-- A new artifact takes a free place. -/
theorem extends_place (w : World) (a : Artifact) : w.Extends (w.place a) := by
  rintro v p ⟨c, addr, rfl, haddr, hart⟩
  refine ⟨c, addr, rfl, ?_, ?_⟩
  · rw [size_place]
    omega
  · rw [artifactAt?_place, if_neg (Nat.ne_of_lt haddr), hart]

theorem isAdapter_place (w : World) (p : SignaturePlan) :
    (w.place (.adapter (.member p))).IsAdapter
      (.object (.builtin .adapter) w.heap.instances.size) p := by
  refine ⟨_, _, rfl, ?_, ?_⟩
  · rw [size_place]
    exact Nat.lt_succ_self _
  · rw [artifactAt?_place, if_pos rfl]

end Steps

/-! ## Caches -/

namespace BindingCache

variable {c : BindingCache} {k : CacheKey} {o : Outcome}

theorem mem_of_find? (h : c.find? k = some o) : ∃ l, (l, o) ∈ c.outcomes ∧ l.same k = true := by
  obtain ⟨e, he, rfl⟩ := Option.map_eq_some_iff.1 h
  have hsame := List.find?_some (p := fun e : CacheKey × Outcome => e.1.same k) he
  exact ⟨e.1, List.mem_of_find?_eq_some he, hsame⟩

/-- An outcome that is kept takes the place of others, or comes under its own key. -/
theorem mem_insert {e : CacheKey × Outcome} (he : e ∈ (c.insert k o).outcomes) :
    e ∈ c.outcomes ∨ e.2 = o ∧ (c.find? k = none → e.1 = k) := by
  unfold insert at he
  split at he
  · rename_i hkept
    obtain ⟨e', he', rfl⟩ := List.mem_map.1 he
    split
    · refine .inr ⟨rfl, fun hmiss => ?_⟩
      rw [contains, hmiss] at hkept
      cases hkept
    · exact .inl he'
  · rcases List.mem_append.1 he with he | he
    · exact .inl he
    · obtain rfl := List.mem_singleton.1 he
      exact .inr ⟨rfl, fun _ => rfl⟩

/-- A finished build adds its own outcome, under its own key if nothing was kept there. -/
theorem mem_finish {r : Except Failure Value} {e : CacheKey × Outcome}
    (he : e ∈ (c.finish k r).outcomes) :
    e ∈ c.outcomes ∨ Outcome.of? r = some e.2 ∧ (c.find? k = none → e.1 = k) := by
  unfold finish at he
  cases ho : Outcome.of? r with
  | none =>
    rw [ho] at he
    exact .inl he
  | some o =>
    rw [ho] at he
    have hcounted : (if o.isFault then { c with failures := c.failures + 1 } else c).outcomes =
        c.outcomes := by split <;> rfl
    have hmem := mem_insert he
    rw [hcounted, find?, hcounted, ← find?] at hmem
    exact hmem.imp_right fun h => ⟨congrArg some h.1.symm, h.2⟩

end BindingCache

end CallAdapter
