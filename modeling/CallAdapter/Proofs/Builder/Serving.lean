import CallAdapter.Proofs.Builder.Answer

/-!
# What builders keep true

Builders over one host change the world by building. `Serving` says what stays true of it: it reads
like the world at the start, its planners were used for nothing but planning, and every outcome in a
cache is what a search at the start would report, for every spelling of its key. Builds and
requests to a cache keep it true, and report the search at the start themselves (`named_reports`).
-/

namespace CallAdapter

open Program

/-! ## Searches of builders -/

/-- The builder works over the host and calls constructors by the name. It may keep plans and
outcomes, and share what it keeps with other builders. -/
structure Builder.Over (host : Host) (ctor : String) (b : Builder) : Prop where
  host : b.host = host
  ctor : b.config.constructorName = ctor

section Building

variable (Γ : Program) (host : Host) (ctor : String) (w₀ : World)

/-- The search that a build by name makes, as it would end on an empty planner at the start. -/
def searchAtStart (c : Ty) (name : String) (s : Shape) (options : SearchMask) (bound : Value) :
    Except Failure (Except NotFound Resolution) :=
  host.freshSearch Γ w₀ ctor c name s options bound

/-- A kept outcome answers every search that its key stands for. -/
def Answers (w : World) (k : CacheKey) (o : Outcome) : Prop :=
  ∀ c name s options bound,
    k.same (.binding ⟨c, name, some s, some options, bound⟩) = true → s.hashable = true →
      host.Suits Γ w₀ ctor c name bound →
        (bound.isUnbound = true ∨ bound.isNone = true) →
          Reports w o.result (searchAtStart Γ host ctor w₀ c name s options bound)

/-- What requests to the builders leave true of a world that began as `w₀`. -/
structure Serving (builders : List Builder) (w : World) : Prop where
  alike : w.Alike w₀
  used : ∀ b ∈ builders, (Eval.plannerAt w b.planner).Used Γ
  kept : ∀ b ∈ builders, ∀ id, b.cache = some id → ∀ e ∈ (Eval.cacheAt w id).outcomes,
    Answers Γ host ctor w₀ w e.1 e.2

variable {Γ host ctor w₀} {builders : List Builder} {w w' : World}

theorem Answers.extends {k : CacheKey} {o : Outcome} (h : Answers Γ host ctor w₀ w k o)
    (hw : w.Extends w') : Answers Γ host ctor w₀ w' k o :=
  fun c name s options bound hk hs hsuits hbound =>
    (h c name s options bound hk hs hsuits hbound).extends hw

theorem Serving.setPlanner (h : Serving Γ host ctor w₀ builders w) (id : Nat) {p : Planner}
    (hp : p.Used Γ) : Serving Γ host ctor w₀ builders (w.setPlanner id p) := by
  refine ⟨⟨h.alike.heap, h.alike.tables⟩, fun b hb => ?_, fun b hb id hid e he => ?_⟩
  · rcases plannerAt_setPlanner id p b.planner with heq | heq
    · rw [heq]
      exact hp
    · rw [heq]
      exact h.used b hb
  · exact (h.kept b hb id hid e he).extends fun _ _ hv => hv

theorem Serving.place (h : Serving Γ host ctor w₀ builders w) (a : Artifact) :
    Serving Γ host ctor w₀ builders (w.place a) := by
  refine ⟨⟨?_, h.alike.tables⟩, h.used, fun b hb id hid e he => ?_⟩
  · exact (Heap.alike_alloc w.heap).symm.trans h.alike.heap
  · exact (h.kept b hb id hid e he).extends (extends_place w a)

theorem Serving.setCache (h : Serving Γ host ctor w₀ builders w) (id : Nat)
    {c : BindingCache} (hc : ∀ e ∈ c.outcomes, Answers Γ host ctor w₀ w e.1 e.2) :
    Serving Γ host ctor w₀ builders (w.setCache id c) := by
  refine ⟨⟨h.alike.heap, h.alike.tables⟩, h.used, fun b hb id' hid e he => ?_⟩
  rcases cacheAt_setCache id c id' with ⟨-, heq⟩ | heq
  · rw [heq] at he
    exact (hc e he).extends fun _ _ hv => hv
  · rw [heq] at he
    exact (h.kept b hb id' hid e he).extends fun _ _ hv => hv

theorem run_buildNamed (b : Builder) (c : Ty) (name : String) (s : Shape) (options : SearchMask)
    (bound : Value) :
    (Builder.buildNamed Γ b c name s options bound).run.run w =
      let search := (Γ.resolve w.heap (b.host.source Γ w) b.config.constructorName c name s
        (some options) bound).run.run (Eval.plannerAt w b.planner)
      let w' := w.setPlanner b.planner search.2
      match search.1 with
      | .error e => (.error e, w')
      | .ok (.error m) => (.error (.fault (m.fault s)), w')
      | .ok (.ok r) =>
        (.ok (.object (.builtin .adapter) w'.heap.instances.size),
          w'.place (.adapter (.member r.plan))) := by
  have hplanning := run_planning (w := w) b.planner (Γ.resolve w.heap (b.host.source Γ w)
    b.config.constructorName c name s (some options) bound)
  dsimp only
  unfold Builder.buildNamed
  rw [run_bind_of_ok (rfl : (get : Eval World).run.run w = (.ok w, w))]
  generalize (Γ.resolve w.heap (b.host.source Γ w) b.config.constructorName c name s
    (some options) bound).run.run (Eval.plannerAt w b.planner) = search at hplanning ⊢
  obtain ⟨found, p⟩ := search
  cases found with
  | error e => exact run_bind_of_error hplanning
  | ok found =>
    rw [run_bind_of_ok hplanning]
    cases found with
    | error m => rfl
    | ok r => exact run_newArtifact _

/-- A build reports the search at the start for every spelling of its container and shape. -/
theorem buildNamed_reports (hhost : host.Registered w₀) (hw : Serving Γ host ctor w₀ builders w)
    {b : Builder} (hb : b ∈ builders) (hover : b.Over host ctor) {c : Ty} {name : String}
    {s : Shape} (hs : s.hashable = true) {bound : Value}
    (hsuits : host.Suits Γ w₀ ctor c name bound) (options : SearchMask) :
    let out := (Builder.buildNamed Γ b c name s options bound).run.run w
    Serving Γ host ctor w₀ builders out.2 ∧ w.Extends out.2 ∧ out.2.caches = w.caches ∧
      ∀ c₀ s₀, c.same c₀ = true → s.same s₀ = true → s₀.hashable = true →
        host.Suits Γ w₀ ctor c₀ name bound →
          Reports out.2 out.1 (searchAtStart Γ host ctor w₀ c₀ name s₀ options bound) := by
  have hsearch : ∀ c₀ s₀, c.same c₀ = true → s.same s₀ = true → s₀.hashable = true →
      host.Suits Γ w₀ ctor c₀ name bound → _ := fun c₀ s₀ hc hss hkey hsuits =>
    Host.search_alike hw.alike hhost hc hss hkey hsuits options (hw.used b hb)
  obtain ⟨hused, -⟩ := hsearch c s (Ty.same_refl c) (Shape.same_refl s) hs hsuits
  have hserving := hw.setPlanner b.planner hused
  dsimp only
  rw [run_buildNamed, hover.host, hover.ctor]
  dsimp only
  generalize (Γ.resolve w.heap (host.source Γ w) ctor c name s
    (some options) bound).run.run (Eval.plannerAt w b.planner) = search at hsearch hserving ⊢
  obtain ⟨found, p⟩ := search
  cases found with
  | error e =>
    refine ⟨hserving, fun _ _ hv => hv, rfl, fun c₀ s₀ hc hss hkey hsuits => ?_⟩
    exact reports_of_failed (hsearch c₀ s₀ hc hss hkey hsuits).2
  | ok found =>
    cases found with
    | error m =>
      refine ⟨hserving, fun _ _ hv => hv, rfl, fun c₀ s₀ hc hss hkey hsuits => ?_⟩
      exact reports_of_missing s (hsearch c₀ s₀ hc hss hkey hsuits).2
    | ok r =>
      refine ⟨hserving.place _, extends_place _ _, rfl, fun c₀ s₀ hc hss hkey hsuits => ?_⟩
      exact reports_of_found (isAdapter_place _ r.plan) (hsearch c₀ s₀ hc hss hkey hsuits).2

/-! ## Requests by name -/

theorem eq_of_identical {v v₀ : Value} (h : v.identical v₀ = true)
    (hv₀ : v₀.isUnbound = true ∨ v₀.isNone = true) : v = v₀ := by
  cases v₀ with
  | unbound | none =>
    cases v with
    | unbound | none => first | rfl | cases h
    | _ => cases h
  | _ => rcases hv₀ with h | h <;> cases h

/-- Keys are the same when all their parts are. -/
theorem same_binding {c c₀ : Ty} {n n₀ : String} {s s₀ : Shape} {o o₀ : SearchMask} {v v₀ : Value}
    (h : CacheKey.same (.binding ⟨c, n, some s, some o, v⟩)
      (.binding ⟨c₀, n₀, some s₀, some o₀, v₀⟩) = true) :
    c.same c₀ = true ∧ n = n₀ ∧ s.same s₀ = true ∧ o = o₀ ∧ v.identical v₀ = true := by
  simp only [CacheKey.same, BindingKey.same, BindingKey.sameShape, Bool.and_eq_true, beq_iff_eq,
    Option.some.injEq] at h
  exact ⟨h.1.1.1.1, h.1.1.1.2, h.1.1.2, h.1.2, h.2⟩

/-- A request answers from the cache, or builds, and either way reports the search at the start. -/
theorem cached_reports (hhost : host.Registered w₀) (hw : Serving Γ host ctor w₀ builders w)
    {b : Builder} (hb : b ∈ builders) (hover : b.Over host ctor) {id : Nat}
    (hid : b.cache = some id) {c : Ty} {name : String} {s : Shape} (hs : s.hashable = true)
    {bound : Value} (hbound : bound.isUnbound = true ∨ bound.isNone = true)
    (hsuits : host.Suits Γ w₀ ctor c name bound) (options : SearchMask) :
    let out := (Eval.cached id (.binding ⟨c, name, some s, some options, bound⟩)
      (Builder.buildNamed Γ b c name s options bound)).run.run w
    Serving Γ host ctor w₀ builders out.2 ∧ w.Extends out.2 ∧
      Reports out.2 out.1 (searchAtStart Γ host ctor w₀ c name s options bound) := by
  have hkept := hw.kept b hb id hid
  dsimp only
  cases hfind : (Eval.cacheAt w id).find? (.binding ⟨c, name, some s, some options, bound⟩) with
  | some o =>
    rw [run_cached_of_hit hfind]
    obtain ⟨l, hl, hlk⟩ := BindingCache.mem_of_find? hfind
    refine ⟨hw.setCache id hkept, fun _ _ hv => hv, ?_⟩
    exact (hkept _ hl c name s options bound hlk hs hsuits hbound).extends fun _ _ hv => hv
  | none =>
    rw [run_cached_of_miss hfind]
    have hcounted := hw.setCache id (c := (Eval.cacheAt w id).countBuild) hkept
    have hmiss : (Eval.cacheAt (w.setCache id (Eval.cacheAt w id).countBuild) id).find?
        (.binding ⟨c, name, some s, some options, bound⟩) = none := by
      rcases cacheAt_setCache (w := w) id (Eval.cacheAt w id).countBuild id with ⟨-, heq⟩ | heq
      · rw [heq]
        exact hfind
      · rw [heq]
        exact hfind
    obtain ⟨hserving, hextends, hcaches, hreports⟩ :=
      buildNamed_reports hhost hcounted hb hover hs hsuits options
    dsimp only
    generalize (Builder.buildNamed Γ b c name s options bound).run.run
      (w.setCache id (Eval.cacheAt w id).countBuild) = out at hserving hextends hcaches hreports ⊢
    rw [Eval.cacheAt, ← hcaches, ← Eval.cacheAt] at hmiss
    refine ⟨hserving.setCache id fun e he => ?_, fun v p hv => hextends v p hv, ?_⟩
    · rcases BindingCache.mem_finish he with he | ⟨ho, hk⟩
      · exact hserving.kept b hb id hid e he
      · -- the new outcome answers every spelling of its key
        obtain ⟨k, o⟩ := e
        obtain rfl := hk hmiss
        intro c₀ name₀ s₀ options₀ bound₀ hsame hkey hsuits₀ hbound₀
        obtain ⟨hc, rfl, hss, rfl, hv⟩ := same_binding hsame
        obtain rfl := eq_of_identical hv hbound₀
        rw [Outcome.result_of_of? ho]
        exact hreports c₀ s₀ hc hss hkey hsuits₀
    · exact (hreports c s (Ty.same_refl c) (Shape.same_refl s) hs hsuits).extends
        fun _ _ hv => hv

theorem named_reports (hhost : host.Registered w₀) (hw : Serving Γ host ctor w₀ builders w)
    {b : Builder} (hb : b ∈ builders) (hover : b.Over host ctor) (r : Request) {name : String}
    (hs : r.shape.hashable = true) (hkey : (r.member.asContainer Γ w₀.heap).hashable = true)
    (hsuits : host.Suits Γ w₀ ctor (r.member.asContainer Γ w₀.heap) name
      r.bound) :
    let out := (Builder.named Γ b r name).run.run w
    Serving Γ host ctor w₀ builders out.2 ∧ w.Extends out.2 ∧
      Reports out.2 out.1 (searchAtStart Γ host ctor w₀ (r.member.asContainer Γ w₀.heap) name
        r.shape (r.options.getD b.config.options) r.bound) := by
  unfold Builder.named
  rw [run_bind_of_ok (rfl : Eval.heap.run.run w = (.ok w.heap, w)),
    r.member.asContainer_congr hw.alike.heap]
  generalize r.member.asContainer Γ w₀.heap = c at hkey hsuits ⊢
  generalize r.options.getD b.config.options = options
  obtain ⟨hserving, hextends, -, hreports⟩ := buildNamed_reports hhost hw hb hover hs hsuits options
  have hbuild := hreports c r.shape (Ty.same_refl c) (Shape.same_refl _) hs hsuits
  dsimp only
  cases hid : b.cache with
  | none => exact ⟨hserving, hextends, hbuild⟩
  | some id =>
    dsimp only
    split
    · exact ⟨hserving, hextends, hbuild⟩
    · rename_i hbound
      have hhashable : BindingKey.hashable ⟨c, name, some r.shape, some options, r.bound⟩ = true := by
        rw [BindingKey.hashable, hkey]
        exact hs
      rw [hhashable, if_pos rfl]
      refine cached_reports hhost hw hb hover hid hs ?_ hsuits options
      cases hunbound : r.bound.isUnbound with
      | true => exact .inl rfl
      | false => simpa [hunbound] using hbound

end Building

end CallAdapter
