import CallAdapter.Proofs.Adapter.Natural
import CallAdapter.Proofs.Builder.Calls
import CallAdapter.Proofs.Member.Guarded
import CallAdapter.Proofs.Member.Selection
import Mathlib

/-!
# Builders and members with open type variables

A program registers members in tables and asks builders over tables and classes (`Session`). What it
gets is described by classes or by its tables and is not marked (`Program.Given`), so it is closed
where the types of properties and fields in the tables are: tables do not mark the accessors of
these. The condition is exact (`refusesOpen_iff`), since every member that is not marked fits some
shape (`run_planSignature_loose`), and a property of an open type is found
(`open_property_selected`).
-/

namespace CallAdapter

open Program

/-! ## A shape for every member -/

section Loose

variable {Γ : Program} {h : Heap} {p : Planner}

/-- A type of arguments that goes into a slot of the declared type: any value, but the absent one
where only that is declared. -/
def Ty.feeder (d : Ty) : Ty := if d.content.normalize.isVoid then .none else .any

theorem direct?_feeder (d : Ty) :
    ∃ v, Γ.direct? d.feeder d.content.normalize = some (.ok v) ∧ v.isPossible = true := by
  unfold Ty.feeder
  generalize d.content.normalize = c
  by_cases hvoid : c.isVoid = true
  · obtain rfl := (Ty.isVoid_iff c).1 hvoid
    refine ⟨.identity, ?_, rfl⟩
    have hrefuses : Ty.refusesPlanning .none .none = false := Ty.refusesPlanning_cls _ _
    unfold direct?
    rw [if_pos hvoid, hrefuses, if_neg Bool.false_ne_true, if_pos (Ty.same_refl _)]
  have hrefuses : Ty.refusesPlanning .any c = false := Ty.cls_refusesPlanning _ _
  rw [if_neg hvoid]
  unfold direct?
  rw [hrefuses, if_neg Bool.false_ne_true]
  by_cases hsame : Ty.same .any c = true
  · rw [if_pos hsame]
    exact ⟨.identity, rfl, rfl⟩
  by_cases htop : c.isTop = true
  · rw [if_neg hsame, if_pos htop]
    exact ⟨.widen, rfl, rfl⟩
  rw [if_neg hsame, if_neg htop, if_neg (by decide), if_neg hvoid, if_pos (by decide)]
  exact ⟨.convert (.unbox c), rfl, rfl⟩

theorem run_planSlot_feeder (hp : p.memoize = false) (i : Nat) (d : Ty) :
    ∃ slot, (Γ.planSlot i d.feeder d).run.run.run p = (.ok (.ok slot), p) := by
  have hfeeder : d.feeder.content = d.feeder ∧ d.feeder.normalize = d.feeder := by
    unfold Ty.feeder
    split <;> exact ⟨rfl, rfl⟩
  obtain ⟨v, hv, hpossible⟩ := direct?_feeder (Γ := Γ) d
  rw [← hfeeder.2, ← hfeeder.1] at hv
  rw [run_planSlot (run_plan_of_direct? hp hv), if_pos ((Plan.isPossible_of ..).trans hpossible)]
  exact ⟨_, rfl⟩

theorem run_planSlots_feeder (hp : p.memoize = false) (i : Nat) (ds : List Ty) :
    ∃ slots, (Γ.planSlots i (ds.map Ty.feeder) ds).run.run.run p = (.ok (.ok slots), p) := by
  induction ds generalizing i with
  | nil => exact ⟨[], rfl⟩
  | cons d ds ih =>
    obtain ⟨slot, hslot⟩ := run_planSlot_feeder (Γ := Γ) hp i d
    obtain ⟨slots, hslots⟩ := ih (i + 1)
    refine ⟨slot :: slots, ?_⟩
    rw [List.map_cons]
    unfold planSlots
    rw [run_match_bind_of_ok hslot, run_match_bind_of_ok hslots]
    rfl

/-- Any result can be given as one of any type. -/
theorem run_planResult_any (hp : p.memoize = false) (s : Ty) :
    ∃ plan, (Γ.planResult s .any).run.run p = (.ok plan, p) ∧ plan.isPossible = true := by
  have hany : Ty.any.normalize = .any := rfl
  unfold planResult
  rw [run_remembered_of_not_key (by rw [hp]; rfl), hany]
  unfold resultPlan
  rw [if_neg (by decide)]
  by_cases hvoid : s.normalize.isVoid = true
  · rw [if_pos hvoid]
    exact ⟨_, rfl, rfl⟩
  rw [if_neg hvoid]
  have hrefuses : Ty.refusesPlanning s.normalize .any = false := Ty.refusesPlanning_cls _ _
  have hdirect : ∃ v, Γ.direct? s.normalize.normalize Ty.any.normalize = some (.ok v) ∧
      v.isPossible = true := by
    rw [Ty.normalize_normalize, hany]
    unfold direct?
    rw [hrefuses, if_neg Bool.false_ne_true]
    split
    · exact ⟨_, rfl, rfl⟩
    · exact ⟨_, rfl, rfl⟩
  obtain ⟨v, hv, hpossible⟩ := hdirect
  exact ⟨_, run_plan_of_direct? hp hv, (Plan.isPossible_of ..).trans hpossible⟩

/-- Callers hand over what the inputs take, and take any result. -/
def Target.looseShape (t : Target) : Shape := ⟨t.inputs.map Ty.feeder, .any⟩

/-- Every member fits a shape. -/
theorem run_planSignature_loose (hp : p.memoize = false) (t : Target) :
    ∃ plan, (Γ.planSignature h t.looseShape t .unbound).run.run.run p = (.ok (.ok plan), p) ∧
      plan.target = t := by
  obtain ⟨slots, hslots⟩ := run_planSlots_feeder (Γ := Γ) hp 0 t.inputs
  obtain ⟨result, hresult, hpossible⟩ := run_planResult_any (Γ := Γ) hp t.result
  have hslots : (Γ.planSlots 0 t.looseShape.params t.inputs).run.run.run p = (.ok (.ok slots), p) :=
    hslots
  have hresult : (Γ.planResult t.result t.looseShape.returns).run.run p = (.ok result, p) := hresult
  rw [planSignature_unbound, if_pos (by simp [Target.looseShape, Shape.arity]), run_lineUp, hslots]
  dsimp only
  rw [hresult]
  dsimp only
  rw [if_pos hpossible]
  exact ⟨_, rfl, rfl⟩

end Loose

/-! ## Requests -/

/-- The member is described on classes, whatever is on the heap, or by one of the tables. -/
def Program.DescribedIn (Γ : Program) (w : World) (m : Member) : Prop :=
  (∃ h, (Reflection.source Γ h).Describes m) ∨ ∃ id, (Eval.tableAt w id).source.Describes m

/-- The members that requests over classes and tables may give. -/
def Program.Given (Γ : Program) (w : World) (t : Target) : Prop :=
  t.isGeneric = false ∧ Γ.DescribedIn w (.target t)

/-- The value is an adapter for a member with the property. -/
def World.Adapts (w : World) (P : Target → Prop) (v : Value) : Prop :=
  ∃ p, w.IsAdapter v p ∧ P p.target

/-- The values that caches keep for builders are adapters for members with the property. -/
def World.KeepsOnly (w : World) (P : Target → Prop) : Prop :=
  ∀ id k v, (.binding k, .value v) ∈ (Eval.cacheAt w id).outcomes → w.Adapts P v

/-- A build changes a planner at most and fails, or then places an adapter for a member with the
property. -/
inductive Builds (P : Target → Prop) (w : World) : Except Failure Value × World → Prop
  | refused {e} : Builds P w (.error e, w)
  | failed {e id p} : Builds P w (.error e, w.setPlanner id p)
  | placed {plan id p} : P plan.target →
      Builds P w (.ok (.object (.builtin .adapter) w.heap.instances.size),
        (w.setPlanner id p).place (.adapter (.member plan)))

/-- Tables stay and adapters stay adapters; where caches keep only adapters for members with the
property, they do so after. -/
structure World.Passes (P : Target → Prop) (w w' : World) : Prop where
  tables : w'.tables = w.tables
  stays : w.Extends w'
  keeps : w.KeepsOnly P → w'.KeepsOnly P

/-- What is given is an adapter for a member with the property. -/
def GivesOnly (P : Target → Prop) (out : Except Failure Value × World) : Prop :=
  ∀ v, out.1 = .ok v → out.2.Adapts P v

section Requests

variable {Γ : Program} {w w' w₂ : World} {b : Builder} {P Q : Target → Prop}

theorem World.Adapts.extends {v : Value} (h : w.Adapts P v) (hw : w.Extends w') :
    w'.Adapts P v := by
  obtain ⟨p, hv, hp⟩ := h
  exact ⟨p, hw v p hv, hp⟩

theorem World.Passes.refl (w : World) : w.Passes P w := ⟨rfl, fun _ _ hv => hv, id⟩

theorem World.Passes.trans (h : w.Passes P w') (h' : w'.Passes P w₂) : w.Passes P w₂ :=
  ⟨h'.tables.trans h.tables, fun v p hv => h'.stays v p (h.stays v p hv), h'.keeps ∘ h.keeps⟩

/-- A cache may come to keep adapters for members with the property. -/
theorem passes_setCache {id : Nat} {c : BindingCache}
    (hc : ∀ k v, (.binding k, .value v) ∈ c.outcomes →
      (.binding k, .value v) ∈ (Eval.cacheAt w id).outcomes ∨ w.Adapts P v) :
    w.Passes P (w.setCache id c) := by
  refine ⟨rfl, fun _ _ hv => hv, fun hw id' k v hkept => ?_⟩
  rcases cacheAt_setCache (w := w) id c id' with ⟨-, heq⟩ | heq
  · rw [heq] at hkept
    rcases hc k v hkept with hkept | hv
    · exact hw id k v hkept
    · exact hv
  · rw [heq] at hkept
    exact hw id' k v hkept

theorem Builds.passes {out : Except Failure Value × World} (h : Builds P w out) :
    w.Passes Q out.2 := by
  cases h with
  | refused => exact .refl w
  | failed => exact ⟨rfl, fun _ _ hv => hv, id⟩
  | @placed plan i p hp =>
    have hstays : w.Extends ((w.setPlanner i p).place (.adapter (.member plan))) :=
      extends_place (w.setPlanner i p) _
    exact ⟨rfl, hstays, fun hw id k v hkept => (hw id k v hkept).extends hstays⟩

theorem Builds.gives {out : Except Failure Value × World} (h : Builds P w out)
    (hPQ : ∀ t, P t → Q t) : GivesOnly Q out := by
  cases h with
  | refused => exact nofun
  | failed => exact nofun
  | @placed plan i p hp =>
    intro v hv
    obtain rfl := Except.ok.inj hv
    exact ⟨plan, isAdapter_place (w.setPlanner i p) plan, hPQ _ hp⟩

theorem describedIn_source {host : Host} {m : Member} (hm : (host.source Γ w).Describes m) :
    Γ.DescribedIn w m := by
  cases host with
  | classes => exact .inl ⟨w.heap, hm⟩
  | table id => exact .inr ⟨id, hm⟩

theorem describedIn_accessor {m : Member} {t : Target} (hm : Γ.DescribedIn w m)
    (haccessor : ∀ S : MemberSource, S.Describes m → S.Describes (.target t)) :
    Γ.DescribedIn w (.target t) := by
  rcases hm with ⟨h, hm⟩ | ⟨id, hm⟩
  · exact .inl ⟨h, haccessor _ hm⟩
  · exact .inr ⟨id, haccessor _ hm⟩

/-- What stands behind a handle is described: it is what was handed over, or the host describes
it. -/
theorem describedIn_handle {member : Handle}
    (hm : ∀ m, member = .described m → Γ.DescribedIn w m) {container : Option Ty} {m : Member}
    (h : (b.host.source Γ w).describe member container = .ok (some m)) : Γ.DescribedIn w m := by
  cases member with
  | described m' =>
    obtain rfl : m' = m := by
      cases hhost : b.host <;> rw [hhost] at h <;> exact Option.some.inj (Except.ok.inj h)
    exact hm m' rfl
  | value v => exact describedIn_source (.handle h)

/-- A builder that finds a member behind a handle leaves the world as it is. -/
theorem run_targetOf (member : Handle) (container : Option Ty) (setter : Bool) :
    ∃ found, (Builder.targetOf Γ b member container setter).run.run w = (found, w) ∧
      ((∀ m, member = .described m → Γ.DescribedIn w m) →
        ∀ t, found = .ok t → Γ.DescribedIn w (.target t)) := by
  have hthrow : ∀ e : Failure, (throw e : Eval Target).run.run w = (.error e, w) := fun _ => rfl
  unfold Builder.targetOf
  rw [run_bind_of_ok (rfl : (get : Eval World).run.run w = (.ok w, w))]
  dsimp only
  have hlift : ∀ e : Failure, (Eval.lift (.error e : Except Failure (Option Member))).run.run w =
      (.error e, w) := fun _ => rfl
  cases hdescribe : (b.host.source Γ w).describe member container with
  | error e => exact ⟨.error e, run_bind_of_error (hlift e), fun _ _ ht => nomatch ht⟩
  | ok found =>
    rw [run_bind_of_ok (rfl : (Eval.lift (.ok found)).run.run w = (.ok found, w))]
    cases found with
    | none => exact ⟨_, hthrow _, fun _ _ ht => nomatch ht⟩
    | some m =>
      -- of a property or a field, the accessor is the member
      cases m with
      | target t =>
        refine ⟨.ok t, rfl, fun hm t' ht => ?_⟩
        obtain rfl := Except.ok.inj ht
        exact describedIn_handle hm hdescribe
      | property p =>
        dsimp only
        cases haccessor : p.accessor setter with
        | none => exact ⟨_, hthrow _, fun _ _ ht => nomatch ht⟩
        | some t =>
          refine ⟨.ok t, rfl, fun hm t' ht => ?_⟩
          obtain rfl := Except.ok.inj ht
          exact describedIn_accessor (describedIn_handle hm hdescribe) fun S hp =>
            .propertyAccessor hp haccessor
      | field f =>
        dsimp only
        cases haccessor : f.accessor setter with
        | none => exact ⟨_, hthrow _, fun _ _ ht => nomatch ht⟩
        | some t =>
          refine ⟨.ok t, rfl, fun hm t' ht => ?_⟩
          obtain rfl := Except.ok.inj ht
          exact describedIn_accessor (describedIn_handle hm hdescribe) fun S hf =>
            .fieldAccessor hf haccessor

/-- A build for a handle adapts the member behind it, which is not marked. -/
theorem buildDirect_builds (r : Request) :
    ∃ P, Builds P w ((Builder.buildDirect Γ b r).run.run w) ∧
      ((∀ m, r.member = .described m → Γ.DescribedIn w m) → ∀ t, P t → Γ.Given w t) := by
  obtain ⟨found, hfound, hdescribed⟩ :=
    run_targetOf (Γ := Γ) (b := b) (w := w) r.member r.container r.shape.returnsVoid
  refine ⟨fun t => t.isGeneric = false ∧ found = .ok t, ?_, fun hm t ht =>
    ⟨ht.1, hdescribed hm t ht.2⟩⟩
  unfold Builder.buildDirect
  cases found with
  | error e =>
    rw [run_bind_of_error hfound]
    exact .refused
  | ok t =>
    rw [run_bind_of_ok hfound]
    dsimp only
    split
    · exact .refused
    rename_i hgeneric
    rw [run_bind_of_ok (run_heap w)]
    have hplanning := run_planning (w := w) b.planner
      (Γ.planSignature w.heap r.shape t r.bound).run
    have htarget : Yields (fun _ => True) (Γ.planSignature w.heap r.shape t r.bound)
        fun p => p.target = t := planSignature_target t
    obtain ⟨-, htarget⟩ := htarget (Eval.plannerAt w b.planner) trivial
    generalize (Γ.planSignature w.heap r.shape t r.bound).run.run.run
      (Eval.plannerAt w b.planner) = out at hplanning htarget
    obtain ⟨planned, p⟩ := out
    cases planned with
    | error e =>
      rw [run_bind_of_error hplanning]
      exact .failed
    | ok planned =>
      rw [run_bind_of_ok hplanning]
      cases planned with
      | error m => exact .failed
      | ok plan =>
        have hplan : plan.target = t := htarget plan rfl
        exact .placed ⟨by rw [hplan]; simpa using hgeneric, by rw [hplan]⟩

/-- A build for a name adapts a member that the host describes, and that is not marked. -/
theorem buildNamed_builds (c : Ty) (name : String) (s : Shape) (options : SearchMask)
    (bound : Value) :
    Builds (Γ.Given w) w ((Builder.buildNamed Γ b c name s options bound).run.run w) := by
  have hfinds : ∀ r, ((Γ.resolve w.heap (b.host.source Γ w) b.config.constructorName c name s
      (some options) bound).run.run (Eval.plannerAt w b.planner)).1 = .ok (.ok r) →
        r.IsOf ((b.host.source Γ w).Has b.config.constructorName c name) :=
    fun r => resolve_finds (some options) (Eval.plannerAt w b.planner)
  rw [run_buildNamed]
  dsimp only
  generalize ((Γ.resolve w.heap (b.host.source Γ w) b.config.constructorName c name s
    (some options) bound).run.run (Eval.plannerAt w b.planner)) = search at hfinds ⊢
  obtain ⟨found, p⟩ := search
  cases found with
  | error e => exact .failed
  | ok found =>
    cases found with
    | error m => exact .failed
    | ok r =>
      have hfound := hfinds r rfl
      refine .placed ?_
      rw [hfound.planned]
      exact ⟨hfound.closed, describedIn_source hfound.target.describes⟩

/-- A request for a name passes on what caches keep, and gives an adapter of that kind. -/
theorem named_passes (hP : ∀ t, Γ.Given w t → P t) (r : Request) (name : String) :
    let out := (Builder.named Γ b r name).run.run w
    w.Passes P out.2 ∧ (w.KeepsOnly P → GivesOnly P out) := by
  unfold Builder.named
  rw [run_bind_of_ok (run_heap w)]
  generalize r.member.asContainer Γ w.heap = c
  generalize r.options.getD b.config.options = options
  have hbuild : Builds (Γ.Given w) w
      ((Builder.buildNamed Γ b c name r.shape options r.bound).run.run w) :=
    buildNamed_builds c name r.shape options r.bound
  dsimp only
  cases hcache : b.cache with
  | none => exact ⟨hbuild.passes, fun _ => hbuild.gives hP⟩
  | some id =>
    dsimp only
    split
    · exact ⟨hbuild.passes, fun _ => hbuild.gives hP⟩
    split
    · generalize BindingKey.mk c name (some r.shape) (some options) r.bound = key
      cases hfound : (Eval.cacheAt w id).find? (.binding key) with
      | some o =>
        rw [run_cached_of_hit hfound]
        refine ⟨passes_setCache fun k v => .inl, fun hw v hv => ?_⟩
        obtain ⟨l, hl, hsame⟩ := BindingCache.mem_of_find? hfound
        cases o with
        | fault f => cases hv
        | value v' =>
          obtain rfl := Except.ok.inj hv
          cases l with
          | binding k => exact (hw id k v' hl).extends fun _ _ hv => hv
          | values vs => cases hsame
      | none =>
        rw [run_cached_of_miss hfound]
        dsimp only
        -- the build counts first, which no search notices
        have hcounted := buildNamed_builds (Γ := Γ) (b := b)
          (w := w.setCache id (Eval.cacheAt w id).countBuild) c name r.shape options r.bound
        have hgives := hcounted.gives hP
        have hcount : w.Passes P (w.setCache id (Eval.cacheAt w id).countBuild) :=
          passes_setCache fun k v => .inl
        have hpasses := hcount.trans hcounted.passes
        generalize (Builder.buildNamed Γ b c name r.shape options r.bound).run.run
          (w.setCache id (Eval.cacheAt w id).countBuild) = out at hgives hpasses ⊢
        refine ⟨hpasses.trans (passes_setCache fun k v hkept => ?_), fun _ => hgives⟩
        refine (BindingCache.mem_finish hkept).imp_right fun hv => hgives v ?_
        exact (Outcome.result_of_of? hv.1).symm
    · exact ⟨.refl w, fun _ => nofun⟩

/-- A request passes on what caches keep. Where what it hands over as a member is described, it gives
the absent value or an adapter of that kind. -/
theorem create_passes (hP : ∀ t, Γ.Given w t → P t) (b : Builder) (shape : Descriptor)
    (member : Option Handle) (particulars : Particulars) :
    let out := (Builder.create Γ b shape member particulars).run.run w
    w.Passes P out.2 ∧ (w.KeepsOnly P → (∀ m, member = some (.described m) → Γ.DescribedIn w m) →
      ∀ v, out.1 = .ok v → v = .none ∨ out.2.Adapts P v) := by
  have hprepare := run_prepare (Γ := Γ) (w := w) shape member particulars
  unfold Builder.create
  cases hrequest : (Builder.prepare Γ shape member particulars).run.run w with
  | mk r w' =>
    obtain rfl : w' = w := by
      rw [hprepare] at hrequest
      exact (Prod.mk.inj hrequest).2.symm
    cases r with
    | error e =>
      rw [run_bind_of_error hrequest]
      exact ⟨.refl _, fun _ _ => nofun⟩
    | ok r =>
      rw [run_bind_of_ok hrequest]
      unfold Builder.answer
      rw [run_withPolicy]
      have hsettle : ∀ {throws : Bool} {out : Except Failure Value × World}, GivesOnly P out →
          ∀ v, settle throws out.1 = .ok v → v = .none ∨ out.2.Adapts P v := by
        intro throws out hgives v hv
        cases hout : out.1 with
        | error e =>
          rw [hout] at hv
          exact .inl (eq_none_of_settle_error hv.symm)
        | ok v' =>
          rw [hout] at hv
          obtain rfl : v' = v := Except.ok.inj hv
          exact .inr (hgives v' hout)
      cases hname : r.name with
      | some name =>
        obtain ⟨hpasses, hgives⟩ := named_passes (b := b) hP r name
        exact ⟨hpasses, fun hw _ => hsettle (hgives hw)⟩
      | none =>
        obtain ⟨Q, hbuilds, hgiven⟩ := buildDirect_builds (Γ := Γ) (b := b) (w := w') r
        refine ⟨hbuilds.passes, fun _ hm => hsettle (hbuilds.gives fun t ht => hP t ?_)⟩
        refine hgiven (fun m hmember => hm m ?_) t ht
        rw [hprepare] at hrequest
        obtain ⟨hrequest, -⟩ := Prod.mk.inj hrequest
        cases hshape : Γ.shapeOf w'.heap shape with
        | error e =>
          rw [hshape] at hrequest
          cases hrequest
        | ok s =>
          rw [hshape] at hrequest
          cases member with
          | none => cases hrequest
          | some member =>
            obtain rfl := Except.ok.inj hrequest
            exact congrArg some hmember

end Requests

/-! ## Sessions -/

/-- The worlds of a program that registers members and asks builders, over its tables and over
classes. Whatever else it does, tables stay, adapters stay adapters, and caches keep no other answers of
builders. -/
inductive Session (Γ : Program) : World → Prop
  | start {w} : w.tables = #[] → (∀ id, (Eval.cacheAt w id).outcomes = []) → Session Γ w
  | newTable {w} : Session Γ w → Session Γ (Eval.newTable.run.run w).2
  | registers {w} (id : Nat) (r : Registration) : Session Γ w →
      Session Γ ((Eval.registering id fun t => r.register t).run.run w).2
  | creates {w} (b : Builder) (shape : Descriptor) (member : Option Handle)
      (particulars : Particulars) : Session Γ w →
      Session Γ ((Builder.create Γ b shape member particulars).run.run w).2
  | goesOn {w w'} : Session Γ w → w'.tables = w.tables → w.Extends w' →
      (∀ id k o, (.binding k, o) ∈ (Eval.cacheAt w' id).outcomes →
        ∃ id', (.binding k, o) ∈ (Eval.cacheAt w id').outcomes) → Session Γ w'

namespace World

/-- The tables hold what registrations made. -/
def Marks (w : World) : Prop := ∀ id, (Eval.tableAt w id).Marks

/-- The types of properties and fields in the tables are closed. -/
def TablesClosed (w : World) : Prop := ∀ id, (Eval.tableAt w id).Closed

/-- No search gives, and no request gives an adapter for, a member with open type variables. -/
structure RefusesOpen (Γ : Program) (w : World) : Prop where
  resolve : ∀ (host : Host) ctor c name shape options bound p r,
    ((Γ.resolve w.heap (host.source Γ w) ctor c name shape options bound).run.run p).1 =
      .ok (.ok r) → r.target.Closed ∧ r.plan.target = r.target
  create : ∀ (b : Builder) shape member particulars,
    (∀ m, member = some (.described m) → Γ.DescribedIn w m) →
      let out := (Builder.create Γ b shape member particulars).run.run w
      ∀ v, out.1 = .ok v → v = .none ∨ out.2.Adapts Target.Closed v

end World

section Sessions

variable {Γ : Program} {w w' : World}

theorem tableAt_congr (h : w'.tables = w.tables) (id : Nat) :
    Eval.tableAt w' id = Eval.tableAt w id := by
  unfold Eval.tableAt
  rw [h]

/-- What is described is guarded where the types of properties and fields in tables are closed. -/
theorem closed_of_given (hmarks : w.Marks) (hclosed : w.TablesClosed) {t : Target}
    (ht : Γ.Given w t) : t.Closed := by
  obtain ⟨hmark, ⟨h, hm⟩ | ⟨id, hm⟩⟩ := ht
  · exact Reflection.guarded_of_describes hm hmark
  · exact MemberTable.guarded_of_describes (hmarks id) (hclosed id) hm hmark

theorem tableAt_newTable (id : Nat) :
    Eval.tableAt (Eval.newTable.run.run w).2 id = Eval.tableAt w id := by
  show ((w.tables.push .empty)[id]?).getD .empty = (w.tables[id]?).getD .empty
  rw [Array.getElem?_push]
  split
  · rename_i hid
    rw [hid, Array.getElem?_eq_none (Nat.le_refl _)]
    rfl
  · rfl

/-- The world with another table in a place. -/
def World.setTable (w : World) (id : Nat) (t : MemberTable) : World :=
  { w with tables := w.tables.setIfInBounds id t }

theorem run_registering {α : Type} (id : Nat)
    (x : MemberTable → Except Failure (α × MemberTable)) :
    (Eval.registering id x).run.run w =
      match x (Eval.tableAt w id) with
      | .error e => (.error e, w)
      | .ok (a, t) => (.ok a, w.setTable id t) := by
  unfold Eval.registering
  rw [run_bind_of_ok (rfl : (get : Eval World).run.run w = (.ok w, w))]
  cases x (Eval.tableAt w id) with
  | error e => exact run_bind_of_error rfl
  | ok made => rfl

theorem tableAt_setTable (id : Nat) (t : MemberTable) (id' : Nat) :
    (id = id' ∧ Eval.tableAt (w.setTable id t) id' = t) ∨
      Eval.tableAt (w.setTable id t) id' = Eval.tableAt w id' := by
  unfold Eval.tableAt World.setTable
  obtain ⟨hid, hput⟩ | hput := getElem?_setIfInBounds_cases w.tables id id' t
  · refine .inl ⟨hid, ?_⟩
    rw [hput]
    rfl
  · right
    rw [hput]

/-- Registrations keep what tables hold. -/
theorem marks_registering (hmarks : w.Marks) (i : Nat) (r : Registration) :
    let w' := ((Eval.registering i fun t => r.register t).run.run w).2
    w'.Marks ∧ (w'.TablesClosed → w.TablesClosed) ∧ ∀ P, w.KeepsOnly P → w'.KeepsOnly P := by
  rw [run_registering]
  cases hregister : r.register (Eval.tableAt w i) with
  | error e => exact ⟨hmarks, fun h => h, fun _ h => h⟩
  | ok made =>
    obtain ⟨m, t⟩ := made
    obtain ⟨ht, hclosed⟩ := Registration.marks_register (hmarks i) hregister
    refine ⟨fun id => ?_, fun h id => ?_, fun _ h => h⟩
    · rcases tableAt_setTable (w := w) i t id with ⟨-, heq⟩ | heq
      · rw [heq]
        exact ht
      · rw [heq]
        exact hmarks id
    · have hid := h id
      rcases tableAt_setTable (w := w) i t id with ⟨rfl, heq⟩ | heq
      · rw [heq] at hid
        exact hclosed hid
      · rw [heq] at hid
        exact hid

theorem keepsOnly_of_kept {P : Target → Prop} (hstays : w.Extends w')
    (hkept : ∀ id k o, (.binding k, o) ∈ (Eval.cacheAt w' id).outcomes →
      ∃ id', (.binding k, o) ∈ (Eval.cacheAt w id').outcomes) (hw : w.KeepsOnly P) :
    w'.KeepsOnly P := by
  intro id k v hv
  obtain ⟨id', hv⟩ := hkept id k _ hv
  exact (hw id' k v hv).extends hstays

/-- Tables hold what registrations made, and where their types are closed, caches keep only adapters
for members without open type variables. -/
theorem Session.invariant (hw : Session Γ w) :
    w.Marks ∧ (w.TablesClosed → w.KeepsOnly Target.Closed) := by
  have hcongr : ∀ {w w' : World}, (∀ id, Eval.tableAt w' id = Eval.tableAt w id) → w.Marks →
      w'.Marks ∧ (w'.TablesClosed → w.TablesClosed) := by
    intro w w' htables hmarks
    refine ⟨fun id => ?_, fun hclosed id => ?_⟩
    · rw [htables id]
      exact hmarks id
    · rw [← htables id]
      exact hclosed id
  induction hw with
  | @start w htables hcaches =>
    refine ⟨fun id => ?_, fun _ id k v hv => ?_⟩
    · unfold Eval.tableAt
      rw [htables]
      exact MemberTable.marks_empty
    · rw [hcaches id] at hv
      cases hv
  | newTable _ ih =>
    obtain ⟨hmarks, hclosed⟩ := hcongr tableAt_newTable ih.1
    exact ⟨hmarks, fun h => ih.2 (hclosed h)⟩
  | registers id r _ ih =>
    obtain ⟨hmarks, hclosed, hkeeps⟩ := marks_registering ih.1 id r
    exact ⟨hmarks, fun h => hkeeps _ (ih.2 (hclosed h))⟩
  | @creates w b shape member particulars _ ih =>
    have hpasses := fun (h : w.TablesClosed) => (create_passes
      (fun t ht => closed_of_given (Γ := Γ) ih.1 h ht) b shape member particulars).1
    have htables : ((Builder.create Γ b shape member particulars).run.run w).2.tables =
        w.tables := (create_passes (fun _ _ => trivial) b shape member particulars).1.tables
    obtain ⟨hmarks, hclosed⟩ := hcongr (tableAt_congr htables) ih.1
    exact ⟨hmarks, fun h => (hpasses (hclosed h)).keeps (ih.2 (hclosed h))⟩
  | goesOn _ htables hstays hkept ih =>
    obtain ⟨hmarks, hclosed⟩ := hcongr (tableAt_congr htables) ih.1
    exact ⟨hmarks, fun h => keepsOnly_of_kept hstays hkept (ih.2 (hclosed h))⟩

/-! ### Members that slip through -/

/-- Builders with a planner that keeps nothing adapt every member that is not marked to its loose
shape. -/
theorem adapts_of_unmarked (b : Builder) (hplanner : (Eval.plannerAt w b.planner).memoize = false)
    {t : Target} (hmark : t.isGeneric = false) :
    let out := (Builder.create Γ b (.shape t.looseShape) (some (.described (.target t)))
      {}).run.run w
    ∃ v, out.1 = .ok v ∧ out.2.Adapts (· = t) v := by
  obtain ⟨plan, hplan, rfl⟩ := run_planSignature_loose (Γ := Γ) (h := w.heap) hplanner t
  let r : Request := { shape := plan.target.looseShape, member := .described (.target plan.target) }
  let w' := w.setPlanner b.planner (Eval.plannerAt w b.planner)
  have htarget : (Builder.targetOf Γ b r.member r.container r.shape.returnsVoid).run.run w =
      (.ok plan.target, w) := by
    unfold Builder.targetOf
    rw [run_bind_of_ok (rfl : (get : Eval World).run.run w = (.ok w, w))]
    cases b.host <;> rfl
  have hplanning : (Eval.planning b.planner
      (Γ.planSignature w.heap r.shape plan.target r.bound).run).run.run w =
        (.ok (.ok plan), w') := by
    rw [run_planning]
    exact congrArg (fun x => (x.1, w.setPlanner b.planner x.2)) hplan
  have hbuild : (Builder.buildDirect Γ b r).run.run w =
      (.ok (.object (.builtin .adapter) w'.heap.instances.size),
        w'.place (.adapter (.member plan))) := by
    unfold Builder.buildDirect
    rw [run_bind_of_ok htarget]
    dsimp only
    rw [hmark, if_neg Bool.false_ne_true, run_bind_of_ok (run_heap w), run_bind_of_ok hplanning]
    exact run_newArtifact _
  have hprepare := run_prepare (Γ := Γ) (w := w) (.shape plan.target.looseShape)
    (some (.described (.target plan.target))) {}
  have hcreate : (Builder.create Γ b (.shape plan.target.looseShape)
      (some (.described (.target plan.target))) {}).run.run w =
        (.ok (.object (.builtin .adapter) w'.heap.instances.size),
          w'.place (.adapter (.member plan))) := by
    unfold Builder.create
    rw [run_bind_of_ok hprepare]
    unfold Builder.answer
    rw [run_withPolicy]
    show (settle _ ((Builder.buildDirect Γ b r).run.run w).1, _) = _
    rw [hbuild]
    rfl
  dsimp only
  rw [hcreate]
  exact ⟨_, rfl, plan, isAdapter_place w' plan, rfl⟩

theorem isAdapter_unique {v : Value} {p p' : SignaturePlan} (h : w.IsAdapter v p)
    (h' : w.IsAdapter v p') : p = p' := by
  obtain ⟨c, addr, rfl, -, hart⟩ := h
  obtain ⟨c', addr', hv, -, hart'⟩ := h'
  cases hv
  rw [hart] at hart'
  cases hart'
  rfl

/-- Where no request gives an adapter for a member with open type variables, described members that
are not marked have none. -/
theorem World.RefusesOpen.closed (h : w.RefusesOpen Γ) {t : Target} (hmark : t.isGeneric = false)
    (ht : Γ.DescribedIn w (.target t)) : t.Closed := by
  let b : Builder := ⟨{}, .classes, w.planners.size, none⟩
  have hplanner : (Eval.plannerAt w b.planner).memoize = false := by
    unfold Eval.plannerAt
    rw [Array.getElem?_eq_none (Nat.le_refl _)]
    rfl
  obtain ⟨v, hv, p, hp, rfl⟩ := adapts_of_unmarked (Γ := Γ) b hplanner hmark
  have hmember : ∀ m, some (Handle.described (.target p.target)) = some (.described m) →
      Γ.DescribedIn w m := by
    intro m hm
    cases hm
    exact ht
  rcases h.create b _ _ {} hmember v hv with hnone | ⟨p', hp', hclosed⟩
  · obtain ⟨c, addr, rfl, -⟩ := hp
    cases hnone
  · obtain rfl := isAdapter_unique hp hp'
    exact hclosed

/-- Where no request gives an adapter for a member with open type variables, no table has a property
or a field of such a type. -/
theorem World.RefusesOpen.tablesClosed (h : w.RefusesOpen Γ) (hmarks : w.Marks) :
    w.TablesClosed := by
  intro id
  refine ⟨fun e he => ?_, fun e he => ?_⟩
  · have hproperty := (hmarks id).properties e he
    obtain ⟨setter, x, hx⟩ := hproperty.accessible
    have haccesses := hproperty.accesses setter x hx
    refine haccesses.closed_iff.1 (h.closed haccesses.unmarked (.inr ⟨id, ?_⟩))
    exact .propertyAccessor ((hmarks id).describes_property he) hx
  · have hgetter : ∃ x, e.member.accessor false = some x := ⟨_, rfl⟩
    obtain ⟨x, hx⟩ := hgetter
    have haccesses := FieldInfo.accesses ((hmarks id).fields e he).1 hx
    refine haccesses.closed_iff.1 (h.closed haccesses.unmarked (.inr ⟨id, ?_⟩))
    exact .fieldAccessor ((hmarks id).describes_field he) hx

/-- On classes, searches never give members with open type variables. After any session, no search
and no request does, exactly when the properties and fields in the tables have closed types. -/
theorem refusesOpen_iff (hw : Session Γ w) :
    (∀ h ctor c name shape options bound p r,
      ((Γ.resolve h (Reflection.source Γ h) ctor c name shape options bound).run.run p).1 =
        .ok (.ok r) → r.target.Closed) ∧
      (w.RefusesOpen Γ ↔ w.TablesClosed) := by
  obtain ⟨hmarks, hkeeps⟩ := hw.invariant
  refine ⟨fun h ctor c name shape options bound p r hr => ?_, fun h => h.tablesClosed hmarks,
    fun hclosed => ⟨?_, ?_⟩⟩
  · have hfound := resolve_finds options p hr
    exact Reflection.guarded_of_describes hfound.target.describes hfound.closed
  · intro host ctor c name shape options bound p r hr
    have hfound := resolve_finds options p hr
    have hdescribed : Γ.DescribedIn w (.target r.target) :=
      describedIn_source hfound.target.describes
    exact ⟨closed_of_given hmarks hclosed ⟨hfound.closed, hdescribed⟩, hfound.planned⟩
  · intro b shape member particulars hmember
    exact (create_passes (fun t ht => closed_of_given hmarks hclosed ht) b shape member
      particulars).2 (hkeeps hclosed) hmember

end Sessions

/-! ## A property in a table -/

/-- A property of `int`, with a function that reads it. -/
def sizeProperty (type : Ty) : Registration :=
  .property (.builtin .int) "size" type (some (.code (.function 0))) none false none

/-- The property is registered in a new table. -/
def sizedWorld (type : Ty) : World :=
  ((Eval.registering 0 fun t => (sizeProperty type).register t).run.run
    (Eval.newTable.run.run World.empty).2).2

theorem session_sizedWorld (type : Ty) : Session .empty (sizedWorld type) :=
  .registers 0 (sizeProperty type) (.newTable (.start rfl fun _ => rfl))

theorem refusesOpen_iff_intSize :
    Session .empty (sizedWorld (.builtin .int)) ∧
      (sizedWorld (.builtin .int)).RefusesOpen .empty := by
  refine ⟨session_sizedWorld _, (refusesOpen_iff (session_sizedWorld _)).2.2 fun id => ?_⟩
  have htable : ∀ id, Eval.tableAt (sizedWorld (.builtin .int)) id = .empty ∨
      Eval.tableAt (sizedWorld (.builtin .int)) id =
        Eval.tableAt (sizedWorld (.builtin .int)) 0 := by
    intro id
    cases id with
    | zero => exact .inr rfl
    | succ id => exact .inl rfl
  rcases htable id with h | h
  · rw [h]
    exact MemberTable.closed_empty
  · rw [h]
    refine ⟨fun e he => ?_, fun e he => nomatch he⟩
    obtain rfl := List.mem_singleton.1 he
    rfl

/-- A type variable that nothing binds. -/
def openSize : Ty := .var (.named "T")

/-- Callers read the property of an integer as any object. -/
def readShape : Shape := .make [.builtin .int] .object

/-- The accessor of the property is not marked, and is selected. -/
theorem open_property_selected :
    ¬∀ (Γ : Program) (w : World), Session Γ w → w.RefusesOpen Γ := by
  intro hrefuses
  have hname : Text.fold "size" ≠ Text.fold ".ctor" := by decide
  have hrun : ∃ r, ((Program.resolve .empty (sizedWorld openSize).heap
      ((Host.table 0).source .empty (sizedWorld openSize)) ".ctor" (.builtin .int) "size" readShape
      none .unbound).run.run ⟨false, [], []⟩).1 = .ok (.ok r) ∧ r.target.result = openSize := by
    rw [run_resolve (by with_unfolding_all rfl) hname]
    exact ⟨_, by with_unfolding_all rfl, by cbv⟩
  obtain ⟨r, hr, hresult⟩ := hrun
  have hclosed := ((hrefuses .empty _ (session_sizedWorld openSize)).resolve (.table 0) ".ctor"
    (.builtin .int) "size" readShape none .unbound ⟨false, [], []⟩ r hr).1.result
  rw [hresult] at hclosed
  cases hclosed

end CallAdapter
