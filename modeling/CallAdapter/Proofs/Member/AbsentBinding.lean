import CallAdapter.Proofs.Adapter.CapturedReceiver
import CallAdapter.Proofs.Adapter.MissingReceiver
import CallAdapter.Proofs.Adapter.Reference
import CallAdapter.Proofs.Builder.Routes
import CallAdapter.Proofs.Builder.Serving
import CallAdapter.Proofs.Member.BoundChoice

/-!
# Binding the absent value

A search by name that binds the absent value searches for members of the class, and captures
nothing: it finds what the search finds that has the scope of the class alone and binds nothing
(`Searched.statics`). Only a search for constructors hands the absent value over to be captured,
and these have no receivers. So no signature that a search finds has the absent value for its
receiver, and for some arguments every such adapter comes past its receiver
(`SignaturePlan.Planned.exists_not_reportsMissing`).
-/

namespace CallAdapter

open Program

/-! ## Members of the class -/

namespace Candidates

variable {l l' : Candidates} {options : Option SearchMask} {setter : Bool}

/-- Where the absent value is bound, the members of the class are searched. -/
theorem groups_none :
    l.groups options setter .none = (l.inScope true options setter).map (⟨·, .unbound⟩) := by
  have hscoped : ∀ ts, scopedGroups .none ts =
      [⟨ts.filter fun t => t.isStatic == true, .unbound⟩] := by
    intro ts
    simp only [beq_true]
    rfl
  unfold groups inScope
  rw [hscoped, hscoped, hscoped]
  grind

/-- The absent value is captured for no group of a name. -/
theorem isNone_bound_of_mem_groups {v : Value} {g : CandidateGroup}
    (hg : g ∈ l.groups options setter v) : g.bound.isNone = false := by
  have hscoped : ∀ ts, ∀ g ∈ scopedGroups v ts, g.bound.isNone = false := by
    intro ts g hg
    unfold scopedGroups at hg
    dsimp only at hg
    split_ifs at hg with hnone
    · obtain rfl := List.mem_singleton.1 hg
      rfl
    · rcases List.mem_pair.1 hg with rfl | rfl <;> rfl
    · obtain rfl := List.mem_singleton.1 hg
      simpa using hnone
  unfold groups at hg
  simp only [List.mem_append, List.mem_ite_nil_right] at hg
  rcases hg with ⟨-, hg⟩ | ⟨-, hg⟩ | ⟨-, hg⟩ <;> exact hscoped _ g hg

end Candidates

/-- Groups without candidates, after each of the others, change nothing. -/
theorem Searched.statics {L : Lineups} {tss : List (List Target)}
    {out : Except Failure (Option Resolution)}
    (hout : Searched L (tss.map (⟨·, .unbound⟩)) out) :
    Searched L (tss.flatMap (Candidates.scopeGroups true)) out := by
  induction tss generalizing out with
  | nil => exact hout
  | cons ts tss ih =>
    rw [List.flatMap_cons]
    cases hout with
    | raises he => exact .raises he
    | found hcalm hfound => exact .found hcalm hfound
    | next hcalm hnone hrest => exact .next hcalm hnone ((ih hrest).skip _)

section Searching

variable {Γ : Program} {h : Heap} {S : MemberSource} {ctor : String} {c : Ty} {name : String}
  {shape : Shape} {options : Option SearchMask} {bound : Value} {p p' q : Planner} {r : Resolution}

/-- Binding the absent value finds what is found with the scope of the class and nothing bound. -/
theorem resolve_none_iff (hS : S.IsHost Γ h) (hname : Text.fold name ≠ Text.fold ctor)
    (hadmits : (SearchMask.split options).2.has .staticScope = true)
    (hq : q.Remembers ((Γ.resolve h S ctor c name shape options .none).run.run p).2)
    (hq' : q.Remembers ((Γ.resolve h S ctor c name shape (some (SearchMask.inScope true options))
      .unbound).run.run p').2) :
    ((Γ.resolve h S ctor c name shape options .none).run.run p).1 = .ok (.ok r) ↔
      ((Γ.resolve h S ctor c name shape (some (SearchMask.inScope true options))
        .unbound).run.run p').1 = .ok (.ok r) := by
  by_cases hopen : Γ.isOpen c = true
  · exact iff_of_false (resolve_ne_found_of_isOpen hopen r) (resolve_ne_found_of_isOpen hopen r)
  have hopen : Γ.isOpen c = false := by simpa using hopen
  obtain ⟨l, hl⟩ | hnothing := hS.lists_or_never c name (SearchMask.split options).2
  · obtain ⟨l', hl', hstatics⟩ := hS.exists_inScope
      (SearchMask.scopeIn_inScope true hadmits) hl
    have hout := (tries_groups hopen hname hl p).2 q hq
    have hout' := (tries_groups hopen hname hl' p').2 q hq'
    rw [Candidates.groups_none] at hout
    rw [Candidates.groups_inScope hstatics] at hout'
    rw [← map_toOption_eq_ok, ← map_toOption_eq_ok]
    constructor
    · intro hr
      rw [hr] at hout
      exact hout.statics.eq_of_found hout'
    · intro hr
      rw [hr] at hout'
      exact hout'.eq_of_found hout.statics
  · exact iff_of_false (hnothing _ _ _ _ _ r) (hnothing _ _ _ _ _ r)

/-- What is found by name is bound to the value of one of the groups. -/
theorem exists_group_of_resolve (hS : S.IsHost Γ h) (hname : Text.fold name ≠ Text.fold ctor)
    (hr : ((Γ.resolve h S ctor c name shape options bound).run.run p).1 = .ok (.ok r)) :
    ∃ l : Candidates, ∃ g ∈ l.groups options shape.returnsVoid bound, r.bound = g.bound := by
  have hopen : Γ.isOpen c = false :=
    Bool.eq_false_iff.2 fun hopen => resolve_ne_found_of_isOpen hopen r hr
  obtain ⟨l, hl⟩ | hnothing := hS.lists_or_never c name (SearchMask.split options).2
  · have htries : Tries Γ h shape _ (l.groups options shape.returnsVoid bound) :=
      tries_groups hopen hname hl
    have hout := (htries p).2 _ (.refl _)
    rw [map_toOption_eq_ok.2 hr] at hout
    obtain ⟨g, hreaches, hselects⟩ := hout.selects
    exact ⟨l, g, hreaches.mem, hselects.bound⟩
  · exact absurd hr (hnothing _ _ _ _ _ r)

/-- Nothing is captured where the absent value is bound by name. -/
theorem bound_of_resolve_none (hS : S.IsHost Γ h) (hname : Text.fold name ≠ Text.fold ctor)
    (hr : ((Γ.resolve h S ctor c name shape options .none).run.run p).1 = .ok (.ok r)) :
    r.bound = .unbound := by
  obtain ⟨l, g, hg, hbound⟩ := exists_group_of_resolve hS hname hr
  rw [Candidates.groups_none] at hg
  obtain ⟨ts, -, rfl⟩ := List.mem_map.1 hg
  exact hbound

/-! ## Constructors -/

theorem Target.kind_marked (t : Target) : t.marked.kind = t.kind := by
  unfold marked
  split <;> rfl

theorem Reflection.kind_of_mem_constructors {t : Target} {b : SearchMask}
    (ht : t ∈ constructors Γ h c b) : t.kind = .constructor := by
  obtain ⟨t', hkind, rfl⟩ := exists_marked_of_mem_constructors ht
  exact t'.kind_marked.trans hkind

theorem MemberTable.Made.kind_constructor {t : MemberTable} (ht : t.Made) :
    ∀ e ∈ t.constructors, e.member.kind = .constructor := by
  induction ht with
  | empty => exact fun _ he => absurd he List.not_mem_nil
  | register _ hr ih =>
    cases registers_of_register hr with
    | procedure hregister | field hregister =>
      obtain ⟨rfl, rfl⟩ := Prod.mk.inj (checkKey_bind hregister)
      exact ih
    | property hregister =>
      obtain ⟨rfl, -⟩ := Registration.marksProperty_register hregister
      exact ih
    | constructor hregister =>
      obtain ⟨rfl, rfl⟩ := Prod.mk.inj (checkKey_bind hregister)
      intro e he
      rcases List.mem_append.1 he with he | he
      · exact ih e he
      · obtain rfl := List.mem_singleton.1 he
        exact Target.kind_marked _

/-- A host answers with the constructors of a container, or finds nothing in it. -/
theorem MemberSource.IsHost.constructors_or_never (hS : S.IsHost Γ h) (c : Ty) (b : SearchMask) :
    (∃ ts, S.constructors c b = .ok ts ∧ ∀ t ∈ ts, t.kind = .constructor) ∨
      ∀ ctor name shape options bound p r,
        ((Γ.resolve h S ctor c name shape options bound).run.run p).1 ≠ .ok (.ok r) := by
  cases hS with
  | classes => exact .inl ⟨_, rfl, fun t => Reflection.kind_of_mem_constructors⟩
  | @table m hm =>
    by_cases hc : c.hashable = true
    · refine .inl ⟨_, by simp only [MemberTable.source, MemberTable.select,
        MemberTable.checkKey, hc, if_true]; rfl, fun t ht => ?_⟩
      obtain ⟨e, he, rfl⟩ := List.mem_map.1 ht
      exact hm.kind_constructor e (List.mem_of_mem_filter he)
    · exact .inr fun _ _ _ _ _ _ r =>
        MemberTable.resolve_ne_found_of_hashable (by simpa using hc) r

/-- The absent value is captured for constructors alone, which have no receiver. -/
theorem takesReceiver_of_resolve (hS : S.IsHost Γ h)
    (hr : ((Γ.resolve h S ctor c name shape options bound).run.run p).1 = .ok (.ok r))
    (hnone : r.bound.isNone = true) : r.target.takesReceiver = false := by
  have hopen : Γ.isOpen c = false :=
    Bool.eq_false_iff.2 fun hopen => resolve_ne_found_of_isOpen hopen r hr
  by_cases hname : Text.fold name = Text.fold ctor
  · obtain ⟨ts, hts, hkind⟩ | hnothing :=
      hS.constructors_or_never c (SearchMask.split options).2
    · have htries : Tries Γ h shape _ [⟨ts, bound⟩] := tries_constructors hopen hname hts
      have hout := (htries p).2 _ (.refl _)
      rw [map_toOption_eq_ok.2 hr] at hout
      obtain ⟨g, hreaches, hselects⟩ := hout.selects
      obtain rfl := List.mem_singleton.1 hreaches.mem
      simp [Target.takesReceiver, hkind _ hselects.fits.mem]
    · exact absurd hr (hnothing _ _ _ _ _ _ r)
  · obtain ⟨l, g, hg, hbound⟩ := exists_group_of_resolve hS hname hr
    have hpresent := Candidates.isNone_bound_of_mem_groups hg
    rw [← hbound, hnone] at hpresent
    cases hpresent

end Searching

/-! ## Calls -/

section Calls

variable {Γ : Program} {R : Reuse} {h₀ : Heap} {g d : Ty} {shape : Shape} {t : Target}
  {sig : SignaturePlan} {bound u v : Value} {s : Slot} {w w' : World}

theorem SignaturePlan.Planned.nullReceiver_eq (hsig : sig.Planned Γ R h₀ shape t bound)
    (hbound : bound.isNone = true → t.takesReceiver = false) : sig.nullReceiver = false := by
  cases hsig with
  | free => rfl
  | captured _ _ hc =>
    cases hc with
    | missing hnone hreceiver => cases hreceiver.symm.trans (hbound hnone)
    | converted => rfl

/-- What comes from a value that is not absent is not absent. -/
theorem isNone_of_isYield (hv : v.isNone = false) (hu : IsYield v u) : u.isNone = false := by
  rcases hu with rfl | ⟨x, rfl⟩ | ⟨c, n, rfl⟩
  · exact hv
  · rfl
  · rfl

/-- A slot makes no absent value of a present one, if that is no cell. -/
theorem isNone_of_marshal (hR : BetweenSpellings R) (hs : s.Planned Γ R g d)
    (hv : v.isNone = false) (hcell : Γ.isCellValue v = false)
    (hrun : (Γ.marshal s v).run.run w = (.ok u, w')) : u.isNone = false := by
  unfold marshal at hrun
  split at hrun
  · exact isNone_of_isYield hv (isYield_of_converting hR hs hrun).2
  · obtain ⟨x, w₁, -, hnew⟩ := exists_of_run_bind_eq_ok hrun
    cases hnew
    rfl
  all_goals
    rw [hcell, if_neg Bool.false_ne_true] at hrun
    cases hrun

/-- Where all arguments are true and the absent value is not bound as a receiver, there is one. -/
theorem SignaturePlan.Planned.isNone_receiver (hR : BetweenSpellings R)
    (hsig : sig.Planned Γ R h₀ shape t bound)
    (hbound : bound.isNone = true → t.takesReceiver = false) (hreceiver : t.takesReceiver = true)
    {values : List Value} (hrun : (Γ.marshalAll sig.slots sig.bound
      (List.replicate shape.arity (.bool true))).run.run w = (.ok values, w')) :
    (values.head?.getD .none).isNone = false := by
  have hinputs := t.inputs_of_takesReceiver hreceiver
  -- the first of the values is what the first slot makes
  have hhead : ∀ {s : Slot} {slots : List Slot} {x b : Value} {args : List Value},
      (do let u ← Γ.marshal s x
          let us ← Γ.marshalAll slots b args
          pure (u :: us) : Eval (List Value)).run.run w = (.ok values, w') →
        ∃ u w₁, (Γ.marshal s x).run.run w = (.ok u, w₁) ∧ values.head?.getD .none = u := by
    intro s slots x b args hrun
    obtain ⟨u, w₁, hfirst, hrest⟩ := exists_of_run_bind_eq_ok hrun
    obtain ⟨us, w₂, -, hvalues⟩ := exists_of_run_bind_eq_ok hrest
    cases hvalues
    exact ⟨u, w₁, hfirst, rfl⟩
  cases hsig with
  | @free slots result _ hslots _ =>
    rw [hinputs] at hslots
    unfold Shape.arity at hrun
    generalize shape.params = given at hslots hrun
    cases hslots with
    | cons hsource hs _ =>
      rw [List.length_cons, List.replicate_succ, marshalAll_argument hsource rfl] at hrun
      obtain ⟨u, w₁, hfirst, hu⟩ := hhead hrun
      rw [hu]
      exact isNone_of_marshal hR hs rfl rfl hfirst
  | @captured declared _ _ _ _ _ _ hc =>
    cases hc with
    | missing hnone => cases hreceiver.symm.trans (hbound hnone)
    | @converted plan q v hanswer _ hv hany =>
      rw [marshalAll_bound rfl] at hrun
      obtain ⟨u, w₁, hfirst, hu⟩ := hhead hrun
      rw [hu]
      have hpresent : v.isNone = false := by
        rw [applyPlan_of_handsOn hanswer.1] at hv
        refine isNone_of_isYield (Bool.eq_false_iff.2 fun hnone => ?_)
          (isYield_of_runVerdict hR hanswer.2
            ⟨Ty.normalize_normalize _, Ty.normalize_normalize _⟩ hv)
        cases hreceiver.symm.trans (hbound hnone)
      -- it was converted when it was captured, and its slot leaves it as it is
      have hconverting : (Γ.converting q v).run.run w = (.ok v, w) := by
        rw [run_converting, applyPlan_any hR hany]
      cases hcell : declared.isCell with
      | false =>
        rw [hcell] at hfirst
        cases hconverting.symm.trans hfirst
        exact hpresent
      | true =>
        rw [hcell] at hfirst
        change (do Eval.newCell (← Γ.converting q v) : Eval Value).run.run w = _ at hfirst
        rw [run_bind_of_ok hconverting] at hfirst
        cases hfirst
        rfl

/-- An adapter that did not capture the absent value as a receiver does not always report that one
is missing. -/
theorem SignaturePlan.Planned.exists_not_reportsMissing (hR : BetweenSpellings R)
    (hsig : sig.Planned Γ R h₀ shape t bound)
    (hbound : bound.isNone = true → t.takesReceiver = false) (w : World) :
    ∃ args, args.length = shape.arity ∧ ¬(Adapter.member sig).ReportsMissing Γ t args w := by
  refine ⟨List.replicate shape.arity (.bool true), List.length_replicate, ?_⟩
  rintro ⟨w', -, hreports⟩
  have htarget : sig.target = t := by cases hsig <;> rfl
  have hargs : (List.replicate shape.arity (Value.bool true)).length = shape.arity :=
    List.length_replicate
  -- with code that cannot run, the call fails otherwise
  have hcasts : FailsCasting (((Adapter.member sig).call Γ .exhausted
      (List.replicate shape.arity (.bool true))).run.run w).1 := by
    unfold Adapter.call
    rw [hsig.shape_eq, if_pos hargs,
      run_eq_runGeneral hR hsig (hsig.nullReceiver_eq hbound) .exhausted hargs w]
    unfold SignaturePlan.runGeneral
    have hmarshal := raisesCasts_marshalAll (Γ := Γ) sig.slots sig.bound
      (List.replicate shape.arity (.bool true)) w
    cases hrun : (Γ.marshalAll sig.slots sig.bound
        (List.replicate shape.arity (.bool true))).run.run w with
    | mk r w₁ =>
      rw [hrun] at hmarshal
      cases r with
      | error e =>
        rw [run_bind_of_error hrun]
        exact hmarshal
      | ok values =>
        rw [run_bind_of_ok hrun, htarget]
        have hinvoke := fun receiver values =>
          (raisesCasts_invokeMember_exhausted (Γ := Γ) t receiver values).bind
            (raisesCasts_converting (Γ := Γ) sig.result) w₁
        cases hreceiver : t.takesReceiver with
        | false => exact hinvoke _ _
        | true =>
          have hpresent := hsig.isNone_receiver hR hbound hreceiver hrun
          simp only [hpresent, if_true, Bool.false_eq_true, if_false]
          exact hinvoke _ _
  rw [hreports .exhausted] at hcasts
  exact not_isCast_nullReceiver t hcasts

end Calls

/-! ## Searches by name -/

/-- The signature did not capture the absent value as a receiver, and for some arguments its adapter
does not report that the receiver is missing. -/
structure SignaturePlan.NotAlwaysMissing (Γ : Program) (sig : SignaturePlan) : Prop where
  nullReceiver : sig.nullReceiver = false
  exists_call : ∀ w, ∃ args, args.length = sig.shape.arity ∧
    ¬(Adapter.member sig).ReportsMissing Γ sig.target args w

section Resolution

variable {Γ : Program} {h : Heap} {S : MemberSource} {ctor : String} {c : Ty} {name : String}
  {shape : Shape} {options : Option SearchMask} {bound : Value} {p : Planner} {r : Resolution}

theorem notAlwaysMissing_of_resolve (hS : S.IsHost Γ h) (hp : p.Used Γ)
    (hr : ((Γ.resolve h S ctor c name shape options bound).run.run p).1 = .ok (.ok r)) :
    r.plan.NotAlwaysMissing Γ := by
  obtain ⟨keeps, hsound⟩ := hp
  have hplanned : r.plan.Planned Γ HistoryReuse h shape r.target r.bound := by
    have hplan : ∀ t b, Yields (Planner.Sound Γ keeps NormalPair HistoryReuse)
        (Γ.planSignature h shape t b) (SignaturePlan.Planned Γ HistoryReuse h shape t b) :=
      planSignature_yields shape
    obtain ⟨-, houtcome⟩ := resolve_meets hplan options p hsound
    rw [hr] at houtcome
    exact (houtcome r rfl).planned
  have hbound := takesReceiver_of_resolve hS hr
  have htarget : r.plan.target = r.target := (resolve_finds options p hr).planned
  refine ⟨hplanned.nullReceiver_eq hbound, fun w => ?_⟩
  rw [hplanned.shape_eq, htarget]
  exact hplanned.exists_not_reportsMissing betweenSpellings_historyReuse hbound w

/-- Binding the absent value by name means a search among the members of the class: one planner,
asked for both in any order, finds with it what it finds with the scope of the class and nothing
bound. And whatever is bound, no search finds a signature that captured the absent value as a
receiver, so no adapter that is built by name reports at every call that the receiver is missing. -/
theorem absent_binding_is_static (hS : S.IsHost Γ h) :
    (∀ p p' q : Planner, Text.fold name ≠ Text.fold ctor →
      (SearchMask.split options).2.has .staticScope = true →
        let out := (Γ.resolve h S ctor c name shape options .none).run.run p
        let out' := (Γ.resolve h S ctor c name shape (some (SearchMask.inScope true options))
          .unbound).run.run p'
        q.Remembers out.2 → q.Remembers out'.2 → ∀ r,
          (out.1 = .ok (.ok r) ↔ out'.1 = .ok (.ok r)) ∧
            (out.1 = .ok (.ok r) → r.bound = .unbound)) ∧
    (∀ (v : Value) (p : Planner) (r : Resolution), p.Used Γ →
      ((Γ.resolve h S ctor c name shape options v).run.run p).1 = .ok (.ok r) →
        r.plan.NotAlwaysMissing Γ) ∧
    ∀ (b : Builder) (v x : Value) (m : SearchMask) (w w' : World),
      (b.host.source Γ w).IsHost Γ w.heap → (Eval.plannerAt w b.planner).Used Γ →
        (Builder.buildNamed Γ b c name shape m v).run.run w = (.ok x, w') →
          ∃ sig : SignaturePlan, w'.Holds x (.member sig) ∧ sig.NotAlwaysMissing Γ := by
  refine ⟨fun p p' q hname hadmits hq hq' r => ⟨resolve_none_iff hS hname hadmits hq hq', ?_⟩,
    fun v p r hp hr => notAlwaysMissing_of_resolve hS hp hr, ?_⟩
  · exact bound_of_resolve_none hS hname
  · intro b v x m w w' hhost hused hbuild
    rw [run_buildNamed] at hbuild
    dsimp only at hbuild
    split at hbuild
    · cases hbuild
    · cases hbuild
    · rename_i r hr
      obtain ⟨hx, rfl⟩ := Prod.mk.inj hbuild
      obtain rfl := Except.ok.inj hx
      exact ⟨r.plan, holds_place _ _, notAlwaysMissing_of_resolve hhost hused hr⟩

end Resolution

/-- A function of `int` is found with the absent value bound, and with the scope of the class. -/
theorem absent_binding_is_static_unary :
    let S := (unaryTable [unaryTarget .object 0]).source
    let out := (Program.resolve .empty Heap.empty S ".ctor" (.builtin .int) "f" intShape none
      .none).run.run ⟨true, [], []⟩
    let out' := (Program.resolve .empty Heap.empty S ".ctor" (.builtin .int) "f" intShape
      (some (SearchMask.inScope true none)) .unbound).run.run out.2
    ∃ r, out.1 = .ok (.ok r) ∧ out'.1 = .ok (.ok r) ∧ r.target = unaryTarget .object 0 ∧
      r.bound = .unbound ∧ r.plan.NotAlwaysMissing .empty := by
  intro S out out'
  have hname : Text.fold "f" ≠ Text.fold ".ctor" := by decide
  have hhost : S.IsHost .empty Heap.empty := .table made_unaryTable
  have hlater : out'.2.Remembers out.2 := by
    obtain ⟨l, hl⟩ := MemberTable.exists_lists made_unaryTable.registered
      (c := .builtin .int) (by cbv) "f" (SearchMask.split (some (SearchMask.inScope true none))).2
    exact (tries_groups (by with_unfolding_all rfl) hname hl out.2).1
  have hstatic := @absent_binding_is_static .empty Heap.empty S ".ctor" (.builtin .int) "f" intShape
    none hhost
  have hfound : out.1.map (Except.map Resolution.target) = .ok (.ok (unaryTarget .object 0)) := by
    dsimp only [out]
    rw [run_resolve (by cbv) hname]
    with_unfolding_all rfl
  obtain ⟨found, hout, hfound⟩ := exists_of_map_eq_ok hfound
  obtain ⟨r, rfl, htarget⟩ := exists_of_map_eq_ok hfound
  obtain ⟨hiff, hbound⟩ := hstatic.1 _ _ out'.2 hname (by decide) hlater (.refl _) r
  exact ⟨r, hout, hiff.1 hout, htarget, hbound hout,
    hstatic.2.1 .none _ r (Planner.used_empty _ _) hout⟩

end CallAdapter
