import CallAdapter.Proofs.Adapter.FirstInput
import CallAdapter.Proofs.Member.Scope

/-!
# What a captured receiver changes about a choice

A search with a value to capture and one for the shape with the class of the value in front come
across the same members of instances. The first does not count what converting the value costs, and
passes over members that do not accept it; the second counts it, and converts nothing. So they select
the same member where the members of the name receive the value alike (`bound_choice_agrees`), and so
they do where all of them receive one type, as in every search on classes for one spelling of the
name.
-/

namespace CallAdapter

open Program

/-! ## Costs -/

/-- The cost of more plans. -/
def Cost.plus (a b : Cost) : Cost := ⟨a.explicit + b.explicit, a.widen + b.widen⟩

theorem Cost.of_cons (p : Plan) (ps : List Plan) : of (p :: ps) = (of [p]).plus (of ps) := by
  simp only [of, plus, List.countP_cons, List.countP_nil]
  congr 1 <;> omega

/-- What all cost alike decides nothing. -/
theorem Cost.lt_plus (c a b : Cost) : (c.plus a).lt (c.plus b) = a.lt b := by
  rw [Bool.eq_iff_iff]
  simp [lt, plus]

theorem Planner.SameRest.lt_eq {Γ : Program} {h : Heap} {v : Value} {keep : Plan} {cost : Cost}
    {p q p' q' : SignaturePlan} (hp : SameRest Γ h v keep cost p p')
    (hq : SameRest Γ h v keep cost q q') :
    (Cost.of q.plans).lt (Cost.of p.plans) = (Cost.of q'.plans).lt (Cost.of p'.plans) := by
  obtain ⟨slot, rest, -, hfirst, -, -, hp, hp'⟩ := hp
  obtain ⟨slot', rest', -, hfirst', -, -, hq, hq'⟩ := hq
  rw [hp, hq, hp', hq']
  simp only [Cost.of_cons _ rest, Cost.of_cons _ rest', hfirst, hfirst', Cost.lt_plus]

/-! ## Groups -/

/-- The members of instances in the categories that are searched. -/
def Candidates.instances (l : Candidates) (options : Option SearchMask) (setter : Bool) :
    List (List Target) :=
  (if SearchMask.asksFor options .invokeMethod then [l.procedures.filter fun t => !t.isStatic]
    else []) ++
  ((if SearchMask.asksFor options (if setter then .setProperty else .getProperty) then
      [(l.properties.filterMap (·.accessor setter)).filter fun t => !t.isStatic] else []) ++
    if SearchMask.asksFor options (if setter then .setField else .getField) then
      [(l.fields.filterMap (·.accessor setter)).filter fun t => !t.isStatic] else [])

namespace Candidates

variable {l l' : Candidates} {options : Option SearchMask} {setter : Bool} {v : Value}

/-- A captured value is for members of instances. -/
theorem groups_captured (hnone : v.isNone = false) (hunbound : v.isUnbound = false) :
    l.groups options setter v = (l.instances options setter).map (⟨·, v⟩) := by
  unfold groups instances scopedGroups
  rw [hnone, hunbound]
  grind

/-- With the scope of instances, there is nothing among the members of the class. -/
theorem groups_instances (hl : l.ScopeOf false l') :
    l'.groups (some (SearchMask.forInstances options)) setter .unbound =
      (l.instances options setter).flatMap fun ts => [⟨[], .unbound⟩, ⟨ts, .unbound⟩] := by
  have hscope : l.inScope false options setter = l.instances options setter := by
    simp only [inScope, instances, beq_false]
  rw [SearchMask.forInstances_eq, groups_inScope hl, hscope]
  rfl

end Candidates

theorem Candidates.mem_instances {l : Candidates} {options : Option SearchMask} {setter : Bool}
    {t : Target} (ht : t ∈ (l.instances options setter).flatten) :
    t.isStatic = false ∧ (t ∈ l.procedures ∨ (∃ p ∈ l.properties, p.accessor setter = some t) ∨
      ∃ f ∈ l.fields, f.accessor setter = some t) := by
  obtain ⟨ts, hts, ht⟩ := List.mem_flatten.1 ht
  unfold instances at hts
  simp only [List.mem_append, List.mem_ite_nil_right, List.mem_singleton] at hts
  rcases hts with ⟨-, rfl⟩ | ⟨-, rfl⟩ | ⟨-, rfl⟩
  all_goals
    simp only [List.mem_filter, List.mem_filterMap, Bool.not_eq_true'] at ht
    grind

/-! ## One receiver -/

theorem FieldInfo.declaring_accessor {f : FieldInfo} {setter : Bool} {t : Target}
    (ht : f.accessor setter = some t) : t.declaring = some f.declaring := by
  rw [eq_of_accessor ht]

namespace Reflection

variable {Γ : Program} {h : Heap} {c : Ty} {name : String} {b : SearchMask} {f g : Found}

theorem name_of_mem_lookup (hcase : b.has .ignoreCase = false) (hf : f ∈ lookup Γ h c name b) :
    f.name = name := by
  unfold lookup at hf
  split at hf
  · cases hf
  split at hf
  · have hmem := List.mem_of_find?_eq_some (find?_of_mem_nearest hf)
    obtain ⟨o, -, hmem⟩ := List.mem_flatMap.1 hmem
    obtain ⟨x, hx, rfl⟩ := List.mem_map.1 hmem
    have hmatches := (List.mem_filter.1 hx).2
    rw [SearchMask.nameMatches, hcase, if_neg Bool.false_ne_true] at hmatches
    exact eq_of_beq hmatches
  · cases hf

/-- One spelling of a name has one nearest definition. -/
theorem eq_of_mem_lookup (hcase : b.has .ignoreCase = false) (hf : f ∈ lookup Γ h c name b)
    (hg : g ∈ lookup Γ h c name b) : f = g := by
  have hname : f.name = g.name :=
    (name_of_mem_lookup hcase hf).trans (name_of_mem_lookup hcase hg).symm
  unfold lookup at hf hg
  split at hf
  · cases hf
  split at hf
  · have hfind := find?_of_mem_nearest hf
    rw [if_neg ‹_›] at hg
    rw [hname] at hfind
    exact Option.some.inj (hfind.symm.trans (find?_of_mem_nearest hg))
  · cases hf

/-- A member of instances is declared by what its definition is received through. -/
theorem declaring_of_mem_instances {options : Option SearchMask} {setter : Bool} {t : Target}
    (ht : t ∈ ((candidates Γ h c name b).instances options setter).flatten) :
    t.isStatic = false ∧ t.kind ≠ .constructor ∧ ∃ f ∈ lookup Γ h (Γ.split c).1 name b,
      t.declaring = some (receiverType c (Γ.split c).1 f.owner) := by
  obtain ⟨hinstance, ht | ⟨p, hp, ht⟩ | ⟨i, hi, ht⟩⟩ := Candidates.mem_instances ht
  · obtain ⟨f, hf, hprocedure⟩ := List.mem_filterMap.1 (List.mem_of_mem_filter ht)
    obtain ⟨_, x, rfl, hx⟩ := exists_marked_of_procedure? hprocedure
    exact ⟨hinstance, (offeredBy_procedure? hprocedure).kind, f, hf,
      (Target.declaring_marked x).trans hx.declaring⟩
  · obtain ⟨f, hf, hproperty⟩ := List.mem_filterMap.1 hp
    dsimp only at hproperty
    split at hproperty
    · obtain ⟨v, -, hv⟩ := Option.bind_eq_some_iff.1 hproperty
      obtain ⟨x, rfl, -, hdeclaring, -⟩ := exists_marked_of_property? hv ht
      exact ⟨hinstance, (offeredBy_property? hv ht).kind, f, hf,
        (Target.declaring_marked x).trans hdeclaring⟩
    · cases hproperty
  · obtain ⟨f, hf, hfield⟩ := List.mem_filterMap.1 (List.mem_of_mem_filter hi)
    refine ⟨hinstance, (FieldInfo.offeredBy (declaring_field? hfield) ht).kind, f, hf, ?_⟩
    rw [FieldInfo.isStatic_accessor ht] at hinstance
    rw [FieldInfo.declaring_accessor ht]
    unfold field? at hfield
    split at hfield
    · cases hfield
    · obtain ⟨isStatic, -, rfl⟩ := Option.map_eq_some_iff.1 hfield
      obtain rfl : isStatic = false := hinstance
      rfl

end Reflection

/-- The containers of members that searches by name go through. -/
def MemberTable.containers (t : MemberTable) : List Ty :=
  t.procedures.map (·.container) ++ t.properties.map (·.container) ++ t.fields.map (·.container)

/-- The members of instances by a name receive one type: they do on a class that is searched for one
spelling of the name, and in a table that has one spelling of the container. -/
inductive MemberSource.OneReceiver (Γ : Program) (h : Heap) (c : Ty) (options : Option SearchMask) :
    MemberSource → Prop
  | classes : (SearchMask.split options).2.has .ignoreCase = false →
      OneReceiver Γ h c options (Reflection.source Γ h)
  | table {t : MemberTable} : t.Made → c ≠ .null → (∀ d ∈ t.containers, d.same c = true → d = c) →
      OneReceiver Γ h c options t.source

theorem MemberSource.OneReceiver.exists_receiver {Γ : Program} {h : Heap} {S : MemberSource} {c : Ty}
    {name : String} {options : Option SearchMask} {setter : Bool} {l : Candidates}
    (hS : S.OneReceiver Γ h c options) (hl : S.Lists c name (SearchMask.split options).2 l) :
    ∃ d, ∀ t ∈ (l.instances options setter).flatten, t.inputs.head? = some d := by
  -- what a member of instances receives is the type that declares it
  have hreceives : ∀ {t : Target} {d : Ty}, t.isStatic = false → t.OfferedBy c →
      t.declaring = some d → t.inputs.head? = some d := by
    intro t d hinstance hoffered hdeclaring
    rw [hoffered.head?_inputs hinstance, Target.receiverType, hdeclaring]
    rfl
  cases hS with
  | classes hcase =>
    obtain rfl := hl.eq (Reflection.lists_candidates c name _)
    by_cases hnone : ∃ f, f ∈ Reflection.lookup Γ h (Γ.split c).1 name (SearchMask.split options).2
    · obtain ⟨f, hf⟩ := hnone
      refine ⟨Reflection.receiverType c (Γ.split c).1 f.owner, fun t ht => ?_⟩
      obtain ⟨hinstance, hkind, g, hg, hdeclaring⟩ := Reflection.declaring_of_mem_instances ht
      obtain rfl := Reflection.eq_of_mem_lookup hcase hf hg
      exact hreceives hinstance (Reflection.offeredBy_of_receiver hkind hdeclaring) hdeclaring
    · refine ⟨.any, fun t ht => ?_⟩
      obtain ⟨-, -, g, hg, -⟩ := Reflection.declaring_of_mem_instances ht
      exact absurd ⟨g, hg⟩ hnone
  | @table m hm hnull hspelling =>
    have hdeclares := hm.declaresEntries
    have hsource : ∀ {d}, d ∈ m.containers → d.same c = true → d.asDeclaring = some c := by
      intro d hd hsame
      rw [hspelling d hd hsame]
      unfold Ty.asDeclaring
      split
      · exact absurd rfl hnull
      · rfl
    refine ⟨c, fun t ht => ?_⟩
    obtain ⟨hinstance, ht | ⟨p, hp, ht⟩ | ⟨f, hf, ht⟩⟩ := Candidates.mem_instances ht
    · obtain ⟨e, he, hsame, rfl⟩ := MemberTable.mem_select hl.procedures ht
      refine hreceives hinstance ((hm.registered.procedures e he).congr hsame) ?_
      rw [hdeclares.procedures e he, hsource _ hsame]
      simp [MemberTable.containers]
      grind
    · obtain ⟨e, he, hsame, rfl⟩ := MemberTable.mem_select hl.properties hp
      refine hreceives hinstance ((hm.registered.properties e he _ _ ht).congr hsame) ?_
      rw [(hdeclares.properties e he _ _ ht).2, hsource _ hsame]
      simp [MemberTable.containers]
      grind
    · obtain ⟨e, he, hsame, rfl⟩ := MemberTable.mem_select hl.fields hf
      have hcontainer : e.container = c := hspelling _ (by simp [MemberTable.containers]; grind) hsame
      have hdeclaring : t.declaring = some c := by
        rw [FieldInfo.declaring_accessor ht, hdeclares.fields e he, hcontainer]
      exact hreceives hinstance (FieldInfo.offeredBy (.inl (by rw [hdeclares.fields e he, hsame])) ht)
        hdeclaring

/-! ## Searching alongside -/

section Searching

variable {Γ : Program} {h : Heap} {L L' : Lineups} {v : Value} {keep : Plan} {cost : Cost}
  {ts : List Target}

/-- Both searches line the members up alike. -/
def LineUpAlike (Γ : Program) (h : Heap) (L L' : Lineups) (v : Value) (keep : Plan)
    (cost : Cost) (ts : List Target) : Prop :=
  ∀ t ∈ ts, t.isGeneric = false →
    Agree (Matched (Planner.SameRest Γ h v keep cost)) (L v t) (L' .unbound t)

/-- The resolutions are of one member, and their signatures differ in the first slot alone. -/
def Resolution.AlikeButFirst (Γ : Program) (h : Heap) (v : Value) (keep : Plan) (cost : Cost)
    (r r' : Resolution) : Prop :=
  r.target = r'.target ∧ Planner.SameRest Γ h v keep cost r.plan r'.plan

theorem LineUpAlike.raises_iff (hts : LineUpAlike Γ h L L' v keep cost ts) {e : Failure} :
    (⟨ts, v⟩ : CandidateGroup).Raises L e ↔ (⟨ts, .unbound⟩ : CandidateGroup).Raises L' e := by
  unfold CandidateGroup.Raises
  refine exists_congr fun t => and_congr_right fun ht => and_congr_right fun hclosed => ?_
  have hout := hts t ht hclosed
  generalize L v t = out, L' .unbound t = out' at hout
  cases hout with
  | error => rfl
  | ok => simp

theorem LineUpAlike.resolutions (hts : LineUpAlike Γ h L L' v keep cost ts) :
    List.Forall₂ (Resolution.AlikeButFirst Γ h v keep cost)
      (ts.filterMap (CandidateGroup.resolution? L v))
      (ts.filterMap (CandidateGroup.resolution? L' .unbound)) := by
  induction ts with
  | nil => exact .nil
  | cons t ts ih =>
    have ih := ih fun x hx => hts x (List.mem_cons_of_mem _ hx)
    have hout := hts t List.mem_cons_self
    rw [List.filterMap_cons, List.filterMap_cons]
    unfold CandidateGroup.resolution?
    by_cases hgeneric : t.isGeneric = true
    · rw [if_pos hgeneric, if_pos hgeneric]
      exact ih
    · rw [if_neg hgeneric, if_neg hgeneric]
      replace hout := hout (by simpa using hgeneric)
      generalize L v t = out, L' .unbound t = out' at hout
      cases hout with
      | error => exact ih
      | ok hmatched =>
        cases hmatched with
        | differs => exact ih
        | fits hrest => exact .cons ⟨rfl, hrest⟩ ih

theorem LineUpAlike.best (hts : LineUpAlike Γ h L L' v keep cost ts) :
    Option.Rel (Resolution.AlikeButFirst Γ h v keep cost) ((⟨ts, v⟩ : CandidateGroup).best L)
      ((⟨ts, .unbound⟩ : CandidateGroup).best L') :=
  cheapest?_rel (fun _ _ _ _ hr hs => hr.2.lt_eq hs.2) hts.resolutions

/-- Nothing is found among no candidates. -/
theorem Searched.skip {gs : List CandidateGroup} {out : Except Failure (Option Resolution)}
    (h : Searched L gs out) (bound : Value) : Searched L (⟨[], bound⟩ :: gs) out :=
  .next (by simp [CandidateGroup.Raises]) rfl h

/-- A search with a captured value comes to what the other one comes to. -/
theorem Searched.given {tss : List (List Target)} {out : Except Failure (Option Resolution)}
    (htss : ∀ ts ∈ tss, LineUpAlike Γ h L L' v keep cost ts)
    (hout : Searched L (tss.map (⟨·, v⟩)) out) :
    ∃ out', Agree (Option.Rel (Resolution.AlikeButFirst Γ h v keep cost)) out out' ∧
      Searched L' (tss.flatMap fun ts => [⟨[], .unbound⟩, ⟨ts, .unbound⟩]) out' := by
  induction tss generalizing out with
  | nil =>
    cases hout with
    | nothing => exact ⟨_, .ok .none, .nothing⟩
  | cons ts tss ih =>
    have hts := htss ts List.mem_cons_self
    have hbest := hts.best
    have hcalm' : (∀ e, ¬(⟨ts, v⟩ : CandidateGroup).Raises L e) →
        ∀ e, ¬(⟨ts, .unbound⟩ : CandidateGroup).Raises L' e :=
      fun hcalm e he => hcalm e (hts.raises_iff.2 he)
    rw [List.flatMap_cons]
    cases hout with
    | raises he => exact ⟨_, .error, .skip (.raises (hts.raises_iff.1 he)) _⟩
    | found hcalm hfound =>
      rw [hfound] at hbest
      generalize hfound' : (⟨ts, .unbound⟩ : CandidateGroup).best L' = o at hbest
      cases hbest with
      | some hr => exact ⟨_, .ok (.some hr), .skip (.found (hcalm' hcalm) hfound') _⟩
    | next hcalm hnone hrest =>
      rw [hnone] at hbest
      generalize hnone' : (⟨ts, .unbound⟩ : CandidateGroup).best L' = o at hbest
      cases hbest with
      | none =>
        obtain ⟨out', halike, hrest'⟩ := ih (fun ts hts => htss ts (List.mem_cons_of_mem _ hts)) hrest
        exact ⟨out', halike, .skip (.next (hcalm' hcalm) hnone' hrest') _⟩

/-- A search found a member with these candidates lined up. -/
theorem Searched.exists_fits {gs : List CandidateGroup} {r : Resolution}
    (hout : Searched L gs (.ok (some r))) :
    ∃ g ∈ gs, r.target ∈ g.candidates ∧ r.target.isGeneric = false ∧
      L g.bound r.target = .ok (.ok r.plan) := by
  obtain ⟨g, hreaches, hselects⟩ := hout.selects
  exact ⟨g, hreaches.mem, hselects.fits.mem, hselects.fits.closed, hselects.fits.fits⟩

end Searching

/-! ## Resolution -/

section Resolution

variable {Γ : Program} {h : Heap} {S : MemberSource} {ctor name : String} {c : Ty} {shape : Shape}
  {options : Option SearchMask} {v : Value} {q : Planner}

/-- A search selects the member. -/
def Selects (out : Except Failure (Except NotFound Resolution)) (t : Target) : Prop :=
  ∃ r, out = .ok (.ok r) ∧ r.target = t

theorem selects_iff_map {out : Except Failure (Except NotFound Resolution)} {t : Target} :
    Selects out t ↔ out.map (Except.map Resolution.target) = .ok (.ok t) := by
  rcases out with e | m | r <;> simp [Selects, Except.map]

/-- A search with a parameter for the receiver selects the member, and the value converts to what the
member receives. -/
def SelectsReceiving (Γ : Program) (h : Heap) (v : Value)
    (out : Except Failure (Except NotFound Resolution)) (t : Target) : Prop :=
  ∃ r slot u, out = .ok (.ok r) ∧ r.target = t ∧ r.plan.slots.head? = some slot ∧
    Γ.applyPlan h slot.plan v = .ok u

/-- Members that a planner receives the value for alike: at one cost, or not at all, whatever it is
asked in between. -/
def Planner.ReceivesAlike (Γ : Program) (h : Heap) (q : Planner) (v : Value) (ts : List Target) :
    Prop :=
  ∀ q' : Planner, q'.Remembers q → ∀ t ∈ ts, ∀ t' ∈ ts, t.isGeneric = false →
    t'.isGeneric = false → ∀ cost, q'.Accepts Γ h v t cost → q'.Accepts Γ h v t' cost

/-- A planner that has answered all questions about the members. -/
theorem exists_planner (Γ : Program) (shape : Shape) (v : Value) (ts : List Target) (q : Planner) :
    ∃ (q' : Planner) (keep : Plan), q'.Remembers q ∧ q'.Gives (Γ.plan .any .any) (· = keep) ∧
      ∀ t ∈ ts, ∀ x ∈ Planner.questions Γ shape v t, q'.Settles x := by
  obtain ⟨keep, hkeep, -⟩ := gives_plan_any (Γ := Γ) q (.refl q)
  have hrun : (Γ.plan .any .any).run.run q = (.ok keep, ((Γ.plan .any .any).run.run q).2) :=
    Prod.ext hkeep rfl
  obtain ⟨q', hq', hsettles⟩ := Planner.exists_settles (ts.flatMap (Planner.questions Γ shape v))
    (fun x hx => by
      obtain ⟨t, -, hx⟩ := List.mem_flatMap.1 hx
      exact Planner.steady_of_mem_questions hx) ((Γ.plan .any .any).run.run q).2
  exact ⟨q', keep, hq'.trans (Steady.plan _ _ q).1,
    (Planner.gives_of_run (.plan _ _) hrun).mono hq',
    fun t ht x hx => hsettles x (List.mem_flatMap.2 ⟨t, ht, hx⟩)⟩

/-- Members that receive the value alike: the searches select the same. -/
theorem selects_iff_of_searched {tss : List (List Target)}
    {out out' : Except Failure (Except NotFound Resolution)} {keep : Plan}
    (hnone : v.isNone = false) (hunbound : v.isUnbound = false)
    (hcell : (Γ.className v).isCell = false) (hkeep : q.Gives (Γ.plan .any .any) (· = keep))
    (hsettles : ∀ t ∈ tss.flatten, ∀ x ∈ Planner.questions Γ shape v t, q.Settles x)
    (halike : q.ReceivesAlike Γ h v tss.flatten)
    (hout : Searched (q.lineups Γ h shape) (tss.map (⟨·, v⟩)) (out.map Except.toOption))
    (hout' : Searched (q.lineups Γ h (shape.under (Γ.className v)))
      (tss.flatMap fun ts => [⟨[], .unbound⟩, ⟨ts, .unbound⟩]) (out'.map Except.toOption))
    (t : Target) : Selects out t ↔ SelectsReceiving Γ h v out' t := by
  by_cases haccepts : ∃ t ∈ tss.flatten, t.isGeneric = false ∧ ∃ cost, q.Accepts Γ h v t cost
  · -- every member accepts the value at one cost
    obtain ⟨t₀, ht₀, hclosed₀, cost, hcost⟩ := haccepts
    have hlineups : ∀ ts ∈ tss, LineUpAlike Γ h (q.lineups Γ h shape)
        (q.lineups Γ h (shape.under (Γ.className v))) v keep cost ts := by
      intro ts hts t ht hclosed
      have hmem : t ∈ tss.flatten := List.mem_flatten_of_mem hts ht
      exact (halike q (.refl q) t₀ ht₀ t hmem hclosed₀ hclosed cost hcost).alongside
        (hsettles t hmem) hkeep hunbound hnone hcell q q (.refl q) (.refl q)
    obtain ⟨found, hfound, hsearched⟩ := hout.given hlineups
    constructor
    · rintro ⟨r, hr, rfl⟩
      rw [map_toOption_eq_ok.2 hr] at hfound
      cases hfound with
      | ok hrel =>
        cases hrel with
        | @some _ r' halike =>
          obtain ⟨htarget, slot, rest, u, -, hu, hslot, -⟩ := halike
          exact ⟨r', slot, u, map_toOption_eq_ok.1 (hsearched.eq_of_found hout'), htarget.symm,
            hslot, hu⟩
    · rintro ⟨r', slot, u, hr', rfl, -⟩
      rw [map_toOption_eq_ok.2 hr'] at hout'
      rw [hout'.eq_of_found hsearched] at hfound
      generalize hr : out.map Except.toOption = o at hfound
      cases hfound with
      | ok hrel =>
        cases hrel with
        | some halike => exact ⟨_, map_toOption_eq_ok.1 hr, halike.1⟩
  · -- no member accepts the value
    constructor
    · rintro ⟨r, hr, rfl⟩
      rw [map_toOption_eq_ok.2 hr] at hout
      obtain ⟨g, hg, hmem, hclosed, hfits⟩ := hout.exists_fits
      obtain ⟨ts, hts, rfl⟩ := List.mem_map.1 hg
      have hmem : r.target ∈ tss.flatten := List.mem_flatten_of_mem hts hmem
      exact absurd ⟨_, hmem, hclosed, Planner.exists_accepts_of_captured hclosed hunbound hnone
        (hsettles _ hmem) (.refl q) hfits⟩ haccepts
    · rintro ⟨r', slot, u, hr', rfl, hslot, hu⟩
      rw [map_toOption_eq_ok.2 hr'] at hout'
      obtain ⟨g, hg, hmem, hclosed, hfits⟩ := hout'.exists_fits
      obtain ⟨ts, hts, hg⟩ := List.mem_flatMap.1 hg
      rcases List.mem_pair.1 hg with rfl | rfl
      · exact absurd hmem List.not_mem_nil
      · have hmem : r'.target ∈ tss.flatten := List.mem_flatten_of_mem hts hmem
        exact absurd ⟨_, hmem, hclosed, Planner.exists_accepts_of_free hclosed hcell
          (hsettles _ hmem) (.refl q) hfits hslot hu⟩ haccepts

/-- Members that receive one type receive the value alike. -/
theorem receivesAlike_of_receiver {ts : List Target} {d : Ty}
    (hts : ∀ t ∈ ts, t.inputs.head? = some d) : q.ReceivesAlike Γ h v ts := by
  rintro q' - t ht t' ht' - - cost ⟨d', plan, u, hd', hrest⟩
  obtain rfl := Option.some.inj ((hts t ht).symm.trans hd')
  exact ⟨d, plan, u, hts t' ht', hrest⟩

/-- A host that does not list members for a container finds none. -/
theorem MemberSource.IsHost.lists_or_never (hS : S.IsHost Γ h) (c : Ty) (name : String)
    (b : SearchMask) : (∃ l, S.Lists c name b l) ∨
      ∀ ctor shape options bound p r,
        ((Γ.resolve h S ctor c name shape options bound).run.run p).1 ≠ .ok (.ok r) := by
  cases hS with
  | classes => exact .inl ⟨_, Reflection.lists_candidates c name b⟩
  | table ht =>
    by_cases hc : c.hashable = true
    · exact .inl (MemberTable.exists_lists ht.registered hc name b)
    · exact .inr fun _ _ _ _ _ r =>
        MemberTable.resolve_ne_found_of_hashable (by simpa using hc) r

/-- A search that captures a value selects what the search for members of instances selects for the
shape with the class of the value in front, if the value converts to what that member receives: so it
is where the members of the name receive the value alike, and they do where they receive one type. -/
theorem bound_choice_agrees (hS : S.IsHost Γ h) (hname : Text.fold name ≠ Text.fold ctor)
    (hnone : v.isNone = false) (hunbound : v.isUnbound = false) (hcell : Γ.isCellValue v = false)
    (hadmits : (SearchMask.split options).2.has .instanceScope = true) (p p' : Planner) :
    let out := (Γ.resolve h S ctor c name shape options v).run.run p
    let out' := (Γ.resolve h S ctor c name (shape.under (Γ.className v))
      (some (SearchMask.forInstances options)) .unbound).run.run p'
    let members := fun l : Candidates => (l.instances options shape.returnsVoid).flatten
    ∀ q : Planner, q.Remembers out.2 → q.Remembers out'.2 →
      ((∀ l, S.Lists c name (SearchMask.split options).2 l → q.ReceivesAlike Γ h v (members l)) →
        ∀ t, Selects out.1 t ↔ SelectsReceiving Γ h v out'.1 t) ∧
      (S.OneReceiver Γ h c options → ∀ l, S.Lists c name (SearchMask.split options).2 l →
        q.ReceivesAlike Γ h v (members l)) := by
  intro out out' members q hq hq'
  refine ⟨fun halike t => ?_, fun hone l hl => ?_⟩
  · have hnever : (∀ r, out.1 ≠ .ok (.ok r)) → (∀ r, out'.1 ≠ .ok (.ok r)) →
        (Selects out.1 t ↔ SelectsReceiving Γ h v out'.1 t) := by
      intro hout hout'
      refine iff_of_false ?_ ?_
      · rintro ⟨r, hr, -⟩
        exact hout r hr
      · rintro ⟨r, slot, u, hr, -⟩
        exact hout' r hr
    by_cases hopen : Γ.isOpen c = true
    · exact hnever (resolve_ne_found_of_isOpen hopen) (resolve_ne_found_of_isOpen hopen)
    have hopen : Γ.isOpen c = false := by simpa using hopen
    obtain ⟨l, hl⟩ | hnothing := hS.lists_or_never c name (SearchMask.split options).2
    · obtain ⟨l', hl', hinstances⟩ := hS.exists_inScope
        (SearchMask.scopeIn_inScope false hadmits) hl
      obtain ⟨q', keep, hgrows, hkeep, hsettles⟩ := exists_planner Γ shape v (members l) q
      have hout : Searched (q'.lineups Γ h shape) (l.groups options shape.returnsVoid v)
          (out.1.map Except.toOption) := (tries_groups hopen hname hl p).2 q' (hgrows.trans hq)
      have hout' : Searched (q'.lineups Γ h (shape.under (Γ.className v)))
          (l'.groups (some (SearchMask.forInstances options)) shape.returnsVoid .unbound)
          (out'.1.map Except.toOption) := (tries_groups hopen hname hl' p').2 q' (hgrows.trans hq')
      rw [Candidates.groups_captured hnone hunbound] at hout
      rw [Candidates.groups_instances hinstances] at hout'
      exact selects_iff_of_searched hnone hunbound (isCell_className hcell) hkeep hsettles
        (fun q'' hq'' => halike l hl q'' (hq''.trans hgrows)) hout hout' t
    · exact hnever (hnothing _ _ _ _ _) (hnothing _ _ _ _ _)
  · obtain ⟨d, hd⟩ : ∃ d, ∀ t ∈ members l, t.inputs.head? = some d := hone.exists_receiver hl
    exact receivesAlike_of_receiver hd

end Resolution

/-! ## Two methods of integers -/

/-- A method of integers that takes one value and gives an integer. -/
def methodTarget (param : Ty) (id : Nat) : Target where
  kind := .procedure
  name := "f"
  declaring := some (.builtin .int)
  isStatic := false
  params := [⟨"p", param, .positional⟩]
  result := .builtin .int
  impl := .callable (.code (.function id))

def methodTable (targets : List Target) : MemberTable where
  procedures := targets.map (⟨.builtin .int, "f", ·⟩)
  handles := (targets.mapIdx fun i t => (.code (.function i), t)).reverse

/-- Registers a method of integers. -/
def methodRegistration (param : Ty) (id : Nat) : Registration :=
  .procedure (.builtin .int) "f" (.code (.function id)) [.parameter ⟨"p", param, .positional⟩]
    (.builtin .int) false none

/-- A method for floats, and one for integers. -/
def methods : List Target := [methodTarget (.builtin .float) 0, methodTarget (.builtin .int) 1]

theorem made_methodTable : (methodTable methods).Made := by
  have hfirst : (methodRegistration (.builtin .float) 0).register .empty =
      .ok (.target (methodTarget (.builtin .float) 0),
        methodTable [methodTarget (.builtin .float) 0]) := by cbv
  have hsecond : (methodRegistration (.builtin .int) 1).register
      (methodTable [methodTarget (.builtin .float) 0]) =
        .ok (.target (methodTarget (.builtin .int) 1), methodTable methods) := by cbv
  exact .register (.register .empty hfirst) hsecond

/-- A truth value is bound to the method for integers, as it is given to it. -/
theorem bound_choice_agrees_methods :
    let S := (methodTable methods).source
    let out := (Program.resolve .empty Heap.empty S ".ctor" (.builtin .int) "f" intShape none
      (.bool true)).run.run ⟨true, [], []⟩
    let out' := (Program.resolve .empty Heap.empty S ".ctor" (.builtin .int) "f"
      (intShape.under (.builtin .bool)) (some (SearchMask.forInstances none)) .unbound).run.run out.2
    Selects out.1 (methodTarget (.builtin .int) 1) ∧
      SelectsReceiving .empty Heap.empty (.bool true) out'.1 (methodTarget (.builtin .int) 1) := by
  intro S out out'
  have hname : Text.fold "f" ≠ Text.fold ".ctor" := by decide
  have hhost : S.IsHost .empty Heap.empty := .table made_methodTable
  have hone : S.OneReceiver .empty Heap.empty (.builtin .int) none := by
    refine .table made_methodTable nofun fun d hd _ => ?_
    simp [MemberTable.containers, methodTable, methods] at hd
    exact hd
  have hlater : out'.2.Remembers out.2 := by
    obtain ⟨l, hl⟩ := MemberTable.exists_lists (t := methodTable methods) made_methodTable.registered
      (c := .builtin .int) (by cbv) "f" (SearchMask.split (some (SearchMask.forInstances none))).2
    exact (tries_groups (by with_unfolding_all rfl) hname hl out.2).1
  have hagrees := @bound_choice_agrees .empty Heap.empty S ".ctor" "f" (.builtin .int) intShape none
    (.bool true) hhost hname (by cbv) (by cbv) (by cbv) (by decide) ⟨true, [], []⟩ out.2 out'.2 hlater (.refl _)
  have hselects : Selects out.1 (methodTarget (.builtin .int) 1) := by
    refine selects_iff_map.2 ?_
    dsimp only [out]
    rw [run_resolve (by cbv) hname]
    with_unfolding_all rfl
  exact ⟨hselects, (hagrees.1 (hagrees.2 hone) _).1 hselects⟩

/-! ## Two spellings of a field -/

def wideRef : ClassRef := ⟨"Base", "Base"⟩

def narrowRef : ClassRef := ⟨"Sub", "Sub"⟩

/-- A class with one field. -/
def fieldInfo (ref : ClassRef) (mro : List Cls) (bases : List Ty) (name : String) (type : Ty) :
    ClassInfo where
  ref := ref
  mro := mro
  bases := bases
  parameters := none
  namespaceEntries := []
  annotations := [(name, type)]
  missing := []
  isProtocol := false
  isRuntime := false
  frozen := none
  fields := []
  slots := none
  members := []

/-- A class with an integer `Foo`, and a class below it with a truth value `foo`. -/
def spellings : Program where
  classes := [
    fieldInfo wideRef [.declared wideRef, .builtin .object] [] "Foo" (.builtin .int),
    fieldInfo narrowRef [.declared narrowRef, .declared wideRef, .builtin .object]
      [.cls (.declared wideRef)] "foo" (.builtin .bool)]
  functions := #[]
  registrations := []

/-- The getter of a field. -/
def fieldTarget (name : String) (declaring : ClassRef) (type : Ty) : Target where
  kind := .fieldGetter
  name := name
  declaring := some (.cls (.declared declaring))
  isStatic := false
  result := type
  impl := .attribute name

/-- An instance of the class below. -/
def narrow : Value := .object (.declared narrowRef) 0

def instanceHeap : Heap := ⟨#[⟨.plain, []⟩], []⟩

def integerShape : Shape := .make [] (.builtin .int)

/-- Searches the class below for the field. -/
def searchSpellings (options : SearchMask) (shape : Shape) (bound : Value) :
    Except Failure (Except NotFound Resolution) × Planner :=
  (spellings.resolve instanceHeap (Reflection.source spellings instanceHeap) ".ctor"
    (.cls (.declared narrowRef)) "foo" shape (some options) bound).run.run ⟨false, [], []⟩

/-- A planner that keeps nothing remembers the search. -/
theorem remembers_searchSpellings (options : SearchMask) (shape : Shape) (bound : Value) :
    Planner.Remembers ⟨false, [], []⟩ (searchSpellings options shape bound).2 :=
  .of_forgetful rfl (tries_groups (by cbv) (by decide)
    (Reflection.lists_candidates _ _ _) ⟨false, [], []⟩).1.memoize

/-- An argument of the class below finds the truth value, and is handed over as it is. -/
theorem searchSpellings_given (options : SearchMask)
    (hoptions : options = SearchFlag.ignoreCase.mask ∨ options = SearchFlag.staticScope.mask) :
    ∃ r slot, (searchSpellings (SearchMask.forInstances (some options))
        (integerShape.under (.cls (.declared narrowRef))) .unbound).1 = .ok (.ok r) ∧
      r.target = fieldTarget "foo" narrowRef (.builtin .bool) ∧
      r.plan.slots.head? = some slot ∧ slot.plan.operation?.isNone = true := by
  have hrun : (searchSpellings (SearchMask.forInstances (some options))
        (integerShape.under (.cls (.declared narrowRef))) .unbound).1.map
      (Except.map fun r => (r.target, r.plan.slots.head?.map (·.plan.operation?.isNone))) =
        .ok (.ok (fieldTarget "foo" narrowRef (.builtin .bool), some true)) := by
    unfold searchSpellings
    rw [run_resolve (by cbv) (by decide)]
    rcases hoptions with rfl | rfl
    · with_unfolding_all rfl
    · with_unfolding_all rfl
  obtain ⟨found, hfound, hrun⟩ := exists_of_map_eq_ok hrun
  obtain ⟨r, rfl, hr⟩ := exists_of_map_eq_ok hrun
  obtain ⟨htarget, hslot⟩ := Prod.mk.inj hr
  obtain ⟨slot, hhead, hnone⟩ := Option.map_eq_some_iff.1 hslot
  exact ⟨r, slot, hfound, htarget, hhead, hnone⟩

/-- Under the condition, capturing a value changes no choice. -/
def BindingKeepsChoice
    (condition : Program → Heap → MemberSource → Ty → Option SearchMask → Prop) : Prop :=
  ∀ (Γ : Program) (h : Heap) (S : MemberSource) (ctor : String) (c : Ty) (name : String)
      (shape : Shape) (options : Option SearchMask) (v : Value) (p p' q : Planner),
    condition Γ h S c options → S.IsHost Γ h → Text.fold name ≠ Text.fold ctor →
      v.isNone = false → v.isUnbound = false → Γ.isCellValue v = false →
        let out := (Γ.resolve h S ctor c name shape options v).run.run p
        let out' := (Γ.resolve h S ctor c name (shape.under (Γ.className v))
          (some (SearchMask.forInstances options)) .unbound).run.run p'
        q.Remembers out.2 → q.Remembers out'.2 →
          ∀ t, Selects out.1 t ↔ SelectsReceiving Γ h v out'.1 t

/-- With names in any case a captured value finds the integer: the truth value of the class below
costs a widening, and what the receiver of the integer costs is not counted. Without the scope of
instances it finds nothing. -/
theorem bound_choice_parts :
    (¬BindingKeepsChoice fun _ _ _ _ options =>
      (SearchMask.split options).2.has .instanceScope = true) ∧
    ¬BindingKeepsChoice fun Γ h S c options => S.OneReceiver Γ h c options := by
  have hname : Text.fold "foo" ≠ Text.fold ".ctor" := by decide
  constructor
  · intro hkeeps
    have hiff := hkeeps spellings instanceHeap _ ".ctor" (.cls (.declared narrowRef)) "foo"
      integerShape (some SearchFlag.ignoreCase.mask) narrow ⟨false, [], []⟩ ⟨false, [], []⟩
      ⟨false, [], []⟩ (by decide) .classes hname (by cbv) (by cbv) (by cbv)
      (remembers_searchSpellings _ _ _) (remembers_searchSpellings _ _ _)
      (fieldTarget "Foo" wideRef (.builtin .int))
    have hselects : Selects (searchSpellings SearchFlag.ignoreCase.mask integerShape narrow).1
        (fieldTarget "Foo" wideRef (.builtin .int)) := by
      rw [selects_iff_map]
      unfold searchSpellings
      rw [run_resolve (by cbv) hname]
      with_unfolding_all rfl
    obtain ⟨r, slot, u, hr, htarget, -⟩ := hiff.1 hselects
    obtain ⟨r', slot', hr', htarget', -⟩ := searchSpellings_given _ (.inl rfl)
    obtain rfl := Except.ok.inj (Except.ok.inj (hr'.symm.trans hr))
    have hnames := congrArg Target.name (htarget'.symm.trans htarget)
    exact absurd hnames (by decide)
  · intro hkeeps
    have hiff := hkeeps spellings instanceHeap _ ".ctor" (.cls (.declared narrowRef)) "foo"
      integerShape (some SearchFlag.staticScope.mask) narrow ⟨false, [], []⟩ ⟨false, [], []⟩
      ⟨false, [], []⟩ (.classes (by decide)) .classes hname (by cbv) (by cbv) (by cbv)
      (remembers_searchSpellings _ _ _) (remembers_searchSpellings _ _ _)
      (fieldTarget "foo" narrowRef (.builtin .bool))
    obtain ⟨r, slot, hr, htarget, hslot, hoperation⟩ := searchSpellings_given _ (.inr rfl)
    have hconverts : ∃ u, spellings.applyPlan instanceHeap slot.plan narrow = .ok u := by
      unfold applyPlan
      rw [Option.isNone_iff_eq_none.1 hoperation]
      by_cases hdiscard : slot.plan.discard = true
      · exact ⟨.none, by rw [if_pos hdiscard]⟩
      · exact ⟨narrow, by rw [if_neg hdiscard]⟩
    obtain ⟨u, hu⟩ := hconverts
    have hnothing : (searchSpellings SearchFlag.staticScope.mask integerShape narrow).1.map
        (fun r => r.toOption.isNone) = .ok true := by
      unfold searchSpellings
      rw [run_resolve (by cbv) hname]
      with_unfolding_all rfl
    obtain ⟨r', hr', -⟩ := hiff.2 ⟨r, slot, u, hr, htarget, hslot, hu⟩
    obtain ⟨found, hfound, hnone⟩ := exists_of_map_eq_ok hnothing
    obtain rfl := Except.ok.inj (hfound.symm.trans hr')
    cases hnone

end CallAdapter
