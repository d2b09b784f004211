import CallAdapter.Proofs.Member.Lockstep

/-!
# What a search finds is offered

A search by name plans only members that its source answers with, so the member of a resolution is
one that the source offers for the name in the container, or one of the container's constructors
where the name stands for those (`resolve_finds`). The signature of a resolution is one that was
planned, and has what planning promises of all of them (`resolve_meets`).
-/

namespace CallAdapter

open Program

/-- The source has the member for the name in the container. -/
def MemberSource.Has (S : MemberSource) (ctor : String) (c : Ty) (name : String) (t : Target) :
    Prop :=
  S.Offers c name t ∨ Text.fold name = Text.fold ctor ∧ S.Constructs c t

/-- What a planned signature has to be for a member and a bound value. -/
abbrev Promise := Target → Value → SignaturePlan → Prop

/-- A resolution to a member with the property: a member without open type variables, whose signature
is as promised. -/
structure Resolution.Meets (r : Resolution) (Good : Promise) (P : Target → Prop) : Prop where
  target : P r.target
  closed : r.target.isGeneric = false
  planned : Good r.target r.bound r.plan

theorem Resolution.Meets.mono {r : Resolution} {Good : Promise} {P Q : Target → Prop}
    (h : r.Meets Good P) (hPQ : ∀ t, P t → Q t) : r.Meets Good Q :=
  ⟨hPQ _ h.target, h.closed, h.planned⟩

/-- A resolution to a member with the property, which is the one whose signature was planned. -/
abbrev Resolution.IsOf (r : Resolution) (P : Target → Prop) : Prop :=
  r.Meets (fun t _ p => p.target = t) P

/-- From a planner with the invariant, the search ends with one, and what it gives is good. -/
def Finds {α : Type} (Inv : Planner → Prop) (x : SearchM α) (good : α → Prop) : Prop :=
  ∀ s, Keeps Inv (x.run s) (OutcomeIs (fun a => good a.1) fun _ => True)

namespace Finds

variable {α β : Type} {Inv : Planner → Prop} {good good₁ : α → Prop} {good' : β → Prop}

theorem mono {x : SearchM α} (hx : Finds Inv x good) (hgood : ∀ a, good a → good₁ a) :
    Finds Inv x good₁ :=
  fun s => (hx s).mono fun r hr => by
    cases r with
    | ok a => exact hgood a.1 hr
    | error e => trivial

theorem pure {a : α} (h : good a) : Finds Inv (Pure.pure a) good := fun _ => Keeps.pure h

theorem bind {x : SearchM α} {f : α → SearchM β} (hx : Finds Inv x good)
    (hf : ∀ a, good a → Finds Inv (f a) good') : Finds Inv (x >>= f) good' :=
  fun s => Keeps.bind (hx s) (fun _ _ => trivial) fun r hr => hf r.1 hr r.2

theorem modify (f : SearchTrace → SearchTrace) : Finds Inv (modify f) fun _ => True :=
  fun _ => Keeps.pure trivial

theorem lift {x : PlanM α} {post : Except Failure α → Prop}
    (hx : Keeps Inv x post) : Finds Inv (liftM x : SearchM α) fun a => post (.ok a) :=
  fun _ => Keeps.bind hx (fun _ _ => trivial) fun _ ha => Keeps.pure ha

end Finds

section Searches

variable {Γ : Program} {h : Heap} {shape : Shape} {bound : Value} {ts : List Target}

/-- A signature is planned for the member that was asked for. -/
theorem planSignature_target (t : Target) :
    Yields (fun _ => True) (Γ.planSignature h shape t bound) fun p => p.target = t := by
  have hany : ∀ {α : Type} (x : MatchM α), Yields (fun _ => True) x fun _ => True := by
    intro α x p _
    refine ⟨trivial, ?_⟩
    cases (x.run.run.run p).1 with
    | ok r => exact fun _ _ => trivial
    | error e => trivial
  have hlineUp : ∀ remaining captured,
      Yields (fun _ => True) (Γ.lineUp shape t remaining captured) fun p => p.target = t := by
    intro remaining captured
    unfold lineUp
    refine .bind (hany _) fun slots _ => .bind (hany _) fun result _ => ?_
    split
    · exact .pure rfl
    · exact .throw
  unfold planSignature
  split
  · split
    · exact hlineUp _ _
    · exact .throw
  split
  · exact .throw
  split
  · exact .bind (hany _) fun _ _ => hlineUp _ _
  · exact .throw

variable {Inv : Planner → Prop} {Good : Promise}
  (hplan : ∀ t bound, Yields Inv (Γ.planSignature h shape t bound) (Good t bound))

include hplan

theorem viable_finds :
    Finds Inv (Γ.viable h shape bound ts) fun rs => ∀ r ∈ rs, r.Meets Good (· ∈ ts) := by
  induction ts with
  | nil => exact .pure fun _ hr => nomatch hr
  | cons t ts ih =>
    have hrest :
        Finds Inv (Γ.viable h shape bound ts) fun rs => ∀ r ∈ rs, r.Meets Good (· ∈ t :: ts) :=
      ih.mono fun rs hrs r hr => (hrs r hr).mono fun _ => List.mem_cons_of_mem _
    unfold viable
    by_cases hgeneric : t.isGeneric = true
    · rw [if_pos hgeneric]
      exact .bind (.modify _) fun _ _ => hrest
    rw [if_neg hgeneric]
    refine .bind (.lift (hplan t bound)) fun r hr => ?_
    cases r with
    | error m => exact .bind (.modify _) fun _ _ => hrest
    | ok plan =>
      refine .bind hrest fun rs hrs => .pure fun r hmem => ?_
      rcases List.mem_cons.1 hmem with rfl | hmem
      · exact ⟨List.mem_cons_self, by simpa using hgeneric, hr plan rfl⟩
      · exact hrs r hmem

theorem pick_finds :
    Finds Inv (Γ.pick h shape bound ts) fun o => ∀ r ∈ o, r.Meets Good (· ∈ ts) :=
  .bind (viable_finds hplan) fun _ hrs => .pure fun r hr => hrs r (cheapest?_mem hr)

theorem pickScoped_finds (needsReceiver : Bool) :
    Finds Inv (Γ.pickScoped h shape bound needsReceiver ts) fun o =>
      ∀ r ∈ o, r.Meets Good (· ∈ ts) := by
  have hfilter : ∀ (bound : Value) (f : Target → Bool),
      Finds Inv (Γ.pick h shape bound (ts.filter f)) fun o => ∀ r ∈ o, r.Meets Good (· ∈ ts) :=
    fun bound f => (pick_finds hplan).mono fun o ho r hr => (ho r hr).mono fun _ => List.mem_of_mem_filter
  unfold pickScoped
  split
  · exact hfilter _ _
  split
  · exact hfilter _ _
  · refine .bind (hfilter _ _) fun o ho => ?_
    cases o with
    | some r => exact .pure ho
    | none =>
      dsimp only
      split
      · exact .pure fun _ hr => nomatch hr
      · exact hfilter _ _

omit hplan in
theorem accessors_finds (found : List (Option Target)) :
    Finds Inv (accessors found) fun ts => ∀ t ∈ ts, some t ∈ found := by
  have hmem : ∀ t ∈ found.filterMap id, some t ∈ found := by
    intro t ht
    obtain ⟨o, ho, rfl⟩ := List.mem_filterMap.1 ht
    exact ho
  unfold accessors
  split
  · exact .bind (.modify _) fun _ _ => .pure hmem
  · exact .pure hmem

omit hplan in
theorem orElseCategory_finds {P : Target → Prop} {found : Option Resolution}
    {search : SearchM (Option Resolution)} (searched : Bool) (hfound : ∀ r ∈ found, r.Meets Good P)
    (hsearch : Finds Inv search fun o => ∀ r ∈ o, r.Meets Good P) :
    Finds Inv (orElseCategory found searched search) fun o => ∀ r ∈ o, r.Meets Good P := by
  unfold orElseCategory
  cases found with
  | some r => exact .pure hfound
  | none =>
    dsimp only
    split
    · exact hsearch
    · exact .pure hfound

omit hplan in
theorem liftExcept_finds {α : Type} (x : Except Failure α) :
    Finds Inv (searchMembers.liftExcept x) fun a => x = .ok a := by
  cases x with
  | ok a => exact .pure rfl
  | error e => exact fun _ => Keeps.throw trivial

variable {S : MemberSource} {c : Ty} {name : String}

theorem searchMembers_finds (members binding : SearchMask) :
    Finds Inv (Γ.searchMembers h S c name shape members binding bound) fun o =>
      ∀ r ∈ o, r.Meets Good (S.Offers c name) := by
  have hnothing : ∀ r ∈ (none : Option Resolution), r.Meets Good (S.Offers c name) := by simp
  unfold searchMembers
  dsimp only
  refine .bind (orElseCategory_finds _ hnothing ?_) fun o ho => ?_
  · refine .bind (liftExcept_finds _) fun ts hts => ?_
    exact (pickScoped_finds hplan true).mono fun o ho r hr => (ho r hr).mono fun t => .procedure hts
  refine .bind (orElseCategory_finds _ ho ?_) fun o ho => ?_
  · refine .bind (liftExcept_finds _) fun ps hps => .bind (accessors_finds _) fun ts hts => ?_
    refine (pickScoped_finds hplan false).mono fun o ho r hr => (ho r hr).mono fun t ht => ?_
    obtain ⟨p, hp, haccessor⟩ := List.mem_map.1 (hts t ht)
    exact .property hps hp haccessor
  refine orElseCategory_finds _ ho ?_
  refine .bind (liftExcept_finds _) fun fs hfs => .bind (accessors_finds _) fun ts hts => ?_
  refine (pickScoped_finds hplan false).mono fun o ho r hr => (ho r hr).mono fun t ht => ?_
  obtain ⟨f, hf, haccessor⟩ := List.mem_map.1 (hts t ht)
  exact .field hfs hf haccessor

/-- What a search resolves a name to is a member that the source has, with a signature that is as
planning promises. -/
theorem resolve_meets {ctor : String} (options : Option SearchMask) :
    Keeps Inv (Γ.resolve h S ctor c name shape options bound)
      (OutcomeIs (fun found => ∀ r, found = .ok r → r.Meets Good (S.Has ctor c name))
        fun _ => True) := by
  unfold resolve
  split
  · exact .pure fun _ hr => by cases hr
  refine Keeps.bind (?_ : Keeps _ _ (OutcomeIs (fun found : Option Resolution × SearchTrace =>
    ∀ r ∈ found.1, r.Meets Good (S.Has ctor c name)) fun _ => True)) (fun _ _ => trivial)
    fun found hfound => ?_
  · -- The name is that of the constructors, or one of members.
    refine (?_ : Finds Inv _ fun o : Option Resolution =>
      ∀ r ∈ o, r.Meets Good (S.Has ctor c name)) {}
    cases hname : Text.fold name == Text.fold ctor with
    | true =>
      refine .bind (liftExcept_finds _) fun ts hts => (pick_finds hplan).mono fun o ho r hr => ?_
      exact (ho r hr).mono fun t ht => .inr ⟨eq_of_beq hname, _, ts, hts, ht⟩
    | false =>
      exact (searchMembers_finds hplan _ _).mono fun o ho r hr => (ho r hr).mono fun t => .inl
  · obtain ⟨o, s⟩ := found
    cases o with
    | some r => exact .pure fun r' hr => Except.ok.inj hr ▸ hfound r rfl
    | none => exact .pure fun _ hr => by cases hr

omit hplan in
/-- The member that a search resolves a name to is one that the source has. -/
theorem resolve_finds {ctor : String} (options : Option SearchMask) (p : Planner) {r : Resolution}
    (hr : ((Γ.resolve h S ctor c name shape options bound).run.run p).1 = .ok (.ok r)) :
    r.IsOf (S.Has ctor c name) := by
  obtain ⟨-, houtcome⟩ := resolve_meets (fun t _ => planSignature_target t) options p trivial
  rw [hr] at houtcome
  exact houtcome r rfl

end Searches

end CallAdapter
