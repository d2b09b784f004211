import CallAdapter.Member.Resolution
import CallAdapter.Proofs.Adapter.Lockstep

/-!
# Searches on two planners side by side

A search by name asks its source for members, plans the shape against each and chooses the
cheapest. On a planner that was used before and on one that keeps nothing it finds the same member
of containers that are the same, or fails for the same reason (`resolve_together`). What this asks
of the members is said by `MemberSource.Searchable`.
-/

namespace CallAdapter

open Program

/-- The traces give one reason. -/
structure SearchTrace.Alike (s s' : SearchTrace) : Prop where
  accessorMissing : s.accessorMissing = s'.accessorMissing
  genericSkipped : s.genericSkipped = s'.genericSkipped
  mismatches : s.mismatches.isEmpty = s'.mismatches.isEmpty

theorem SearchTrace.Alike.reason {s s' : SearchTrace} (h : s.Alike s') : s.reason = s'.reason := by
  unfold SearchTrace.reason
  rw [h.accessorMissing, h.genericSkipped, h.mismatches]

/-- The two searches run alike on a planner that was used and on one that keeps nothing. -/
def SearchTogether {α β : Type} (Γ : Program) (x : SearchM α) (y : SearchM β)
    (rel : α → β → Prop) : Prop :=
  ∀ s s', s.Alike s' →
    Together Γ (x.run s) (y.run s') (Agree fun a b => rel a.1 b.1 ∧ a.2.Alike b.2)

namespace SearchTogether

variable {Γ : Program} {α β γ δ : Type} {mid : α → β → Prop} {rel : γ → δ → Prop}

theorem pure {a : α} {b : β} (h : mid a b) : SearchTogether Γ (Pure.pure a) (Pure.pure b) mid :=
  fun _ _ hs => Together.pure (.ok ⟨h, hs⟩)

theorem bind {x : SearchM α} {y : SearchM β} {f : α → SearchM γ} {g : β → SearchM δ}
    (hxy : SearchTogether Γ x y mid) (hfg : ∀ a b, mid a b → SearchTogether Γ (f a) (g b) rel) :
    SearchTogether Γ (x >>= f) (y >>= g) rel :=
  fun s s' hs => Together.bind (hxy s s' hs) fun r r' hr => hfg r.1 r'.1 hr.1 r.2 r'.2 hr.2

theorem modify {f g : SearchTrace → SearchTrace} (h : ∀ s s', s.Alike s' → (f s).Alike (g s')) :
    SearchTogether Γ (modify f) (modify g) fun _ _ => True :=
  fun s s' hs => Together.pure (.ok ⟨trivial, h s s' hs⟩)

theorem lift {x : PlanM α} {y : PlanM β} (h : Together Γ x y (Agree mid)) :
    SearchTogether Γ (liftM x) (liftM y) mid :=
  fun _ _ hs => Together.bind h fun _ _ hab => Together.pure (.ok ⟨hab, hs⟩)

end SearchTogether

/-! ## The cheapest -/

/-- Choices of one member at the same cost. -/
def Resolution.Alike (r r' : Resolution) : Prop := r.plan.Alike r'.plan

theorem cost_eq_of_alike {ps qs : List Plan} (h : List.Forall₂ Plan.Alike ps qs) :
    Cost.of ps = Cost.of qs := by
  have hcount : ∀ (f : ConversionKind → Bool → Bool),
      ps.countP (fun p => f p.kind p.discard) = qs.countP (fun p => f p.kind p.discard) := by
    intro f
    induction h with
    | nil => rfl
    | cons hpq _ ih => rw [List.countP_cons, List.countP_cons, ih, hpq.1, hpq.2]
  have hexplicit := hcount fun kind _ => kind == .explicitConvert
  have hwiden := hcount fun kind discard => kind == .implicitWiden && !discard
  unfold Cost.of
  rw [hexplicit, hwiden]

/-- Where costs compare alike, the first of the cheapest stands at the same place. -/
theorem cheapest?_rel {α β : Type} {rel : α → β → Prop} {cost : α → Cost} {cost' : β → Cost}
    (hlt : ∀ a b a' b', rel a b → rel a' b' →
      (cost a').lt (cost a) = (cost' b').lt (cost' b))
    {as : List α} {bs : List β} (has : List.Forall₂ rel as bs) :
    Option.Rel rel (cheapest? cost as) (cheapest? cost' bs) := by
  induction has with
  | nil => exact .none
  | @cons a b as bs ha _ ih =>
    unfold cheapest?
    generalize cheapest? cost as = o, cheapest? cost' bs = o' at ih ⊢
    cases ih with
    | none => exact .some ha
    | some hb =>
      dsimp only
      rw [hlt _ _ _ _ ha hb]
      split
      · exact .some hb
      · exact .some ha

theorem cheapest?_alike {α : Type} {rel : α → α → Prop} {cost : α → Cost}
    (hcost : ∀ a a', rel a a' → cost a = cost a') {as as' : List α}
    (has : List.Forall₂ rel as as') :
    Option.Rel rel (cheapest? cost as) (cheapest? cost as') :=
  cheapest?_rel (fun a b a' b' hab hab' => by rw [hcost a b hab, hcost a' b' hab']) has

/-! ## Candidates -/

section Candidates

variable {Γ : Program} {h h' : Heap} {shape shape' : Shape} {bound : Value} {ts ts' : List Target}

/-- A member that can be planned alike on both heaps, whatever is captured. -/
structure Target.Plannable (h h' : Heap) (bound : Value) (t : Target) : Prop where
  hashable : t.TypesHashable
  binds : bound.isUnbound = false → ∀ d ∈ t.inputs.head?, BindsAlike h h' bound d

/-- A member that a search may come across: a captured value is for members of instances. -/
structure Target.Searchable (h h' : Heap) (bound : Value) (t : Target) : Prop where
  hashable : t.TypesHashable
  binds : t.isStatic = false → bound.isUnbound = false →
    ∀ d ∈ t.inputs.head?, BindsAlike h h' bound d

theorem viable_together (hshape : shape.Same shape') (hkey : shape.hashable = true)
    (hts : List.Forall₂ Target.Same ts ts') (hplan : ∀ t ∈ ts, t.Plannable h h' bound) :
    SearchTogether Γ (Γ.viable h shape bound ts) (Γ.viable h' shape' bound ts')
      (List.Forall₂ Resolution.Alike) := by
  induction hts with
  | nil => exact .pure .nil
  | @cons t t' ts ts' ht _ ih =>
    have ih := ih fun t ht => hplan t (List.mem_cons_of_mem _ ht)
    have hplan := hplan t List.mem_cons_self
    unfold viable
    rw [ht.isGeneric]
    split
    · refine .bind (.modify fun s s' hs => ⟨hs.accessorMissing, rfl, hs.mismatches⟩) ?_
      exact fun _ _ _ => ih
    · refine .bind (.lift (planSignature_together ht hshape hkey hplan.hashable hplan.binds)) ?_
      intro r r' hr
      cases hr with
      | fits hpp =>
        refine .bind ih fun rs rs' hrs => ?_
        exact .pure (.cons hpp hrs)
      | differs =>
        have hfull : ∀ (ms : List Mismatch) (m : Mismatch), (ms ++ [m]).isEmpty = false := by
          intro ms m
          cases ms <;> rfl
        refine .bind (.modify fun s s' hs => ⟨hs.accessorMissing, hs.genericSkipped, ?_⟩) ?_
        · rw [hfull, hfull]
        · exact fun _ _ _ => ih

theorem pick_together (hshape : shape.Same shape') (hkey : shape.hashable = true)
    (hts : List.Forall₂ Target.Same ts ts') (hplan : ∀ t ∈ ts, t.Plannable h h' bound) :
    SearchTogether Γ (Γ.pick h shape bound ts) (Γ.pick h' shape' bound ts')
      (Option.Rel Resolution.Alike) := by
  refine .bind (viable_together hshape hkey hts hplan) fun rs rs' hrs => .pure ?_
  exact cheapest?_alike (fun r r' hr => cost_eq_of_alike hr.plans) hrs

theorem pickScoped_together (hshape : shape.Same shape') (hkey : shape.hashable = true)
    (needsReceiver : Bool) (hts : List.Forall₂ Target.Same ts ts')
    (hsearch : ∀ t ∈ ts, t.Searchable h h' bound) :
    SearchTogether Γ (Γ.pickScoped h shape bound needsReceiver ts)
      (Γ.pickScoped h' shape' bound needsReceiver ts') (Option.Rel Resolution.Alike) := by
  have hstatics : List.Forall₂ Target.Same (ts.filter (·.isStatic)) (ts'.filter (·.isStatic)) :=
    Reflection.same_filter (fun t t' ht => ht.isStatic) hts
  have hinstances : List.Forall₂ Target.Same (ts.filter fun t => !t.isStatic)
      (ts'.filter fun t => !t.isStatic) :=
    Reflection.same_filter (fun t t' ht => by rw [ht.isStatic]) hts
  -- without a captured value every member can be planned alike
  have hfree : ∀ t ∈ ts, t.Plannable h h' .unbound := fun t ht =>
    ⟨(hsearch t ht).hashable, fun hu => nomatch hu⟩
  have hpickStatics := pick_together (Γ := Γ) hshape hkey hstatics fun t ht =>
    hfree t (List.mem_of_mem_filter ht)
  unfold pickScoped
  split
  · exact hpickStatics
  split
  · refine pick_together hshape hkey hinstances fun t ht => ?_
    obtain ⟨ht, hinstance⟩ := List.mem_filter.1 ht
    exact ⟨(hsearch t ht).hashable, (hsearch t ht).binds (by rwa [Bool.not_eq_true'] at hinstance)⟩
  · refine .bind hpickStatics fun r r' hr => ?_
    cases hr with
    | some hr => exact .pure (.some hr)
    | none =>
      dsimp only
      rw [hshape.arity_eq]
      split
      · exact .pure .none
      · exact pick_together hshape hkey hinstances fun t ht => hfree t (List.mem_of_mem_filter ht)

theorem accessors_together {found found' : List (Option Target)}
    (hfound : List.Forall₂ (Option.Rel Target.Same) found found') :
    SearchTogether Γ (accessors found) (accessors found')
      fun ts ts' => List.Forall₂ Target.Same ts ts' ∧ ∀ t ∈ ts, some t ∈ found := by
  have hmissing : found.any Option.isNone = found'.any Option.isNone := by
    induction hfound with
    | nil => rfl
    | cons ho _ ih =>
      rw [List.any_cons, List.any_cons, ih]
      cases ho <;> rfl
  have htargets : List.Forall₂ Target.Same (found.filterMap id) (found'.filterMap id) :=
    List.rel_filterMap (fun _ _ ho => ho) hfound
  have hmem : ∀ t ∈ found.filterMap id, some t ∈ found := by
    intro t ht
    obtain ⟨o, ho, rfl⟩ := List.mem_filterMap.1 ht
    exact ho
  unfold accessors
  rw [hmissing]
  split
  · refine .bind (.modify fun s s' hs => ⟨rfl, hs.genericSkipped, hs.mismatches⟩) fun _ _ _ => ?_
    exact .pure ⟨htargets, hmem⟩
  · exact .pure ⟨htargets, hmem⟩

theorem orElseCategory_together {found found' : Option Resolution} {search search' : SearchM _}
    (searched : Bool) (hfound : Option.Rel Resolution.Alike found found')
    (hsearch : SearchTogether Γ search search' (Option.Rel Resolution.Alike)) :
    SearchTogether Γ (orElseCategory found searched search) (orElseCategory found' searched search')
      (Option.Rel Resolution.Alike) := by
  unfold orElseCategory
  cases hfound with
  | some hr => exact .pure (.some hr)
  | none =>
    dsimp only
    split
    · exact hsearch
    · exact .pure .none

end Candidates

/-! ## By name -/

/-- The members that a source may answer with for a name in a container. -/
inductive MemberSource.Offers (S : MemberSource) (c : Ty) (name : String) : Target → Prop
  | procedure {b ts t} : S.procedures c name b = .ok ts → t ∈ ts → S.Offers c name t
  | property {b ps p setter t} : S.properties c name b = .ok ps → p ∈ ps →
      p.accessor setter = some t → S.Offers c name t
  | field {b fs f setter t} : S.fields c name b = .ok fs → f ∈ fs → f.accessor setter = some t →
      S.Offers c name t

/-- The constructors that a source may answer with for a container. -/
def MemberSource.Constructs (S : MemberSource) (c : Ty) (t : Target) : Prop :=
  ∃ b ts, S.constructors c b = .ok ts ∧ t ∈ ts

/-- How a search by name ended: with one member at one cost, or for one reason. -/
inductive FoundAlike : Except NotFound Resolution → Except NotFound Resolution → Prop
  | found {r r' : Resolution} : r.Alike r' → FoundAlike (.ok r) (.ok r')
  | missing {m m' : NotFound} : m.reason = m'.reason → FoundAlike (.error m) (.error m')

section ByName

variable {Γ : Program} {h h' : Heap} {S S' : MemberSource} {c c' : Ty} {shape shape' : Shape}
  {bound : Value} {name : String}

theorem liftExcept_together {α β : Type} {rel : α → β → Prop} {x : Except Failure α}
    {y : Except Failure β} (hxy : Agree rel x y) :
    SearchTogether Γ (searchMembers.liftExcept x) (searchMembers.liftExcept y)
      fun a b => rel a b ∧ x = .ok a := by
  cases hxy with
  | ok hab => exact .pure ⟨hab, rfl⟩
  | error => exact fun _ _ _ => Together.throw .error

theorem rel_map_accessor {α : Type} {accessor : α → Bool → Option Target} {as as' : List α}
    (setter : Bool)
    (has : List.Forall₂ (fun a a' => SameAccessors (accessor a) (accessor a')) as as') :
    List.Forall₂ (Option.Rel Target.Same) (as.map fun a => accessor a setter)
      (as'.map fun a => accessor a setter) := by
  rw [List.forall₂_map_left_iff, List.forall₂_map_right_iff]
  exact has.imp fun a a' ha => ha setter

theorem searchMembers_together (hS : S.SameAnswers S' c c') (hshape : shape.Same shape')
    (hkey : shape.hashable = true) (hoffers : ∀ t, S.Offers c name t → t.Searchable h h' bound)
    (members binding : SearchMask) :
    SearchTogether Γ (Γ.searchMembers h S c name shape members binding bound)
      (Γ.searchMembers h' S' c' name shape' members binding bound)
      (Option.Rel Resolution.Alike) := by
  have hsetter : shape.returnsVoid = shape'.returnsVoid := Ty.isVoid_congr hshape.returns
  unfold searchMembers
  dsimp only
  rw [← hsetter]
  refine .bind (orElseCategory_together _ .none ?_) fun r r' hr => ?_
  · refine .bind (liftExcept_together (hS.procedures name binding)) fun ts ts' hts => ?_
    exact pickScoped_together hshape hkey true hts.1 fun t ht => hoffers t (.procedure hts.2 ht)
  refine .bind (orElseCategory_together _ hr ?_) fun r r' hr => ?_
  · refine .bind (liftExcept_together (hS.properties name binding)) fun ps ps' hps => ?_
    have haccessors := rel_map_accessor shape.returnsVoid hps.1
    refine .bind (accessors_together haccessors) fun ts ts' hts => ?_
    refine pickScoped_together hshape hkey false hts.1 fun t ht => ?_
    obtain ⟨p, hp, haccessor⟩ := List.mem_map.1 (hts.2 t ht)
    exact hoffers t (.property hps.2 hp haccessor)
  refine orElseCategory_together _ hr ?_
  refine .bind (liftExcept_together (hS.fields name binding)) fun fs fs' hfs => ?_
  refine .bind (accessors_together (rel_map_accessor shape.returnsVoid hfs.1)) fun ts ts' hts => ?_
  refine pickScoped_together hshape hkey false hts.1 fun t ht => ?_
  obtain ⟨f, hf, haccessor⟩ := List.mem_map.1 (hts.2 t ht)
  exact hoffers t (.field hfs.2 hf haccessor)

theorem isOpen_congr (h : c.same c' = true) : Γ.isOpen c = Γ.isOpen c' := by
  have hfree := congrArg (! ·) (Ty.isEmpty_freeVars_congr h)
  by_cases hatom : ∃ k, c = .cls k
  · obtain ⟨k, rfl⟩ := hatom
    rw [(Ty.same_iff_eq_of_isAtom rfl _).1 h]
  · have hatom' : ¬∃ k, c' = .cls k := by
      rintro ⟨k, rfl⟩
      exact hatom ⟨k, ((Ty.same_iff_eq_of_isAtom rfl _).1 (Ty.same_symm h)).symm⟩
    have hisOpen : ∀ t : Ty, (¬∃ k, t = .cls k) → Γ.isOpen t = !t.freeVars.isEmpty := by
      intro t ht
      cases t with
      | cls k => exact absurd ⟨k, rfl⟩ ht
      | _ => rfl
    rw [hisOpen c hatom, hisOpen c' hatom', hfree]

/-- Containers that are the same are searched alike: for a member, or for a constructor with nothing
to convert. -/
theorem resolve_together (hc : c.same c' = true) (hS : S.SameAnswers S' c c')
    (hshape : shape.Same shape') (hkey : shape.hashable = true)
    (hoffers : ∀ t, S.Offers c name t → t.Searchable h h' bound)
    (hconstructs : ∀ t, S.Constructs c t → t.TypesHashable) {ctor : String}
    (hctor : Text.fold name = Text.fold ctor → bound.isUnbound = true ∨ bound.isNone = true)
    (options : Option SearchMask) :
    Together Γ (Γ.resolve h S ctor c name shape options bound)
      (Γ.resolve h' S' ctor c' name shape' options bound) (Agree FoundAlike) := by
  unfold resolve
  rw [isOpen_congr hc]
  split
  · exact .pure (.ok (.missing rfl))
  refine Together.bind (?_ : Together Γ _ _ (Agree fun r r' : Option Resolution × SearchTrace =>
    Option.Rel Resolution.Alike r.1 r'.1 ∧ r.2.Alike r'.2)) fun r r' hr => ?_
  · -- The name is that of the constructors, or one of members.
    refine (?_ : SearchTogether Γ _ _ (Option.Rel Resolution.Alike)) {} {} ⟨rfl, rfl, rfl⟩
    cases hname : Text.fold name == Text.fold ctor with
    | true =>
      refine .bind (liftExcept_together (hS.constructors _)) fun ts ts' hts => ?_
      refine pick_together hshape hkey hts.1 fun t ht => ?_
      refine ⟨hconstructs t ⟨_, _, hts.2, ht⟩, fun hbound d _ => .inl ?_⟩
      exact (hctor (eq_of_beq hname)).resolve_left (hbound ▸ Bool.false_ne_true)
    | false => exact searchMembers_together hS hshape hkey hoffers _ _
  obtain ⟨o, s⟩ := r
  obtain ⟨o', s'⟩ := r'
  obtain ⟨ho, hs⟩ := hr
  cases ho with
  | some hr => exact .pure (.ok (.found hr))
  | none => exact .pure (.ok (.missing hs.reason))

end ByName

end CallAdapter
