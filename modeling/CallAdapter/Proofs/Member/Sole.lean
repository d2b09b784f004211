import CallAdapter.Proofs.Adapter.Acceptance
import CallAdapter.Proofs.Member.Selection

/-!
# Searches among one member

A source may know a single member by a name in a category. A search for the name in that category
then finds it exactly where the shape fits it (`resolve_sole`), whatever the planner was asked
before.
-/

namespace CallAdapter

open Program

/-- The member has no open type variables, and the shape fits it. -/
def Program.Serves (Γ : Program) (S : Shape) (t : Target) : Prop :=
  t.isGeneric = false ∧ Γ.Accepts S t

/-- From a used planner, the search ends with one, and it finds a member exactly where the condition
holds. -/
def FindsIff (Γ : Program) (x : SearchM (Option Resolution)) (P : Prop) : Prop :=
  ∀ s, Keeps (Planner.Used Γ) (x.run s) fun r => (∃ found s', r = .ok (some found, s')) ↔ P

namespace FindsIff

variable {Γ : Program} {x : SearchM (Option Resolution)} {P Q : Prop}

theorem congr (hx : FindsIff Γ x P) (hPQ : P ↔ Q) : FindsIff Γ x Q :=
  fun s => (hx s).mono fun _ hr => hr.trans hPQ

theorem nothing : FindsIff Γ (pure none) False :=
  fun _ => Keeps.pure (iff_of_false (by simp) id)

/-- A search that goes on in vain where another found nothing. -/
theorem orElse {f : Option Resolution → SearchM (Option Resolution)} (hx : FindsIff Γ x P)
    (hfound : ∀ r, f (some r) = pure (some r)) (hnone : FindsIff Γ (f none) False) :
    FindsIff Γ (x >>= f) P := by
  intro s
  refine Keeps.bind (hx s) (fun e he => ?_) fun a ha => ?_
  · simpa using he
  obtain ⟨found, s'⟩ := a
  cases found with
  | some r =>
    have hP : P := ha.1 ⟨r, s', rfl⟩
    show Keeps _ ((f (some r)).run s') _
    rw [hfound]
    exact Keeps.pure (by simp [hP])
  | none =>
    have hP : ¬P := fun hP => by simpa using ha.2 hP
    exact (hnone s').mono fun r hr => hr.trans (iff_of_false id hP)

end FindsIff

section Candidates

variable {Γ : Program} {h : Heap} {S : Shape} {t : Target}

theorem pick_nothing : FindsIff Γ (Γ.pick h S .unbound []) False := .nothing

theorem viable_sole (s : SearchTrace) :
    Keeps (Planner.Used Γ) ((Γ.viable h S .unbound [t]).run s) fun r =>
      (∃ rs s', r = .ok (rs, s') ∧ rs ≠ []) ↔ Γ.Serves S t := by
  unfold viable Serves
  by_cases hgeneric : t.isGeneric = true
  · rw [if_pos hgeneric]
    exact Keeps.pure (by simp [hgeneric])
  rw [if_neg hgeneric]
  have hclosed : t.isGeneric = false := by simpa using hgeneric
  have hplanned : Keeps (Planner.Used Γ)
      ((liftM (Γ.planSignature h S t .unbound).run : SearchM (Except Mismatch SignaturePlan)).run s)
      fun r => (∃ plan s', r = .ok (.ok plan, s')) ↔ Γ.Accepts S t :=
    Keeps.bind (planSignature_matchesIff (h := h) S t) (fun e he => by simpa using he)
      fun r hr => Keeps.pure (by simpa using hr)
  refine Keeps.bind hplanned (fun e he => ?_) fun a ha => ?_
  · simpa [hclosed] using he
  obtain ⟨r, s'⟩ := a
  cases r with
  | error m => exact Keeps.pure (by simpa [hclosed] using ha)
  | ok plan => exact Keeps.pure (by simpa [hclosed] using ha)

theorem pick_sole (t : Target) : FindsIff Γ (Γ.pick h S .unbound [t]) (Γ.Serves S t) := by
  intro s
  refine Keeps.bind (viable_sole s) (fun e he => by simpa using he) fun a ha => Keeps.pure ?_
  obtain ⟨rs, s'⟩ := a
  rw [← ha]
  cases hbest : cheapest? (fun r : Resolution => Cost.of r.plan.plans) rs with
  | none => simp [cheapest?_eq_none.1 hbest]
  | some r =>
    have hrs : rs ≠ [] := fun hrs => by simp [cheapest?_eq_none.2 hrs] at hbest
    simp [hrs]

/-- The member is found among those of the class or among those of instances. -/
theorem pickScoped_sole (needsReceiver : Bool)
    (hkind : needsReceiver = true → t.kind ≠ .constructor) :
    FindsIff Γ (Γ.pickScoped h S .unbound needsReceiver [t]) (Γ.Serves S t) := by
  unfold pickScoped
  cases hstatic : t.isStatic with
  | true =>
    simp only [List.filter_cons, hstatic, if_true, List.filter_nil, Bool.not_true,
      Bool.false_eq_true, if_false]
    refine FindsIff.orElse (pick_sole t) (fun r => rfl) ?_
    dsimp only
    split
    · exact .nothing
    · exact pick_nothing
  | false =>
    simp only [List.filter_cons, hstatic, if_true, List.filter_nil, Bool.not_false,
      Bool.false_eq_true, if_false]
    show FindsIff Γ (if needsReceiver && S.arity == 0 then pure none
      else Γ.pick h S .unbound [t]) (Γ.Serves S t)
    by_cases hskipped : (needsReceiver && S.arity == 0) = true
    · -- without parameters there is none for the receiver
      rw [if_pos hskipped]
      obtain ⟨hneeds, harity⟩ := Bool.and_eq_true_iff.1 hskipped
      have hreceiver : t.takesReceiver = true := by
        simp [Target.takesReceiver, hstatic, hkind hneeds]
      refine FindsIff.nothing.congr (iff_of_false id fun hserves => ?_)
      have hlength : S.arity = t.inputs.length := hserves.2.inputs.length_eq
      rw [Target.length_inputs, Target.slotCount, hreceiver, if_pos rfl] at hlength
      have : S.arity = 0 := by simpa using harity
      omega
    · rw [if_neg hskipped]
      exact pick_sole t

/-- An accessor that may be missing. -/
theorem accessors_sole (accessor : Option Target) :
    FindsIff Γ (accessors [accessor] >>= fun ts => Γ.pickScoped h S .unbound false ts)
      (∃ t ∈ accessor, Γ.Serves S t) := by
  cases accessor with
  | none =>
    intro s
    exact (FindsIff.nothing { s with accessorMissing := true }).mono
      fun r hr => hr.trans (by simp)
  | some t =>
    exact FindsIff.congr (pickScoped_sole false nofun) (by simp)

end Candidates

/-! ## By name -/

namespace Member

/-- The member itself, or the accessor of a property or a field. -/
def chosen (setter : Bool) : Member → Option Target
  | target t => some t
  | property p => p.accessor setter
  | field f => f.accessor setter

/-- The categories in which a search finds the member. -/
def category : Member → SearchMask
  | target _ => SearchFlag.invokeMethod.mask
  | property _ => SearchFlag.getProperty.mask ||| SearchFlag.setProperty.mask
  | field _ => SearchFlag.getField.mask ||| SearchFlag.setField.mask

/-- A search in the category of a member is among members of its sort. -/
theorem has_category (member : Member) (setter : Bool) :
    (member.category.has .invokeMethod,
      member.category.has (if setter then .setProperty else .getProperty),
      member.category.has (if setter then .setField else .getField)) =
        match member with
        | target _ => (true, false, false)
        | property _ => (false, true, false)
        | field _ => (false, false, true) := by
  cases member <;> cases setter <;> simp only [category] <;> decide

end Member

/-- The source knows one member by the name in a category. -/
inductive MemberSource.Knows (S : MemberSource) (c : Ty) (name : String) : Member → Prop
  | target {t : Target} : S.procedures c name .standard = .ok [t] → t.kind ≠ .constructor →
      S.Knows c name (.target t)
  | property {p : PropertyInfo} : S.properties c name .standard = .ok [p] →
      S.Knows c name (.property p)
  | field {f : FieldInfo} : S.fields c name .standard = .ok [f] → S.Knows c name (.field f)

section ByName

variable {Γ : Program} {h : Heap} {S : MemberSource} {c : Ty} {name : String} {shape : Shape}
  {member : Member}

theorem orElseCategory_unasked (found : Option Resolution) (search : SearchM (Option Resolution)) :
    orElseCategory found false search = pure found := by
  cases found <;> rfl

theorem searchMembers_sole (hknows : S.Knows c name member) :
    FindsIff Γ (Γ.searchMembers h S c name shape member.category .standard .unbound)
      (∃ t ∈ member.chosen shape.returnsVoid, Γ.Serves shape t) := by
  have hcategory := member.has_category shape.returnsVoid
  unfold searchMembers
  cases hknows with
  | @target t hprocedures hkind =>
    obtain ⟨hmethod, hproperty, hfield⟩ := by simpa only [Prod.mk.injEq] using hcategory
    simp only [hmethod, hproperty, hfield, orElseCategory_unasked, bind_pure, hprocedures]
    exact FindsIff.congr (pickScoped_sole true fun _ => hkind) (by simp [Member.chosen])
  | @property p hproperties =>
    obtain ⟨hmethod, hproperty, hfield⟩ := by simpa only [Prod.mk.injEq] using hcategory
    simp only [hmethod, hproperty, hfield, orElseCategory_unasked, bind_pure, pure_bind,
      hproperties]
    exact accessors_sole (p.accessor shape.returnsVoid)
  | @field f hfields =>
    obtain ⟨hmethod, hproperty, hfield⟩ := by simpa only [Prod.mk.injEq] using hcategory
    simp only [hmethod, hproperty, hfield, orElseCategory_unasked, pure_bind, hfields]
    exact accessors_sole (f.accessor shape.returnsVoid)

theorem split_category (member : Member) :
    SearchMask.split (some member.category) = (member.category, .standard) := by
  cases member <;> simp only [Member.category] <;> decide

/-- A search for the one member of its category finds it where the shape fits it. -/
theorem resolve_sole (hopen : Γ.isOpen c = false) {ctor : String}
    (hname : Text.fold name ≠ Text.fold ctor) (hknows : S.Knows c name member) {p : Planner}
    (hp : p.Used Γ) :
    (∃ r, ((Γ.resolve h S ctor c name shape (some member.category) .unbound).run.run p).1 =
        .ok (.ok r)) ↔
      ∃ t ∈ member.chosen shape.returnsVoid, Γ.Serves shape t := by
  have hsearch : FindsIff Γ (Γ.searchMembers h S c name shape member.category .standard .unbound)
      (∃ t ∈ member.chosen shape.returnsVoid, Γ.Serves shape t) := searchMembers_sole hknows
  obtain ⟨-, hfinds⟩ := hsearch {} p hp
  rw [← hfinds, run_resolve hopen hname, split_category]
  dsimp only
  generalize ((Γ.searchMembers h S c name shape member.category .standard .unbound).run
    {}).run.run p = out
  obtain ⟨found, q⟩ := out
  rcases found with e | ⟨_ | r, s⟩
  · simp [Except.map]
  · simp [Except.map, answerOf]
  · simp [Except.map, answerOf]

end ByName

end CallAdapter
