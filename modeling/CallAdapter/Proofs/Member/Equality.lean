import CallAdapter.Member.Reflection
import CallAdapter.Member.Table
import CallAdapter.Proofs.Heap
import CallAdapter.Proofs.Run
import CallAdapter.Proofs.Type.Substitution

/-!
# Members of containers that are the same

Two descriptions of members are the same when they differ in the spelling of types only. Both
hosts describe the members of containers that are the same alike: a class host because it
substitutes bindings that are the same (`Reflection.sameAnswers_source`), a table because it
compares containers under equality of types (`MemberTable.sameAnswers_source`).
-/

namespace CallAdapter

open Ty (SameBindings SameOption)

/-! ## Descriptions -/

structure Parameter.Same (p p' : Parameter) : Prop where
  name : p.name = p'.name
  type : p.type.same p'.type = true
  kind : p.kind = p'.kind

/-- The descriptions are equal up to the spelling of types. -/
structure Target.Same (t t' : Target) : Prop where
  kind : t.kind = t'.kind
  name : t.name = t'.name
  declaring : SameOption t.declaring t'.declaring
  isStatic : t.isStatic = t'.isStatic
  params : List.Forall₂ Parameter.Same t.params t'.params
  result : t.result.same t'.result = true
  assigned : SameOption t.assigned t'.assigned
  isPublic : t.isPublic = t'.isPublic
  impl : t.impl = t'.impl
  isGeneric : t.isGeneric = t'.isGeneric

/-- The accessors of two members are there or missing alike. -/
def SameAccessors (a a' : Bool → Option Target) : Prop :=
  ∀ setter, Option.Rel Target.Same (a setter) (a' setter)

/-- What two sources say about one container each is the same. -/
structure MemberSource.SameAnswers (S S' : MemberSource) (c c' : Ty) : Prop where
  procedures : ∀ name b,
    Agree (List.Forall₂ Target.Same) (S.procedures c name b) (S'.procedures c' name b)
  constructors : ∀ b, Agree (List.Forall₂ Target.Same) (S.constructors c b) (S'.constructors c' b)
  properties : ∀ name b,
    Agree (List.Forall₂ fun p p' => SameAccessors p.accessor p'.accessor)
      (S.properties c name b) (S'.properties c' name b)
  fields : ∀ name b,
    Agree (List.Forall₂ fun f f' => SameAccessors f.accessor f'.accessor)
      (S.fields c name b) (S'.fields c' name b)

theorem sameOption_refl (t : Option Ty) : SameOption t t := by
  cases t with
  | none => exact .none
  | some t => exact .some (Ty.same_refl t)

namespace Target

theorem Same.refl (t : Target) : t.Same t :=
  ⟨rfl, rfl, sameOption_refl _, rfl, List.forall₂_same.2 fun _ _ => ⟨rfl, Ty.same_refl _, rfl⟩,
    Ty.same_refl _, sameOption_refl _, rfl, rfl, rfl⟩

theorem Same.takesReceiver_eq {t t' : Target} (h : t.Same t') :
    t.takesReceiver = t'.takesReceiver := by
  rw [takesReceiver, takesReceiver, h.isStatic, h.kind]

theorem mem_openVars {t : Target} {v : TypeVar} :
    v ∈ t.openVars ↔ (∃ p ∈ t.params, v ∈ p.type.freeVars) ∨ v ∈ t.result.freeVars ∨
      ∃ s, t.assigned = some s ∧ v ∈ s.freeVars := by
  rw [openVars, Ty.mem_distinctVars, List.mem_append, List.mem_append, List.mem_flatMap, or_assoc]
  cases t.assigned <;> simp

theorem mem_openVars_of_same {t t' : Target} (h : t.Same t') {v : TypeVar}
    (hv : v ∈ t.openVars) : v ∈ t'.openVars := by
  rw [mem_openVars] at hv ⊢
  rcases hv with ⟨p, hp, hv⟩ | hv | ⟨s, hs, hv⟩
  · have hparams := h.params
    clear h
    generalize t.params = ps, t'.params = ps' at hparams hp
    left
    induction hparams with
    | nil => cases hp
    | cons hpp _ ih =>
      rcases List.mem_cons.1 hp with rfl | hp
      · exact ⟨_, List.mem_cons_self, (Ty.mem_freeVars_congr hpp.type v).1 hv⟩
      · exact (ih hp).imp fun _ hq => ⟨List.mem_cons_of_mem _ hq.1, hq.2⟩
  · exact .inr (.inl ((Ty.mem_freeVars_congr h.result v).1 hv))
  · have hassigned := h.assigned
    rw [hs] at hassigned
    generalize t'.assigned = o at hassigned
    cases hassigned with
    | some hst => exact .inr (.inr ⟨_, rfl, (Ty.mem_freeVars_congr hst v).1 hv⟩)

theorem sameOption_symm {s t : Option Ty} (h : SameOption s t) : SameOption t s := by
  cases h with
  | none => exact .none
  | some h => exact .some (Ty.same_symm h)

theorem Same.symm {t t' : Target} (h : t.Same t') : t'.Same t :=
  ⟨h.kind.symm, h.name.symm, sameOption_symm h.declaring, h.isStatic.symm,
    (h.params.imp fun _ _ hp => (⟨hp.name.symm, Ty.same_symm hp.type, hp.kind.symm⟩ :
      Parameter.Same _ _)).flip, Ty.same_symm h.result, sameOption_symm h.assigned,
    h.isPublic.symm, h.impl.symm, h.isGeneric.symm⟩

theorem sameOption_trans {r s t : Option Ty} (h : SameOption r s) (h' : SameOption s t) :
    SameOption r t := by
  cases h with
  | none => exact h'
  | some h =>
    cases h' with
    | some h' => exact .some (Ty.same_trans h h')

theorem same_params_trans {ps qs rs : List Parameter} (h : List.Forall₂ Parameter.Same ps qs)
    (h' : List.Forall₂ Parameter.Same qs rs) : List.Forall₂ Parameter.Same ps rs := by
  induction h generalizing rs with
  | nil => exact h'
  | cons hp _ ih =>
    cases h' with
    | cons hp' hps' =>
      exact .cons ⟨hp.name.trans hp'.name, Ty.same_trans hp.type hp'.type, hp.kind.trans hp'.kind⟩
        (ih hps')

theorem Same.trans {t t' t'' : Target} (h : t.Same t') (h' : t'.Same t'') : t.Same t'' where
  kind := h.kind.trans h'.kind
  name := h.name.trans h'.name
  declaring := sameOption_trans h.declaring h'.declaring
  isStatic := h.isStatic.trans h'.isStatic
  params := same_params_trans h.params h'.params
  result := Ty.same_trans h.result h'.result
  assigned := sameOption_trans h.assigned h'.assigned
  isPublic := h.isPublic.trans h'.isPublic
  impl := h.impl.trans h'.impl
  isGeneric := h.isGeneric.trans h'.isGeneric

/-- Descriptions that are the same are marked as generic alike. -/
theorem Same.marked {t t' : Target} (h : t.Same t') : t.marked.Same t'.marked := by
  have hopen : t.openVars.isEmpty = t'.openVars.isEmpty :=
    Ty.isEmpty_congr fun v => ⟨mem_openVars_of_same h, mem_openVars_of_same h.symm⟩
  unfold Target.marked
  rw [hopen]
  split
  · exact h
  · exact { h with isGeneric := rfl }

end Target

/-! ## Bindings of containers -/

section Container

variable {Γ : Program} {c c' : Ty} {m m' : Bindings}

theorem same_zipBindings {bs bs' : Bindings} (hbs : SameBindings bs bs') (h : SameBindings m m') :
    SameBindings (Program.zipBindings bs m) (Program.zipBindings bs' m') := by
  induction hbs generalizing m m' with
  | nil => exact h
  | @cons b b' _ _ hb _ ih =>
    obtain ⟨v, t⟩ := b
    obtain ⟨v', t'⟩ := b'
    obtain ⟨rfl, ht⟩ : v = v' ∧ t.same t' = true := hb
    refine ih ?_
    rw [(h.get? v).isSome_eq]
    split
    · rw [SameBindings, List.forall₂_map_left_iff, List.forall₂_map_right_iff]
      refine h.imp fun e e' he => ?_
      rw [he.1]
      split
      · exact ⟨rfl, ht⟩
      · exact he
    · exact List.rel_append h (.cons ⟨rfl, ht⟩ .nil)

theorem same_zip (vs : List TypeVar) {as bs : List Ty}
    (h : List.Forall₂ (fun a b => a.same b = true) as bs) :
    SameBindings (vs.zip as) (vs.zip bs) := by
  induction h generalizing vs with
  | nil => cases vs <;> exact .nil
  | cons hab _ ih =>
    cases vs with
    | nil => exact .nil
    | cons v vs => exact .cons ⟨rfl, hab⟩ (ih vs)

/-- Adding bindings that are the same, one after the other. -/
theorem same_foldl_setDefault {bs bs' : Bindings} (hbs : SameBindings bs bs')
    (h : SameBindings m m') :
    SameBindings (bs.foldl (fun m b => m.setDefault b.1 b.2) m)
      (bs'.foldl (fun m b => m.setDefault b.1 b.2) m') := by
  induction hbs generalizing m m' with
  | nil => exact h
  | cons hb _ ih =>
    refine ih ?_
    dsimp only
    rw [hb.1]
    exact h.setDefault _ hb.2

theorem same_baseBindings (fuel : Nat) (k : Cls) (h : SameBindings m m') :
    SameBindings (Γ.baseBindings fuel k m) (Γ.baseBindings fuel k m') := by
  induction fuel generalizing k m m' with
  | zero => exact h
  | succ fuel ih =>
    unfold Program.baseBindings
    generalize Γ.spelledBases k = bases
    induction bases generalizing m m' with
    | nil => exact h
    | cons base bases ihbases =>
      rw [List.foldl_cons, List.foldl_cons]
      refine ihbases ?_
      split
      · exact h
      · refine ih _ (same_foldl_setDefault (same_zip _ ?_) h)
        rw [List.forall₂_map_left_iff, List.forall₂_map_right_iff]
        exact List.forall₂_same.2 fun a _ => Ty.same_substitute h a
      · exact h

/-- What is behind types that are the same, and no unions, differs in spelling at most. -/
theorem origin?_congr (h : c.same c' = true) (hc : c.isUnion = false) :
    c.origin? = c'.origin? := by
  cases c with
  | union p ms => cases hc
  | applied k as =>
    obtain ⟨bs, rfl, -⟩ := Ty.eq_applied_of_same h
    rfl
  | list as =>
    obtain ⟨bs, rfl, -⟩ := Ty.eq_list_of_same h
    rfl
  | token a =>
    obtain ⟨b, rfl, -⟩ := Ty.eq_token_of_same h
    rfl
  | _ => rw [(Ty.same_iff_eq_of_isAtom rfl _).1 h]

theorem split_of_not_class (hc : ¬∃ o, Program.containerClass c = .cls o) :
    Γ.split c = (Program.containerClass c, Γ.argumentBindings c) := by
  unfold Program.split
  split
  · exact absurd ⟨_, ‹_›⟩ hc
  · rfl

/-- The class behind containers that are the same, and what they bind, is the same. -/
theorem same_split (h : c.same c' = true) (hc : c.isUnion = false) :
    (Γ.split c).1.same (Γ.split c').1 = true ∧ SameBindings (Γ.split c).2 (Γ.split c').2 := by
  have ho := origin?_congr h hc
  have hclass : (Program.containerClass c).same (Program.containerClass c') = true := by
    unfold Program.containerClass
    rw [ho]
    split
    · exact Ty.same_refl _
    · exact h
  have hdirect : SameBindings (Γ.argumentBindings c) (Γ.argumentBindings c') := by
    unfold Program.argumentBindings
    rw [ho]
    split
    · rename_i o horigin
      have hform : c.origin ≠ .form .literal := by
        rw [Ty.origin, ho, horigin]
        exact Ty.noConfusion
      exact same_zipBindings (same_zip _ (Ty.args_congr h hc hform)) .nil
    · exact .nil
  by_cases hk : ∃ o, Program.containerClass c = .cls o
  · obtain ⟨o, hk⟩ := hk
    have hk' : Program.containerClass c' = .cls o :=
      ((Ty.same_iff_eq_of_isAtom rfl _).1 (hk ▸ hclass)).symm
    unfold Program.split
    rw [hk, hk']
    exact ⟨Ty.same_refl _, same_baseBindings _ _ hdirect⟩
  · have hk' : ¬∃ o, Program.containerClass c' = .cls o := by
      rintro ⟨o, ho⟩
      exact hk ⟨o, ((Ty.same_iff_eq_of_isAtom rfl _).1 (ho ▸ Ty.same_symm hclass)).symm⟩
    rw [split_of_not_class hk, split_of_not_class hk']
    exact ⟨hclass, hdirect⟩

end Container

/-! ## Members of classes -/

namespace Reflection

section Describing

variable {Γ : Program} {h h' : Heap} {container container' c : Ty} {m m' : Bindings}

theorem same_seen (hm : SameBindings m m') (t : Ty) : (seen m t).same (seen m' t) = true :=
  Ty.same_normalize (Ty.same_substitute hm _)

theorem same_receiverType (hcontainer : container.same container' = true) (c : Ty) (owner : Cls) :
    (receiverType container c owner).same (receiverType container' c owner) = true := by
  unfold receiverType
  split
  · split
    · exact hcontainer
    · exact Ty.same_refl _
  · exact Ty.same_refl _

theorem same_parameters (hm : SameBindings m m') (ps : ParameterList)
    (hints : List (String × Ty)) :
    List.Forall₂ Parameter.Same (parameters ps hints m) (parameters ps hints m') := by
  unfold parameters
  refine List.rel_filterMap (R := Eq) (P := Parameter.Same) ?_ (List.forall₂_same.2 fun _ _ => rfl)
  rintro ⟨name, passing⟩ _ rfl
  have hseen := same_seen hm ((Program.hint? hints name).getD .any)
  cases passing with
  | variadicKeyword => exact .none
  | variadic =>
    refine .some ⟨rfl, (Ty.same_applied_iff ..).2 ⟨rfl, .of_forall₂ nofun ?_⟩, rfl⟩
    exact .cons hseen (.cons (Ty.same_refl _) .nil)
  | _ => exact .some ⟨rfl, hseen, rfl⟩

theorem same_resultType (hm : SameBindings m m') (s : Signature) (hints : List (String × Ty)) :
    (resultType s hints m).same (resultType s hints m') = true := by
  unfold resultType
  split
  · exact same_seen hm _
  · split
    · exact same_seen hm _
    · exact Ty.same_refl _

theorem same_procedure? (hcontainer : container.same container' = true) (hm : SameBindings m m')
    (f : Found) :
    Option.Rel Target.Same (procedure? Γ container c m f) (procedure? Γ container' c m' f) := by
  have hmarked : ∀ (sig : Signature) (ps : ParameterList) (hints : List (String × Ty)) isStatic
      impl, Target.Same
        (Target.marked
          { kind := .procedure, name := f.name
            declaring := some (receiverType container c f.owner), isStatic := isStatic
            params := parameters ps hints m, result := resultType sig hints m
            isPublic := isPublicName f.name, impl := .callable impl })
        (Target.marked
          { kind := .procedure, name := f.name
            declaring := some (receiverType container' c f.owner), isStatic := isStatic
            params := parameters ps hints m', result := resultType sig hints m'
            isPublic := isPublicName f.name, impl := .callable impl }) :=
    fun sig ps hints isStatic impl => Target.Same.marked
      ⟨rfl, rfl, .some (same_receiverType hcontainer c f.owner), rfl, same_parameters hm ps hints,
        same_resultType hm sig hints, .none, rfl, rfl, rfl⟩
  unfold procedure?
  cases f.entry with
  | none => exact .none
  | some v =>
    cases v with
    | code callee =>
      cases callee with
      | function id | staticMethod id | classMethod id =>
        cases hsig : Γ.functionSignature id with
        | none => simp [hsig]
        | some sig => simpa [hsig] using Option.Rel.some (hmarked sig _ _ _ _)
      | builtinMethod b n =>
        cases hps : b.methodParametersOf n with
        | none => simp [hps]
        | some ps => simpa [hps] using Option.Rel.some (hmarked ⟨ps, false⟩ _ _ _ _)
      | _ => exact .none
    | _ => exact .none

theorem same_getterType (hm : SameBindings m m') (getter : Option Callee) :
    (getterType Γ m getter).same (getterType Γ m' getter) = true := by
  unfold getterType
  split
  · split
    · exact same_resultType hm _ _
    · exact Ty.same_refl _
  · exact Ty.same_refl _

theorem same_setterType (hm : SameBindings m m') (getter : Option Callee) (setter : Option Nat) :
    (setterType Γ m getter setter).same (setterType Γ m' getter setter) = true := by
  unfold setterType
  split
  · exact same_seen hm _
  · exact same_getterType hm getter

theorem same_property? {receiver receiver' : Ty} (hreceiver : receiver.same receiver' = true)
    (hm : SameBindings m m') (name : String) (isPublic : Bool) (entry : Value) :
    Option.Rel (fun p p' => SameAccessors p.accessor p'.accessor)
      (property? Γ receiver m name isPublic entry)
      (property? Γ receiver' m' name isPublic entry) := by
  unfold property?
  cases accessorsOf? entry with
  | none => exact .none
  | some accessors =>
    obtain ⟨getter, setter⟩ := accessors
    refine .some fun wanted => ?_
    cases wanted with
    | false =>
      cases getter with
      | none => exact .none
      | some g =>
        refine .some (Target.Same.marked ?_)
        exact ⟨rfl, rfl, .some hreceiver, rfl, .nil, same_getterType hm _, .none, rfl, rfl, rfl⟩
    | true =>
      cases setter with
      | none => exact .none
      | some id =>
        refine .some (Target.Same.marked ?_)
        exact ⟨rfl, rfl, .some hreceiver, rfl, .nil, Ty.same_refl _,
          .some (same_setterType hm _ _), rfl, rfl, rfl⟩

/-- Fields that differ in the spelling of types only. -/
structure SameField (f f' : FieldInfo) : Prop where
  name : f.name = f'.name
  declaring : f.declaring.same f'.declaring = true
  type : f.type.same f'.type = true
  isStatic : f.isStatic = f'.isStatic
  readOnly : f.readOnly = f'.readOnly
  isPublic : f.isPublic = f'.isPublic
  isGeneric : f.isGeneric = f'.isGeneric

theorem SameField.accessor {f f' : FieldInfo} (h : SameField f f') :
    SameAccessors f.accessor f'.accessor := by
  intro setter
  unfold FieldInfo.accessor
  rw [h.readOnly, h.name, h.isStatic, h.isPublic, h.isGeneric]
  split
  · exact .none
  split
  · exact .some ⟨rfl, rfl, .some h.declaring, rfl, .nil, Ty.same_refl _, .some h.type, rfl, rfl,
      rfl⟩
  · exact .some ⟨rfl, rfl, .some h.declaring, rfl, .nil, h.type, .none, rfl, rfl, rfl⟩

theorem same_fieldType (hm : SameBindings m m') (f : Found) :
    (fieldType Γ m f).same (fieldType Γ m' f) = true := by
  unfold fieldType
  split
  · exact same_seen hm _
  · exact Ty.same_refl _
  · exact Ty.same_refl _

theorem same_field? (hcontainer : container.same container' = true) (hm : SameBindings m m')
    (f : Found) :
    Option.Rel SameField (field? Γ container c m f) (field? Γ container' c m' f) := by
  have htype := same_fieldType (Γ := Γ) hm f
  unfold field?
  split
  · exact .none
  cases fieldScope? Γ f with
  | none => exact .none
  | some isStatic =>
    refine .some ⟨rfl, ?_, htype, rfl, rfl, rfl, ?_⟩
    · dsimp only
      split
      · exact Ty.same_refl _
      · exact same_receiverType hcontainer c f.owner
    · exact congrArg (! ·) (Ty.isEmpty_freeVars_congr htype)

/-! ### Look-ups -/

theorem lookup_congr (hstatics : h.statics = h'.statics) {s t : Ty} (hst : s.same t = true)
    (name : String) (b : SearchMask) : lookup Γ h s name b = lookup Γ h' t name b := by
  have hnames : namesOf Γ h = namesOf Γ h' := by
    funext k
    unfold namesOf
    rw [Heap.entries_congr hstatics]
  unfold lookup
  rw [hnames, Ty.isClass_congr hst]
  split
  · rfl
  · rename_i hclass
    rw [Bool.not_eq_true', Bool.not_eq_false] at hclass
    rw [Ty.eq_of_isClass hst (Ty.isClass_congr hst ▸ hclass)]

/-- A look-up in something that is no class finds nothing. -/
theorem lookup_of_not_isClass {s : Ty} (hs : s.isClass = false) (name : String) (b : SearchMask) :
    lookup Γ h s name b = [] := by
  unfold lookup
  rw [hs]
  rfl

theorem nearestMaker_congr (hstatics : h.statics = h'.statics) (k : Cls) (name : String) :
    Γ.nearestMaker h k name = Γ.nearestMaker h' k name := by
  unfold Program.nearestMaker
  simp only [Heap.entries_congr hstatics]

theorem classSignature_congr (hstatics : h.statics = h'.statics) (k : Cls) :
    Γ.classSignature h k = Γ.classSignature h' k := by
  unfold Program.classSignature
  simp only [nearestMaker_congr hstatics]

theorem constructorHints_congr (hstatics : h.statics = h'.statics) (k : Cls) :
    constructorHints Γ h k = constructorHints Γ h' k := by
  unfold constructorHints
  simp only [nearestMaker_congr hstatics]

/-- A look-up in containers that are the same, seen through each. -/
theorem same_filterMap_lookup {α : Type} {rel : α → α → Prop} (hstatics : h.statics = h'.statics)
    (hc : container.same container' = true) (hu : container.isUnion = false)
    {f : Ty → Ty → Bindings → Found → Option α}
    (hf : ∀ {k m m'} x, SameBindings m m' →
      Option.Rel rel (f container k m x) (f container' k m' x)) (name : String) (b : SearchMask) :
    List.Forall₂ rel
      ((lookup Γ h (Γ.split container).1 name b).filterMap
        (f container (Γ.split container).1 (Γ.split container).2))
      ((lookup Γ h' (Γ.split container').1 name b).filterMap
        (f container' (Γ.split container').1 (Γ.split container').2)) := by
  obtain ⟨hclass, hm⟩ := same_split (Γ := Γ) hc hu
  rw [← lookup_congr hstatics hclass]
  cases hk : (Γ.split container).1.isClass with
  | false =>
    rw [lookup_of_not_isClass hk]
    exact .nil
  | true =>
    rw [← Ty.eq_of_isClass hclass hk]
    refine List.rel_filterMap (R := Eq) (P := rel) ?_ (List.forall₂_same.2 fun _ _ => rfl)
    rintro x _ rfl
    exact hf x hm

theorem same_filter {α : Type} {rel : α → α → Prop} {p : α → Bool} {as as' : List α}
    (hp : ∀ a a', rel a a' → p a = p a') (has : List.Forall₂ rel as as') :
    List.Forall₂ rel (as.filter p) (as'.filter p) :=
  List.rel_filter (R := rel) (fun a a' haa => (Bool.eq_iff_iff.1 (hp a a' haa))) has

theorem same_constructors (hstatics : h.statics = h'.statics)
    (hc : container.same container' = true) (hu : container.isUnion = false) (b : SearchMask) :
    List.Forall₂ Target.Same (constructors Γ h container b) (constructors Γ h' container' b) := by
  obtain ⟨hclass, hm⟩ := same_split (Γ := Γ) hc hu
  unfold constructors
  generalize Γ.split container = s, Γ.split container' = s' at hclass hm
  obtain ⟨k, m⟩ := s
  obtain ⟨k', m'⟩ := s'
  dsimp only at hclass hm ⊢
  rw [← Ty.isClass_congr hclass]
  split
  · exact .nil
  · rename_i hk
    rw [Bool.not_eq_true', Bool.not_eq_false] at hk
    rw [← Ty.eq_of_isClass hclass hk]
    cases k with
    | cls c =>
      dsimp only
      split
      · exact .nil
      · rw [classSignature_congr hstatics, constructorHints_congr hstatics]
        split
        · exact .nil
        · refine .cons (Target.Same.marked ?_) .nil
          exact ⟨rfl, rfl, .some hc, rfl, same_parameters hm _ _, hc, .none, rfl, rfl, rfl⟩
    | _ => exact .nil

/-- Containers that are the same have members that are the same, whatever became of instances. -/
theorem sameAnswers_source (hstatics : h.statics = h'.statics)
    (hc : container.same container' = true) (hu : container.isUnion = false) :
    (source Γ h).SameAnswers (source Γ h') container container' where
  procedures name b := by
    refine .ok (same_filter ?_ ?_)
    · intro t t' htt
      rw [htt.isStatic, htt.isPublic]
    · exact same_filterMap_lookup hstatics hc hu (fun x hm => same_procedure? hc hm x) name b
  constructors b := .ok (same_constructors hstatics hc hu b)
  properties name b := by
    refine .ok (same_filterMap_lookup (f := fun container k m (x : Found) =>
      let isPublic := isPublicName x.name
      if b.admits false isPublic then
        x.entry.bind fun e => property? Γ (receiverType container k x.owner) m x.name isPublic e
      else none) hstatics hc hu ?_ name b)
    intro k m m' x hm
    dsimp only
    split
    · cases x.entry with
      | none => exact .none
      | some v => exact same_property? (same_receiverType hc _ _) hm _ _ _
    · exact .none
  fields name b := by
    have hfields := same_filterMap_lookup (Γ := Γ) hstatics hc hu
      (fun x hm => same_field? (Γ := Γ) hc hm x) name b
    refine .ok ((same_filter (p := fun f => b.admits f.isStatic f.isPublic) ?_ hfields).imp ?_)
    · intro f f' hff
      rw [hff.isStatic, hff.isPublic]
    · exact fun f f' hff => hff.accessor

end Describing

end Reflection

/-! ## Members of tables -/

namespace MemberTable

theorem same_select {α : Type} {rel : α → α → Prop} (hrel : ∀ a, rel a a)
    (entries : List (TableEntry α)) {c c' : Ty} (h : c.same c' = true)
    (admits : TableEntry α → Bool) :
    Agree (List.Forall₂ rel) (select entries c admits) (select entries c' admits) := by
  have heq : select entries c admits = select entries c' admits := by
    unfold select checkKey
    rw [Ty.hashable_congr h]
    simp only [Ty.same_congr (Ty.same_refl _) h]
  rw [heq]
  cases select entries c' admits with
  | error e => exact .error
  | ok as => exact .ok (List.forall₂_same.2 fun a _ => hrel a)

theorem sameAccessors_refl (a : Bool → Option Target) : SameAccessors a a := by
  intro setter
  cases a setter with
  | none => exact .none
  | some t => exact .some (.refl t)

/-- Containers that are the same are one container of a table. -/
theorem sameAnswers_source (t : MemberTable) {c c' : Ty} (h : c.same c' = true) :
    t.source.SameAnswers t.source c c' where
  procedures _ _ := same_select .refl _ h _
  constructors _ := same_select .refl _ h _
  properties _ _ := same_select (fun p => sameAccessors_refl p.accessor) _ h _
  fields _ _ := same_select (fun f => sameAccessors_refl f.accessor) _ h _

end MemberTable

end CallAdapter
