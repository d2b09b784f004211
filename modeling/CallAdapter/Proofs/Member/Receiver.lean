import CallAdapter.Proofs.Member.Lockstep

/-!
# What offered members receive

A member that a container offers receives the container itself or a class (`OfferedBy`): a class
host describes members so, and registrations in a table do. A container that is no union after
normalization, nor a cell of one, therefore offers members that capture values alike on every
planner (`OfferedBy.searchable`).
-/

namespace CallAdapter

open Program

/-- What the member receives is the container or a class. -/
structure Target.OfferedBy (c : Ty) (t : Target) : Prop where
  kind : t.kind ≠ .constructor
  receiver : t.receiverType.same c = true ∨ ∃ k, t.receiverType = .cls k

namespace Target

variable {c c' : Ty} {t : Target} {h h' : Heap} {bound : Value}

theorem OfferedBy.marked (ht : t.OfferedBy c) : t.marked.OfferedBy c := by
  unfold Target.marked
  split
  · exact ht
  · exact ⟨ht.kind, ht.receiver⟩

theorem OfferedBy.congr (ht : t.OfferedBy c) (hc : c.same c' = true) : t.OfferedBy c' :=
  ⟨ht.kind, ht.receiver.imp_left fun hr => Ty.same_trans hr hc⟩

/-- A receiver comes first among the inputs of a member of instances. -/
theorem OfferedBy.head?_inputs (ht : t.OfferedBy c) (hinstance : t.isStatic = false) :
    t.inputs.head? = some t.receiverType := by
  have hreceiver : t.takesReceiver = true := by
    rw [takesReceiver, hinstance, Bool.not_false, Bool.true_and, bne_iff_ne]
    exact ht.kind
  unfold inputs
  rw [if_pos hreceiver]
  rfl

theorem OfferedBy.receiver_content (ht : t.OfferedBy c)
    (hc : c.content.normalize.isUnion = false) :
    t.receiverType.content.normalize.isUnion = false := by
  rcases ht.receiver with hr | ⟨k, hk⟩
  · rw [Ty.isUnion_congr (Ty.same_normalize (Ty.same_content hr)), hc]
  · rw [hk, Ty.content]
    split
    · rfl
    · rfl

/-- A member that a container offers is searchable, unless a value is captured through a union. -/
theorem OfferedBy.searchable (ht : t.OfferedBy c) (hkeys : t.TypesHashable) (hheap : h.Alike h')
    (hbound : bound.isUnbound = true ∨ bound.isNone = true ∨
      c.content.normalize.isUnion = false) : t.Searchable h h' bound := by
  refine ⟨hkeys, fun hinstance hcaptured d hd => ?_⟩
  rw [ht.head?_inputs hinstance, Option.mem_some_iff] at hd
  subst hd
  rcases hbound with hunbound | hnone | hc
  · exact absurd hunbound (hcaptured ▸ Bool.false_ne_true)
  · exact .inl hnone
  · exact .inr ⟨hheap, ht.receiver_content hc⟩

end Target

/-! ## Accessors -/

/-- An accessor of a property is made from its setter or from its getter. -/
theorem PropertyInfo.accessor_cases {α β : Type} {p : PropertyInfo} {getter : Option α}
    {assigner : Option β} {get : α → Target} {set : β → Target}
    (hgetter : p.getter = getter.map get) (hsetter : p.setter = assigner.map set) {setter : Bool}
    {t : Target} (ht : p.accessor setter = some t) :
    (setter = true ∧ ∃ b, assigner = some b ∧ set b = t) ∨
      setter = false ∧ ∃ a, getter = some a ∧ get a = t := by
  cases setter with
  | true => exact .inl ⟨rfl, Option.map_eq_some_iff.1 (hsetter.symm.trans ht)⟩
  | false => exact .inr ⟨rfl, Option.map_eq_some_iff.1 (hgetter.symm.trans ht)⟩

/-- The accessors of a field differ in the kind, and in whether they give the value or take it. -/
theorem FieldInfo.eq_of_accessor {f : FieldInfo} {setter : Bool} {t : Target}
    (ht : f.accessor setter = some t) :
    t = { kind := if setter then .fieldSetter else .fieldGetter, name := f.name,
          declaring := some f.declaring, isStatic := f.isStatic,
          result := if setter then .none else f.type,
          assigned := if setter then some f.type else none, isPublic := f.isPublic,
          impl := .attribute f.name, isGeneric := f.isGeneric } := by
  unfold accessor at ht
  split at ht
  · cases ht
  cases setter with
  | true => exact (Option.some.inj ht).symm
  | false => exact (Option.some.inj ht).symm

/-! ## Classes -/

/-- Reading the code from an instance binds it to the instance. -/
inductive Callee.Binds : Callee → Prop
  | function (id : Nat) : Callee.Binds (.function id)
  | builtinMethod (b : Builtin) (n : String) : Callee.Binds (.builtinMethod b n)

namespace Reflection

variable {Γ : Program} {h : Heap} {c : Ty} {name : String} {t : Target}

theorem same_receiverType_or (k : Ty) (owner : Cls) :
    (receiverType c k owner).same c = true ∨ ∃ o, receiverType c k owner = .cls o := by
  unfold receiverType
  split
  · split
    · exact .inl (Ty.same_refl c)
    · exact .inr ⟨_, rfl⟩
  · exact .inr ⟨_, rfl⟩

theorem offeredBy_of_receiver {k : Ty} {owner : Cls} (hkind : t.kind ≠ .constructor)
    (ht : t.declaring = some (receiverType c k owner)) : t.OfferedBy c := by
  refine ⟨hkind, ?_⟩
  rw [Target.receiverType, ht]
  exact same_receiverType_or k owner

/-- What an entry is described as, before it is marked: a procedure with the types of a signature,
which calls the entry itself if it is one of instances. -/
structure IsProcedure (Γ : Program) (c k : Ty) (m : Bindings) (f : Found) (callee : Callee)
    (x : Target) : Prop where
  entry : f.entry = some (.code callee)
  kind : x.kind = .procedure
  name : x.name = f.name
  declaring : x.declaring = some (receiverType c k f.owner)
  params : ∃ ps, x.params = parameters ps (hintsOf Γ callee) m
  result : ∃ sig, x.result = resultType sig (hintsOf Γ callee) m
  assigned : x.assigned = none
  unmarked : x.isGeneric = false
  binds : x.isStatic = false → callee.Binds ∧ x.impl = .callable (.code callee)

/-- A procedure is marked where it has open type variables. -/
theorem exists_marked_of_procedure? {k : Ty} {m : Bindings} {f : Found}
    (ht : procedure? Γ c k m f = some t) :
    ∃ callee x, t = Target.marked x ∧ IsProcedure Γ c k m f callee x := by
  unfold procedure? at ht
  cases hentry : f.entry with
  | none => simp [hentry] at ht
  | some v =>
    cases v with
    | code callee =>
      cases callee with
      | function id | staticMethod id | classMethod id =>
        cases hsig : Γ.functionSignature id with
        | none => simp [hentry, hsig] at ht
        | some sig =>
          simp only [hentry, hsig, Option.bind_eq_bind, Option.bind_some, Option.some.injEq] at ht
          exact ⟨_, _, ht.symm, hentry, rfl, rfl, rfl, ⟨_, rfl⟩, ⟨_, rfl⟩, rfl, rfl,
            fun hinstance => by first | exact ⟨.function id, rfl⟩ | cases hinstance⟩
      | builtinMethod b n =>
        cases hps : b.methodParametersOf n with
        | none => simp [hentry, hps] at ht
        | some ps =>
          simp only [hentry, hps, Option.bind_eq_bind, Option.bind_some, Option.some.injEq] at ht
          exact ⟨_, _, ht.symm, hentry, rfl, rfl, rfl, ⟨_, rfl⟩, ⟨⟨ps, false⟩, rfl⟩, rfl,
            rfl, fun _ => ⟨.builtinMethod b n, rfl⟩⟩
      | _ => simp [hentry] at ht
    | _ => simp [hentry] at ht

theorem offeredBy_procedure? {k : Ty} {m : Bindings} {f : Found}
    (ht : procedure? Γ c k m f = some t) : t.OfferedBy c := by
  obtain ⟨callee, x, rfl, hx⟩ := exists_marked_of_procedure? ht
  exact (offeredBy_of_receiver (by rw [hx.kind]; decide) hx.declaring).marked

/-- An accessor of a property is one of instances, marked where it has open type variables. -/
theorem exists_marked_of_property? {receiver : Ty} {m : Bindings} {isPublic setter : Bool}
    {entry : Value} {p : PropertyInfo} (hp : property? Γ receiver m name isPublic entry = some p)
    (ht : p.accessor setter = some t) : ∃ x : Target, t = x.marked ∧ x.kind ≠ .constructor ∧
      x.declaring = some receiver ∧ x.isStatic = false := by
  unfold property? at hp
  obtain ⟨⟨getter, assigner⟩, -, rfl⟩ := Option.map_eq_some_iff.1 hp
  rcases PropertyInfo.accessor_cases rfl rfl ht with ⟨-, id, -, rfl⟩ | ⟨-, g, -, rfl⟩
  · exact ⟨_, rfl, by nofun, rfl, rfl⟩
  · exact ⟨_, rfl, by nofun, rfl, rfl⟩

theorem offeredBy_property? {k : Ty} {owner : Cls} {m : Bindings} {isPublic setter : Bool}
    {entry : Value} {p : PropertyInfo}
    (hp : property? Γ (receiverType c k owner) m name isPublic entry = some p)
    (ht : p.accessor setter = some t) : t.OfferedBy c := by
  obtain ⟨x, rfl, hkind, hdeclaring, -⟩ := exists_marked_of_property? hp ht
  exact (offeredBy_of_receiver hkind hdeclaring).marked

end Reflection

/-- The accessors of a field are no constructors and receive what declares the field. -/
theorem FieldInfo.offeredBy {c : Ty} {f : FieldInfo} {setter : Bool} {t : Target}
    (hf : f.declaring.same c = true ∨ ∃ k, f.declaring = .cls k)
    (ht : f.accessor setter = some t) : t.OfferedBy c := by
  obtain rfl := eq_of_accessor ht
  exact ⟨by cases setter <;> nofun, hf⟩

namespace Reflection

variable {Γ : Program} {h : Heap} {c : Ty} {name : String} {t : Target}

theorem declaring_field? {k : Ty} {m : Bindings} {x : Found} {f : FieldInfo}
    (hf : field? Γ c k m x = some f) :
    f.declaring.same c = true ∨ ∃ o, f.declaring = .cls o := by
  unfold field? at hf
  split at hf
  · cases hf
  · obtain ⟨isStatic, -, rfl⟩ := Option.map_eq_some_iff.1 hf
    dsimp only
    split
    · exact .inr ⟨_, rfl⟩
    · exact same_receiverType_or k x.owner

/-- Members of classes receive the container or a class. -/
theorem offeredBy (ht : (source Γ h).Offers c name t) : t.OfferedBy c := by
  cases ht with
  | procedure hts ht =>
    obtain rfl := Except.ok.inj hts
    obtain ⟨f, -, hf⟩ := List.mem_filterMap.1 (List.mem_of_mem_filter ht)
    exact offeredBy_procedure? hf
  | property hps hp ht =>
    obtain rfl := Except.ok.inj hps
    obtain ⟨f, -, hf⟩ := List.mem_filterMap.1 hp
    dsimp only at hf
    split at hf
    · obtain ⟨v, -, hv⟩ := Option.bind_eq_some_iff.1 hf
      exact offeredBy_property? hv ht
    · cases hf
  | field hfs hf ht =>
    obtain rfl := Except.ok.inj hfs
    obtain ⟨x, -, hx⟩ := List.mem_filterMap.1 (List.mem_of_mem_filter hf)
    exact FieldInfo.offeredBy (declaring_field? hx) ht

end Reflection

/-! ## Tables -/

/-- The entries of a table receive their containers, as registrations make them. -/
structure MemberTable.Registered (t : MemberTable) : Prop where
  procedures : ∀ e ∈ t.procedures, e.member.OfferedBy e.container
  properties : ∀ e ∈ t.properties, ∀ setter x, e.member.accessor setter = some x →
    x.OfferedBy e.container
  fields : ∀ e ∈ t.fields, e.member.declaring = e.container

namespace MemberTable

theorem registered_empty : MemberTable.empty.Registered :=
  ⟨fun _ he => absurd he List.not_mem_nil, fun _ he => absurd he List.not_mem_nil,
    fun _ he => absurd he List.not_mem_nil⟩

section Registering

variable {t t' : MemberTable} {c : Ty} {name : String} {impl : Value} {params : List ParameterSpec}
  {result type : Ty} {getter assigner : Option Value} {isStatic readOnly : Bool}
  {declared : Option Bool}

/-- A container declares what it is, but the absent value declares nothing. -/
theorem offeredBy_of_asDeclaring {x : Target} (hkind : x.kind ≠ .constructor)
    (hx : x.declaring = c.asDeclaring) : x.OfferedBy c := by
  refine ⟨hkind, ?_⟩
  rw [Target.receiverType, hx]
  cases c with
  | null => exact .inr ⟨_, rfl⟩
  | _ => exact .inl (Ty.same_refl _)

/-- A registration goes through where the container can be a key. -/
theorem checkKey_bind {α : Type} {y : α} {r : α} (h : (checkKey c >>= fun _ => pure y) = .ok r) :
    y = r := by
  unfold checkKey at h
  split at h
  · exact Except.ok.inj h
  · cases h

theorem registered_procedure (ht : t.Registered) {x : Target}
    (h : t.registerProcedure c name impl params result isStatic declared = .ok (x, t')) :
    t'.Registered := by
  obtain ⟨rfl, rfl⟩ := Prod.mk.inj (checkKey_bind h)
  refine ⟨fun e he => ?_, ht.properties, ht.fields⟩
  rcases List.mem_append.1 he with he | he
  · exact ht.procedures e he
  · obtain rfl := List.mem_singleton.1 he
    exact (offeredBy_of_asDeclaring (by nofun) rfl).marked

theorem registered_constructor (ht : t.Registered) {x : Target}
    (h : t.registerConstructor c impl params declared = .ok (x, t')) : t'.Registered := by
  obtain ⟨rfl, rfl⟩ := Prod.mk.inj (checkKey_bind h)
  exact ⟨ht.procedures, ht.properties, ht.fields⟩

theorem registered_property (ht : t.Registered) {p : PropertyInfo}
    (h : t.registerProperty c name type getter assigner isStatic declared = .ok (p, t')) :
    t'.Registered := by
  unfold registerProperty at h
  split at h
  · cases h
  obtain ⟨rfl, rfl⟩ := Prod.mk.inj (checkKey_bind h)
  refine ⟨ht.procedures, fun e he setter x hx => ?_, ht.fields⟩
  rcases List.mem_append.1 he with he | he
  · exact ht.properties e he setter x hx
  · obtain rfl := List.mem_singleton.1 he
    rcases PropertyInfo.accessor_cases rfl rfl hx with ⟨-, f, -, rfl⟩ | ⟨-, f, -, rfl⟩
    · exact offeredBy_of_asDeclaring nofun rfl
    · exact offeredBy_of_asDeclaring nofun rfl

theorem registered_field (ht : t.Registered) {f : FieldInfo}
    (h : t.registerField c name type isStatic readOnly declared = .ok (f, t')) :
    t'.Registered := by
  obtain ⟨rfl, rfl⟩ := Prod.mk.inj (checkKey_bind h)
  refine ⟨ht.procedures, ht.properties, fun e he => ?_⟩
  rcases List.mem_append.1 he with he | he
  · exact ht.fields e he
  · obtain rfl := List.mem_singleton.1 he
    rfl

end Registering

theorem mem_select {α : Type} {entries : List (TableEntry α)} {c : Ty}
    {admits : TableEntry α → Bool} {as : List α} {a : α}
    (h : select entries c admits = .ok as) (ha : a ∈ as) :
    ∃ e ∈ entries, e.container.same c = true ∧ e.member = a := by
  obtain rfl := checkKey_bind h
  obtain ⟨e, he, rfl⟩ := List.mem_map.1 ha
  obtain ⟨he, hadmits⟩ := List.mem_filter.1 he
  rw [Bool.and_eq_true] at hadmits
  exact ⟨e, he, hadmits.1, rfl⟩

/-- Members of tables receive the container. -/
theorem Registered.offeredBy {t : MemberTable} (ht : t.Registered) {c : Ty} {name : String}
    {x : Target} (hx : t.source.Offers c name x) : x.OfferedBy c := by
  cases hx with
  | procedure hts hx =>
    obtain ⟨e, he, hc, rfl⟩ := mem_select hts hx
    exact (ht.procedures e he).congr hc
  | property hps hp hx =>
    obtain ⟨e, he, hc, rfl⟩ := mem_select hps hp
    exact (ht.properties e he _ _ hx).congr hc
  | field hfs hf hx =>
    obtain ⟨e, he, hc, rfl⟩ := mem_select hfs hf
    exact FieldInfo.offeredBy (.inl ((ht.fields e he).symm ▸ hc)) hx

end MemberTable

end CallAdapter
