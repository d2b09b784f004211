import CallAdapter.Proofs.Adapter.CapturedReceiver
import CallAdapter.Proofs.Builder.GenericInstance
import CallAdapter.Proofs.Builder.Routes
import CallAdapter.Proofs.Execution.Storing
import CallAdapter.Proofs.Member.BoundChoice
import Mathlib

/-!
# Adapters of the fields of an instance

A builder that binds an instance for the name of one of its fields makes an adapter of the getter
of the field where the shape has a result, and of the setter otherwise. At every call the adapter
accesses the very instance that was captured (`Builder.Binds.gets`, `Builder.Binds.sets`), unless
the class that holds the field is that of reference cells.
-/

namespace CallAdapter

open Program

/-! ## Fields of instances -/

namespace Reflection

/-- What instances are searched on: a class, or a class with arguments. -/
inductive IsContainer : Ty → Prop
  | cls (c : Cls) : IsContainer (.cls c)
  | parametrized {g : Head} {c : Cls} {as : List Ty} : g = .generic c ∨ g = .native c →
    IsContainer (.applied g as)

/-- A search for the name on the container finds the definition alone, which is seen as a field of
instances. The class, of which an instance is given, derives from the one that holds it. -/
structure FindsField (Γ : Program) (h : Heap) (c : Cls) (container : Ty) (name : String)
    (binding : SearchMask) (f : Found) (i : FieldInfo) : Prop where
  isContainer : IsContainer container
  mem : f ∈ lookup Γ h (Γ.split container).1 name binding
  /-- It is alone in every search for one spelling (`eq_of_mem_lookup`). -/
  alone : ∀ g ∈ lookup Γ h (Γ.split container).1 name binding, g = f
  field : field? Γ container (Γ.split container).1 (Γ.split container).2 f = some i
  isStatic : i.isStatic = false
  /-- It is no descriptor, but for the slot of the field. -/
  plain : ∀ e, f.entry = some e → e.isDescriptor Γ h = false ∨ ∃ o n, e = .code (.slot o n)
  derives : Γ.derives c f.owner = true
  /-- No class is both a protocol and an enumeration. -/
  isEnum : Γ.isProtocol f.owner = true → Γ.isEnum (.cls f.owner) = false

section Fields

variable {Γ : Program} {h : Heap} {c : Cls} {container k : Ty} {name : String}
  {binding : SearchMask} {m : Bindings} {f : Found} {i : FieldInfo} {e : Value}
  {options : Option SearchMask} {setter : Bool} {t : Target}

/-- Slots and plain values are no procedures. -/
theorem procedure?_eq_none
    (hplain : ∀ e, f.entry = some e → e.isDescriptor Γ h = false ∨ ∃ o n, e = .code (.slot o n)) :
    procedure? Γ container k m f = none := by
  unfold procedure?
  cases hentry : f.entry with
  | none => rfl
  | some e =>
    rcases hplain e hentry with he | ⟨o, n, rfl⟩
    · cases e with
      | code callee =>
        cases callee with
        | builtin => rfl
        | _ => cases he
      | _ => rfl
    · rfl

/-- They are no properties either. -/
theorem property?_eq_none {isPublic : Bool}
    (he : e.isDescriptor Γ h = false ∨ ∃ o n, e = .code (.slot o n)) :
    property? Γ k m name isPublic e = none := by
  have haccessors : accessorsOf? e = none := by
    rcases he with he | ⟨o, n, rfl⟩
    · cases e with
      | code callee =>
        cases callee with
        | builtin => rfl
        | _ => cases he
      | _ => rfl
    · rfl
  rw [property?, haccessors]
  rfl

theorem name_field? (hi : field? Γ container k m f = some i) : i.name = f.name := by
  unfold field? at hi
  split at hi
  · cases hi
  · obtain ⟨_, -, rfl⟩ := Option.map_eq_some_iff.1 hi
    rfl

namespace FindsField

/-- What the search may select is the accessor of the field. -/
theorem accessor_eq (hf : FindsField Γ h c container name binding f i)
    (ht : t ∈ ((candidates Γ h container name binding).instances options setter).flatten) :
    i.accessor setter = some t := by
  obtain ⟨-, ht | ⟨p, hp, ht⟩ | ⟨j, hj, ht⟩⟩ := Candidates.mem_instances ht
  · obtain ⟨g, hg, hprocedure⟩ := List.mem_filterMap.1 (List.mem_of_mem_filter ht)
    rw [hf.alone g hg, procedure?_eq_none hf.plain] at hprocedure
    cases hprocedure
  · obtain ⟨g, hg, hproperty⟩ := List.mem_filterMap.1 hp
    dsimp only at hproperty
    split at hproperty
    · obtain ⟨e, he, hproperty⟩ := Option.bind_eq_some_iff.1 hproperty
      rw [hf.alone g hg] at he
      rw [property?_eq_none (hf.plain e he)] at hproperty
      cases hproperty
    · cases hproperty
  · obtain ⟨g, hg, hfield⟩ := List.mem_filterMap.1 (List.mem_of_mem_filter hj)
    rw [hf.alone g hg] at hfield
    obtain rfl := Option.some.inj (hf.field.symm.trans hfield)
    exact ht

/-- The field is received through the class that holds it, or through the container. -/
theorem declaring_eq (hf : FindsField Γ h c container name binding f i) :
    i.declaring = receiverType container (Γ.split container).1 f.owner := by
  have hi := hf.field
  have hstatic := hf.isStatic
  unfold field? at hi
  split at hi
  · cases hi
  · obtain ⟨isStatic, -, rfl⟩ := Option.map_eq_some_iff.1 hi
    obtain rfl : isStatic = false := hstatic
    rfl

theorem declaring_cases (hf : FindsField Γ h c container name binding f i) :
    i.declaring = .cls f.owner ∨ ∃ g as, (g = .generic f.owner ∨ g = .native f.owner) ∧
      i.declaring = .applied g as := by
  rw [hf.declaring_eq]
  cases hf.isContainer with
  | cls k =>
    obtain ⟨m, hsplit⟩ := exists_split_class (Γ := Γ) k
    rw [hsplit]
    unfold receiverType
    dsimp only
    split
    · rename_i howner
      exact .inl (congrArg Ty.cls howner)
    · exact .inl rfl
  | @parametrized g k as hg =>
    have hclass : (Γ.split (.applied g as)).1 = .cls k := by
      rcases hg with rfl | rfl <;> rfl
    rw [hclass]
    unfold receiverType
    dsimp only
    split
    · rename_i howner
      exact .inr ⟨g, as, howner ▸ hg, rfl⟩
    · exact .inl rfl

/-- Instances of the class are received as they are. -/
theorem receives (hf : FindsField Γ h c container name binding f i) : i.declaring.Receives Γ c := by
  rcases hf.declaring_cases with heq | ⟨g, as, hg, heq⟩
  · rw [heq]
    exact .ancestor hf.derives hf.isEnum
  · rw [heq]
    exact .parametrized hg

theorem origin_declaring (hf : FindsField Γ h c container name binding f i) :
    i.declaring.origin = .cls f.owner := by
  rcases hf.declaring_cases with heq | ⟨g, as, rfl | rfl, heq⟩
  · rw [heq]
    cases f.owner with
    | declared => rfl
    | builtin b => cases b <;> rfl
  · rw [heq]
    rfl
  · rw [heq]
    rfl

theorem isCell_declaring (hf : FindsField Γ h c container name binding f i)
    (howner : f.owner ≠ .builtin .cell) : i.declaring.isCell = false := by
  rw [Bool.eq_false_iff]
  intro hcell
  exact howner (Ty.cls.inj (hf.origin_declaring.symm.trans (origin_of_isCell hcell)))

end FindsField

end Fields

end Reflection

/-! ## Accessors -/

/-- The member reads or assigns the attribute of its receiver, and has the type of the field. -/
structure Target.AccessesField (i : FieldInfo) (setter : Bool) (t : Target) : Prop where
  kind : t.kind = if setter then .fieldSetter else .fieldGetter
  impl : t.impl = .attribute i.name
  isStatic : t.isStatic = i.isStatic
  receiverType : t.receiverType = i.declaring
  others : t.others = if setter then [i.type] else []
  result : t.result = if setter then .none else i.type

theorem FieldInfo.accessesField {i : FieldInfo} {setter : Bool} {t : Target}
    (ht : i.accessor setter = some t) : t.AccessesField i setter := by
  obtain rfl := eq_of_accessor ht
  exact ⟨rfl, rfl, rfl, rfl, by cases setter <;> rfl, rfl⟩

namespace Adapter

/-- What a call of an adapter of a setter assigns, unless it is refused. -/
def assigned? (Γ : Program) : Adapter → List Value → World → Option Value
  | member p, args, w =>
    if p.target.kind.isSetter ∧ args.length = p.shape.arity then
      match ((Γ.marshalAll p.slots.tail p.bound args).run.run w).1 with
      | .ok us => us.getLast?
      | .error _ => none
    else none
  | overAdapter _ _ _, _, _ | overCallable _ _, _, _ => none

/-- The adapter reads the attribute of the value, and converts what it got. -/
structure Reads (Γ : Program) (x : Value) (name : String) (q : Plan) (a : Adapter) : Prop where
  arity : a.arity = 0
  assigned : ∀ args w, a.assigned? Γ args w = none
  run : ∀ rt w, (a.call Γ rt []).run.run w =
    (do Γ.converting q (← rt.getAttr x name) : Eval Value).run.run w

/-- The adapter assigns what its slot makes of the argument to the attribute of the value. -/
structure Assigns (Γ : Program) (x : Value) (name : String) (s : Slot) (a : Adapter) : Prop where
  arity : a.arity = 1
  assigned : ∀ v w, a.assigned? Γ [v] w = ((Γ.marshal s v).run.run w).1.toOption
  run : ∃ t, ∀ rt v w, (a.call Γ rt [v]).run.run w = (do
    let u ← Γ.marshal s v
    Runtime.assigning t (rt.setAttr x name u) : Eval Value).run.run w

section Mismatch

variable {Γ : Program} {rt : Runtime} {a : Adapter} {args : List Value}

/-- A call with a wrong number of arguments does nothing. -/
theorem run_call_of_length_ne (hargs : args.length ≠ a.arity) (w : World) :
    (a.call Γ rt args).run.run w = (.error (a.arityMismatch args.length), w) := by
  cases a with
  | member p | overAdapter l source inner | overCallable l source =>
    unfold call
    exact congrArg (fun x : Eval Value => x.run.run w) (if_neg hargs)

theorem assigned?_of_length_ne (hargs : args.length ≠ a.arity) (w : World) :
    a.assigned? Γ args w = none := by
  cases a with
  | member p => exact if_neg fun h => hargs h.2
  | overAdapter | overCallable => rfl

end Mismatch

end Adapter

section Accessors

variable {Γ : Program} {h : Heap} {S : Shape} {t : Target} {x : Value} {p : SignaturePlan}
  {i : FieldInfo}

theorem Target.AccessesField.takesReceiver {setter : Bool} (ht : t.AccessesField i setter)
    (hstatic : i.isStatic = false) : t.takesReceiver = true := by
  unfold Target.takesReceiver
  rw [ht.isStatic, hstatic, ht.kind]
  cases setter <;> rfl

/-- An adapter of the getter reads the attribute of the instance. -/
theorem reads_of_accessesField (hp : p.Planned Γ HistoryReuse h S t x) (hon : p.OnReceiver Γ S t x)
    (hnone : x.isNone = false) (ht : t.AccessesField i false) (hstatic : i.isStatic = false) :
    ∃ q, ResultPlanned Γ HistoryReuse i.type S.returns q ∧
      (Adapter.member p).Reads Γ x i.name q := by
  have hreceiver := ht.takesReceiver hstatic
  have hslots := hon.others
  rw [ht.others, if_neg Bool.false_ne_true] at hslots
  have hnil : S.params = [] ∧ p.slots.tail = [] := by
    generalize S.params = gs, p.slots.tail = slots at hslots
    cases hslots
    exact ⟨rfl, rfl⟩
  have harity : S.arity = 0 := by simp [Shape.arity, hnil.1]
  refine ⟨p.result, ?_, ?_, fun args w => ?_, fun rt w => ?_⟩
  · have hresult := hon.result
    rwa [ht.result, if_neg Bool.false_ne_true] at hresult
  · show p.shape.arity = 0
    rw [hon.shape, harity]
  · unfold Adapter.assigned?
    dsimp only
    rw [hon.target, ht.kind]
    rfl
  · rw [run_call_onReceiver hp hon hnone hreceiver rt (by simp [harity]), hnil.2]
    have hinvoke : rt.invokeMember Γ t x [] = rt.getAttr x i.name := by
      unfold Runtime.invokeMember
      rw [ht.kind, ht.impl, hreceiver]
      rfl
    show (do Γ.converting p.result (← rt.invokeMember Γ t x []) : Eval Value).run.run w = _
    rw [hinvoke]

/-- An adapter of the setter assigns the attribute of the instance. -/
theorem assigns_of_accessesField (hp : p.Planned Γ HistoryReuse h S t x)
    (hon : p.OnReceiver Γ S t x) (hnone : x.isNone = false) (ht : t.AccessesField i true)
    (hstatic : i.isStatic = false) (hvoid : S.returnsVoid = true) :
    ∃ g s, S.params = [g] ∧ s.Planned Γ HistoryReuse g i.type ∧
      (Adapter.member p).Assigns Γ x i.name s := by
  have hreceiver := ht.takesReceiver hstatic
  have hslots := hon.others
  rw [ht.others, if_pos rfl] at hslots
  obtain ⟨g, s, hparams, htail, hsource, hs⟩ : ∃ g s, S.params = [g] ∧ p.slots.tail = [s] ∧
      s.source = .argument 0 ∧ s.Planned Γ HistoryReuse g i.type := by
    generalize S.params = gs, p.slots.tail = slots at hslots
    cases hslots with
    | cons hsource hs hrest =>
      cases hrest
      exact ⟨_, _, rfl, rfl, hsource, hs⟩
  have harity : S.arity = 1 := by simp [Shape.arity, hparams]
  have hmarshal : ∀ v, Γ.marshalAll [s] x [v] = (do pure [← Γ.marshal s v]) := by
    intro v
    simp [marshalAll, hsource]
  have hresult : ∀ v h, Γ.applyPlan h p.result v = .ok v := by
    have hanswer := hon.result.answer
    rw [ht.result, if_pos rfl, (Ty.isVoid_iff _).1 hvoid] at hanswer
    have hidle := isIdle_of_memoAnswer betweenSpellings_historyReuse hanswer (Ty.same_refl _)
    exact fun v h => applyPlan_of_isIdle hidle h v
  refine ⟨g, s, hparams, hs, ?_, fun v w => ?_, t, fun rt v w => ?_⟩
  · show p.shape.arity = 1
    rw [hon.shape, harity]
  · unfold Adapter.assigned?
    dsimp only
    rw [hon.target, hon.shape, ht.kind, harity, htail, hon.bound, if_pos ⟨rfl, rfl⟩, hmarshal]
    rcases hrun : (Γ.marshal s v).run.run w with ⟨e | u, w'⟩
    · rw [run_bind_of_error hrun]
      rfl
    · rw [run_bind_of_ok hrun]
      rfl
  · rw [run_call_onReceiver hp hon hnone hreceiver rt (by simp [harity]), htail, hmarshal]
    have hinvoke : ∀ u, rt.invokeMember Γ t x [u] =
        Runtime.assigning t (rt.setAttr x i.name u) := by
      intro u
      unfold Runtime.invokeMember
      rw [ht.kind, ht.impl, hreceiver]
      rfl
    simp only [bind_assoc, pure_bind, hinvoke]
    exact run_bind_congr_right fun u w' _ => run_bind_converting (fun h v => hresult v h) _ w'

end Accessors

/-! ## Binding -/

theorem planSignature_used {Γ : Program} {h : Heap} (S : Shape) (t : Target) (bound : Value) :
    Yields (Planner.Used Γ) (Γ.planSignature h S t bound)
      (SignaturePlan.Planned Γ HistoryReuse h S t bound) := by
  rintro p ⟨keeps, hp⟩
  obtain ⟨hsound, hyields⟩ := planSignature_yields (h := h) S t bound p hp
  exact ⟨⟨keeps, hsound⟩, hyields⟩

/-- Where the search finds a member, binding gives the adapter of its signature. -/
theorem run_bind_of_found {Γ : Program} {rt : Runtime} {b : Builder} {d : Descriptor} {x : Value}
    {name : String} {options : Option SearchMask} {w w₁ : World} {origin : Option Value}
    {container : Ty} {S : Shape} {r : Resolution} (hnone : x.isNone = false)
    (hunbound : x.isUnbound = false)
    (horigin : (Builder.originOf rt x).run.run w = (.ok origin, w₁))
    (hcontainer : Builder.containerFor Γ origin x = .type container)
    (hshape : Γ.shapeOf w₁.heap d = .ok S)
    (hr : ((Γ.resolve w₁.heap (b.host.source Γ w₁) b.config.constructorName container name S
      (some (options.getD b.config.options)) x).run.run (Eval.plannerAt w₁ b.planner)).1 =
        .ok (.ok r)) (throws : Option Bool) :
    ∃ v w₂, (Builder.bind Γ rt b d x name options throws).run.run w = (.ok v, w₂) ∧
      w₂.Holds v (.member r.plan) := by
  rw [run_bind_on hnone hunbound horigin hcontainer hshape, run_buildNamed]
  dsimp only
  rw [hr]
  exact ⟨_, _, rfl, holds_place _ _⟩

/-- A builder over classes bound the instance for a name that stands for the field, and gave the
adapter. Its planner was used for planning alone. -/
inductive Builder.Binds (Γ : Program) (c : Cls) (addr : Nat) (f : Reflection.Found) (i : FieldInfo)
    (S : Shape) (a : Adapter) : Prop
  | intro {rt : Runtime} {b : Builder} {d : Descriptor} {name : String}
      {options : Option SearchMask} {throws : Option Bool} {w w₁ w₂ : World}
      {origin : Option Value} {container : Ty} {v : Value} :
    b.host = .classes → Text.fold name ≠ Text.fold b.config.constructorName →
    (Builder.originOf rt (.object c addr)).run.run w = (.ok origin, w₁) →
    Builder.containerFor Γ origin (.object c addr) = .type container →
    Reflection.FindsField Γ w₁.heap c container name
      (SearchMask.split (some (options.getD b.config.options))).2 f i →
    Γ.shapeOf w₁.heap d = .ok S → (Eval.plannerAt w₁ b.planner).Used Γ →
    (Builder.bind Γ rt b d (.object c addr) name options throws).run.run w = (.ok v, w₂) →
    w₂.Holds v a → Builder.Binds Γ c addr f i S a

namespace Builder.Binds

variable {Γ : Program} {rt : Runtime} {c : Cls} {addr : Nat} {f : Reflection.Found} {i : FieldInfo}
  {S : Shape} {a : Adapter}

/-- The field was found on the container of the instance. -/
theorem finds (ha : Binds Γ c addr f i S a) :
    ∃ h container name binding, Reflection.FindsField Γ h c container name binding f i := by
  cases ha with
  | intro _ _ _ _ hf => exact ⟨_, _, _, _, hf⟩

end Builder.Binds

end CallAdapter
