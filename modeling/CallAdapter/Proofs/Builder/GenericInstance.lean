import CallAdapter.Execution.Runtime
import CallAdapter.Proofs.Builder.Calls
import CallAdapter.Proofs.Member.Filled
import CallAdapter.Proofs.Member.Reasons
import CallAdapter.Proofs.Program.Passing
import Mathlib

/-!
# Instances of generic classes

A builder binds an instance on the class that it was made through, or on its own class, and closes
what type parameters are left there. Members of such a container are seen with ground types as far
as their type parameters are recorded: passed on, along the bases that classes keep a record of.
These are bound without a fault about open type variables (`bind_generic_instance`). A class that
inherits from a generic class without giving it arguments has no such record, and its instances are
refused (`bind_subBox_open`).
-/

namespace CallAdapter

open Program Reflection

/-! ## Containers of instances -/

namespace Builder

/-- What an instance of a generic class was made through: nothing, or an alias of a class. -/
inductive IsOrigin : Option Value → Prop
  | unparametrized : IsOrigin none
  | parametrized {c : Cls} {as : List Ty} : Ty.anyHasParams as = false →
    IsOrigin (some (.type (.applied (.generic c) as)))

/-- Binding the instance searches the container, in the world that looking for an origin leaves. No
class of the instance states type parameters as an attribute. -/
structure BindsOn (Γ : Program) (rt : Runtime) (w : World) (x : Value) (origin : Option Value)
    (container : Ty) (w₁ : World) : Prop where
  isNone : x.isNone = false
  isUnbound : x.isUnbound = false
  originOf : (Builder.originOf rt x).run.run w = (.ok origin, w₁)
  isOrigin : IsOrigin origin
  claims : Γ.claimsParameters (Γ.classOf x) = false
  containerFor : Builder.containerFor Γ origin x = .type container

variable {Γ : Program} {origin : Option Value} {x : Value} {container : Ty}

theorem get?_const {vs : List TypeVar} {v : TypeVar} (hv : v ∈ vs) (t : Ty) :
    Bindings.get? (vs.map fun v => (v, t)) v = some t := by
  induction vs with
  | nil => cases hv
  | cons w vs ih =>
    rw [List.map_cons, Bindings.get?_cons]
    split
    · rfl
    · rename_i hne
      exact ih ((List.mem_cons.1 hv).resolve_left fun h => hne h.symm)

/-- Closing a type that is no class leaves no variables. -/
theorem ground_close {t : Ty} (hplain : t.IsPlain) (hclass : ∀ c, t ≠ .cls c) :
    (Γ.close t).Ground := by
  have hclose : Γ.close t = t.substitute (t.freeVars.map fun v => (v, .any)) := by
    cases t with
    | cls c => exact absurd rfl (hclass c)
    | _ => rfl
  rw [hclose]
  refine Ty.ground_substitute hplain fun v hv => ⟨.any, get?_const ?_ .any, rfl⟩
  rw [Ty.freeVars_of_ne_list hplain.ne_list]
  exact Ty.mem_distinctVars.2 hv

/-- A closed alias is an alias of the class. -/
theorem exists_close_eq_applied (c : Cls) (as : List Ty) :
    ∃ bs, Γ.close (.applied (.generic c) as) = .applied (.generic c) bs := by
  show ∃ bs, (Ty.applied (.generic c) as).substitute _ = _
  unfold Ty.substitute
  split
  · exact ⟨as, rfl⟩
  dsimp only
  split
  · exact ⟨as, rfl⟩
  split
  · exact ⟨as, rfl⟩
  · exact ⟨_, rfl⟩

/-- A class with type parameters is closed. -/
theorem containerFor_of_parameters (h : Γ.parameters (Γ.classOf x) ≠ []) :
    containerFor Γ none x = .type (Γ.close (.cls (Γ.classOf x))) := by
  have hopen : Γ.isOpen (.cls (Γ.classOf x)) = true := by
    simp [isOpen, h]
  unfold containerFor className
  rw [Option.getD_none]
  dsimp only
  rw [if_pos hopen]

/-- The container of an instance is closed. -/
theorem closed_containerFor (horigin : IsOrigin origin)
    (hclaims : Γ.claimsParameters (Γ.classOf x) = false)
    (hcontainer : containerFor Γ origin x = .type container) :
    container.freeVars = [] ∧ Γ.isOpen container = false := by
  have hopen : ∀ {c : Cls} {as : List Ty}, (Ty.applied (.generic c) as).freeVars = [] →
      Γ.isOpen (.applied (.generic c) as) = false := by
    intro c as h
    unfold isOpen
    dsimp only
    rw [h]
    rfl
  cases horigin with
  | unparametrized =>
    by_cases hparameters : Γ.parameters (Γ.classOf x) = []
    · -- a class without parameters stands for itself
      have ho : Γ.isOpen (.cls (Γ.classOf x)) = false := by
        simp [isOpen, hparameters, hclaims]
      unfold containerFor className at hcontainer
      rw [Option.getD_none] at hcontainer
      dsimp only at hcontainer
      rw [ho, if_neg Bool.false_ne_true] at hcontainer
      obtain rfl := Value.type.inj hcontainer
      exact ⟨rfl, ho⟩
    · -- parameters that nothing is known about are closed with anything
      rw [containerFor_of_parameters hparameters] at hcontainer
      obtain rfl := Value.type.inj hcontainer
      rw [close_of_parameters hparameters]
      have hclosed : (Ty.applied (.generic (Γ.classOf x))
          ((Γ.parameters (Γ.classOf x)).map fun _ => .any)).freeVars = [] := by
        refine Ty.Ground.freeVars (Ty.ground_iff.2 fun v hv => ?_)
        obtain ⟨t, ht, hv⟩ := Ty.mem_varsOfAll.1 hv
        obtain ⟨-, -, rfl⟩ := List.mem_map.1 ht
        cases hv
      exact ⟨hclosed, hopen hclosed⟩
  | @parametrized c as hparams =>
    unfold containerFor at hcontainer
    obtain rfl := Value.type.inj hcontainer
    split
    · have hlist : ∀ ts, Ty.applied (.generic c) as ≠ .list ts := fun ts h => by cases h
      have hclass : ∀ d, Ty.applied (.generic c) as ≠ .cls d := fun d h => by cases h
      have hplain : (Ty.applied (.generic c) as).IsPlain := ⟨hparams, hlist⟩
      have hclosed := (ground_close (Γ := Γ) hplain hclass).freeVars
      obtain ⟨bs, hclose⟩ := exists_close_eq_applied (Γ := Γ) c as
      rw [hclose] at hclosed ⊢
      exact ⟨hclosed, hopen hclosed⟩
    · rename_i ho
      have hclosed : (Ty.applied (.generic c) as).freeVars = [] := by
        simpa [isOpen] using ho
      exact ⟨hclosed, hopen hclosed⟩

end Builder

/-! ## Members of instances -/

namespace Reflection

/-- What a container lists for a name. -/
def candidates (Γ : Program) (h : Heap) (container : Ty) (name : String) (binding : SearchMask) :
    Candidates :=
  ⟨procedures Γ h container name binding, properties Γ h container name binding,
    fields Γ h container name binding⟩

/-- A procedure, a property or a field of instances that is found for the name, in a category and
with a visibility that the options ask for. -/
inductive InstanceMember (Γ : Program) (h : Heap) (container : Ty) (name : String)
    (options : Option SearchMask) (setter : Bool) (f : Found) : Prop
  | procedure {t} : SearchMask.asksFor options .invokeMethod = true →
    f ∈ lookup Γ h (Γ.split container).1 name (SearchMask.split options).2 →
    procedure? Γ container (Γ.split container).1 (Γ.split container).2 f = some t →
    t.isStatic = false → (SearchMask.split options).2.admits false t.isPublic = true →
    InstanceMember Γ h container name options setter f
  | property {entry p} :
    SearchMask.asksFor options (if setter then .setProperty else .getProperty) = true →
    f ∈ lookup Γ h (Γ.split container).1 name (SearchMask.split options).2 → f.entry = some entry →
    property? Γ (receiverType container (Γ.split container).1 f.owner) (Γ.split container).2 f.name
      (isPublicName f.name) entry = some p →
    (SearchMask.split options).2.admits false (isPublicName f.name) = true →
    InstanceMember Γ h container name options setter f
  | field {i} : SearchMask.asksFor options (if setter then .setField else .getField) = true →
    f ∈ lookup Γ h (Γ.split container).1 name (SearchMask.split options).2 →
    field? Γ container (Γ.split container).1 (Γ.split container).2 f = some i →
    i.isStatic = false → (SearchMask.split options).2.admits false i.isPublic = true →
    InstanceMember Γ h container name options setter f

/-- The annotations of the member mention no variables but type parameters of classes above the
container. -/
structure MentionsParameters (Γ : Program) (container : Ty) (f : Found) : Prop where
  plain : ∀ t ∈ annotationsOf Γ f, t.normalize.IsPlain
  parameters : ∀ v, Mentions Γ f v → Γ.IsParameter container v

section Members

variable {Γ : Program} {h : Heap} {container : Ty} {name : String} {options : Option SearchMask}
  {setter : Bool} {f : Found}

theorem lists_candidates (container : Ty) (name : String) (binding : SearchMask) :
    (source Γ h).Lists container name binding (candidates Γ h container name binding) where
  procedures := rfl
  properties := rfl
  fields := rfl
  kind t ht := by
    obtain ⟨f, -, hf⟩ := List.mem_filterMap.1 (List.mem_of_mem_filter ht)
    exact (offeredBy_procedure? hf).kind

theorem isCandidate_field {i : FieldInfo} (hstatic : i.isStatic = false)
    (hmark : i.isGeneric = false) {t : Target} (ht : i.accessor setter = some t) :
    t.IsCandidate := by
  obtain rfl := FieldInfo.eq_of_accessor ht
  exact ⟨hstatic, hmark⟩

/-- A member of instances all of whose annotations are seen as ground types settles the search. -/
theorem InstanceMember.settles (hmember : InstanceMember Γ h container name options setter f)
    (hground : ∀ t ∈ annotationsOf Γ f, (seen (Γ.split container).2 t).Ground) :
    (candidates Γ h container name (SearchMask.split options).2).Settles options setter := by
  cases hmember with
  | @procedure t hasks hf ht hstatic hadmits =>
    refine .procedure (t := t) hasks ?_ ⟨hstatic, unmarked_procedure? hground ht⟩
    exact List.mem_filter.2 ⟨List.mem_filterMap.2 ⟨f, hf, ht⟩, by rwa [hstatic]⟩
  | @property entry p hasks hf hentry hp hadmits =>
    refine .property (p := p) hasks ?_ fun t ht => ?_
    · refine List.mem_filterMap.2 ⟨f, hf, ?_⟩
      dsimp only
      rw [if_pos hadmits, hentry]
      exact hp
    · obtain ⟨hstatic, hmark⟩ := unmarked_property? hground hentry hp ht
      exact ⟨hstatic, hmark⟩
  | @field i hasks hf hi hstatic hadmits =>
    refine .field (f := i) hasks ?_ fun t ht => ?_
    · exact List.mem_filter.2 ⟨List.mem_filterMap.2 ⟨f, hf, hi⟩, by rwa [hstatic]⟩
    · exact isCandidate_field hstatic (unmarked_field? hground hi) ht

end Members

end Reflection

/-! ## Binding -/

/-- How the type parameters above an instance are seen through its container. -/
structure SeesParameters (Γ : Program) (x : Value) (origin : Option Value) (container : Ty) :
    Prop where
  /-- They stand for ground types where they are recorded, and for nothing else. -/
  ground : ∀ v, (∃ t, (Γ.split container).2.get? v = some t ∧ t.Ground) ↔ Γ.Recorded container v
  /-- Where no two paths give a variable different types, these are the types along the paths. -/
  passed : Γ.PathsAgree container → ∀ v t, (Γ.split container).2.get? v = some t →
    ∃ c σ, Γ.Path container c σ ∧ σ.get? v = some t
  /-- The parameters of the instance's own class are seen as any type, if it was made plainly. -/
  own : origin = none → ∀ v ∈ Γ.parameters (Γ.classOf x), (Γ.split container).2.get? v = some .any

section Binding

variable {Γ : Program} {rt : Runtime} {b : Builder} {d : Descriptor} {x : Value} {name : String}
  {options : Option SearchMask} {w w₁ : World} {origin : Option Value} {container : Ty} {S : Shape}

/-- Binding a value builds on the container that is found for it, past the cache. -/
theorem run_bind_on (hnone : x.isNone = false) (hunbound : x.isUnbound = false)
    (horigin : (Builder.originOf rt x).run.run w = (.ok origin, w₁))
    (hcontainer : Builder.containerFor Γ origin x = .type container)
    (hshape : Γ.shapeOf w₁.heap d = .ok S) (throws : Option Bool) :
    (Builder.bind Γ rt b d x name options throws).run.run w =
      let out :=
        (Builder.buildNamed Γ b container name S (options.getD b.config.options) x).run.run w₁
      (settle (throws.getD b.config.throwOnFailure) out.1, out.2) := by
  have hprepare := run_prepare (Γ := Γ) (w := w₁) d (some (.value (.type container)))
    ⟨some name, options, x, throws, none⟩
  rw [hshape] at hprepare
  unfold Builder.bind
  rw [hnone]
  dsimp only
  rw [if_neg Bool.false_ne_true, run_bind_of_ok horigin, hcontainer]
  have htype : ¬(Value.type container).isNone = true := Bool.false_ne_true
  unfold Builder.create
  rw [if_neg htype, run_bind_of_ok hprepare]
  unfold Builder.answer
  rw [run_withPolicy]
  -- a request that captures a value goes past the cache
  have hnamed : ∀ r : Request, r.member = .value (.type container) → r.bound = x →
      (Builder.named Γ b r name).run.run w₁ =
        (Builder.buildNamed Γ b container name r.shape (r.options.getD b.config.options)
          x).run.run w₁ := by
    rintro r hr rfl
    unfold Builder.named
    rw [run_bind_of_ok (run_heap w₁), hr]
    cases b.cache with
    | none => rfl
    | some cache =>
      dsimp only
      rw [hnone, hunbound]
      rfl
  dsimp only
  rw [hnamed _ rfl rfl]

/-- Binding an instance builds on its container. -/
theorem run_bind_instance (hx : Builder.BindsOn Γ rt w x origin container w₁)
    (hshape : Γ.shapeOf w₁.heap d = .ok S) (throws : Option Bool) :
    (Builder.bind Γ rt b d x name options throws).run.run w =
      let out :=
        (Builder.buildNamed Γ b container name S (options.getD b.config.options) x).run.run w₁
      (settle (throws.getD b.config.throwOnFailure) out.1, out.2) :=
  run_bind_on hx.isNone hx.isUnbound hx.originOf hx.containerFor hshape throws

/-- The fault of a search that gives another reason than open type variables. -/
theorem NotFound.kind_fault_ne {m : NotFound} (h : m.reason ≠ .openGeneric) (S : Shape) :
    (m.fault S).kind ≠ .openGeneric := by
  unfold NotFound.fault
  cases hreason : m.reason with
  | noSuchAccessor | memberNotFound => nofun
  | openGeneric => exact absurd hreason h

/-- Through its container, the type parameters above an instance are seen as ground types as far as
they are recorded. A member of instances that mentions no other variables is bound without a fault
about open type variables. -/
theorem bind_generic_instance (options : Option SearchMask) (hhost : b.host = .classes)
    (hname : Text.fold name ≠ Text.fold b.config.constructorName)
    (hx : Builder.BindsOn Γ rt w x origin container w₁) (hshape : Γ.shapeOf w₁.heap d = .ok S)
    (hΓ : Γ.Inherits) (hpasses : Γ.PassesOn container) :
    SeesParameters Γ x origin container ∧
      ∀ f, InstanceMember Γ w₁.heap container name (some (options.getD b.config.options))
          S.returnsVoid f → MentionsParameters Γ container f →
        (∀ v, Γ.IsParameter container v → Mentions Γ f v → Γ.Recorded container v) →
        ∀ throws fault w', (Builder.bind Γ rt b d x name options throws).run.run w =
          (.error (.fault fault), w') → fault.kind ≠ .openGeneric := by
  obtain ⟨hclosed, hopen⟩ := Builder.closed_containerFor hx.isOrigin hx.claims hx.containerFor
  have hsees : ∀ v, (∃ t, (Γ.split container).2.get? v = some t ∧ t.Ground) ↔
      Γ.Recorded container v :=
    fun v => ground_iff_recorded hΓ hpasses (ground_argumentBindings hclosed)
  refine ⟨⟨hsees, fun hagree v t ht => ?_, fun horigin v hv => ?_⟩, ?_⟩
  · obtain ⟨c, σ, hσ, hbound⟩ := (collects_split hΓ hpasses.closes hagree).1 v t ht
    exact ⟨c, σ, hσ.path hΓ hpasses.closes, hbound⟩
  · have hcontainer : container = Γ.close (.cls (Γ.classOf x)) := by
      have h := hx.containerFor
      rw [horigin, Builder.containerFor_of_parameters (List.ne_nil_of_mem hv)] at h
      exact (Value.type.inj h).symm
    refine within_split hΓ hpasses.closes v .any ?_
    rw [hcontainer]
    exact get?_argumentBindings_close hv
  · intro f hmember hmentions hrecorded throws fault w' hbind
    have hground : ∀ t ∈ annotationsOf Γ f, (seen (Γ.split container).2 t).Ground :=
      fun t ht => ground_seen (hmentions.plain t ht) fun v hv =>
        (hsees v).2 (hrecorded v (hmentions.parameters v ⟨t, ht, hv⟩) ⟨t, ht, hv⟩)
    have hsearch := resolve_settles (Γ := Γ) (h := w₁.heap) hopen hname
      hx.isNone hx.isUnbound (lists_candidates container name _) (hmember.settles hground)
      (Eval.plannerAt w₁ b.planner)
    rw [run_bind_instance hx hshape, run_buildNamed, hhost] at hbind
    dsimp only [Host.source] at hbind
    generalize ((Γ.resolve w₁.heap (source Γ w₁.heap) b.config.constructorName container name S
      (some (options.getD b.config.options)) x).run.run (Eval.plannerAt w₁ b.planner)) = out
      at hsearch hbind
    obtain ⟨found, p⟩ := out
    have hresult := congrArg Prod.fst hbind
    cases found with
    | error e =>
      cases e with
      | fault f => exact absurd hsearch id
      | exception kind text => cases hresult
    | ok found =>
      cases found with
      | ok r => cases hresult
      | error m =>
        dsimp only [settle] at hresult
        split at hresult
        · cases hresult
          exact NotFound.kind_fault_ne (hsearch m rfl) S
        · cases hresult

end Binding

/-! ## Boxes -/

/-- A world with one instance, and a planner that keeps plans. -/
def boxWorld (attrs : List (String × Value)) : World :=
  { World.empty with heap := ⟨#[⟨.plain, attrs⟩], []⟩, planners := #[⟨true, [], []⟩] }

def boxBuilder : Builder := ⟨{}, .classes, 0, none⟩

/-- Callers take nothing and get any object. -/
def anyGetter : Shape := .make [] .object

/-- The function of boxes that gives the element. -/
def elementGetter : Found := ⟨"get", .declared boxRef, some (.code (.function 0))⟩

section Getter

variable {Γ : Program} {container : Ty} {v : TypeVar}

/-- Its annotations mention the element of boxes, and nothing else. -/
theorem eq_of_mentions_elementGetter (h : annotationsOf Γ elementGetter = [.var elementVar])
    (hv : Mentions Γ elementGetter v) : v = elementVar := by
  obtain ⟨t, ht, hv⟩ := hv
  rw [h] at ht
  obtain rfl := List.mem_singleton.1 ht
  exact List.mem_singleton.1 hv

theorem mentionsParameters_elementGetter (h : annotationsOf Γ elementGetter = [.var elementVar])
    (hbox : Γ.IsParameter container elementVar) : MentionsParameters Γ container elementGetter where
  plain t ht := by
    rw [h] at ht
    obtain rfl := List.mem_singleton.1 ht
    exact ⟨rfl, nofun⟩
  parameters v hv := eq_of_mentions_elementGetter h hv ▸ hbox

end Getter

/-- A box of lists that was made through its alias. -/
def intListBoxWorld : World := boxWorld [("__orig_class__", .type intListBox)]

theorem bindsOn_intListBox :
    Builder.BindsOn (boxProgram (.named "S")) (boxProgram (.named "S")).runtime intListBoxWorld
      (.object (.declared listBoxRef) 0) (some (.type intListBox)) intListBox intListBoxWorld where
  isNone := rfl
  isUnbound := rfl
  originOf := rfl
  isOrigin := .parametrized rfl
  claims := rfl
  containerFor := rfl

theorem passesOn_intListBox {v : TypeVar} : (boxProgram v).PassesOn intListBox where
  closes := closes_intListBox
  plain c σ _ base hbase hd a ha := by
    rcases base_of_boxProgram hbase with ⟨-, rfl⟩ | ⟨-, rfl⟩
    · obtain rfl := List.mem_singleton.1 ha
      exact ⟨rfl, nofun⟩
    · cases hd

/-- The element of boxes is found on boxes of lists, and passed to them as a list. -/
theorem bind_generic_instance_intListBox :
    SeesParameters (boxProgram (.named "S")) (.object (.declared listBoxRef) 0)
        (some (.type intListBox)) intListBox ∧
      ∀ throws fault w', (Builder.bind (boxProgram (.named "S")) (boxProgram (.named "S")).runtime
        boxBuilder (.shape anyGetter) (.object (.declared listBoxRef) 0) "get" none throws).run.run
          intListBoxWorld = (.error (.fault fault), w') → fault.kind ≠ .openGeneric := by
  have hname : Text.fold "get" ≠ Text.fold boxBuilder.config.constructorName := by decide
  have hannotations :
      annotationsOf (boxProgram (.named "S")) elementGetter = [.var elementVar] := by cbv
  have hmember : InstanceMember (boxProgram (.named "S")) intListBoxWorld.heap intListBox "get"
      (some boxBuilder.config.options) false elementGetter := by
    have hlookup : lookup (boxProgram (.named "S")) intListBoxWorld.heap
        ((boxProgram (.named "S")).split intListBox).1 "get"
        (SearchMask.split (some boxBuilder.config.options)).2 = [elementGetter] := by
      with_unfolding_all rfl
    exact .procedure rfl (hlookup ▸ List.mem_singleton.2 rfl) rfl rfl (by cbv)
  have hrecorded : (boxProgram (.named "S")).Recorded intListBox elementVar :=
    ⟨_, _, recordedPath_intListBox path_box, rfl⟩
  obtain ⟨hsees, hbinds⟩ := bind_generic_instance (b := boxBuilder) (d := .shape anyGetter)
    none rfl hname bindsOn_intListBox rfl inherits_boxProgram passesOn_intListBox
  refine ⟨hsees, hbinds elementGetter hmember ?_ fun v _ hv => ?_⟩
  · exact mentionsParameters_elementGetter hannotations
      ⟨_, _, path_box, List.mem_singleton.2 rfl⟩
  · exact eq_of_mentions_elementGetter hannotations hv ▸ hrecorded

/-! ### Boxes of no element type -/

def subBoxRef : ClassRef := ⟨"SubBox", "SubBox"⟩

/-- A subclass of boxes that gives them no element type. -/
def subBoxInfo : ClassInfo where
  ref := subBoxRef
  mro := [.declared subBoxRef, .declared boxRef, .builtin .generic, .builtin .object]
  bases := [.cls (.declared boxRef)]
  parameters := some []
  namespaceEntries := []
  annotations := []
  missing := []
  isProtocol := false
  isRuntime := false
  frozen := none
  fields := []
  slots := none
  members := []

def subBoxProgram : Program := { boxProgram elementVar with classes := [boxInfo, subBoxInfo] }

def subBox : Ty := .cls (.declared subBoxRef)

section SubBoxes

variable {base : Ty} {c : Cls}

theorem base_of_subBoxProgram (hbase : base ∈ subBoxProgram.basesOf c) :
    (c = .declared subBoxRef ∧ base = .cls (.declared boxRef)) ∨
      (c = .declared boxRef ∧
        base = .applied (.generic (.builtin .generic)) [.var elementVar]) := by
  rcases mem_basesOf_of_two rfl hbase with ⟨rfl, hbase⟩ | ⟨rfl, hbase⟩
  · exact .inr ⟨rfl, List.mem_singleton.1 hbase⟩
  · exact .inl ⟨rfl, List.mem_singleton.1 hbase⟩

theorem inherits_subBoxProgram : subBoxProgram.Inherits where
  founded := by
    -- The class of boxes stands above its subclass, and has no base itself.
    let rank : Cls → Nat := fun c => if c = .declared subBoxRef then 1 else 0
    refine Subrelation.wf (r := fun d c => rank d < rank c) ?_ (measure rank).wf
    rintro d c ⟨base, hbase, hd⟩
    rcases base_of_subBoxProgram hbase with ⟨rfl, rfl⟩ | ⟨rfl, rfl⟩
    · rcases hd with hd | hd
      · cases hd
        decide
      · cases hd
    · rcases hd with hd | hd
      · cases hd
      · cases hd
  recorded r := by
    by_cases hbox : r = boxRef
    · subst hbox
      exact .inl rfl
    by_cases hsub : r = subBoxRef
    · subst hsub
      exact .inr (.inr ⟨.declared boxRef, List.mem_singleton.2 rfl, rfl⟩)
    exact .inl (spelledBases_of_two rfl hbox hsub)

/-- No base has arguments. -/
theorem passesOn_subBox : subBoxProgram.PassesOn subBox := by
  have hnone : ∀ {c : Cls}, ∀ base ∈ subBoxProgram.basesOf c, parametrized? base = none := by
    intro c base hbase
    rcases base_of_subBoxProgram hbase with ⟨-, rfl⟩ | ⟨-, rfl⟩ <;> rfl
  constructor
  · intro c σ _ base hbase hd
    rw [hnone base hbase] at hd
    cases hd
  · intro c σ _ base hbase hd
    rw [hnone base hbase] at hd
    cases hd

theorem bindsOn_subBox :
    Builder.BindsOn subBoxProgram subBoxProgram.runtime (boxWorld [])
      (.object (.declared subBoxRef) 0) none subBox (boxWorld []) where
  isNone := rfl
  isUnbound := rfl
  originOf := rfl
  isOrigin := .unparametrized
  claims := rfl
  containerFor := rfl

end SubBoxes

/-- The element of boxes is left open on an instance of the subclass, though boxes themselves see it
as any type: the function is found, and skipped. -/
theorem bind_subBox_open :
    ¬∀ (Γ : Program) (rt : Runtime) (b : Builder) (d : Descriptor) (x : Value) (name : String)
        (options : Option SearchMask) (w w₁ : World) (origin : Option Value) (container : Ty)
        (S : Shape) (f : Found),
      b.host = .classes → Text.fold name ≠ Text.fold b.config.constructorName →
        Builder.BindsOn Γ rt w x origin container w₁ → Γ.shapeOf w₁.heap d = .ok S →
          Γ.Inherits → Γ.PassesOn container →
            InstanceMember Γ w₁.heap container name (some (options.getD b.config.options))
              S.returnsVoid f →
              MentionsParameters Γ container f →
                ∀ throws fault w', (Builder.bind Γ rt b d x name options throws).run.run w =
                  (.error (.fault fault), w') → fault.kind ≠ .openGeneric := by
  intro hbinds
  have hname : Text.fold "get" ≠ Text.fold boxBuilder.config.constructorName := by decide
  have hannotations : annotationsOf subBoxProgram elementGetter = [.var elementVar] := by cbv
  have hlookup : lookup subBoxProgram (boxWorld []).heap (subBoxProgram.split subBox).1 "get"
      (SearchMask.split (some boxBuilder.config.options)).2 = [elementGetter] := by cbv
  have hparameter : subBoxProgram.IsParameter subBox elementVar :=
    ⟨.declared boxRef, [], .bare (.here rfl) (List.mem_singleton.2 rfl), List.mem_singleton.2 rfl⟩
  -- The only candidate is skipped, and there is nothing else to tell.
  have hsearch : ((subBoxProgram.searchMembers (boxWorld []).heap
      (boxBuilder.host.source subBoxProgram (boxWorld [])) subBox "get" anyGetter
      (SearchMask.split (some ((none : Option SearchMask).getD boxBuilder.config.options))).1
      (SearchMask.split (some ((none : Option SearchMask).getD boxBuilder.config.options))).2
      (.object (.declared subBoxRef) 0)).run {}).run.run
        (Eval.plannerAt (boxWorld []) boxBuilder.planner) =
          (.ok (none, ⟨false, true, []⟩), ⟨true, [], []⟩) := by with_unfolding_all rfl
  have hresolve : (subBoxProgram.resolve (boxWorld []).heap
      (boxBuilder.host.source subBoxProgram (boxWorld [])) boxBuilder.config.constructorName subBox
      "get" anyGetter (some ((none : Option SearchMask).getD boxBuilder.config.options))
      (.object (.declared subBoxRef) 0)).run.run (Eval.plannerAt (boxWorld []) boxBuilder.planner) =
        (.ok (.error ⟨.openGeneric, "get", subBox.name, SearchTrace.detail {}⟩),
          ⟨true, [], []⟩) := by
    rw [run_resolve (by cbv) hname]
    dsimp only
    rw [hsearch]
    rfl
  have hrun : ∃ fault w', (Builder.bind subBoxProgram subBoxProgram.runtime boxBuilder
      (.shape anyGetter) (.object (.declared subBoxRef) 0) "get" none none).run.run (boxWorld []) =
        (.error (.fault fault), w') ∧ fault.kind = .openGeneric := by
    rw [run_bind_instance bindsOn_subBox (S := anyGetter) rfl, run_buildNamed, hresolve]
    exact ⟨_, _, rfl, rfl⟩
  obtain ⟨fault, w', hrun, hkind⟩ := hrun
  exact hbinds _ _ _ _ _ _ _ _ _ _ _ _ elementGetter rfl hname bindsOn_subBox rfl
    inherits_subBoxProgram passesOn_subBox
    (.procedure rfl (hlookup ▸ List.mem_singleton.2 rfl) rfl rfl (by cbv))
    (mentionsParameters_elementGetter hannotations hparameter) none fault w' hrun hkind

end CallAdapter
