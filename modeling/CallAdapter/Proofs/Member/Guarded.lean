import CallAdapter.Proofs.Member.Found
import CallAdapter.Proofs.Member.Receiver

/-!
# Members with open type variables

A member is guarded when it is marked or has no open type variables: what a search or a builder
gives of guarded members is closed. Everything that is described on classes is guarded
(`Reflection.guarded_of_describes`). A table marks procedures and constructors, but not the
accessors of properties and fields, so what it describes is guarded where their types are closed
(`MemberTable.guarded_of_describes`).
-/

namespace CallAdapter

open Program

namespace Target

/-- No type variable is left open in a parameter, the result, or the assigned value. -/
structure Closed (t : Target) : Prop where
  params : ∀ p ∈ t.params, p.type.freeVars = []
  result : t.result.freeVars = []
  assigned : ∀ a ∈ t.assigned, a.freeVars = []

theorem closed_iff {t : Target} : t.Closed ↔ t.openVars = [] := by
  simp only [List.eq_nil_iff_forall_not_mem, mem_openVars, not_or]
  constructor
  · rintro ⟨hparams, hresult, hassigned⟩ v
    refine ⟨?_, by simp [hresult], ?_⟩
    · rintro ⟨p, hp, hv⟩
      simp [hparams p hp] at hv
    · rintro ⟨a, ha, hv⟩
      simp [hassigned a ha] at hv
  · intro h
    refine ⟨fun p hp => ?_, ?_, fun a ha => ?_⟩
    · exact List.eq_nil_iff_forall_not_mem.2 fun v hv => (h v).1 ⟨p, hp, hv⟩
    · exact List.eq_nil_iff_forall_not_mem.2 fun v hv => (h v).2.1 hv
    · exact List.eq_nil_iff_forall_not_mem.2 fun v hv => (h v).2.2 ⟨a, ha, hv⟩

/-- A member that is not marked has no open type variables. -/
def Guarded (t : Target) : Prop := t.isGeneric = false → t.Closed

theorem guarded_marked (t : Target) : t.marked.Guarded := by
  intro hmark
  rw [isGeneric_marked, Bool.or_eq_false_iff, Bool.not_eq_false'] at hmark
  rw [closed_iff]
  unfold marked
  rw [if_pos hmark.2]
  exact List.isEmpty_iff.1 hmark.2

end Target

/-- Whichever accessor is chosen, the member is guarded. -/
def Member.Guarded : Member → Prop
  | .target t => t.Guarded
  | .property p => ∀ setter t, p.accessor setter = some t → t.Guarded
  | .field f => ∀ setter t, f.accessor setter = some t → t.Guarded

/-- What a source describes: answers to queries, values that are handles, and accessors of these. -/
inductive MemberSource.Describes (S : MemberSource) : Member → Prop
  | procedure {c name b ts t} : S.procedures c name b = .ok ts → t ∈ ts → S.Describes (.target t)
  | constructor {c b ts t} : S.constructors c b = .ok ts → t ∈ ts → S.Describes (.target t)
  | property {c name b ps p} : S.properties c name b = .ok ps → p ∈ ps → S.Describes (.property p)
  | field {c name b fs f} : S.fields c name b = .ok fs → f ∈ fs → S.Describes (.field f)
  | handle {v c m} : S.describe (.value v) c = .ok (some m) → S.Describes m
  | propertyAccessor {p setter t} : S.Describes (.property p) → p.accessor setter = some t →
      S.Describes (.target t)
  | fieldAccessor {f setter t} : S.Describes (.field f) → f.accessor setter = some t →
      S.Describes (.target t)

namespace MemberSource

variable {S : MemberSource} {c : Ty} {name ctor : String} {t : Target}

/-- Members that a source offers or constructs are members that it describes. -/
theorem Has.describes (h : S.Has ctor c name t) : S.Describes (.target t) := by
  rcases h with h | ⟨-, b, ts, hts, ht⟩
  · cases h with
    | procedure hts ht => exact .procedure hts ht
    | property hps hp ht => exact .propertyAccessor (.property hps hp) ht
    | field hfs hf ht => exact .fieldAccessor (.field hfs hf) ht
  · exact .constructor hts ht

/-- A source whose answers are guarded describes guarded members. -/
theorem guarded_of_describes
    (hprocedures : ∀ c name b ts, S.procedures c name b = .ok ts → ∀ t ∈ ts, t.Guarded)
    (hconstructors : ∀ c b ts, S.constructors c b = .ok ts → ∀ t ∈ ts, t.Guarded)
    (hproperties : ∀ c name b ps, S.properties c name b = .ok ps →
      ∀ p ∈ ps, (Member.property p).Guarded)
    (hfields : ∀ c name b fs, S.fields c name b = .ok fs → ∀ f ∈ fs, (Member.field f).Guarded)
    (hhandles : ∀ v c m, S.describe (.value v) c = .ok (some m) → m.Guarded) {m : Member}
    (hm : S.Describes m) : m.Guarded := by
  induction hm with
  | procedure hts ht => exact hprocedures _ _ _ _ hts _ ht
  | constructor hts ht => exact hconstructors _ _ _ hts _ ht
  | property hps hp => exact hproperties _ _ _ _ hps _ hp
  | field hfs hf => exact hfields _ _ _ _ hfs _ hf
  | handle hm => exact hhandles _ _ _ hm
  | propertyAccessor _ ht ih => exact ih _ _ ht
  | fieldAccessor _ ht ih => exact ih _ _ ht

end MemberSource

/-! ## Accessors of fields -/

/-- A field that is marked, or whose type is closed, has guarded accessors. -/
theorem FieldInfo.guarded {f : FieldInfo} (hf : f.isGeneric = false → f.type.freeVars = []) :
    (Member.field f).Guarded := by
  intro setter t ht hmark
  obtain rfl := eq_of_accessor ht
  cases setter with
  | true => exact ⟨by simp, rfl, by simpa using hf hmark⟩
  | false => exact ⟨by simp, hf hmark, by simp⟩

/-! ## Classes -/

namespace Reflection

variable {Γ : Program} {h : Heap} {c : Ty} {name : String} {t : Target}

theorem guarded_procedure? {k : Ty} {m : Bindings} {f : Found}
    (ht : procedure? Γ c k m f = some t) : t.Guarded := by
  obtain ⟨-, x, rfl, -⟩ := exists_marked_of_procedure? ht
  exact x.guarded_marked

theorem guarded_property? {receiver : Ty} {m : Bindings} {isPublic : Bool} {entry : Value}
    {p : PropertyInfo} (hp : property? Γ receiver m name isPublic entry = some p) :
    (Member.property p).Guarded := by
  intro setter t ht
  obtain ⟨x, rfl, -⟩ := exists_marked_of_property? hp ht
  exact x.guarded_marked

theorem guarded_field? {k : Ty} {m : Bindings} {x : Found} {f : FieldInfo}
    (hf : field? Γ c k m x = some f) : (Member.field f).Guarded := by
  refine FieldInfo.guarded fun hmark => ?_
  unfold field? at hf
  split at hf
  · cases hf
  · obtain ⟨isStatic, -, rfl⟩ := Option.map_eq_some_iff.1 hf
    simpa using hmark

theorem exists_marked_of_mem_constructors {b : SearchMask} (ht : t ∈ constructors Γ h c b) :
    ∃ t' : Target, t'.kind = .constructor ∧ t = t'.marked := by
  unfold constructors at ht
  dsimp only at ht
  split at ht
  · cases ht
  split at ht
  · split at ht
    · cases ht
    split at ht
    · cases ht
    · exact ⟨_, rfl, List.mem_singleton.1 ht⟩
  · cases ht

theorem guarded_constructors {b : SearchMask} (ht : t ∈ constructors Γ h c b) : t.Guarded := by
  obtain ⟨t', -, rfl⟩ := exists_marked_of_mem_constructors ht
  exact t'.guarded_marked

theorem guarded_describeCallable {v : Value} (ht : describeCallable Γ h v = some t) :
    t.Guarded := by
  unfold describeCallable at ht
  extract_lets called at ht
  clear_value called
  dsimp only at ht
  split at ht
  · cases ht
  · obtain ⟨sig, -, ht⟩ := Option.bind_eq_some_iff.1 ht
    obtain rfl := Option.some.inj ht
    exact Target.guarded_marked _

theorem guarded_describe {v : Value} {container : Option Ty} {m : Member}
    (hm : describe Γ h (.value v) container = some m) : m.Guarded := by
  have hcallable : ∀ {v : Value} {m : Member},
      (describeCallable Γ h v).map Member.target = some m → m.Guarded := by
    intro v m hm
    obtain ⟨t, ht, rfl⟩ := Option.map_eq_some_iff.1 hm
    exact guarded_describeCallable ht
  have hconstructor : ∀ {t : Ty} {b : SearchMask} {isType : Bool},
      (if isType then (constructors Γ h t b).head?.map Member.target else none) = some m →
        m.Guarded := by
    intro t b isType hm
    split at hm
    · obtain ⟨x, hx, rfl⟩ := Option.map_eq_some_iff.1 hm
      exact guarded_constructors (List.mem_of_head? hx)
    · cases hm
  -- what a handle is described as was marked when it was made
  unfold describe at hm
  cases v with
  | type t =>
    dsimp only at hm
    split at hm
    · exact hconstructor hm
    · exact hconstructor hm
    · exact hconstructor hm
    · exact hconstructor hm
    · exact hcallable hm
  | code f =>
    cases f with
    | property g s | cachedProperty id | builtinProperty b n =>
      obtain ⟨p, hp, rfl⟩ := Option.map_eq_some_iff.1 hm
      exact guarded_property? hp
    | classMethod id =>
      obtain ⟨c, -, hm⟩ := Option.bind_eq_some_iff.1 hm
      obtain ⟨impl, -, hm⟩ := Option.bind_eq_some_iff.1 hm
      obtain ⟨t, ht, rfl⟩ := Option.map_eq_some_iff.1 hm
      have hguarded : t.Guarded := guarded_procedure? ht
      intro hmark
      exact ⟨(hguarded hmark).params, (hguarded hmark).result, (hguarded hmark).assigned⟩
    | function id =>
      dsimp only at hm
      split at hm
      · rename_i found hfound
        obtain ⟨c, -, hc⟩ := Option.bind_eq_some_iff.1 hfound
        obtain ⟨x, -, hx⟩ := Option.map_eq_some_iff.1 hc
        rw [hm] at hx
        obtain ⟨t, ht, rfl⟩ := Option.map_eq_some_iff.1 hx
        exact guarded_procedure? ht
      · exact hcallable hm
    | _ => exact hcallable hm
  | _ => exact hcallable hm

/-- A handle that the source describes is described as it is found. -/
theorem describe_of_source {x : Handle} {c : Option Ty} {m : Option Member}
    (hm : (source Γ h).describe x c = .ok m) : describe Γ h x c = m := by
  change (if lacksAttribute Γ h x c then Except.error _ else Except.ok _) = _ at hm
  split at hm
  · cases hm
  · exact Except.ok.inj hm

/-- A class that lacks a class method by its name lacks what the handle describes. -/
theorem describe_eq_none_of_lacksAttribute {x : Handle} {c : Option Ty}
    (hlacks : lacksAttribute Γ h x c = true) : describe Γ h x c = none := by
  unfold lacksAttribute at hlacks
  split at hlacks
  · unfold describe
    simp only [Option.bind_some, Option.isNone_iff_eq_none.1 hlacks, Option.bind_none]
  · cases hlacks

/-- What a handle is found to be is what the source describes. -/
theorem source_describe_of_some {x : Handle} {c : Option Ty} {m : Member}
    (hm : describe Γ h x c = some m) : (source Γ h).describe x c = .ok (some m) := by
  show (if lacksAttribute Γ h x c then Except.error _ else Except.ok _) = _
  rw [if_neg, hm]
  intro hlacks
  rw [describe_eq_none_of_lacksAttribute hlacks] at hm
  cases hm

/-- Whatever is described on classes is guarded. -/
theorem guarded_of_describes {m : Member} (hm : (source Γ h).Describes m) : m.Guarded := by
  refine MemberSource.guarded_of_describes ?_ ?_ ?_ ?_ ?_ hm
  · intro c name b ts hts t ht
    obtain rfl := Except.ok.inj hts
    obtain ⟨f, -, hf⟩ := List.mem_filterMap.1 (List.mem_of_mem_filter ht)
    exact guarded_procedure? hf
  · intro c b ts hts t ht
    obtain rfl := Except.ok.inj hts
    exact guarded_constructors ht
  · intro c name b ps hps p hp
    obtain rfl := Except.ok.inj hps
    obtain ⟨f, -, hf⟩ := List.mem_filterMap.1 hp
    dsimp only at hf
    split at hf
    · obtain ⟨v, -, hv⟩ := Option.bind_eq_some_iff.1 hf
      exact guarded_property? hv
    · cases hf
  · intro c name b fs hfs f hf
    obtain rfl := Except.ok.inj hfs
    obtain ⟨x, -, hx⟩ := List.mem_filterMap.1 (List.mem_of_mem_filter hf)
    exact guarded_field? hx
  · intro v c m hm
    exact guarded_describe (describe_of_source hm)

end Reflection

/-! ## Tables -/

/-- An accessor as tables make it: it gives or takes the type, and is not marked. -/
structure Target.Accesses (type : Ty) (setter : Bool) (t : Target) : Prop where
  unmarked : t.isGeneric = false
  params : t.params = []
  result : t.result = if setter then .none else type
  assigned : t.assigned = if setter then some type else none

theorem Target.Accesses.closed_iff {type : Ty} {setter : Bool} {t : Target}
    (ht : t.Accesses type setter) : t.Closed ↔ type.freeVars = [] := by
  have hnone : (Ty.none).freeVars = [] := rfl
  constructor
  · intro h
    have hresult := h.result
    have hassigned := h.assigned
    rw [ht.result] at hresult
    rw [ht.assigned] at hassigned
    cases setter with
    | true => exact hassigned type rfl
    | false => exact hresult
  · intro h
    refine ⟨by simp [ht.params], ?_, ?_⟩
    · rw [ht.result]
      split
      · exact hnone
      · exact h
    · rw [ht.assigned]
      split
      · simpa using h
      · simp

theorem FieldInfo.accesses {f : FieldInfo} (hf : f.isGeneric = false) {setter : Bool} {t : Target}
    (ht : f.accessor setter = some t) : t.Accesses f.type setter := by
  obtain rfl := eq_of_accessor ht
  exact ⟨hf, rfl, rfl, rfl⟩

namespace MemberTable

/-- The types of properties and fields are closed. -/
structure Closed (t : MemberTable) : Prop where
  properties : ∀ e ∈ t.properties, e.member.type.freeVars = []
  fields : ∀ e ∈ t.fields, e.member.type.freeVars = []

/-- A property as registrations make it: it has an accessor, none is marked, and its container can
be a key. -/
structure MarksProperty (e : TableEntry PropertyInfo) : Prop where
  accesses : ∀ setter x, e.member.accessor setter = some x → x.Accesses e.member.type setter
  accessible : ∃ setter x, e.member.accessor setter = some x
  hashable : e.container.hashable = true

/-- The entries of a table as registrations make them: members are guarded, but the accessors of
properties and fields are not marked. -/
structure Marks (t : MemberTable) : Prop where
  procedures : ∀ e ∈ t.procedures, e.member.Guarded
  constructors : ∀ e ∈ t.constructors, e.member.Guarded
  handles : ∀ e ∈ t.handles, e.2.Guarded
  properties : ∀ e ∈ t.properties, MarksProperty e
  fields : ∀ e ∈ t.fields, e.member.isGeneric = false ∧ e.container.hashable = true

theorem Marks.guarded_property {t : MemberTable} (ht : t.Marks) {e : TableEntry PropertyInfo}
    (he : e ∈ t.properties) (hclosed : e.member.type.freeVars = []) :
    (Member.property e.member).Guarded :=
  fun setter x hx _ => ((ht.properties e he).accesses setter x hx).closed_iff.2 hclosed

/-- What a table describes is guarded where the types of properties and fields are closed. -/
theorem guarded_of_describes {t : MemberTable} (ht : t.Marks) (hclosed : t.Closed) {m : Member}
    (hm : t.source.Describes m) : m.Guarded := by
  refine MemberSource.guarded_of_describes ?_ ?_ ?_ ?_ ?_ hm
  · intro c name b ts hts x hx
    obtain ⟨e, he, -, rfl⟩ := mem_select hts hx
    exact ht.procedures e he
  · intro c b ts hts x hx
    obtain ⟨e, he, -, rfl⟩ := mem_select hts hx
    exact ht.constructors e he
  · intro c name b ps hps p hp
    obtain ⟨e, he, -, rfl⟩ := mem_select hps hp
    exact ht.guarded_property he (hclosed.properties e he)
  · intro c name b fs hfs f hf
    obtain ⟨e, he, -, rfl⟩ := mem_select hfs hf
    exact FieldInfo.guarded fun _ => hclosed.fields e he
  · intro v c m hm
    obtain ⟨e, he, rfl⟩ := Option.map_eq_some_iff.1 (Except.ok.inj hm)
    exact ht.handles e (List.mem_of_find?_eq_some he)

theorem marks_empty : MemberTable.empty.Marks := by
  constructor <;> simp [MemberTable.empty]

theorem closed_empty : MemberTable.empty.Closed := by
  constructor <;> simp [MemberTable.empty]

/-- The members of an entry are answers to a query. -/
theorem exists_select {α : Type} {entries : List (TableEntry α)} {e : TableEntry α}
    (he : e ∈ entries) (hkey : e.container.hashable = true) {admits : TableEntry α → Bool}
    (hadmits : admits e = true) :
    ∃ as, select entries e.container admits = .ok as ∧ e.member ∈ as := by
  unfold select checkKey
  rw [if_pos hkey]
  refine ⟨_, rfl, List.mem_map.2 ⟨e, List.mem_filter.2 ⟨he, ?_⟩, rfl⟩⟩
  rw [Ty.same_refl, hadmits]
  rfl

/-- The mask of all scopes and visibilities admits everything. -/
theorem admits_standard (isStatic isPublic : Bool) :
    SearchMask.standard.admits isStatic isPublic = true := by
  cases isStatic <;> cases isPublic <;> decide

theorem nameMatches_standard (name : String) :
    SearchMask.standard.nameMatches name name = true := by
  have hcase : SearchMask.standard.has .ignoreCase = false := by decide
  simp [SearchMask.nameMatches, hcase]

/-- What registrations made can be asked for. -/
theorem Marks.describes_property {t : MemberTable} (ht : t.Marks) {e : TableEntry PropertyInfo}
    (he : e ∈ t.properties) : t.source.Describes (.property e.member) := by
  have hadmits : (SearchMask.standard.nameMatches e.name e.name &&
      SearchMask.standard.admits e.member.isStatic e.member.isPublic) = true := by
    rw [nameMatches_standard, admits_standard]
    rfl
  have hasked : ∃ ps, t.source.properties e.container e.name .standard = .ok ps ∧ e.member ∈ ps :=
    exists_select he (ht.properties e he).hashable hadmits
  obtain ⟨ps, hps, hp⟩ := hasked
  exact .property hps hp

theorem Marks.describes_field {t : MemberTable} (ht : t.Marks) {e : TableEntry FieldInfo}
    (he : e ∈ t.fields) : t.source.Describes (.field e.member) := by
  have hadmits : (SearchMask.standard.nameMatches e.name e.name &&
      SearchMask.standard.admits e.member.isStatic e.member.isPublic) = true := by
    rw [nameMatches_standard, admits_standard]
    rfl
  have hasked : ∃ fs, t.source.fields e.container e.name .standard = .ok fs ∧ e.member ∈ fs :=
    exists_select he (ht.fields e he).2 hadmits
  obtain ⟨fs, hfs, hf⟩ := hasked
  exact .field hfs hf

end MemberTable

/-- A registration, as callers make it. -/
inductive Registration
  | procedure (container : Ty) (name : String) (impl : Value) (params : List ParameterSpec)
    (result : Ty) (isStatic : Bool) (declared : Option Bool)
  | constructor (container : Ty) (impl : Value) (params : List ParameterSpec)
    (declared : Option Bool)
  | property (container : Ty) (name : String) (type : Ty) (getter setter : Option Value)
    (isStatic : Bool) (declared : Option Bool)
  | field (container : Ty) (name : String) (type : Ty) (isStatic readOnly : Bool)
    (declared : Option Bool)

namespace Registration

/-- Registers the member in a table, and describes it. -/
def register (t : MemberTable) : Registration → Except Failure (Member × MemberTable)
  | procedure c name impl params result isStatic declared =>
    (t.registerProcedure c name impl params result isStatic declared).map fun r =>
      (.target r.1, r.2)
  | constructor c impl params declared =>
    (t.registerConstructor c impl params declared).map fun r => (.target r.1, r.2)
  | property c name type getter setter isStatic declared =>
    (t.registerProperty c name type getter setter isStatic declared).map fun r =>
      (.property r.1, r.2)
  | field c name type isStatic readOnly declared =>
    (t.registerField c name type isStatic readOnly declared).map fun r => (.field r.1, r.2)

theorem hashable_of_checkKey {c : Ty} {α : Type} {y r : α}
    (h : (MemberTable.checkKey c >>= fun _ => pure y) = .ok r) : c.hashable = true := by
  unfold MemberTable.checkKey at h
  split at h
  · assumption
  · cases h

theorem marksProperty_register {c : Ty} {name : String} {type : Ty}
    {getter assigner : Option Value} {isStatic : Bool} {declared : Option Bool}
    {t t' : MemberTable} {p : PropertyInfo}
    (h : t.registerProperty c name type getter assigner isStatic declared = .ok (p, t')) :
    t' = { t with properties := t.properties ++ [⟨c, name, p⟩] } ∧
      MemberTable.MarksProperty ⟨c, name, p⟩ := by
  unfold MemberTable.registerProperty at h
  split at h
  · cases h
  rename_i hsome
  have hkey := hashable_of_checkKey h
  obtain ⟨rfl, rfl⟩ := Prod.mk.inj (MemberTable.checkKey_bind h)
  refine ⟨rfl, fun setter x hx => ?_, ?_, hkey⟩
  · rcases PropertyInfo.accessor_cases rfl rfl hx with ⟨rfl, f, -, rfl⟩ | ⟨rfl, f, -, rfl⟩
    · exact ⟨rfl, rfl, rfl, rfl⟩
    · exact ⟨rfl, rfl, rfl, rfl⟩
  · cases getter with
    | some f => exact ⟨false, _, rfl⟩
    | none =>
      cases assigner with
      | some f => exact ⟨true, _, rfl⟩
      | none => exact absurd rfl hsome

/-- A registration keeps the entries, and adds one that is as tables make it. -/
theorem marks_register {t t' : MemberTable} (ht : t.Marks) {r : Registration} {m : Member}
    (hr : r.register t = .ok (m, t')) : t'.Marks ∧ (t'.Closed → t.Closed) := by
  cases r with
  | procedure c name impl params result isStatic declared =>
    obtain ⟨⟨x, t''⟩, hregister, hm⟩ := exists_of_map_eq_ok hr
    obtain ⟨-, rfl⟩ := Prod.mk.inj hm
    obtain ⟨rfl, rfl⟩ := Prod.mk.inj (MemberTable.checkKey_bind hregister)
    refine ⟨{ ht with procedures := ?_, handles := ?_ }, fun h => ⟨h.properties, h.fields⟩⟩
    · exact List.forall_mem_append.2
        ⟨ht.procedures, List.forall_mem_singleton.2 (Target.guarded_marked _)⟩
    · exact List.forall_mem_cons.2 ⟨Target.guarded_marked _, ht.handles⟩
  | constructor c impl params declared =>
    obtain ⟨⟨x, t''⟩, hregister, hm⟩ := exists_of_map_eq_ok hr
    obtain ⟨-, rfl⟩ := Prod.mk.inj hm
    obtain ⟨rfl, rfl⟩ := Prod.mk.inj (MemberTable.checkKey_bind hregister)
    refine ⟨{ ht with constructors := ?_ }, fun h => ⟨h.properties, h.fields⟩⟩
    exact List.forall_mem_append.2
      ⟨ht.constructors, List.forall_mem_singleton.2 (Target.guarded_marked _)⟩
  | property c name type getter assigner isStatic declared =>
    obtain ⟨⟨p, t''⟩, hregister, hm⟩ := exists_of_map_eq_ok hr
    obtain ⟨-, rfl⟩ := Prod.mk.inj hm
    obtain ⟨rfl, hmarks⟩ := marksProperty_register hregister
    refine ⟨{ ht with properties := ?_ }, fun h => ⟨fun e he => ?_, h.fields⟩⟩
    · exact List.forall_mem_append.2 ⟨ht.properties, List.forall_mem_singleton.2 hmarks⟩
    · exact h.properties e (List.mem_append_left _ he)
  | field c name type isStatic readOnly declared =>
    obtain ⟨⟨f, t''⟩, hregister, hm⟩ := exists_of_map_eq_ok hr
    obtain ⟨-, rfl⟩ := Prod.mk.inj hm
    have hkey := hashable_of_checkKey hregister
    obtain ⟨rfl, rfl⟩ := Prod.mk.inj (MemberTable.checkKey_bind hregister)
    refine ⟨{ ht with fields := ?_ }, fun h => ⟨h.properties, fun e he => ?_⟩⟩
    · exact List.forall_mem_append.2 ⟨ht.fields, List.forall_mem_singleton.2 ⟨rfl, hkey⟩⟩
    · exact h.fields e (List.mem_append_left _ he)

end Registration

end CallAdapter
