import CallAdapter.Proofs.Member.Guarded
import CallAdapter.Proofs.Member.Inherited
import CallAdapter.Proofs.Member.Lookup
import CallAdapter.Proofs.Type.Ground

/-!
# Members whose variables stand for types

An annotation is seen as a ground type where its variables stand for ground types (`ground_seen`). A
member all of whose annotations are seen so has no open type variables, whichever of its accessors
is chosen (`unmarked_procedure?`, `unmarked_property?`, `unmarked_field?`).
-/

namespace CallAdapter

open Program

/-- A member without open type variables is not marked. -/
theorem Target.isGeneric_marked_of_closed {t : Target} (hmark : t.isGeneric = false)
    (h : t.Closed) : t.marked.isGeneric = false := by
  rw [isGeneric_marked, hmark, closed_iff.1 h]
  rfl

namespace Reflection

/-- The variable occurs in an annotation of the member. -/
def Mentions (Γ : Program) (f : Found) (v : TypeVar) : Prop :=
  ∃ t ∈ annotationsOf Γ f, v ∈ t.normalize.varOccurrences

section Filled

variable {Γ : Program} {container c t : Ty} {m : Bindings} {f : Found}

theorem ground_seen (hplain : t.normalize.IsPlain)
    (h : ∀ v ∈ t.normalize.varOccurrences, ∃ u, m.get? v = some u ∧ u.Ground) :
    (seen m t).Ground :=
  (Ty.ground_substitute hplain h).normalize

theorem ground_seen_any (m : Bindings) : (seen m .any).Ground :=
  ground_seen ⟨rfl, nofun⟩ nofun

theorem mem_annotationsOf {callee : Callee} (hentry : f.entry = some (.code callee)) {id : Nat}
    (hid : id ∈ describingFunctions callee) (ht : t ∈ (Γ.functionHints id).map (·.2)) :
    t ∈ annotationsOf Γ f := by
  refine List.mem_append_right _ ?_
  rw [hentry]
  exact List.mem_flatMap.2 ⟨id, hid, ht⟩

theorem mem_annotationsOf_of_hintsOf {callee : Callee} (hentry : f.entry = some (.code callee))
    (ht : t ∈ (hintsOf Γ callee).map (·.2)) : t ∈ annotationsOf Γ f := by
  cases callee with
  | function id | staticMethod id | classMethod id =>
    exact mem_annotationsOf hentry (List.mem_singleton.2 rfl) ht
  | _ => cases ht

theorem ground_resultType {hints : List (String × Ty)}
    (h : ∀ t ∈ hints.map (·.2), (seen m t).Ground) (s : Signature) :
    (resultType s hints m).Ground := by
  unfold resultType
  split
  · rename_i hhint
    exact h _ (mem_of_hint? hhint)
  · split
    · exact ground_seen_any m
    · rfl

theorem closed_parameters {hints : List (String × Ty)}
    (h : ∀ t ∈ hints.map (·.2), (seen m t).Ground) (ps : ParameterList) :
    ∀ p ∈ parameters ps hints m, p.type.freeVars = [] := by
  intro p hp
  obtain ⟨q, -, hq⟩ := List.mem_filterMap.1 hp
  have hdeclared : (seen m ((Program.hint? hints q.1).getD .any)).Ground := by
    cases hhint : Program.hint? hints q.1 with
    | some t => exact h t (mem_of_hint? hhint)
    | none => exact ground_seen_any m
  dsimp only at hq
  split at hq
  · cases hq
  · obtain rfl := Option.some.inj hq
    refine Ty.Ground.freeVars (Ty.ground_iff.2 fun v hv => ?_)
    obtain ⟨t, ht, hv⟩ := Ty.mem_varsOfAll.1 hv
    rcases List.mem_cons.1 ht with rfl | ht
    · exact Ty.ground_iff.1 hdeclared v hv
    · obtain rfl := List.mem_singleton.1 ht
      cases hv
  all_goals
    obtain rfl := Option.some.inj hq
    exact hdeclared.freeVars

/-- A procedure all of whose annotations are seen as ground types has no open type variables. -/
theorem unmarked_procedure? (h : ∀ t ∈ annotationsOf Γ f, (seen m t).Ground) {x : Target}
    (hx : procedure? Γ container c m f = some x) : x.isGeneric = false := by
  obtain ⟨callee, x, rfl, hx'⟩ := exists_marked_of_procedure? hx
  have hhints : ∀ t ∈ (hintsOf Γ callee).map (·.2), (seen m t).Ground :=
    fun t ht => h t (mem_annotationsOf_of_hintsOf hx'.entry ht)
  obtain ⟨ps, hparams⟩ := hx'.params
  obtain ⟨sig, hresult⟩ := hx'.result
  refine Target.isGeneric_marked_of_closed hx'.unmarked ⟨?_, ?_, ?_⟩
  · rw [hparams]
    exact closed_parameters hhints ps
  · rw [hresult]
    exact (ground_resultType hhints sig).freeVars
  · rw [hx'.assigned]
    exact nofun

theorem ground_getterType {callee : Callee} (hentry : f.entry = some (.code callee))
    (h : ∀ t ∈ annotationsOf Γ f, (seen m t).Ground) {getter : Option Callee}
    (hgetter : ∀ id, getter = some (.function id) → id ∈ describingFunctions callee) :
    (getterType Γ m getter).Ground := by
  unfold getterType
  split
  · rename_i id
    split
    · exact ground_resultType (fun t ht => h t (mem_annotationsOf hentry (hgetter id rfl) ht)) _
    · rfl
  · rfl

theorem ground_setterType {callee : Callee} (hentry : f.entry = some (.code callee))
    (h : ∀ t ∈ annotationsOf Γ f, (seen m t).Ground) {getter : Option Callee} {setter : Option Nat}
    (hgetter : ∀ id, getter = some (.function id) → id ∈ describingFunctions callee)
    (hsetter : ∀ id, setter = some id → id ∈ describingFunctions callee) :
    (setterType Γ m getter setter).Ground := by
  unfold setterType
  cases hhint : setter.bind (assignedHint? Γ) with
  | none => exact ground_getterType hentry h hgetter
  | some t =>
    obtain ⟨id, hid, hassigned⟩ := Option.bind_eq_some_iff.1 hhint
    refine h t (mem_annotationsOf hentry (hsetter id hid) ?_)
    unfold assignedHint? at hassigned
    obtain ⟨sig, -, hassigned⟩ := Option.bind_eq_some_iff.1 hassigned
    obtain ⟨p, -, hassigned⟩ := Option.bind_eq_some_iff.1 hassigned
    exact mem_of_hint? hassigned

/-- So has neither accessor of a property, -/
theorem unmarked_property? (h : ∀ t ∈ annotationsOf Γ f, (seen m t).Ground) {entry : Value}
    (hentry : f.entry = some entry) {receiver : Ty} {isPublic : Bool} {p : PropertyInfo}
    (hp : property? Γ receiver m f.name isPublic entry = some p) {setter : Bool} {x : Target}
    (hx : p.accessor setter = some x) : x.isStatic = false ∧ x.isGeneric = false := by
  unfold property? at hp
  obtain ⟨⟨getter, assigner⟩, haccessors, rfl⟩ := Option.map_eq_some_iff.1 hp
  obtain ⟨callee, rfl, hget, hset⟩ := describes_of_accessorsOf? haccessors
  have hgetter := (ground_getterType hentry h hget).freeVars
  have hsetter := (ground_setterType hentry h hget hset).freeVars
  rcases PropertyInfo.accessor_cases rfl rfl hx with ⟨-, id, -, rfl⟩ | ⟨-, g, -, rfl⟩
  · refine ⟨Target.isStatic_marked _, Target.isGeneric_marked_of_closed rfl ⟨nofun, rfl, ?_⟩⟩
    intro a ha
    obtain rfl := Option.mem_some_iff.1 ha
    exact hsetter
  · exact ⟨Target.isStatic_marked _,
      Target.isGeneric_marked_of_closed rfl ⟨nofun, hgetter, nofun⟩⟩

/-- and neither accessor of a field. -/
theorem unmarked_field? (h : ∀ t ∈ annotationsOf Γ f, (seen m t).Ground) {i : FieldInfo}
    (hi : field? Γ container c m f = some i) : i.isGeneric = false := by
  unfold field? at hi
  split at hi
  · cases hi
  · obtain ⟨isStatic, -, rfl⟩ := Option.map_eq_some_iff.1 hi
    have htype : (fieldType Γ m f).Ground := by
      unfold fieldType
      split
      · rename_i t hhint
        refine h t (List.mem_append_left _ ?_)
        rw [hhint]
        exact List.mem_singleton.2 rfl
      · split <;> rfl
      · rfl
    dsimp only
    rw [htype.freeVars]
    rfl

end Filled

end Reflection

end CallAdapter
