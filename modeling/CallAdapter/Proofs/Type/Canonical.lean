import CallAdapter.Proofs.Type.Normal

/-!
# Canonical types

What a normal form looks like: no absent annotation, no text, no pipe union and no wrapper, and the
same for the members of a union, none of which is a union or there twice. The types that are their
own normal forms are those that look so (`normalize_eq_self_iff`), and normalizing is a projection
onto them which respects equality (`normalize_projects_respecting_same`).
-/

namespace CallAdapter

namespace Ty

/-- Not the absent annotation, no text, no pipe union, and no wrapper of a class attribute, a
constant or a remark. -/
def isUnwrapped : Ty → Bool
  | null | text _ | union true _ | form .classVar | form .final => false
  | applied .classVar _ | applied .final _ | applied .annotated _ => false
  | _ => true

/-- The type is unwrapped, and a union is one of different unwrapped members that are no unions,
and not of a single one. -/
structure Canonical (t : Ty) : Prop where
  isUnwrapped : t.isUnwrapped = true
  member : t.isUnion = true → ∀ m ∈ t.unionMembers, m.isUnwrapped = true ∧ m.isUnion = false
  distinct : t.isUnion = true → t.unionMembers.Pairwise fun m n => m.same n = false
  notSingle : t.isUnion = true → ∀ m, t.unionMembers ≠ [m]

theorem isUnwrapped_ofMembers {ts : List Ty} (h : ∀ t ∈ ts, t.isUnwrapped = true) :
    (ofMembers false ts).isUnwrapped = true := by
  by_cases hd : ∃ t, dedupe ts = [t]
  · obtain ⟨t, ht⟩ := hd
    rw [ofMembers_of_dedupe false ht]
    exact h t (mem_of_mem_dedupe (ht ▸ List.mem_cons_self))
  · rw [ofMembers_of_not_dedupe false hd]
    rfl

/-- Members are looked at together with the type: a union is flattened, so that what ends up in it
are members of the normal forms of its members. -/
theorem isUnwrapped_spec (t : Ty) :
    t.normalize.isUnwrapped = true ∧ ∀ m ∈ t.normalize.flat, m.isUnwrapped = true := by
  have self_spec : ∀ u : Ty, u.normalize = u → u.isUnion = false → u.isUnwrapped = true →
      u.normalize.isUnwrapped = true ∧ ∀ m ∈ u.normalize.flat, m.isUnwrapped = true := by
    intro u hn hu hunwrapped
    rw [hn, flat_of_isUnion_eq_false hu]
    simpa using hunwrapped
  induction t using memInduction with
  | union p ms ih =>
    have hunwrapped : ∀ m ∈ (ms.map normalize).flatMap flat, m.isUnwrapped = true := by
      intro m hm
      obtain ⟨n, hn, hm⟩ := List.mem_flatMap.1 hm
      obtain ⟨k, hk, rfl⟩ := List.mem_map.1 hn
      exact (ih k hk).2 m hm
    have hflat : ∀ m ∈ (ms.map normalize).flatMap flat, m.isUnion = false := by
      intro m hm
      obtain ⟨n, hn, hm⟩ := List.mem_flatMap.1 hm
      obtain ⟨k, -, rfl⟩ := List.mem_map.1 hn
      exact ((normalize_spec k).2 m hm).2
    rw [normalize, normalizeAll_eq_map, unionOf, flat_ofMembers hflat]
    exact ⟨isUnwrapped_ofMembers hunwrapped, fun m hm => hunwrapped m (mem_of_mem_dedupe hm)⟩
  | applied h as ih =>
    cases as with
    | nil =>
      cases h with
      | classVar | final | annotated => exact self_spec any rfl rfl rfl
      | _ => exact self_spec _ rfl rfl rfl
    | cons a as =>
      cases h with
      | classVar | final | annotated => exact ih a List.mem_cons_self
      | _ => exact self_spec _ rfl rfl rfl
  | null => exact self_spec none rfl rfl rfl
  | text s => exact self_spec any rfl rfl rfl
  | form f =>
    cases f with
    | classVar | final => exact self_spec any rfl rfl rfl
    | _ => exact self_spec _ rfl rfl rfl
  | _ => exact self_spec _ rfl rfl rfl

/-- A union in normal form is the union of its members. -/
theorem ofMembers_unionMembers {t : Ty} (ht : t.normalize = t) (hu : t.isUnion = true) :
    ofMembers false t.unionMembers = t := by
  cases t with
  | union p ms =>
    have hmember : ∀ m ∈ ms, IsNormalMember m := fun m hm => isNormalMember_of_mem ht hu hm
    have hmap : ms.map normalize = ms :=
      (List.map_congr_left fun m hm => (hmember m hm).1).trans (List.map_id' _)
    rwa [normalize, normalizeAll_eq_map, hmap, unionOf,
      flatMap_flat_of_isUnion_eq_false fun m hm => (hmember m hm).2] at ht
  | _ => cases hu

theorem canonical_normalize (t : Ty) : t.normalize.Canonical := by
  have hn := normalize_normalize t
  have hunwrapped := isUnwrapped_spec t
  generalize t.normalize = n at hn hunwrapped
  cases hu : n.isUnion with
  | false => exact ⟨hunwrapped.1, by simp [hu], by simp [hu], by simp [hu]⟩
  | true =>
    have hflat := flat_of_isUnion hu
    have hmember : ∀ m ∈ n.unionMembers, m.isUnion = false := fun m hm =>
      (isNormalMember_of_mem hn hu hm).2
    have hself := ofMembers_unionMembers hn hu
    have hdedupe : dedupe n.unionMembers = n.unionMembers := by
      rw [← flat_ofMembers hmember, hself, hflat]
    refine ⟨hunwrapped.1, fun _ m hm => ⟨hunwrapped.2 m (hflat ▸ hm), hmember m hm⟩, fun _ => ?_,
      fun _ m hm => ?_⟩
    · exact hdedupe ▸ pairwise_dedupe _
    · -- the union of one member is that member, which is no union
      rw [ofMembers_of_dedupe false (hdedupe.trans hm)] at hself
      have hfalse := hmember m (hm ▸ List.mem_cons_self)
      rw [hself, hu] at hfalse
      cases hfalse

theorem normalize_of_isUnwrapped {t : Ty} (h : t.isUnwrapped = true) (hu : t.isUnion = false) :
    t.normalize = t := by
  cases t with
  | null | text => cases h
  | union => cases hu
  | form f =>
    cases f with
    | classVar | final => cases h
    | _ => rfl
  | applied k as =>
    cases k with
    | classVar | final | annotated => cases h
    | _ => rfl
  | _ => rfl

theorem Canonical.normalize_eq {t : Ty} (h : t.Canonical) : t.normalize = t := by
  obtain ⟨hunwrapped, hmember, hdistinct, hsingle⟩ := h
  cases hu : t.isUnion with
  | false => exact normalize_of_isUnwrapped hunwrapped hu
  | true =>
    have hnormal : ∀ m ∈ t.unionMembers, IsNormalMember m := fun m hm =>
      ⟨normalize_of_isUnwrapped (hmember hu m hm).1 (hmember hu m hm).2, (hmember hu m hm).2⟩
    have hdedupe := dedupe_of_pairwise (hdistinct hu)
    have hself : ofMembers false t.unionMembers = t := by
      rw [ofMembers_of_not_dedupe false (by simpa [hdedupe] using hsingle hu), hdedupe]
      cases t with
      | union p ms =>
        cases p with
        | false => rfl
        | true => cases hunwrapped
      | _ => cases hu
    rw [← hself]
    exact normalize_ofMembers hnormal

theorem normalize_eq_self_iff {t : Ty} : t.normalize = t ↔ t.Canonical :=
  ⟨fun h => h ▸ canonical_normalize t, Canonical.normalize_eq⟩

/-- Normalizing is a projection onto canonical types, and equal types have equal normal forms. -/
theorem normalize_projects_respecting_same :
    (∀ t : Ty, t.normalize.normalize = t.normalize ∧ t.normalize.Canonical ∧
      (t.normalize = t ↔ t.Canonical)) ∧
      ∀ s t : Ty, s.same t = true → s.normalize.same t.normalize = true :=
  ⟨fun t => ⟨normalize_normalize t, canonical_normalize t, normalize_eq_self_iff⟩,
    fun _ _ h => same_normalize h⟩

/-- A constant with a remark: a pipe union in one spelling of the type, a union in the other, with
the absent value first. -/
theorem normalize_projects_respecting_same_optional :
    let s := applied .final [applied .annotated [union true [builtin .int, none]]]
    let t := applied .final [applied .annotated [union false [none, builtin .int]]]
    s.same t = true ∧ s.normalize.same t.normalize = true ∧
      s.normalize = union false [builtin .int, none] ∧
      t.normalize = union false [none, builtin .int] := by
  have hsame : (applied .final [applied .annotated [union true [builtin .int, none]]]).same
      (applied .final [applied .annotated [union false [none, builtin .int]]]) = true := by
    with_unfolding_all rfl
  exact ⟨hsame, normalize_projects_respecting_same.2 _ _ hsame, by with_unfolding_all rfl,
    by with_unfolding_all rfl⟩

end Ty

end CallAdapter
