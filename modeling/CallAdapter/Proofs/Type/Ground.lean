import CallAdapter.Proofs.Type.Substitution

/-!
# Variables of types that were built from others

The variables of a union are those of its members, and replacing variables leaves those of the
replacements (`mem_varOccurrences_replaceVars`). A type is ground when no variable occurs in it: so
is what a type becomes whose variables stand for ground types (`ground_substitute`). A parameter
variable keeps a type from being given arguments, so types that have one are left out.
-/

namespace CallAdapter

namespace Ty

section Variables

variable {v : TypeVar} {s t : Ty} {ts us : List Ty}

theorem mem_varsOfAll_flat : v ∈ varsOfAll t.flat ↔ v ∈ t.varOccurrences := by
  cases t with
  | union p ms => rfl
  | _ => exact mem_varsOfAll.trans (by simp [flat])

theorem mem_varsOfAll_append : v ∈ varsOfAll (ts ++ us) ↔ v ∈ varsOfAll ts ∨ v ∈ varsOfAll us := by
  simp only [mem_varsOfAll, List.mem_append, or_and_right, exists_or]

theorem mem_varOccurrences_converted : v ∈ t.converted.varOccurrences ↔ v ∈ t.varOccurrences := by
  cases t <;> rfl

/-- Members that are dropped are the same as one that is kept. -/
theorem mem_varsOfAll_dedupe : v ∈ varsOfAll (dedupe ts) ↔ v ∈ varsOfAll ts := by
  simp only [mem_varsOfAll]
  constructor
  · rintro ⟨t, ht, hv⟩
    exact ⟨t, mem_of_mem_dedupe ht, hv⟩
  · rintro ⟨t, ht, hv⟩
    obtain ⟨u, hu, hsame⟩ := (sameMembers_dedupe ts).1 t ht
    exact ⟨u, hu, mem_varOccurrences_of_same hsame hv⟩

theorem mem_varOccurrences_ofMembers (p : Bool) :
    v ∈ (ofMembers p ts).varOccurrences ↔ v ∈ varsOfAll ts := by
  rw [← mem_varsOfAll_dedupe]
  unfold ofMembers
  split
  · rename_i t heq
    rw [heq, mem_varsOfAll]
    simp
  · rfl

theorem mem_varOccurrences_unionOf :
    v ∈ (unionOf ts).varOccurrences ↔ ∃ t ∈ ts, v ∈ t.varOccurrences := by
  unfold unionOf
  rw [mem_varOccurrences_ofMembers, mem_varsOfAll]
  constructor
  · rintro ⟨m, hm, hv⟩
    obtain ⟨t, ht, hm⟩ := List.mem_flatMap.1 hm
    exact ⟨t, ht, mem_varsOfAll_flat.1 (mem_varsOfAll.2 ⟨m, hm, hv⟩)⟩
  · rintro ⟨t, ht, hv⟩
    obtain ⟨m, hm, hv⟩ := mem_varsOfAll.1 (mem_varsOfAll_flat.2 hv)
    exact ⟨m, List.mem_flatMap.2 ⟨t, ht, hm⟩, hv⟩

theorem mem_varOccurrences_pipe :
    v ∈ (pipe s t).varOccurrences ↔ v ∈ s.varOccurrences ∨ v ∈ t.varOccurrences := by
  obtain ⟨p, hp⟩ := pipe_eq s t
  rw [hp, mem_varOccurrences_ofMembers, mem_varsOfAll_append, mem_varsOfAll_flat,
    mem_varsOfAll_flat, mem_varOccurrences_converted, mem_varOccurrences_converted]

theorem mem_varOccurrences_pipeOf :
    v ∈ (pipeOf ts).varOccurrences ↔ ∃ t ∈ ts, v ∈ t.varOccurrences := by
  cases ts with
  | nil => simp [pipeOf, varOccurrences]
  | cons t ts =>
    show v ∈ (ts.foldl pipe t).varOccurrences ↔ _
    induction ts generalizing t with
    | nil => simp
    | cons u us ih =>
      rw [List.foldl_cons, ih]
      simp [mem_varOccurrences_pipe, or_assoc]

/-- What is bound leaves its own variables, and what is not bound stays. -/
theorem mem_varOccurrences_replaceVars {get : TypeVar → Option Ty} :
    v ∈ (replaceVars get t).varOccurrences ↔
      ∃ w ∈ t.varOccurrences, v ∈ ((get w).getD (var w)).varOccurrences := by
  have hall : ∀ {ts : List Ty}, (∀ t ∈ ts, v ∈ (replaceVars get t).varOccurrences ↔
      ∃ w ∈ t.varOccurrences, v ∈ ((get w).getD (var w)).varOccurrences) →
      ((∃ u ∈ replaceAll get ts, v ∈ u.varOccurrences) ↔
        ∃ w ∈ varsOfAll ts, v ∈ ((get w).getD (var w)).varOccurrences) := by
    intro ts ih
    rw [replaceAll_eq_map]
    constructor
    · rintro ⟨u, hu, hv⟩
      obtain ⟨t, ht, rfl⟩ := List.mem_map.1 hu
      obtain ⟨w, hw, hvw⟩ := (ih t ht).1 hv
      exact ⟨w, mem_varsOfAll.2 ⟨t, ht, hw⟩, hvw⟩
    · rintro ⟨w, hw, hvw⟩
      obtain ⟨t, ht, hwt⟩ := mem_varsOfAll.1 hw
      exact ⟨_, List.mem_map_of_mem ht, (ih t ht).2 ⟨w, hwt, hvw⟩⟩
  have hnone : ∀ {t : Ty}, (replaceVars get t).varOccurrences = [] → t.varOccurrences = [] →
      (v ∈ (replaceVars get t).varOccurrences ↔
        ∃ w ∈ t.varOccurrences, v ∈ ((get w).getD (var w)).varOccurrences) := by
    intro t hreplaced ht
    simp [hreplaced, ht]
  -- inside a union or an alias the members decide; other forms hold no variable
  induction t using memInduction with
  | var w =>
    rw [replaceVars]
    constructor
    · exact fun h => ⟨w, List.mem_singleton.2 rfl, h⟩
    · rintro ⟨w', hw', h⟩
      obtain rfl := List.mem_singleton.1 hw'
      exact h
  | union p ms ih =>
    cases p with
    | false =>
      rw [replaceVars, mem_varOccurrences_unionOf]
      exact hall ih
    | true =>
      rw [replaceVars, mem_varOccurrences_pipeOf]
      exact hall ih
  | applied k as ih =>
    cases k with
    | literal => exact hnone rfl rfl
    | _ => exact mem_varsOfAll.trans (hall ih)
  | list as ih => exact mem_varsOfAll.trans (hall ih)
  | _ => exact hnone rfl rfl

/-- A normal form may leave wrappers out, and adds nothing. -/
theorem mem_varOccurrences_of_normalize (hv : v ∈ t.normalize.varOccurrences) :
    v ∈ t.varOccurrences := by
  induction t using memInduction with
  | union p ms ih =>
    rw [normalize, normalizeAll_eq_map, mem_varOccurrences_unionOf] at hv
    obtain ⟨u, hu, hv⟩ := hv
    obtain ⟨m, hm, rfl⟩ := List.mem_map.1 hu
    exact mem_varsOfAll.2 ⟨m, hm, ih m hm hv⟩
  | applied k as ih =>
    cases as with
    | nil => cases k <;> exact hv
    | cons a as =>
      have hwrapped : v ∈ a.normalize.varOccurrences → v ∈ varsOfAll (a :: as) := fun h =>
        mem_varsOfAll.2 ⟨a, List.mem_cons_self, ih a List.mem_cons_self h⟩
      cases k with
      | classVar | final | annotated => exact hwrapped hv
      | _ => exact hv
  | form f => cases f <;> cases hv
  | null | text => cases hv
  | _ => exact hv

end Variables

/-! ## Ground types -/

/-- No type variable occurs in the type. -/
def Ground (t : Ty) : Prop := t.varOccurrences = []

/-- The type is given arguments where it has variables: it has no parameter variable, and is no bare
parameter list. -/
structure IsPlain (t : Ty) : Prop where
  hasParams : t.hasParams = false
  ne_list : ∀ ts, t ≠ list ts

section Ground

variable {t : Ty} {m : Bindings}

theorem ground_iff : t.Ground ↔ ∀ v, v ∉ t.varOccurrences := List.eq_nil_iff_forall_not_mem

theorem Ground.freeVars (h : t.Ground) : t.freeVars = [] := by
  by_cases hlist : ∃ ts, t = list ts
  · obtain ⟨ts, rfl⟩ := hlist
    rfl
  · rw [freeVars_of_ne_list (not_exists.1 hlist), h]
    rfl

theorem ground_of_freeVars (hlist : ∀ ts, t ≠ list ts) (h : t.freeVars = []) : t.Ground := by
  rw [freeVars_of_ne_list hlist] at h
  refine ground_iff.2 fun v hv => ?_
  rw [← mem_distinctVars, h] at hv
  cases hv

theorem Ground.normalize (h : t.Ground) : t.normalize.Ground :=
  ground_iff.2 fun v hv => ground_iff.1 h v (mem_varOccurrences_of_normalize hv)

/-- Where all variables stand for ground types, the type becomes one. -/
theorem ground_substitute (hplain : t.IsPlain)
    (h : ∀ v ∈ t.varOccurrences, ∃ u, m.get? v = some u ∧ u.Ground) : (t.substitute m).Ground := by
  have hreplaced : (replaceVars (fun v => (m.get? v).map converted) t).Ground := by
    refine ground_iff.2 fun v hv => ?_
    obtain ⟨w, hw, hvw⟩ := mem_varOccurrences_replaceVars.1 hv
    obtain ⟨u, hu, hground⟩ := h w hw
    rw [hu] at hvw
    exact ground_iff.1 hground v (mem_varOccurrences_converted.1 hvw)
  unfold substitute
  split
  · rename_i hempty
    refine ground_iff.2 fun v hv => ?_
    obtain ⟨u, hu, -⟩ := h v hv
    rw [List.isEmpty_iff.1 hempty] at hu
    cases hu
  split
  · rename_i v
    obtain ⟨u, hu, hground⟩ := h v (List.mem_singleton.2 rfl)
    rw [hu]
    exact hground
  split
  · rename_i hclosed
    exact ground_of_freeVars hplain.ne_list (List.isEmpty_iff.1 hclosed)
  · rw [if_neg (by rw [hplain.hasParams]; exact Bool.false_ne_true)]
    exact hreplaced.normalize

end Ground

end Ty

end CallAdapter
