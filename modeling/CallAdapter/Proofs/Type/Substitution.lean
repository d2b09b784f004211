import CallAdapter.Proofs.Type.Normal
import CallAdapter.Type.Substitution

/-!
# Substitution and the spelling of types

Types that are the same have the same variables (`mem_varOccurrences_congr`), and substituting
bindings that are the same gives types that are the same (`same_substitute`). `SameBindings`
compares bindings entry by entry.
-/

namespace CallAdapter

namespace Ty

/-! ## Variables -/

theorem mem_varsOfAll {v : TypeVar} {ts : List Ty} :
    v ∈ varsOfAll ts ↔ ∃ t ∈ ts, v ∈ t.varOccurrences := by
  induction ts with
  | nil => simp [varsOfAll]
  | cons t ts ih => simp [varsOfAll, ih]

theorem mem_varsOfAll_of_forall₂ {v : TypeVar} {as bs : List Ty}
    (h : List.Forall₂ (fun a b => a.same b = true) as bs)
    (hmem : ∀ a ∈ as, ∀ b, a.same b = true → v ∈ a.varOccurrences → v ∈ b.varOccurrences)
    (hv : v ∈ varsOfAll as) : v ∈ varsOfAll bs := by
  obtain ⟨a, ha, hva⟩ := mem_varsOfAll.1 hv
  obtain ⟨b, hb, hab⟩ := (SameMembers.of_forall₂ h).1 a ha
  exact mem_varsOfAll.2 ⟨b, hb, hmem a ha b hab hva⟩

theorem mem_varOccurrences_of_same {v : TypeVar} {s t : Ty} (h : s.same t = true)
    (hv : v ∈ s.varOccurrences) : v ∈ t.varOccurrences := by
  induction s using memInduction generalizing t with
  | union p ms ih =>
    obtain ⟨q, ns, rfl, hm⟩ := eq_union_of_same h
    obtain ⟨m, hmem, hvm⟩ := mem_varsOfAll.1 hv
    obtain ⟨n, hn, hmn⟩ := hm.1 m hmem
    exact mem_varsOfAll.2 ⟨n, hn, ih m hmem hmn hvm⟩
  | applied k as ih =>
    obtain ⟨bs, rfl, hb⟩ := eq_applied_of_same h
    cases k with
    | literal => cases hv
    | _ => exact mem_varsOfAll_of_forall₂ (hb.forall₂ nofun) (fun a ha b hab => ih a ha hab) hv
  | list as ih =>
    obtain ⟨bs, rfl, hb⟩ := eq_list_of_same h
    exact mem_varsOfAll_of_forall₂ hb (fun a ha b hab => ih a ha hab) hv
  | token a => cases hv
  | _ => exact (same_iff_eq_of_isAtom rfl _).1 h ▸ hv

theorem mem_varOccurrences_congr {s t : Ty} (h : s.same t = true) (v : TypeVar) :
    v ∈ s.varOccurrences ↔ v ∈ t.varOccurrences :=
  ⟨mem_varOccurrences_of_same h, mem_varOccurrences_of_same (same_symm h)⟩

theorem mem_distinctVars {v : TypeVar} {vs : List TypeVar} : v ∈ distinctVars vs ↔ v ∈ vs := by
  induction vs with
  | nil => rfl
  | cons w vs ih =>
    rw [distinctVars, List.mem_cons, List.mem_filter, ih, List.mem_cons, decide_eq_true_eq]
    constructor
    · rintro (h | ⟨h, -⟩)
      · exact .inl h
      · exact .inr h
    · intro h
      by_cases hvw : v = w
      · exact .inl hvw
      · exact .inr ⟨h.resolve_left hvw, hvw⟩

theorem freeVars_of_ne_list {t : Ty} (h : ∀ ts, t ≠ list ts) :
    t.freeVars = distinctVars t.varOccurrences := by
  cases t with
  | list ts => exact absurd rfl (h ts)
  | _ => rfl

/-- The same types have the same variables. -/
theorem mem_freeVars_congr {s t : Ty} (h : s.same t = true) (v : TypeVar) :
    v ∈ s.freeVars ↔ v ∈ t.freeVars := by
  by_cases hs : ∃ as, s = list as
  · obtain ⟨as, rfl⟩ := hs
    obtain ⟨bs, rfl, -⟩ := eq_list_of_same h
    rfl
  · have ht : ∀ bs, t ≠ list bs := by
      rintro bs rfl
      obtain ⟨as, rfl, -⟩ := eq_list_of_same (same_symm h)
      exact hs ⟨as, rfl⟩
    rw [freeVars_of_ne_list (not_exists.1 hs), freeVars_of_ne_list ht, mem_distinctVars,
      mem_distinctVars, mem_varOccurrences_congr h v]

theorem isEmpty_congr {as bs : List TypeVar} (h : ∀ v, v ∈ as ↔ v ∈ bs) :
    as.isEmpty = bs.isEmpty := by
  rw [Bool.eq_iff_iff, List.isEmpty_iff, List.isEmpty_iff, List.eq_nil_iff_forall_not_mem,
    List.eq_nil_iff_forall_not_mem]
  exact forall_congr' fun v => not_congr (h v)

theorem isEmpty_freeVars_congr {s t : Ty} (h : s.same t = true) :
    s.freeVars.isEmpty = t.freeVars.isEmpty :=
  isEmpty_congr (mem_freeVars_congr h)

/-! ## Pipes -/

theorem same_converted {s t : Ty} (h : s.same t = true) : s.converted.same t.converted = true := by
  cases s with
  | null | text =>
    rw [(same_iff_eq_of_isAtom rfl _).1 h]
    exact same_refl _
  | _ => cases t <;> first | exact h | simp [same] at h

theorem pipe_eq (a b : Ty) :
    ∃ p, pipe a b = ofMembers p (a.converted.flat ++ b.converted.flat) := by
  unfold pipe
  split
  · exact ⟨true, rfl⟩
  · exact ⟨false, by simp [unionOf]⟩

theorem SameMembers.append {ms ns ms' ns' : List Ty} (h : SameMembers ms ns)
    (h' : SameMembers ms' ns') : SameMembers (ms ++ ms') (ns ++ ns') := by
  constructor
  · intro m hm
    rcases List.mem_append.1 hm with hm | hm
    · exact (h.1 m hm).imp fun _ hn => ⟨List.mem_append_left _ hn.1, hn.2⟩
    · exact (h'.1 m hm).imp fun _ hn => ⟨List.mem_append_right _ hn.1, hn.2⟩
  · intro n hn
    rcases List.mem_append.1 hn with hn | hn
    · exact (h.2 n hn).imp fun _ hm => ⟨List.mem_append_left _ hm.1, hm.2⟩
    · exact (h'.2 n hn).imp fun _ hm => ⟨List.mem_append_right _ hm.1, hm.2⟩

/-- Whichever pipe joins them, the same operands give the same union. -/
theorem same_pipe {a b a' b' : Ty} (ha : a.same a' = true) (hb : b.same b' = true) :
    (pipe a b).same (pipe a' b') = true := by
  obtain ⟨p, hp⟩ := pipe_eq a b
  obtain ⟨q, hq⟩ := pipe_eq a' b'
  rw [hp, hq]
  exact same_ofMembers _ _
    ((sameMembers_flat (same_converted ha)).append (sameMembers_flat (same_converted hb)))

theorem same_foldl_pipe {ts us : List Ty} (h : List.Forall₂ (fun t u => t.same u = true) ts us)
    {a b : Ty} (hab : a.same b = true) : (ts.foldl pipe a).same (us.foldl pipe b) = true := by
  induction h generalizing a b with
  | nil => exact hab
  | cons htu _ ih => exact ih (same_pipe hab htu)

theorem same_pipeOf {ts us : List Ty} (h : List.Forall₂ (fun t u => t.same u = true) ts us) :
    (pipeOf ts).same (pipeOf us) = true := by
  cases h with
  | nil => exact same_refl _
  | cons htu h => exact same_foldl_pipe h htu

/-! ## Bindings -/

/-- The same variables in the same order, bound to the same types. -/
def SameBindings (m m' : Bindings) : Prop :=
  List.Forall₂ (fun b b' => b.1 = b'.1 ∧ b.2.same b'.2 = true) m m'

/-- Both or none, and the same types. -/
def SameOption : Option Ty → Option Ty → Prop := Option.Rel fun s t => s.same t = true

theorem SameBindings.get? {m m' : Bindings} (h : SameBindings m m') (v : TypeVar) :
    SameOption (m.get? v) (m'.get? v) := by
  induction h with
  | nil => exact .none
  | @cons b b' _ _ hb _ ih =>
    unfold Bindings.get?
    rw [List.find?_cons, List.find?_cons, ← hb.1]
    cases hv : decide (b.1 = v) with
    | true => exact .some hb.2
    | false => exact ih

theorem SameOption.isSome_eq {s t : Option Ty} (h : SameOption s t) : s.isSome = t.isSome := by
  cases h <;> rfl

theorem SameOption.getD {s t : Option Ty} (h : SameOption s t) (u : Ty) :
    (s.getD u).same (t.getD u) = true := by
  cases h with
  | none => exact same_refl u
  | some h => exact h

theorem SameOption.map {s t : Option Ty} (h : SameOption s t) {f : Ty → Ty}
    (hf : ∀ {s t : Ty}, s.same t = true → (f s).same (f t) = true) :
    SameOption (s.map f) (t.map f) := by
  cases h with
  | none => exact .none
  | some h => exact .some (hf h)

theorem SameBindings.setDefault {m m' : Bindings} (h : SameBindings m m') (v : TypeVar)
    {s t : Ty} (hst : s.same t = true) :
    SameBindings (m.setDefault v s) (m'.setDefault v t) := by
  unfold Bindings.setDefault
  rw [(h.get? v).isSome_eq]
  split
  · exact h
  · exact List.rel_append h (.cons ⟨rfl, hst⟩ .nil)

/-! ## Substitution -/

theorem replaceAll_eq_map (get : TypeVar → Option Ty) (ts : List Ty) :
    replaceAll get ts = ts.map (replaceVars get) := by
  induction ts with
  | nil => rfl
  | cons t ts ih => rw [replaceAll, ih, List.map_cons]

theorem same_replaceVars {get get' : TypeVar → Option Ty}
    (hget : ∀ v, SameOption (get v) (get' v)) (t : Ty) :
    (replaceVars get t).same (replaceVars get' t) = true := by
  have hall : ∀ {ts : List Ty},
      (∀ t ∈ ts, (replaceVars get t).same (replaceVars get' t) = true) →
      List.Forall₂ (fun a b => a.same b = true) (replaceAll get ts) (replaceAll get' ts) := by
    intro ts hts
    rw [replaceAll_eq_map, replaceAll_eq_map, List.forall₂_map_left_iff,
      List.forall₂_map_right_iff]
    exact List.forall₂_same.2 hts
  induction t using memInduction with
  | var v =>
    rw [replaceVars, replaceVars]
    exact (hget v).getD _
  | union p ms ih =>
    cases p with
    | false =>
      rw [replaceVars, replaceVars]
      exact same_unionOf (.of_forall₂ (hall ih))
    | true =>
      rw [replaceVars, replaceVars]
      exact same_pipeOf (hall ih)
  | applied k as ih =>
    cases k with
    | literal => exact same_refl _
    | _ => exact (same_applied_iff ..).2 ⟨rfl, .of_forall₂ nofun (hall ih)⟩
  | list as ih => exact (same_list_iff ..).2 (hall ih)
  | _ => exact same_refl _

theorem SameBindings.isEmpty_eq {m m' : Bindings} (h : SameBindings m m') :
    m.isEmpty = m'.isEmpty := by
  cases h <;> rfl

/-- Only the variables that stand in a type are replaced. -/
theorem replaceVars_congr {get get' : TypeVar → Option Ty} {t : Ty}
    (h : ∀ v ∈ t.varOccurrences, get v = get' v) : replaceVars get t = replaceVars get' t := by
  have hall : ∀ {ts : List Ty}, (∀ v ∈ varsOfAll ts, get v = get' v) →
      (∀ t ∈ ts, (∀ v ∈ t.varOccurrences, get v = get' v) →
        replaceVars get t = replaceVars get' t) →
      replaceAll get ts = replaceAll get' ts := by
    intro ts hts ih
    rw [replaceAll_eq_map, replaceAll_eq_map]
    exact List.map_congr_left fun t ht =>
      ih t ht fun v hv => hts v (mem_varsOfAll.2 ⟨t, ht, hv⟩)
  induction t using memInduction with
  | var v => rw [replaceVars, replaceVars, h v (List.mem_singleton.2 rfl)]
  | union p ms ih =>
    cases p with
    | false => rw [replaceVars, replaceVars, hall h ih]
    | true => rw [replaceVars, replaceVars, hall h ih]
  | applied k as ih =>
    cases k with
    | literal => rfl
    | _ => exact congrArg (applied _) (hall h ih)
  | list as ih => exact congrArg list (hall h ih)
  | _ => rfl

/-- A type without variables stays. -/
theorem substitute_of_closed {t : Ty} (ht : t.freeVars = []) (m : Bindings) :
    t.substitute m = t := by
  unfold substitute
  split
  · rfl
  split
  · cases ht
  · rw [ht]
    rfl

/-- Bindings that agree on the variables of a type give the same type. -/
theorem substitute_congr {m m' : Bindings} {t : Ty} (hm : m ≠ []) (hm' : m' ≠ [])
    (h : ∀ v ∈ t.freeVars, m.get? v = m'.get? v) : t.substitute m = t.substitute m' := by
  by_cases hlist : ∃ ts, t = list ts
  · obtain ⟨ts, rfl⟩ := hlist
    rw [substitute_of_closed rfl, substitute_of_closed rfl]
  rw [freeVars_of_ne_list (not_exists.1 hlist)] at h
  have hoccurring : ∀ v ∈ t.varOccurrences, m.get? v = m'.get? v :=
    fun v hv => h v (mem_distinctVars.2 hv)
  have hfull : ¬m.isEmpty = true := fun h => hm (List.isEmpty_iff.1 h)
  have hfull' : ¬m'.isEmpty = true := fun h => hm' (List.isEmpty_iff.1 h)
  unfold substitute
  rw [if_neg hfull, if_neg hfull']
  split
  · rw [hoccurring _ (List.mem_singleton.2 rfl)]
  · rw [replaceVars_congr fun v hv => by rw [hoccurring v hv]]

/-- The same bindings give the same type. -/
theorem same_substitute {m m' : Bindings} (h : SameBindings m m') (t : Ty) :
    (t.substitute m).same (t.substitute m') = true := by
  unfold substitute
  rw [h.isEmpty_eq]
  split
  · exact same_refl t
  split
  · exact (h.get? _).getD _
  split
  · exact same_refl t
  split
  · exact same_refl t
  · exact same_normalize (same_replaceVars (fun v => (h.get? v).map same_converted) t)

end Ty

end CallAdapter
