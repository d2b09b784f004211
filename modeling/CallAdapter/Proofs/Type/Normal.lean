import CallAdapter.Proofs.Type.Equality
import CallAdapter.Type.Normal

/-!
# Normal forms of types

`Ty.normalize` is a projection (`normalize_normalize`): its results are unions of members that are
no unions and stand for themselves, or no unions at all. It respects equality of types
(`same_normalize`), and so does the content type of a reference cell.
-/

namespace CallAdapter

namespace Ty

/-! ## Lists of members -/

theorem SameMembers.symm {ms ns : List Ty} (h : SameMembers ms ns) : SameMembers ns ms :=
  ⟨fun n hn => (h.2 n hn).imp fun _ hm => ⟨hm.1, same_symm hm.2⟩,
    fun m hm => (h.1 m hm).imp fun _ hn => ⟨hn.1, same_symm hn.2⟩⟩

theorem SameMembers.trans {ms ns ks : List Ty} (h : SameMembers ms ns) (h' : SameMembers ns ks) :
    SameMembers ms ks := by
  constructor
  · intro m hm
    obtain ⟨n, hn, hmn⟩ := h.1 m hm
    obtain ⟨k, hk, hnk⟩ := h'.1 n hn
    exact ⟨k, hk, same_trans hmn hnk⟩
  · intro k hk
    obtain ⟨n, hn, hnk⟩ := h'.2 k hk
    obtain ⟨m, hm, hmn⟩ := h.2 n hn
    exact ⟨m, hm, same_trans hmn hnk⟩

theorem SameMembers.of_forall₂ {ms ns : List Ty}
    (h : List.Forall₂ (fun m n => m.same n = true) ms ns) : SameMembers ms ns := by
  induction h with
  | nil => exact ⟨fun _ h => absurd h List.not_mem_nil, fun _ h => absurd h List.not_mem_nil⟩
  | cons hmn _ ih =>
    constructor
    · intro m hm
      rcases List.mem_cons.1 hm with rfl | hm
      · exact ⟨_, List.mem_cons_self, hmn⟩
      · exact (ih.1 m hm).imp fun _ hn => ⟨List.mem_cons_of_mem _ hn.1, hn.2⟩
    · intro n hn
      rcases List.mem_cons.1 hn with rfl | hn
      · exact ⟨_, List.mem_cons_self, hmn⟩
      · exact (ih.2 n hn).imp fun _ hm => ⟨List.mem_cons_of_mem _ hm.1, hm.2⟩

theorem SameMembers.flatMap {ms ns : List Ty} {f : Ty → List Ty}
    (hf : ∀ m n, m.same n = true → SameMembers (f m) (f n)) (h : SameMembers ms ns) :
    SameMembers (ms.flatMap f) (ns.flatMap f) := by
  constructor
  · intro x hx
    obtain ⟨m, hm, hx⟩ := List.mem_flatMap.1 hx
    obtain ⟨n, hn, hmn⟩ := h.1 m hm
    obtain ⟨y, hy, hxy⟩ := (hf m n hmn).1 x hx
    exact ⟨y, List.mem_flatMap.2 ⟨n, hn, hy⟩, hxy⟩
  · intro y hy
    obtain ⟨n, hn, hy⟩ := List.mem_flatMap.1 hy
    obtain ⟨m, hm, hmn⟩ := h.2 n hn
    obtain ⟨x, hx, hxy⟩ := (hf m n hmn).2 y hy
    exact ⟨x, List.mem_flatMap.2 ⟨m, hm, hx⟩, hxy⟩

theorem SameMembers.map {ms ns : List Ty} {f : Ty → Ty}
    (hf : ∀ m ∈ ms, ∀ n, m.same n = true → (f m).same (f n) = true) (h : SameMembers ms ns) :
    SameMembers (ms.map f) (ns.map f) := by
  constructor
  · intro x hx
    obtain ⟨m, hm, rfl⟩ := List.mem_map.1 hx
    obtain ⟨n, hn, hmn⟩ := h.1 m hm
    exact ⟨f n, List.mem_map_of_mem hn, hf m hm n hmn⟩
  · intro y hy
    obtain ⟨n, hn, rfl⟩ := List.mem_map.1 hy
    obtain ⟨m, hm, hmn⟩ := h.2 n hn
    exact ⟨f m, List.mem_map_of_mem hm, hf m hm n hmn⟩

theorem mem_of_mem_dedupe {t : Ty} {ts : List Ty} (h : t ∈ dedupe ts) : t ∈ ts := by
  induction ts with
  | nil => simp [dedupe] at h
  | cons u us ih =>
    rw [dedupe, List.mem_cons, List.mem_filter] at h
    rcases h with rfl | ⟨h, -⟩
    · exact List.mem_cons_self
    · exact List.mem_cons_of_mem _ (ih h)

theorem sameMembers_dedupe (ts : List Ty) : SameMembers ts (dedupe ts) := by
  refine ⟨fun t ht => ?_, fun t ht => ⟨t, mem_of_mem_dedupe ht, same_refl t⟩⟩
  induction ts with
  | nil => cases ht
  | cons u us ih =>
    by_cases hu : same u t = true
    · exact ⟨u, List.mem_cons_self, same_symm hu⟩
    · have htu : t ∈ us := (List.mem_cons.1 ht).resolve_left fun h => hu (h ▸ same_refl t)
      obtain ⟨v, hv, htv⟩ := ih htu
      refine ⟨v, List.mem_cons_of_mem _ (List.mem_filter.2 ⟨hv, ?_⟩), htv⟩
      rw [Bool.not_eq_true', Bool.eq_false_iff]
      exact fun huv => hu (same_trans huv (same_symm htv))

theorem pairwise_dedupe (ts : List Ty) : (dedupe ts).Pairwise fun t u => same t u = false := by
  induction ts with
  | nil => exact .nil
  | cons t ts ih =>
    refine List.pairwise_cons.2 ⟨fun u hu => ?_, ih.filter _⟩
    exact Bool.not_eq_true' _ ▸ (List.mem_filter.1 hu).2

theorem dedupe_of_pairwise {ts : List Ty} (h : ts.Pairwise fun t u => same t u = false) :
    dedupe ts = ts := by
  induction h with
  | nil => rfl
  | cons hu _ ih =>
    rw [dedupe, ih, List.filter_eq_self.2]
    exact fun u hmem => by rw [hu u hmem, Bool.not_false]

theorem dedupe_dedupe (ts : List Ty) : dedupe (dedupe ts) = dedupe ts :=
  dedupe_of_pairwise (pairwise_dedupe ts)

/-- Members that are all the same leave one survivor, and nothing else does. -/
theorem dedupe_eq_singleton_iff (ts : List Ty) :
    (∃ t, dedupe ts = [t]) ↔ ts ≠ [] ∧ ∀ t ∈ ts, ∀ u ∈ ts, t.same u = true := by
  constructor
  · rintro ⟨d, hd⟩
    have hall : ∀ t ∈ ts, t.same d = true := fun t ht => by
      obtain ⟨u, hu, htu⟩ := (sameMembers_dedupe ts).1 t ht
      rw [hd, List.mem_singleton] at hu
      exact hu ▸ htu
    refine ⟨?_, fun t ht u hu => same_trans (hall t ht) (same_symm (hall u hu))⟩
    rintro rfl
    cases hd
  · rintro ⟨hne, hall⟩
    obtain ⟨t, us, rfl⟩ := List.exists_cons_of_ne_nil hne
    refine ⟨t, ?_⟩
    rw [dedupe, List.filter_eq_nil_iff.2]
    intro u hu
    rw [hall t List.mem_cons_self u (List.mem_cons_of_mem _ (mem_of_mem_dedupe hu))]
    exact Bool.false_ne_true

/-! ## Unions from members -/

theorem ofMembers_of_dedupe {ts : List Ty} {t : Ty} (p : Bool) (h : dedupe ts = [t]) :
    ofMembers p ts = t := by simp [ofMembers, h]

theorem ofMembers_of_not_dedupe {ts : List Ty} (p : Bool) (h : ¬∃ t, dedupe ts = [t]) :
    ofMembers p ts = union p (dedupe ts) := by
  unfold ofMembers
  split
  · rename_i t ht
    exact absurd ⟨t, ht⟩ h
  · rfl

theorem same_ofMembers (p q : Bool) {ts us : List Ty} (h : SameMembers ts us) :
    (ofMembers p ts).same (ofMembers q us) = true := by
  have hd : SameMembers (dedupe ts) (dedupe us) :=
    (sameMembers_dedupe ts).symm.trans (h.trans (sameMembers_dedupe us))
  by_cases ht : ∃ t, dedupe ts = [t]
  · have hu : ∃ u, dedupe us = [u] := by
      rw [dedupe_eq_singleton_iff] at ht ⊢
      refine ⟨?_, fun u hu v hv => ?_⟩
      · rintro rfl
        obtain ⟨t, ts, rfl⟩ := List.exists_cons_of_ne_nil ht.1
        obtain ⟨u, hu, -⟩ := h.1 t List.mem_cons_self
        cases hu
      · obtain ⟨t, ht', htu⟩ := h.2 u hu
        obtain ⟨t', ht'', htv⟩ := h.2 v hv
        exact same_trans (same_symm htu) (same_trans (ht.2 t ht' t' ht'') htv)
    obtain ⟨t, ht⟩ := ht
    obtain ⟨u, hu⟩ := hu
    rw [ofMembers_of_dedupe p ht, ofMembers_of_dedupe q hu]
    rw [ht, hu] at hd
    obtain ⟨v, hv, htv⟩ := hd.1 t List.mem_cons_self
    exact List.mem_singleton.1 hv ▸ htv
  · have hu : ¬∃ u, dedupe us = [u] := by
      rw [dedupe_eq_singleton_iff] at ht ⊢
      rintro ⟨hne, hall⟩
      refine ht ⟨?_, fun t ht v hv => ?_⟩
      · rintro rfl
        obtain ⟨u, us, rfl⟩ := List.exists_cons_of_ne_nil hne
        obtain ⟨t, ht, -⟩ := h.2 u List.mem_cons_self
        cases ht
      · obtain ⟨u, hu, htu⟩ := h.1 t ht
        obtain ⟨w, hw, hvw⟩ := h.1 v hv
        exact same_trans htu (same_trans (hall u hu w hw) (same_symm hvw))
    rw [ofMembers_of_not_dedupe p ht, ofMembers_of_not_dedupe q hu]
    exact (same_union_iff ..).2 hd

theorem flat_of_isUnion_eq_false {t : Ty} (h : t.isUnion = false) : t.flat = [t] := by
  cases t with
  | union p ms => cases h
  | _ => rfl

theorem flat_of_isUnion {t : Ty} (h : t.isUnion = true) : t.flat = t.unionMembers := by
  cases t with
  | union p ms => rfl
  | _ => cases h

theorem sameMembers_flat {s t : Ty} (h : s.same t = true) : SameMembers s.flat t.flat := by
  cases hs : s.isUnion with
  | true =>
    cases s with
    | union p ms =>
      obtain ⟨q, ns, rfl, hm⟩ := eq_union_of_same h
      exact hm
    | _ => cases hs
  | false =>
    rw [flat_of_isUnion_eq_false hs, flat_of_isUnion_eq_false (isUnion_congr h ▸ hs)]
    exact .of_forall₂ (.cons h .nil)

theorem same_unionOf {ts us : List Ty} (h : SameMembers ts us) :
    (unionOf ts).same (unionOf us) = true :=
  same_ofMembers _ _ (h.flatMap fun _ _ => sameMembers_flat)

/-! ## The projection -/

/-- A member of a union in normal form: no union, and in normal form itself. -/
def IsNormalMember (m : Ty) : Prop := m.normalize = m ∧ m.isUnion = false

theorem flatMap_flat_of_isUnion_eq_false {ts : List Ty} (h : ∀ t ∈ ts, t.isUnion = false) :
    ts.flatMap flat = ts := by
  induction ts with
  | nil => rfl
  | cons t ts ih =>
    rw [List.flatMap_cons, flat_of_isUnion_eq_false (h t List.mem_cons_self),
      ih fun u hu => h u (List.mem_cons_of_mem _ hu)]
    rfl

theorem flat_ofMembers {p : Bool} {ts : List Ty} (h : ∀ t ∈ ts, t.isUnion = false) :
    (ofMembers p ts).flat = dedupe ts := by
  by_cases hd : ∃ t, dedupe ts = [t]
  · obtain ⟨t, ht⟩ := hd
    have hmem : t ∈ ts := mem_of_mem_dedupe (ht ▸ List.mem_cons_self)
    rw [ofMembers_of_dedupe p ht, ht, flat_of_isUnion_eq_false (h t hmem)]
  · rw [ofMembers_of_not_dedupe p hd]
    rfl

theorem normalize_ofMembers {ts : List Ty} (h : ∀ t ∈ ts, IsNormalMember t) :
    (ofMembers false ts).normalize = ofMembers false ts := by
  by_cases hd : ∃ t, dedupe ts = [t]
  · obtain ⟨t, ht⟩ := hd
    rw [ofMembers_of_dedupe false ht]
    exact (h t (mem_of_mem_dedupe (ht ▸ List.mem_cons_self))).1
  · have hn : ∀ t ∈ dedupe ts, IsNormalMember t := fun t ht => h t (mem_of_mem_dedupe ht)
    have hmap : (dedupe ts).map normalize = dedupe ts :=
      (List.map_congr_left fun t ht => (hn t ht).1).trans (List.map_id' _)
    have hd' : ¬∃ t, dedupe (dedupe ts) = [t] := by rwa [dedupe_dedupe]
    rw [ofMembers_of_not_dedupe false hd, normalize, normalizeAll_eq_map, hmap, unionOf,
      flatMap_flat_of_isUnion_eq_false fun t ht => (hn t ht).2,
      ofMembers_of_not_dedupe false hd', dedupe_dedupe]

/-- Normal forms are stable, and made of members that are. -/
theorem normalize_spec (t : Ty) :
    t.normalize.normalize = t.normalize ∧ ∀ m ∈ t.normalize.flat, IsNormalMember m := by
  have self_spec : ∀ u : Ty, u.normalize = u → u.isUnion = false →
      u.normalize.normalize = u.normalize ∧ ∀ m ∈ u.normalize.flat, IsNormalMember m := by
    intro u hn hu
    refine ⟨congrArg normalize hn, fun m hm => ?_⟩
    rw [hn, flat_of_isUnion_eq_false hu, List.mem_singleton] at hm
    exact hm ▸ ⟨hn, hu⟩
  induction t using memInduction with
  | union p ms ih =>
    have hflat : ∀ m ∈ (ms.map normalize).flatMap flat, IsNormalMember m := by
      intro m hm
      obtain ⟨n, hn, hm⟩ := List.mem_flatMap.1 hm
      obtain ⟨k, hk, rfl⟩ := List.mem_map.1 hn
      exact (ih k hk).2 m hm
    have heq : (union p ms).normalize = ofMembers false ((ms.map normalize).flatMap flat) := by
      rw [normalize, normalizeAll_eq_map, unionOf]
    rw [heq, flat_ofMembers fun m hm => (hflat m hm).2]
    exact ⟨normalize_ofMembers hflat, fun m hm => hflat m (mem_of_mem_dedupe hm)⟩
  | applied h as ih =>
    cases as with
    | nil =>
      cases h with
      | classVar | final | annotated => exact self_spec any rfl rfl
      | _ => exact self_spec _ rfl rfl
    | cons a as =>
      cases h with
      | classVar | final | annotated => exact ih a List.mem_cons_self
      | _ => exact self_spec _ rfl rfl
  | null => exact self_spec none rfl rfl
  | text s => exact self_spec any rfl rfl
  | form f =>
    cases f with
    | classVar | final => exact self_spec any rfl rfl
    | _ => exact self_spec _ rfl rfl
  | _ => exact self_spec _ rfl rfl

theorem normalize_normalize (t : Ty) : t.normalize.normalize = t.normalize :=
  (normalize_spec t).1

/-- Members of a union in normal form are no unions and stand for themselves. -/
theorem isNormalMember_of_mem {t m : Ty} (ht : t.normalize = t) (hu : t.isUnion = true)
    (hm : m ∈ t.unionMembers) : IsNormalMember m := by
  have hflat : t.normalize.flat = t.unionMembers := by rw [ht, flat_of_isUnion hu]
  exact (normalize_spec t).2 m (hflat ▸ hm)

/-- Normalizing respects equality of types. -/
theorem same_normalize {s t : Ty} (h : s.same t = true) :
    s.normalize.same t.normalize = true := by
  induction s using memInduction generalizing t with
  | union p ms ih =>
    obtain ⟨q, ns, rfl, hm⟩ := eq_union_of_same h
    simp only [normalize, normalizeAll_eq_map]
    exact same_unionOf (hm.map fun m hmem n hmn => ih m hmem hmn)
  | applied k as ih =>
    obtain ⟨bs, rfl, hb⟩ := eq_applied_of_same h
    cases k with
    | classVar | final | annotated =>
      cases hb.forall₂ nofun with
      | nil => exact same_refl _
      | cons hab _ =>
        simp only [normalize]
        exact ih _ List.mem_cons_self hab
    | _ => exact h
  | list as ih =>
    obtain ⟨bs, rfl, -⟩ := eq_list_of_same h
    exact h
  | token a =>
    obtain ⟨b, rfl, -⟩ := eq_token_of_same h
    exact h
  | _ =>
    rw [(same_iff_eq_of_isAtom rfl _).1 h]
    exact same_refl _

/-! ## The content of reference cells -/

theorem normalize_cellElement (t : Ty) : t.cellElement.normalize = t.cellElement := by
  unfold cellElement
  split
  · exact normalize_normalize _
  · rfl

theorem isUnion_of_isCell {t : Ty} (h : t.isCell = true) : t.isUnion = false := by
  cases t with
  | union p ms => cases h
  | _ => rfl

theorem isClass_origin_of_isCell {t : Ty} (h : t.isCell = true) : t.origin.isClass = true := by
  cases t with
  | cls c =>
    cases c with
    | builtin b => cases b <;> first | rfl | cases h
    | declared => cases h
  | applied k as =>
    have horigin : k.origin = .cls (.builtin .cell) := by
      dsimp only [isCell] at h
      split at h
      · assumption
      · cases h
    show k.origin.isClass = true
    rw [horigin]
    rfl
  | _ => cases h

theorem same_cellElement {s t : Ty} (h : s.same t = true) (hs : s.isCell = true) :
    s.cellElement.same t.cellElement = true := by
  have hargs := args_congr h (isUnion_of_isCell hs) (origin_ne_literal (isClass_origin_of_isCell hs))
  unfold cellElement
  generalize s.args = as, t.args = bs at hargs
  cases hargs with
  | nil => exact same_refl _
  | cons hab _ => exact same_normalize hab

theorem same_content {s t : Ty} (h : s.same t = true) : s.content.same t.content = true := by
  unfold content
  rw [← isCell_congr h]
  cases hs : s.isCell with
  | true => exact same_cellElement h hs
  | false => exact h

end Ty

end CallAdapter
