import CallAdapter.Proofs.Execution.DirectCall
import CallAdapter.Proofs.Member.Lookup
import CallAdapter.Proofs.Member.Receiver
import Mathlib

/-!
# Shadowed definitions

A look-up goes through the classes of a container in their order and keeps the first definition of
each spelling, be it a function, a property, a plain value or an annotation alone
(`Reflection.mem_lookup_iff`). What becomes of it is decided afterwards, by each category on its own
(`Reflection.answers_eq_filterMap`). So a definition hides those behind it in every category: an
answer comes from the nearest definition of its name, and no other definition of that name gives an
answer (`shadowed_never_surface`).
-/

namespace CallAdapter

open Program

/-- The categories that a name is asked for. -/
inductive Category
  | procedures
  | properties
  | fields
  deriving DecidableEq, Repr

namespace Member

/-- The name that a member is found by. -/
def name : Member → String
  | target t => t.name
  | property p => p.name
  | field f => f.name

/-- The type that a member belongs to. -/
def declaring : Member → Ty
  | target t => t.declaring.getD .null
  | property p => p.declaring
  | field f => f.declaring

end Member

namespace Reflection

section Definitions

variable (Γ : Program) (h : Heap)

/-- The members that a category answers with. -/
def answers (container : Ty) (name : String) (binding : SearchMask) : Category → List Member
  | .procedures => (procedures Γ h container name binding).map .target
  | .properties => (properties Γ h container name binding).map .property
  | .fields => (fields Γ h container name binding).map .field

/-- What a category makes of a definition: a member of its kind that passes the filter, or
nothing. -/
def describeAs (container : Ty) (binding : SearchMask) (f : Found) : Category → Option Member
  | .procedures =>
    ((procedure? Γ container (Γ.split container).1 (Γ.split container).2 f).filter fun t =>
      binding.admits t.isStatic t.isPublic).map .target
  | .properties =>
    if binding.admits false (isPublicName f.name) then
      (f.entry.bind fun e =>
        property? Γ (receiverType container (Γ.split container).1 f.owner) (Γ.split container).2
          f.name (isPublicName f.name) e).map .property
    else none
  | .fields =>
    ((field? Γ container (Γ.split container).1 (Γ.split container).2 f).filter fun i =>
      binding.admits i.isStatic i.isPublic).map .field

/-- The class has the name, as an entry of its namespace or as an annotation. -/
def Defines (c : Cls) (n : String) : Prop :=
  (∃ v, (n, v) ∈ h.entries Γ c) ∨ ∃ t, (n, t) ∈ Γ.classHints c

/-- The classes that a look-up goes through: the class itself and its ancestors without the root
class, or the class alone. -/
def searched (c : Ty) (binding : SearchMask) : List Cls :=
  match c with
  | .cls k =>
    if !c.isClass then []
    else if binding.has .declaredOnly then [k]
    else (Γ.mro k).filter fun o => decide (o ≠ .builtin .object)
  | _ => []

/-- The definition is the one that the first class with the name has, among these classes in their
order: its entry, or none where the name is only annotated. -/
structure IsNearest (classes : List Cls) (f : Found) : Prop where
  first : ∃ before after, classes = before ++ f.owner :: after ∧ ∀ o ∈ before, ¬Defines Γ h o f.name
  defines : Defines Γ h f.owner f.name
  entry : f.entry = h.ownEntry? Γ f.owner f.name

end Definitions

variable {Γ : Program} {h : Heap} {c o : Cls} {name n : String} {binding : SearchMask} {f g : Found}
  {classes : List Cls} {container : Ty} {cat : Category} {m : Member}

/-! ## Names of a class -/

/-- The names that are listed for a class are those that it defines. -/
theorem isSome_find?_namesOf :
    ((namesOf Γ h o).find? fun x => x.1 == n).isSome = true ↔ Defines Γ h o n := by
  simp only [List.find?_isSome, beq_iff_eq, namesOf, List.mem_append, List.mem_map,
    List.mem_filter, Defines]
  constructor
  · rintro ⟨x, ⟨k, ⟨a, ha, rfl⟩, rfl⟩ | ⟨e, ⟨he, -⟩, rfl⟩, rfl⟩
    · exact .inr ⟨a.2, ha⟩
    · exact .inl ⟨e.2, he⟩
  · rintro (⟨v, hv⟩ | ⟨t, ht⟩)
    · by_cases hn : n ∈ (Γ.classHints o).map (·.1)
      · obtain ⟨a, ha, rfl⟩ := List.mem_map.1 hn
        exact ⟨_, .inl ⟨a.1, ⟨a, ha, rfl⟩, rfl⟩, rfl⟩
      · exact ⟨_, .inr ⟨(n, v), ⟨hv, by simpa using hn⟩, rfl⟩, rfl⟩
    · exact ⟨_, .inl ⟨n, ⟨(n, t), ht, rfl⟩, rfl⟩, rfl⟩

theorem find?_namesOf_eq_none : ((namesOf Γ h o).find? fun x => x.1 == n) = none ↔
    ¬Defines Γ h o n := by
  rw [← isSome_find?_namesOf, Option.not_isSome_iff_eq_none]

/-- What is listed for a name is the entry that the class has for it. -/
theorem find?_namesOf_eq_some {x : String × Option Value} :
    ((namesOf Γ h o).find? fun x => x.1 == n) = some x ↔
      Defines Γ h o n ∧ x = (n, h.ownEntry? Γ o n) := by
  constructor
  · intro hx
    have hname : x.1 = n := by simpa using List.find?_some hx
    have hentry := bind_find?_namesOf (Γ := Γ) (h := h) o n
    rw [hx] at hentry
    exact ⟨isSome_find?_namesOf.1 (by rw [hx]; rfl), Prod.ext hname hentry⟩
  · rintro ⟨hdefines, rfl⟩
    obtain ⟨y, hy⟩ := Option.isSome_iff_exists.1 (isSome_find?_namesOf.2 hdefines)
    have hname : y.1 = n := by simpa using List.find?_some hy
    have hentry := bind_find?_namesOf (Γ := Γ) (h := h) o n
    rw [hy] at hentry
    rw [hy, ← hentry, ← hname]
    rfl

/-! ## Nearest definitions -/

/-- Kept are the definitions that come first with their names. -/
theorem mem_nearest_iff {fs : List Found} :
    f ∈ lookup.nearest fs ↔ fs.find? (fun g => g.name == f.name) = some f := by
  refine ⟨find?_of_mem_nearest, fun hf => ?_⟩
  induction fs with
  | nil => cases hf
  | cons g fs ih =>
    unfold lookup.nearest
    by_cases hg : g.name = f.name
    · rw [List.find?_cons_of_pos (by simpa using hg)] at hf
      obtain rfl := Option.some.inj hf
      exact List.mem_cons_self
    · rw [List.find?_cons_of_neg (by simpa using hg)] at hf
      exact List.mem_cons_of_mem _ (List.mem_filter.2 ⟨ih hf, by simpa using Ne.symm hg⟩)

theorem pairwise_nearest (fs : List Found) :
    (lookup.nearest fs).Pairwise fun f g => f.name ≠ g.name := by
  induction fs with
  | nil => exact .nil
  | cons f fs ih =>
    unfold lookup.nearest
    refine .cons (fun g hg => ?_) (ih.filter _)
    exact (bne_iff_ne.1 (List.mem_filter.1 hg).2).symm

theorem lookup_cls (hc : (Ty.cls c).isClass = true) : lookup Γ h (.cls c) name binding =
    lookup.nearest ((searched Γ (.cls c) binding).flatMap fun o =>
      ((namesOf Γ h o).filter fun x => binding.nameMatches x.1 name).map fun x => ⟨x.1, o, x.2⟩) := by
  simp only [lookup, searched, hc, Bool.not_true, Bool.false_eq_true, if_false]

/-- A type that is no class has no names. -/
theorem lookup_eq_nil {t : Ty} (ht : t.isClass = false) : lookup Γ h t name binding = [] := by
  unfold lookup
  rw [if_pos (by simp [ht])]

theorem searched_eq_nil {t : Ty} (ht : t.isClass = false) : searched Γ t binding = [] := by
  unfold searched
  split
  · rw [if_pos (by simp [ht])]
  · rfl

theorem nameMatches_of_mem_listed {t : Ty}
    (hf : f ∈ (searched Γ t binding).flatMap fun o =>
      ((namesOf Γ h o).filter fun x => binding.nameMatches x.1 name).map fun x =>
        (⟨x.1, o, x.2⟩ : Found)) : binding.nameMatches f.name name = true := by
  obtain ⟨o, -, ho⟩ := List.mem_flatMap.1 hf
  obtain ⟨x, hx, rfl⟩ := List.mem_map.1 ho
  exact (List.mem_filter.1 hx).2

/-- A look-up finds the nearest definitions of the names that match. -/
theorem mem_lookup_iff {t : Ty} : f ∈ lookup Γ h t name binding ↔
    binding.nameMatches f.name name = true ∧ IsNearest Γ h (searched Γ t binding) f := by
  by_cases ht : t.isClass = true
  swap
  · rw [Bool.not_eq_true] at ht
    rw [lookup_eq_nil ht, searched_eq_nil ht]
    refine ⟨fun hf => absurd hf List.not_mem_nil, ?_⟩
    rintro ⟨-, ⟨before, after, hnil, -⟩, -, -⟩
    simp at hnil
  obtain ⟨k, rfl⟩ : ∃ k, t = .cls k := by
    cases t <;> first | exact ⟨_, rfl⟩ | cases ht
  rw [lookup_cls ht, mem_nearest_iff]
  constructor
  · intro hf
    have hn := nameMatches_of_mem_listed (List.mem_of_find?_eq_some hf)
    rw [List.find?_flatMap] at hf
    simp only [find?_listed hn] at hf
    obtain ⟨before, o, after, hclasses, ho, hbefore⟩ := List.findSome?_eq_some_iff.1 hf
    obtain ⟨x, hx, hxf⟩ := Option.map_eq_some_iff.1 ho
    obtain ⟨hdefines, rfl⟩ := find?_namesOf_eq_some.1 hx
    obtain rfl : o = f.owner := congrArg Found.owner hxf
    refine ⟨hn, ⟨before, after, hclasses, fun k hk => ?_⟩, hdefines, ?_⟩
    · exact find?_namesOf_eq_none.1 (Option.map_eq_none_iff.1 (hbefore k hk))
    · rw [← hxf]
  · rintro ⟨hn, ⟨before, after, hclasses, hbefore⟩, hdefines, hentry⟩
    rw [List.find?_flatMap]
    simp only [find?_listed hn]
    refine List.findSome?_eq_some_iff.2 ⟨before, f.owner, after, hclasses, ?_, fun k hk => ?_⟩
    · rw [find?_namesOf_eq_some.2 ⟨hdefines, rfl⟩, Option.map_some, ← hentry]
    · rw [find?_namesOf_eq_none.2 (hbefore k hk), Option.map_none]

/-- A name has one nearest definition. -/
theorem IsNearest.eq_of_name (hf : IsNearest Γ h classes f) (hg : IsNearest Γ h classes g)
    (hname : f.name = g.name) : f = g := by
  obtain ⟨before, after, hclasses, hbefore⟩ := hf.first
  obtain ⟨before', after', hclasses', hbefore'⟩ := hg.first
  have howner : f.owner = g.owner := by
    rw [hclasses] at hclasses'
    rcases List.append_eq_append_iff.1 hclasses' with ⟨mid, rfl, hmid⟩ | ⟨mid, rfl, hmid⟩
    · cases mid with
      | nil => exact (List.cons.inj hmid).1
      | cons o mid =>
        obtain ⟨rfl, -⟩ := List.cons.inj hmid
        exact absurd (hname ▸ hf.defines) (hbefore' _ (by simp))
    · cases mid with
      | nil => exact (List.cons.inj hmid).1.symm
      | cons o mid =>
        obtain ⟨rfl, -⟩ := List.cons.inj hmid
        exact absurd (hname ▸ hg.defines) (hbefore _ (by simp))
  have hentry : f.entry = g.entry := by rw [hf.entry, hg.entry, howner, hname]
  cases f
  cases g
  cases hname
  cases howner
  cases hentry
  rfl

/-! ## Answers -/

/-- Each category describes the definitions that the look-up finds. -/
theorem answers_eq_filterMap : answers Γ h container name binding cat =
    (lookup Γ h (Γ.split container).1 name binding).filterMap
      (describeAs Γ container binding · cat) := by
  cases cat with
  | procedures =>
    show ((List.filterMap _ _).filter _).map Member.target = _
    rw [List.filter_filterMap, List.map_filterMap]
    rfl
  | properties =>
    show (List.filterMap _ _).map Member.property = _
    rw [List.map_filterMap]
    refine List.filterMap_congr fun f _ => ?_
    by_cases hadmits : binding.admits false (isPublicName f.name) = true
    · simp only [describeAs, if_pos hadmits]
      rfl
    · simp only [describeAs, if_neg hadmits]
      rfl
  | fields =>
    show ((List.filterMap _ _).filter _).map Member.field = _
    rw [List.filter_filterMap, List.map_filterMap]
    rfl

/-- The member is named after the definition and belongs to the class that holds it, which is seen
as the container where it is the container's own. -/
structure IsNamedAfter (container : Ty) (c : Ty) (f : Found) (m : Member) : Prop where
  name : m.name = f.name
  declaring : m.declaring = receiverType container c f.owner ∨ m.declaring = .cls f.owner

theorem isNamedAfter_describeAs (hm : describeAs Γ container binding f cat = some m) :
    IsNamedAfter container (Γ.split container).1 f m := by
  cases cat with
  | procedures =>
    obtain ⟨t, ht, rfl⟩ := Option.map_eq_some_iff.1 hm
    obtain ⟨callee, x, rfl, hx⟩ := exists_marked_of_procedure? (Option.filter_eq_some_iff.1 ht).1
    refine ⟨(Target.name_marked x).trans hx.name, .inl ?_⟩
    show (Target.marked x).declaring.getD .null = _
    rw [Target.marked_eq]
    show x.declaring.getD .null = _
    rw [hx.declaring]
    rfl
  | properties =>
    simp only [describeAs] at hm
    split at hm
    · obtain ⟨p, hp, rfl⟩ := Option.map_eq_some_iff.1 hm
      obtain ⟨e, -, hproperty⟩ := Option.bind_eq_some_iff.1 hp
      obtain ⟨accessors, -, rfl⟩ := Option.map_eq_some_iff.1 hproperty
      exact ⟨rfl, .inl rfl⟩
    · cases hm
  | fields =>
    obtain ⟨i, hi, rfl⟩ := Option.map_eq_some_iff.1 hm
    have hfield := (Option.filter_eq_some_iff.1 hi).1
    unfold field? at hfield
    split at hfield
    · cases hfield
    · obtain ⟨isStatic, -, rfl⟩ := Option.map_eq_some_iff.1 hfield
      refine ⟨rfl, ?_⟩
      cases isStatic with
      | true => exact .inr rfl
      | false => exact .inl rfl

/-- An answer describes a nearest definition of a name that matches. -/
theorem mem_answers_iff : m ∈ answers Γ h container name binding cat ↔
    ∃ f, IsNearest Γ h (searched Γ (Γ.split container).1 binding) f ∧
      binding.nameMatches f.name name = true ∧ describeAs Γ container binding f cat = some m := by
  rw [answers_eq_filterMap, List.mem_filterMap]
  refine exists_congr fun f => ?_
  rw [mem_lookup_iff]
  tauto

/-- Each name has one answer of a category. -/
theorem pairwise_answers :
    (answers Γ h container name binding cat).Pairwise fun m m' => m.name ≠ m'.name := by
  have hlookup : (lookup Γ h (Γ.split container).1 name binding).Pairwise fun f g =>
      f.name ≠ g.name := by
    unfold lookup
    split
    · exact .nil
    split
    · exact pairwise_nearest _
    · exact .nil
  rw [answers_eq_filterMap, List.pairwise_filterMap]
  refine hlookup.imp fun hne m hm m' hm' => ?_
  rw [(isNamedAfter_describeAs hm).name, (isNamedAfter_describeAs hm').name]
  exact hne

end Reflection

open Reflection

/-- What a category answers with is what it makes of the nearest definitions of the names that
match, one for each spelling; without `IGNORE_CASE` this is the name that is asked for. The answers
of all categories to a spelling describe one definition. -/
theorem shadowed_never_surface (Γ : Program) (h : Heap) (container : Ty) (name : String)
    (binding : SearchMask) :
    let k := (Γ.split container).1
    let classes := searched Γ k binding
    (∀ cat m, m ∈ answers Γ h container name binding cat ↔
      ∃ f, IsNearest Γ h classes f ∧ binding.nameMatches f.name name = true ∧
        describeAs Γ container binding f cat = some m) ∧
      (∀ cat m f, m ∈ answers Γ h container name binding cat → IsNearest Γ h classes f →
        m.name = f.name →
          describeAs Γ container binding f cat = some m ∧ IsNamedAfter container k f m) ∧
      (∀ cat, (answers Γ h container name binding cat).Pairwise fun m m' => m.name ≠ m'.name) ∧
      (binding.has .ignoreCase = false →
        ∀ cat, ∀ m ∈ answers Γ h container name binding cat, m.name = name) := by
  intro k classes
  refine ⟨fun cat m => mem_answers_iff, fun cat m f hm hf hname => ?_, fun cat => pairwise_answers,
    fun hcase cat m hm => ?_⟩
  · obtain ⟨g, hg, -, hgm⟩ := mem_answers_iff.1 hm
    have hnamed := isNamedAfter_describeAs hgm
    obtain rfl : g = f := hg.eq_of_name hf (hnamed.name.symm.trans hname)
    exact ⟨hgm, hnamed⟩
  · obtain ⟨g, -, hmatches, hgm⟩ := mem_answers_iff.1 hm
    rw [(isNamedAfter_describeAs hgm).name]
    simpa [SearchMask.nameMatches, hcase] using hmatches

/-- A class with a method, and an heir that annotates its name. -/
def annotatedHeirProgram : Program where
  classes := [
    sizedInfo sizedRef [.builtin .object] [("size", .code (.function 0))],
    { sizedInfo heirRef [.declared sizedRef, .builtin .object] [] with
      annotations := [("size", .builtin .int)] }]
  functions := #[sizeFunction [⟨"self", none, .positional, none⟩] 1]
  registrations := []

example (cat : Category) : (answers annotatedHeirProgram .empty (.cls (.declared heirRef)) "size"
    SearchMask.standard cat).map (·.declaring) =
      if cat = .fields then [.cls (.declared heirRef)] else [] := by
  cases cat <;> with_unfolding_all rfl

end CallAdapter
