import CallAdapter.Proofs.Builder.GenericInstance
import CallAdapter.Proofs.Member.Registration

/-!
# Searches in one scope

Options name scopes. With one scope alone, a host lists for a name what it lists with options that
admit the scope, less the members of the other one (`MemberSource.IsHost.exists_inScope`). This
takes hosts that tell members of the class and of instances apart in one way, as classes do and as
registrations make tables.
-/

namespace CallAdapter

open Program

/-! ## Masks -/

namespace SearchMask

/-- Every bit is a flag's. -/
theorem exists_flag {i : ℕ} (hi : i < 12) : ∃ f : SearchFlag, f.index = i := by
  interval_cases i
  exacts [⟨.invokeMethod, rfl⟩, ⟨.createInstance, rfl⟩, ⟨.getField, rfl⟩, ⟨.setField, rfl⟩,
    ⟨.getProperty, rfl⟩, ⟨.setProperty, rfl⟩, ⟨.staticScope, rfl⟩, ⟨.instanceScope, rfl⟩,
    ⟨.publicName, rfl⟩, ⟨.privateName, rfl⟩, ⟨.ignoreCase, rfl⟩, ⟨.declaredOnly, rfl⟩]

/-- Masks meet where a flag is in both. -/
theorem meets_iff {m n : SearchMask} :
    m.meets n = true ↔ ∃ f : SearchFlag, m.has f = true ∧ n.has f = true := by
  unfold meets has
  rw [bne_iff_ne]
  constructor
  · intro hne
    by_contra hnone
    refine hne (BitVec.eq_of_getLsbD_eq fun i hi => ?_)
    obtain ⟨f, rfl⟩ := exists_flag hi
    have hboth : ¬(m.getLsbD f.index && n.getLsbD f.index) = true := by
      rw [Bool.and_eq_true]
      exact fun hf => hnone ⟨f, hf⟩
    simpa using hboth
  · rintro ⟨f, hm, hn⟩ hzero
    have := congrArg (fun x : SearchMask => x.getLsbD f.index) hzero
    simp [hm, hn] at this

/-- A mask that meets another in some flags and agrees with a third on them meets the third. -/
theorem meets_congr {m m' n : SearchMask} (h : ∀ f, n.has f = true → m.has f = m'.has f) :
    m.meets n = m'.meets n := by
  rw [Bool.eq_iff_iff, meets_iff, meets_iff]
  exact exists_congr fun f => and_congr_left fun hf => by rw [h f hf]

theorem has_fill (m part : SearchMask) (f : SearchFlag) :
    (fill m part).has f = (m.has f || !m.meets part && part.has f) := by
  unfold fill
  by_cases hmeets : m.meets part = true
  · simp [hmeets]
  · rw [if_neg hmeets]
    simp [has, hmeets]

/-- The flag of members of the class, or of instances. -/
def scopeFlag (isStatic : Bool) : SearchFlag := if isStatic then .staticScope else .instanceScope

/-- The options with one scope in place of theirs. -/
def inScope (isStatic : Bool) (options : Option SearchMask) : SearchMask :=
  options.getD empty &&& ~~~scopes ||| (scopeFlag isStatic).mask

/-- What is looked for is a member of an instance. -/
def forInstances (options : Option SearchMask) : SearchMask :=
  options.getD empty &&& ~~~scopes ||| SearchFlag.instanceScope.mask

theorem forInstances_eq (options : Option SearchMask) :
    forInstances options = inScope false options := rfl

theorem scopes_scopeFlag (isStatic : Bool) : scopes.has (scopeFlag isStatic) = true := by
  cases isStatic <;> rfl

/-- Scopes are no categories and no visibilities. -/
theorem not_scopes_has {f : SearchFlag} (hf : (categories.has f || visibilities.has f) = true) :
    scopes.has f = false := by
  revert hf
  cases f <;> decide

theorem has_inScope (isStatic : Bool) (options : Option SearchMask) (f : SearchFlag) :
    (inScope isStatic options).has f =
      if scopes.has f then f == scopeFlag isStatic else (options.getD empty).has f := by
  unfold inScope has
  generalize options.getD empty = m
  rw [BitVec.getLsbD_or, BitVec.getLsbD_and, BitVec.getLsbD_not]
  cases isStatic <;> cases f <;>
    simp [scopes, scopeFlag, ofFlags, SearchFlag.mask, SearchFlag.index]

/-- What a filter on members has: the flags of the mask that name no category, and all of a part that
the mask says nothing about. -/
theorem has_binding (options : Option SearchMask) (f : SearchFlag) :
    (split options).2.has f =
      ((options.getD empty).has f && !categories.has f ||
        !(options.getD empty).meets scopes && scopes.has f ||
          !(options.getD empty).meets visibilities && visibilities.has f) := by
  have hscopes : (options.getD empty &&& ~~~categories).meets scopes =
      (options.getD empty).meets scopes := by
    refine meets_congr fun f hf => ?_
    unfold has
    rw [BitVec.getLsbD_and, BitVec.getLsbD_not]
    cases f <;>
      first | (simp [categories, ofFlags, SearchFlag.mask, SearchFlag.index]; done) | cases hf
  have hvisibilities : (fill (options.getD empty &&& ~~~categories) scopes).meets visibilities =
      (options.getD empty).meets visibilities := by
    refine meets_congr fun f hf => ?_
    rw [has_fill]
    unfold has
    rw [BitVec.getLsbD_and, BitVec.getLsbD_not]
    cases f <;>
      first | (simp [categories, scopes, ofFlags, SearchFlag.mask, SearchFlag.index]; done) | cases hf
  have hnamed : (options.getD empty &&& ~~~categories).has f =
      ((options.getD empty).has f && !categories.has f) := by
    unfold has
    rw [BitVec.getLsbD_and, BitVec.getLsbD_not]
    cases f <;> simp [SearchFlag.index]
  unfold split
  dsimp only
  rw [has_fill, has_fill, hvisibilities, hscopes, hnamed]

/-- The second filter admits the members of one scope that the first one admits. -/
structure ScopeIn (isStatic : Bool) (b b' : SearchMask) : Prop where
  admits : ∀ static isPublic,
    b'.admits static isPublic = (static == isStatic && b.admits static isPublic)
  rest : ∀ f, scopes.has f = false → b'.has f = b.has f

variable {isStatic : Bool} {options : Option SearchMask}

theorem ScopeIn.nameMatches {b b' : SearchMask} (h : ScopeIn isStatic b b') :
    b'.nameMatches = b.nameMatches := by
  funext candidate wanted
  unfold SearchMask.nameMatches
  rw [h.rest .ignoreCase rfl]

theorem scopeIn_inScope (isStatic : Bool)
    (hadmits : (split options).2.has (scopeFlag isStatic) = true) :
    ScopeIn isStatic (split options).2 (split (some (inScope isStatic options))).2 := by
  have hscopes : (inScope isStatic options).meets scopes = true := by
    refine meets_iff.2 ⟨scopeFlag isStatic, ?_, scopes_scopeFlag isStatic⟩
    rw [has_inScope, if_pos (scopes_scopeFlag isStatic), beq_self_eq_true]
  have hvisibilities : (inScope isStatic options).meets visibilities =
      (options.getD empty).meets visibilities := by
    refine meets_congr fun f hf => ?_
    rw [has_inScope, not_scopes_has (by simp [hf]), if_neg Bool.false_ne_true]
  have hrest : ∀ f, scopes.has f = false →
      (split (some (inScope isStatic options))).2.has f = (split options).2.has f := by
    intro f hf
    rw [has_binding, has_binding, Option.getD_some, hscopes, hvisibilities, has_inScope, hf]
    simp
  have hscope : ∀ f, scopes.has f = true →
      (split (some (inScope isStatic options))).2.has f = (f == scopeFlag isStatic) := by
    intro f hf
    have hplain : categories.has f = false ∧ visibilities.has f = false := by
      revert hf
      cases f <;> decide
    rw [has_binding, Option.getD_some, hscopes, has_inScope, if_pos hf, hplain.1, hplain.2]
    simp
  refine ⟨fun static isPublic => ?_, hrest⟩
  unfold admits
  rw [hscope .staticScope rfl, hscope .instanceScope rfl, hrest .publicName rfl,
    hrest .privateName rfl]
  cases isStatic <;> cases static <;> simp_all [scopeFlag]

theorem asksFor_inScope {f : SearchFlag} (hf : categories.has f = true) :
    asksFor (some (inScope isStatic options)) f = asksFor options f := by
  have hhas : ∀ {f}, categories.has f = true →
      (inScope isStatic options).has f = (options.getD empty).has f := by
    intro f hf
    rw [has_inScope, not_scopes_has (by simp [hf]), if_neg Bool.false_ne_true]
  unfold asksFor
  dsimp only
  rw [Option.getD_some, hhas hf, meets_congr fun f hf => hhas hf]

end SearchMask

/-! ## Lists -/

/-- What is left of the lists without members of the other scope. -/
structure Candidates.ScopeOf (isStatic : Bool) (l l' : Candidates) : Prop where
  procedures : l'.procedures = l.procedures.filter fun t => t.isStatic == isStatic
  properties : ∀ setter, l'.properties.filterMap (·.accessor setter) =
    (l.properties.filterMap (·.accessor setter)).filter fun t => t.isStatic == isStatic
  fields : ∀ setter, l'.fields.filterMap (·.accessor setter) =
    (l.fields.filterMap (·.accessor setter)).filter fun t => t.isStatic == isStatic

namespace Candidates

variable {l l' : Candidates} {isStatic setter : Bool} {options : Option SearchMask}

/-- The members of one scope in the categories that are searched. -/
def inScope (isStatic : Bool) (l : Candidates) (options : Option SearchMask) (setter : Bool) :
    List (List Target) :=
  (if SearchMask.asksFor options .invokeMethod then
      [l.procedures.filter fun t => t.isStatic == isStatic] else []) ++
  ((if SearchMask.asksFor options (if setter then .setProperty else .getProperty) then
      [(l.properties.filterMap (·.accessor setter)).filter fun t => t.isStatic == isStatic]
      else []) ++
    if SearchMask.asksFor options (if setter then .setField else .getField) then
      [(l.fields.filterMap (·.accessor setter)).filter fun t => t.isStatic == isStatic] else [])

/-- The groups of members of one scope: there is nothing in the other one. -/
def scopeGroups (isStatic : Bool) (ts : List Target) : List CandidateGroup :=
  if isStatic then [⟨ts, .unbound⟩, ⟨[], .unbound⟩] else [⟨[], .unbound⟩, ⟨ts, .unbound⟩]

theorem scopedGroups_inScope (isStatic : Bool) (ts : List Target) :
    scopedGroups .unbound (ts.filter fun t => t.isStatic == isStatic) =
      scopeGroups isStatic (ts.filter fun t => t.isStatic == isStatic) := by
  have hnone : ∀ p : Target → Bool, (∀ t, (p t && t.isStatic == isStatic) = false) →
      (ts.filter fun t => t.isStatic == isStatic).filter p = [] := by
    intro p hp
    simp [List.filter_filter, hp]
  have hall : ∀ p : Target → Bool, (∀ t, t.isStatic = isStatic → p t = true) →
      (ts.filter fun t => t.isStatic == isStatic).filter p =
        ts.filter fun t => t.isStatic == isStatic := by
    intro p hp
    refine List.filter_eq_self.2 fun t ht => hp t ?_
    simpa using (List.mem_filter.1 ht).2
  unfold scopedGroups scopeGroups
  dsimp only
  cases isStatic with
  | true => rw [hall _ (by simp), hnone _ (by simp)]; rfl
  | false => rw [hnone _ (by simp), hall _ (by simp)]; rfl

/-- With one scope, the members of that scope are searched. -/
theorem groups_inScope (hl : l.ScopeOf isStatic l') :
    l'.groups (some (SearchMask.inScope isStatic options)) setter .unbound =
      (l.inScope isStatic options setter).flatMap (scopeGroups isStatic) := by
  unfold groups inScope
  rw [SearchMask.asksFor_inScope (by decide), SearchMask.asksFor_inScope (by split <;> decide),
    SearchMask.asksFor_inScope (by split <;> decide), hl.procedures, hl.properties, hl.fields,
    scopedGroups_inScope, scopedGroups_inScope, scopedGroups_inScope]
  grind

end Candidates

/-- Where accessors have the scope of what they belong to, they can be filtered before or after. -/
theorem filterMap_scope {α : Type} {as : List α} {accessor : α → Option Target}
    {scope : α → Bool} (isStatic : Bool)
    (h : ∀ a ∈ as, ∀ t, accessor a = some t → t.isStatic = scope a) :
    (as.filter fun a => scope a == isStatic).filterMap accessor =
      (as.filterMap accessor).filter fun t => t.isStatic == isStatic := by
  rw [List.filter_filterMap, List.filterMap_filter]
  refine List.filterMap_congr fun a ha => ?_
  cases haccessor : accessor a with
  | none => simp
  | some t => simp [Option.filter, h a ha t haccessor]

theorem FieldInfo.isStatic_accessor {f : FieldInfo} {setter : Bool} {t : Target}
    (ht : f.accessor setter = some t) : t.isStatic = f.isStatic := by
  rw [eq_of_accessor ht]

namespace Reflection

variable {Γ : Program} {h : Heap} {c : Ty} {name : String} {isStatic : Bool} {b b' : SearchMask}

theorem lookup_inScope (hb : SearchMask.ScopeIn isStatic b b') :
    lookup Γ h c name b' = lookup Γ h c name b := by
  unfold lookup
  rw [hb.nameMatches, hb.rest .declaredOnly rfl]

theorem isStatic_property? {receiver : Ty} {m : Bindings} {isPublic setter : Bool} {entry : Value}
    {p : PropertyInfo} {t : Target} (hp : property? Γ receiver m name isPublic entry = some p)
    (ht : p.accessor setter = some t) : t.isStatic = false := by
  obtain ⟨x, rfl, -, -, hinstance⟩ := exists_marked_of_property? hp ht
  rw [Target.isStatic_marked, hinstance]

/-- Properties of classes are properties of instances. -/
theorem properties_inScope (hb : SearchMask.ScopeIn isStatic b b') :
    properties Γ h c name b' = if isStatic then [] else properties Γ h c name b := by
  unfold properties
  dsimp only
  rw [lookup_inScope hb]
  cases isStatic with
  | true =>
    rw [if_pos rfl, List.filterMap_eq_nil_iff]
    intro f _
    rw [hb.admits]
    rfl
  | false =>
    rw [if_neg Bool.false_ne_true]
    refine List.filterMap_congr fun f _ => ?_
    rw [hb.admits]
    rfl

theorem scopeOf_candidates (hb : SearchMask.ScopeIn isStatic b b') :
    (candidates Γ h c name b).ScopeOf isStatic (candidates Γ h c name b') where
  procedures := by
    unfold candidates procedures
    dsimp only
    rw [lookup_inScope hb, List.filter_filter]
    refine List.filter_congr fun t _ => ?_
    rw [hb.admits]
  properties setter := by
    have haccessors : ∀ p ∈ properties Γ h c name b, ∀ t, p.accessor setter = some t →
        t.isStatic = false := by
      intro p hp t ht
      obtain ⟨f, -, hf⟩ := List.mem_filterMap.1 hp
      dsimp only at hf
      split at hf
      · obtain ⟨v, -, hv⟩ := Option.bind_eq_some_iff.1 hf
        exact isStatic_property? hv ht
      · cases hf
    unfold candidates
    dsimp only
    rw [properties_inScope hb, ← filterMap_scope isStatic haccessors]
    cases isStatic <;> simp
  fields setter := by
    rw [← filterMap_scope isStatic fun f _ t => FieldInfo.isStatic_accessor]
    unfold candidates fields
    dsimp only
    rw [lookup_inScope hb, List.filter_filter]
    congr 1
    refine List.filter_congr fun f _ => ?_
    rw [hb.admits]

end Reflection

theorem Target.declaring_marked (t : Target) : t.marked.declaring = t.declaring := by
  unfold marked
  split <;> rfl

namespace MemberTable

/-- The entries of a table are declared by their containers, and accessors have the scope of what
they belong to. -/
structure DeclaresEntries (t : MemberTable) : Prop where
  procedures : ∀ e ∈ t.procedures, e.member.declaring = e.container.asDeclaring
  properties : ∀ e ∈ t.properties, ∀ setter x, e.member.accessor setter = some x →
    x.isStatic = e.member.isStatic ∧ x.declaring = e.container.asDeclaring
  fields : ∀ e ∈ t.fields, e.member.declaring = e.container

variable {t t' : MemberTable} {m : Member} {c : Ty} {name : String} {isStatic : Bool}
  {b b' : SearchMask}

theorem Registers.declaresEntries (hr : t.Registers m t') (ht : t.DeclaresEntries) :
    t'.DeclaresEntries := by
  -- a registration adds one entry, to one of the lists
  cases hr with
  | procedure h =>
    obtain ⟨rfl, rfl⟩ := Prod.mk.inj (checkKey_bind h)
    refine { ht with procedures := fun e he => ?_ }
    rcases List.mem_append.1 he with he | he
    · exact ht.procedures e he
    · obtain rfl := List.mem_singleton.1 he
      exact Target.declaring_marked _
  | constructor h =>
    obtain ⟨rfl, rfl⟩ := Prod.mk.inj (checkKey_bind h)
    exact { ht with }
  | property h =>
    unfold registerProperty at h
    split at h
    · cases h
    obtain ⟨rfl, rfl⟩ := Prod.mk.inj (checkKey_bind h)
    refine { ht with properties := fun e he setter x hx => ?_ }
    rcases List.mem_append.1 he with he | he
    · exact ht.properties e he setter x hx
    · obtain rfl := List.mem_singleton.1 he
      rcases PropertyInfo.accessor_cases rfl rfl hx with ⟨-, f, -, rfl⟩ | ⟨-, f, -, rfl⟩
      · exact ⟨rfl, rfl⟩
      · exact ⟨rfl, rfl⟩
  | field h =>
    obtain ⟨rfl, rfl⟩ := Prod.mk.inj (checkKey_bind h)
    refine { ht with fields := fun e he => ?_ }
    rcases List.mem_append.1 he with he | he
    · exact ht.fields e he
    · obtain rfl := List.mem_singleton.1 he
      rfl

theorem Made.declaresEntries (ht : t.Made) : t.DeclaresEntries := by
  induction ht with
  | empty => exact ⟨fun _ he => absurd he List.not_mem_nil, fun _ he => absurd he List.not_mem_nil,
      fun _ he => absurd he List.not_mem_nil⟩
  | register _ hr ih => exact (registers_of_register hr).declaresEntries ih

/-- What a query selects with one scope alone. -/
theorem select_inScope {α : Type} {as : List α} (es : List (TableEntry α))
    (scope isPublic : α → Bool) (hb : SearchMask.ScopeIn isStatic b b')
    (has : select es c (fun e => b.nameMatches e.name name &&
      b.admits (scope e.member) (isPublic e.member)) = .ok as) :
    select es c (fun e => b'.nameMatches e.name name &&
      b'.admits (scope e.member) (isPublic e.member)) =
        .ok (as.filter fun a => scope a == isStatic) := by
  unfold select checkKey at has ⊢
  by_cases hc : c.hashable = true
  · rw [if_pos hc] at has ⊢
    obtain rfl := Except.ok.inj has
    refine congrArg Except.ok ?_
    rw [List.filter_map, List.filter_filter]
    congr 1
    refine List.filter_congr fun e _ => ?_
    dsimp only [Function.comp_apply]
    rw [hb.nameMatches, hb.admits]
    grind
  · rw [if_neg hc] at has
    cases has

theorem exists_lists (ht : t.Registered) (hc : c.hashable = true) (name : String)
    (b : SearchMask) : ∃ l, t.source.Lists c name b l := by
  obtain ⟨l, _, hl, -⟩ := (⟨.refl _, .refl _, .refl _, .refl _⟩ :
    t.Gains (fun _ => True) t).lists ht ht hc name b
  exact ⟨l, hl⟩

end MemberTable

/-- A host of members: the classes of a program, or a table that registrations made. -/
inductive MemberSource.IsHost (Γ : Program) (h : Heap) : MemberSource → Prop
  | classes : IsHost Γ h (Reflection.source Γ h)
  | table {t : MemberTable} : t.Made → IsHost Γ h t.source

section Hosts

variable {Γ : Program} {h : Heap} {S : MemberSource} {c : Ty} {name : String} {isStatic : Bool}
  {b b' : SearchMask} {l : Candidates}

theorem MemberSource.Lists.eq {l l' : Candidates} (hl : S.Lists c name b l)
    (hl' : S.Lists c name b l') : l = l' := by
  have hprocedures := Except.ok.inj (hl.procedures.symm.trans hl'.procedures)
  have hproperties := Except.ok.inj (hl.properties.symm.trans hl'.properties)
  have hfields := Except.ok.inj (hl.fields.symm.trans hl'.fields)
  cases l
  cases l'
  simp_all

/-- With one scope alone, a host lists the same members without those of the other. -/
theorem MemberSource.IsHost.exists_inScope (hS : S.IsHost Γ h)
    (hb : SearchMask.ScopeIn isStatic b b') (hl : S.Lists c name b l) :
    ∃ l', S.Lists c name b' l' ∧ l.ScopeOf isStatic l' := by
  cases hS with
  | classes =>
    obtain rfl := hl.eq (Reflection.lists_candidates c name b)
    exact ⟨_, Reflection.lists_candidates c name b', Reflection.scopeOf_candidates hb⟩
  | @table t ht =>
    refine ⟨⟨_, _, _⟩, ⟨MemberTable.select_inScope _ _ _ hb hl.procedures,
      MemberTable.select_inScope _ _ _ hb hl.properties,
      MemberTable.select_inScope _ _ _ hb hl.fields,
      fun x hx => hl.kind x (List.mem_of_mem_filter hx)⟩, ⟨rfl, fun setter => ?_, fun setter => ?_⟩⟩
    · refine filterMap_scope isStatic fun p hp x hx => ?_
      obtain ⟨e, he, -, rfl⟩ := MemberTable.mem_select hl.properties hp
      exact (ht.declaresEntries.properties e he setter x hx).1
    · exact filterMap_scope isStatic fun f _ x => FieldInfo.isStatic_accessor

end Hosts

end CallAdapter
