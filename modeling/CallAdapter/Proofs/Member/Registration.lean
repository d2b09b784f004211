import CallAdapter.Proofs.Member.Guarded
import CallAdapter.Proofs.Member.Selection
import Mathlib

/-!
# Registering further members

A registration appends to what a table lists, so every group that a search tries keeps its
candidates and may get a new one after them. The earliest of the cheapest is then the one from
before or the new one, and a group that had a candidate that fits still has one. So a search after
the registration finds what it found before or the new member (`resolve_after_registration`). It
finds something where it did before, unless planning the new member is refused.
-/

namespace CallAdapter

open Program

/-! ## Appending -/

/-- The second list is the first one with new elements after it. -/
def Appends {α : Type} (new : α → Prop) (as bs : List α) : Prop :=
  ∃ cs, bs = as ++ cs ∧ ∀ c ∈ cs, new c

namespace Appends

variable {α β : Type} {new : α → Prop} {new' : β → Prop} {as bs : List α}

theorem mono {other : α → Prop} (h : Appends new as bs) (hnew : ∀ a, new a → other a) :
    Appends other as bs := by
  obtain ⟨cs, rfl, hcs⟩ := h
  exact ⟨cs, rfl, fun c hc => hnew c (hcs c hc)⟩

theorem refl (as : List α) : Appends new as as := ⟨[], by simp⟩

theorem concat {a : α} (ha : new a) : Appends new as (as ++ [a]) := ⟨[a], by simpa using ha⟩

theorem filter (h : Appends new as bs) (p : α → Bool) :
    Appends new (as.filter p) (bs.filter p) := by
  obtain ⟨cs, rfl, hcs⟩ := h
  exact ⟨cs.filter p, List.filter_append .., fun c hc => hcs c (List.mem_of_mem_filter hc)⟩

theorem filterMap (h : Appends new as bs) {f : α → Option β}
    (hf : ∀ a b, new a → f a = some b → new' b) :
    Appends new' (as.filterMap f) (bs.filterMap f) := by
  obtain ⟨cs, rfl, hcs⟩ := h
  refine ⟨cs.filterMap f, List.filterMap_append, fun b hb => ?_⟩
  obtain ⟨c, hc, hcb⟩ := List.mem_filterMap.1 hb
  exact hf c b (hcs c hc) hcb

theorem map (h : Appends new as bs) {f : α → β} (hf : ∀ a, new a → new' (f a)) :
    Appends new' (as.map f) (bs.map f) := by
  obtain ⟨cs, rfl, hcs⟩ := h
  refine ⟨cs.map f, List.map_append, fun b hb => ?_⟩
  obtain ⟨c, hc, rfl⟩ := List.mem_map.1 hb
  exact hf c (hcs c hc)

theorem mem (h : Appends new as bs) {a : α} (ha : a ∈ as) : a ∈ bs := by
  obtain ⟨cs, rfl, -⟩ := h
  exact List.mem_append_left _ ha

theorem mem_or (h : Appends new as bs) {b : α} (hb : b ∈ bs) : b ∈ as ∨ new b := by
  obtain ⟨cs, rfl, hcs⟩ := h
  exact (List.mem_append.1 hb).imp_right (hcs b)

end Appends

/-- The first of the cheapest remains so, unless a later element is cheaper. -/
theorem cheapest?_append {α : Type} {cost : α → Cost} {as bs : List α} {a : α}
    (h : cheapest? cost (as ++ bs) = some a) : cheapest? cost as = some a ∨ a ∈ bs := by
  induction as generalizing a with
  | nil => exact .inr (cheapest?_mem h)
  | cons x as ih =>
    rw [List.cons_append] at h
    unfold cheapest? at h ⊢
    cases hrest : cheapest? cost (as ++ bs) with
    | none =>
      have has : as = [] := (List.append_eq_nil_iff.1 (cheapest?_eq_none.1 hrest)).1
      rw [hrest] at h
      subst has
      exact .inl h
    | some b =>
      simp only [hrest] at h
      by_cases hlt : (cost b).lt (cost x) = true
      · rw [if_pos hlt] at h
        obtain rfl := Option.some.inj h
        refine (ih hrest).imp_left fun has => ?_
        simp only [has, if_pos hlt]
      · rw [if_neg hlt] at h
        obtain rfl := Option.some.inj h
        refine .inl ?_
        cases has : cheapest? cost as with
        | none => rfl
        | some c =>
          -- the element that `c` costs at least as much as is no cheaper than the first one
          have hbc : (cost b).key ≤ (cost c).key := by
            obtain ⟨before, after, hsplit, hbefore, hafter⟩ := exists_of_cheapest? hrest
            have hc : c ∈ before ++ b :: after := by
              rw [← hsplit]
              exact List.mem_append_left _ (cheapest?_mem has)
            rcases List.mem_append.1 hc with hc | hc
            · exact (hbefore c hc).le
            · rcases List.mem_cons.1 hc with rfl | hc
              · exact le_refl _
              · exact hafter c hc
          have hcx : ¬(cost c).lt (cost x) = true := by
            rw [Cost.lt_iff, not_lt] at hlt ⊢
            exact hlt.trans hbc
          simp only [if_neg hcx]

/-! ## Groups -/

/-- A group with new candidates after those of another. -/
structure CandidateGroup.Gains (new : Target → Prop) (g g' : CandidateGroup) : Prop where
  bound : g'.bound = g.bound
  candidates : Appends new g.candidates g'.candidates

namespace CandidateGroup.Gains

variable {L : Lineups} {new : Target → Prop} {g g' : CandidateGroup} {e : Failure}

theorem fits (h : Gains new g g') {t : Target} {plan : SignaturePlan} (ht : g.Fits L t plan) :
    g'.Fits L t plan :=
  ⟨h.candidates.mem ht.mem, ht.closed, h.bound ▸ ht.fits⟩

theorem raises (h : Gains new g g') (hg : g.Raises L e) : g'.Raises L e := by
  obtain ⟨t, ht, hclosed, he⟩ := hg
  exact ⟨t, h.candidates.mem ht, hclosed, h.bound ▸ he⟩

theorem raises_or (h : Gains new g g') (hg : g'.Raises L e) :
    g.Raises L e ∨ ∃ t, new t ∧ t.isGeneric = false ∧ L g'.bound t = .error e := by
  obtain ⟨t, ht, hclosed, he⟩ := hg
  refine (h.candidates.mem_or ht).imp (fun ht => ⟨t, ht, hclosed, ?_⟩) fun ht =>
    ⟨t, ht, hclosed, he⟩
  rw [← h.bound, he]

theorem best_eq_none (h : Gains new g g') (hg : g'.best L = none) : g.best L = none :=
  CandidateGroup.best_eq_none.2 fun t plan ht =>
    CandidateGroup.best_eq_none.1 hg t plan (h.fits ht)

/-- The best stays what it was, or is new. -/
theorem best (h : Gains new g g') {r : Resolution} (hg : g'.best L = some r) :
    g.best L = some r ∨ new r.target := by
  obtain ⟨cs, hcs, hnew⟩ := h.candidates
  unfold CandidateGroup.best at hg
  rw [h.bound, hcs, List.filterMap_append] at hg
  refine (cheapest?_append hg).imp_right fun hr => ?_
  obtain ⟨t, ht, hresolution⟩ := List.mem_filterMap.1 hr
  obtain ⟨-, -, rfl, -⟩ := resolution?_eq_some.1 hresolution
  exact hnew _ ht

end CandidateGroup.Gains

namespace Searched

variable {L : Lineups} {new : Target → Prop} {gs gs' : List CandidateGroup}
  {out : Except Failure (Option Resolution)} {r : Resolution}

/-- A search that found something comes to nothing else. -/
theorem eq_of_found (h : Searched L gs (.ok (some r))) (h' : Searched L gs out) :
    out = .ok (some r) := by
  generalize hfound : (Except.ok (some r) : Except Failure (Option Resolution)) = found at h
  induction h with
  | nothing => cases hfound
  | raises => cases hfound
  | found hcalm hbest =>
    cases h' with
    | raises he => exact absurd he (hcalm _)
    | found _ hbest' => rw [hbest] at hbest'; rw [hbest']
    | next _ hnone => cases hnone.symm.trans hbest
  | next hcalm hnone _ ih =>
    cases h' with
    | raises he => exact absurd he (hcalm _)
    | found _ hbest => cases hnone.symm.trans hbest
    | next _ _ hrest => exact ih hrest hfound

/-- What is found among more candidates was found before, or is new. -/
theorem found_before (hgs : List.Forall₂ (CandidateGroup.Gains new) gs gs')
    (h : Searched L gs' (.ok (some r))) : Searched L gs (.ok (some r)) ∨ new r.target := by
  induction hgs with
  | nil => cases h
  | cons hg _ ih =>
    cases h with
    | found hcalm hbest =>
      exact (hg.best hbest).imp_left fun hbest => .found (fun e he => hcalm e (hg.raises he)) hbest
    | next hcalm hnone hrest =>
      exact (ih hrest).imp_left fun hrest =>
        .next (fun e he => hcalm e (hg.raises he)) (hg.best_eq_none hnone) hrest

/-- Among more candidates something is found again, unless planning a new one is refused. -/
theorem found_after (hgs : List.Forall₂ (CandidateGroup.Gains new) gs gs')
    (h : Searched L gs (.ok (some r))) (h' : Searched L gs' out) :
    (∃ r', out = .ok (some r')) ∨
      ∃ g ∈ gs', ∃ t e, new t ∧ out = .error e ∧ L g.bound t = .error e := by
  induction hgs with
  | nil => cases h
  | @cons g g' gs gs' hg _ ih =>
    have hcalm : ∀ e, ¬g.Raises L e := by
      cases h with
      | found hcalm _ => exact hcalm
      | next hcalm _ _ => exact hcalm
    cases h' with
    | @raises _ _ e he =>
      rcases hg.raises_or he with he | ⟨t, ht, -, hraises⟩
      · exact absurd he (hcalm e)
      · exact .inr ⟨g', List.mem_cons_self, t, e, ht, rfl, hraises⟩
    | found _ _ => exact .inl ⟨_, rfl⟩
    | next _ hnone hrest' =>
      cases h with
      | found _ hbest => cases (hg.best_eq_none hnone).symm.trans hbest
      | next _ _ hrest =>
        refine (ih hrest hrest').imp_right ?_
        rintro ⟨g'', hg'', hrefused⟩
        exact ⟨g'', List.mem_cons_of_mem _ hg'', hrefused⟩

end Searched

/-! ## Resolution -/

/-- Resolving comes to searching the groups. -/
def Tries (Γ : Program) (h : Heap) (shape : Shape) (x : PlanM (Except NotFound Resolution))
    (gs : List CandidateGroup) : Prop :=
  ∀ p, (x.run.run p).2.Remembers p ∧ ∀ q : Planner, q.Remembers (x.run.run p).2 →
    Searched (q.lineups Γ h shape) gs ((x.run.run p).1.map Except.toOption)

section Resolution

variable {Γ : Program} {h : Heap} {S : MemberSource} {ctor : String} {c : Ty} {name : String}
  {shape : Shape} {options : Option SearchMask} {bound : Value} {p : Planner}

theorem toOption_answerOf {name container : String} (found : Option Resolution)
    (trace : SearchTrace) : (answerOf name container found trace).toOption = found := by
  cases found <;> rfl

/-- A search that tries the groups, with its answer. -/
theorem Searches.tries {x : SearchM (Option Resolution)} {gs : List CandidateGroup}
    {lacking : Bool} {y : PlanM (Except NotFound Resolution)} (name container : String)
    (hx : Searches Γ h shape x gs lacking)
    (hy : ∀ p, y.run.run p = (((x.run {}).run.run p).1.map fun f =>
      answerOf name container f.1 f.2, ((x.run {}).run.run p).2)) :
    Tries Γ h shape y gs := by
  intro p
  obtain ⟨hgrows, hpost⟩ := hx {} p
  rw [hy p]
  refine ⟨hgrows, fun q hq => ?_⟩
  have hsearched := (hpost q hq).1
  have hfound : ((((x.run {}).run.run p).1.map fun f => answerOf name container f.1 f.2).map
      Except.toOption) = ((x.run {}).run.run p).1.map Prod.fst := by
    cases ((x.run {}).run.run p).1 with
    | error e => rfl
    | ok f => exact congrArg Except.ok (toOption_answerOf f.1 f.2)
  rw [hfound]
  exact hsearched

/-- A search for a constructor tries one group. -/
theorem tries_constructors (hc : Γ.isOpen c = false) (hname : Text.fold name = Text.fold ctor)
    {ts : List Target} (hts : S.constructors c (SearchMask.split options).2 = .ok ts) :
    Tries Γ h shape (Γ.resolve h S ctor c name shape options bound) [⟨ts, bound⟩] := by
  refine (pick_searches bound ts).tries name c.name fun p => ?_
  unfold resolve
  rw [hc, if_neg Bool.false_ne_true, beq_iff_eq.2 hname]
  dsimp only
  rw [hts]
  exact run_answered (fun found _ => by cases found <;> rfl) p

theorem tries_groups (hc : Γ.isOpen c = false) (hname : Text.fold name ≠ Text.fold ctor)
    {l : Candidates} (hl : S.Lists c name (SearchMask.split options).2 l) :
    Tries Γ h shape (Γ.resolve h S ctor c name shape options bound)
      (l.groups options shape.returnsVoid bound) := by
  obtain ⟨lacking, -, hsearches⟩ : ∃ lacking, _ ∧ Searches Γ h shape _ _ lacking :=
    searchMembers_searches hl
  exact hsearches.tries name c.name fun p => run_resolve hc hname options p

/-- What a name lists, with new members after each kind. -/
structure Candidates.Gains (new : Member → Prop) (l l' : Candidates) : Prop where
  procedures : Appends (fun t => new (.target t)) l.procedures l'.procedures
  properties : Appends (fun i => new (.property i)) l.properties l'.properties
  fields : Appends (fun i => new (.field i)) l.fields l'.fields

/-- The target that a member offers: itself, or one of its accessors. -/
def Member.accessor (setter : Bool) : Member → Option Target
  | target t => some t
  | property p => p.accessor setter
  | field f => f.accessor setter

/-- One of the members offers the target. -/
def OfferedAmong (new : Member → Prop) (setter : Bool) (x : Target) : Prop :=
  ∃ m, new m ∧ m.accessor setter = some x

theorem gains_scopedGroups {new : Target → Prop} {ts ts' : List Target} (bound : Value)
    (hts : Appends new ts ts') :
    List.Forall₂ (CandidateGroup.Gains new) (scopedGroups bound ts) (scopedGroups bound ts') := by
  have hstatics := hts.filter (·.isStatic)
  have hinstances := hts.filter fun t => !t.isStatic
  unfold scopedGroups
  dsimp only
  split
  · exact .cons ⟨rfl, hstatics⟩ .nil
  split
  · exact .cons ⟨rfl, hstatics⟩ (.cons ⟨rfl, hinstances⟩ .nil)
  · exact .cons ⟨rfl, hinstances⟩ .nil

/-- A category that is left out gains nothing. -/
theorem gains_category {new : Target → Prop} {gs gs' : List CandidateGroup} (searched : Bool)
    (hgs : List.Forall₂ (CandidateGroup.Gains new) gs gs') :
    List.Forall₂ (CandidateGroup.Gains new) (if searched then gs else [])
      (if searched then gs' else []) := by
  cases searched with
  | true => exact hgs
  | false => exact .nil

/-- New members come last in their groups. -/
theorem Candidates.Gains.groups {new : Member → Prop} {l l' : Candidates} (h : l.Gains new l')
    (options : Option SearchMask) (setter : Bool) (bound : Value) :
    List.Forall₂ (CandidateGroup.Gains (OfferedAmong new setter))
      (l.groups options setter bound) (l'.groups options setter bound) := by
  have hprocedures : Appends (OfferedAmong new setter) l.procedures l'.procedures :=
    h.procedures.mono fun t ht => ⟨.target t, ht, rfl⟩
  have hproperties : Appends (OfferedAmong new setter)
      (l.properties.filterMap (·.accessor setter)) (l'.properties.filterMap (·.accessor setter)) :=
    h.properties.filterMap fun i x hi hx => ⟨.property i, hi, hx⟩
  have hfields : Appends (OfferedAmong new setter)
      (l.fields.filterMap (·.accessor setter)) (l'.fields.filterMap (·.accessor setter)) :=
    h.fields.filterMap fun i x hi hx => ⟨.field i, hi, hx⟩
  exact List.rel_append (gains_category _ (gains_scopedGroups bound hprocedures))
    (List.rel_append (gains_category _ (gains_scopedGroups bound hproperties))
      (gains_category _ (gains_scopedGroups bound hfields)))

/-- What is captured is the value that was bound, or nothing. -/
theorem bound_of_mem_groups {l : Candidates} {setter : Bool} {g : CandidateGroup}
    (hg : g ∈ l.groups options setter bound) : g.bound = bound ∨ g.bound = .unbound := by
  have hscoped : ∀ {ts : List Target}, g ∈ scopedGroups bound ts →
      g.bound = bound ∨ g.bound = .unbound := by
    intro ts hts
    unfold scopedGroups at hts
    dsimp only at hts
    split at hts
    · exact .inr (List.mem_singleton.1 hts ▸ rfl)
    split at hts
    · rcases List.mem_pair.1 hts with rfl | rfl
      · exact .inr rfl
      · exact .inr rfl
    · exact .inl (List.mem_singleton.1 hts ▸ rfl)
  have hcategory : ∀ {searched : Bool} {ts : List Target},
      g ∈ (if searched then scopedGroups bound ts else []) →
        g.bound = bound ∨ g.bound = .unbound := by
    intro searched ts hts
    cases searched with
    | true => exact hscoped hts
    | false => exact absurd hts List.not_mem_nil
  unfold Candidates.groups at hg
  rcases List.mem_append.1 hg with hg | hg
  · exact hcategory hg
  · exact (List.mem_append.1 hg).elim hcategory hcategory

/-- An open container has no members. -/
theorem resolve_ne_found_of_isOpen (hopen : Γ.isOpen c = true) (found : Resolution) :
    ((Γ.resolve h S ctor c name shape options bound).run.run p).1 ≠ .ok (.ok found) := by
  unfold resolve
  rw [if_pos hopen]
  intro hfound
  cases hfound

/-- What an answer owes to new members: what it finds was found before or is one of them, and it
finds something again, unless planning one of them is refused. -/
structure Undisturbed (L : Lineups) (new : Target → Prop) (bound : Value)
    (before after : Except Failure (Except NotFound Resolution)) : Prop where
  finds : ∀ r, after = .ok (.ok r) → before = .ok (.ok r) ∨ new r.target
  keeps : ∀ r, before = .ok (.ok r) → (∃ r', after = .ok (.ok r')) ∨
    ∃ t v e, new t ∧ (v = bound ∨ v = .unbound) ∧ L v t = .error e ∧ after = .error e

theorem Undisturbed.of_not_found {L : Lineups} {new : Target → Prop}
    {before after : Except Failure (Except NotFound Resolution)}
    (hbefore : ∀ r, before ≠ .ok (.ok r)) (hafter : ∀ r, after ≠ .ok (.ok r)) :
    Undisturbed L new bound before after :=
  ⟨fun r hr => absurd hr (hafter r), fun r hr => absurd hr (hbefore r)⟩

theorem map_toOption_eq_ok {out : Except Failure (Except NotFound Resolution)} {r : Resolution} :
    out.map Except.toOption = .ok (some r) ↔ out = .ok (.ok r) := by
  cases out with
  | error e => simp [Except.map]
  | ok found => cases found <;> simp [Except.map, Except.toOption]

theorem map_toOption_eq_error {out : Except Failure (Except NotFound Resolution)} {e : Failure} :
    out.map Except.toOption = .error e ↔ out = .error e := by
  cases out <;> simp [Except.map]

/-- A search through groups that gained candidates, on a planner that remembers the first search. -/
theorem Tries.undisturbed {x x' : PlanM (Except NotFound Resolution)}
    {gs gs' : List CandidateGroup} {new : Target → Prop} (hx : Tries Γ h shape x gs)
    (hx' : Tries Γ h shape x' gs') (hgs : List.Forall₂ (CandidateGroup.Gains new) gs gs')
    (hbound : ∀ g ∈ gs', g.bound = bound ∨ g.bound = .unbound) {p' : Planner}
    (hp' : p'.Remembers (x.run.run p).2) :
    Undisturbed ((x'.run.run p').2.lineups Γ h shape) new bound (x.run.run p).1
      (x'.run.run p').1 := by
  obtain ⟨hgrows, hafter⟩ := hx' p'
  have hbefore := (hx p).2 _ (hgrows.trans hp')
  have hafter := hafter _ (.refl _)
  constructor
  · intro r hr
    rw [map_toOption_eq_ok.2 hr] at hafter
    refine (hafter.found_before hgs).imp_left fun hfound => ?_
    exact map_toOption_eq_ok.1 (hfound.eq_of_found hbefore)
  · intro r hr
    rw [map_toOption_eq_ok.2 hr] at hbefore
    refine (hbefore.found_after hgs hafter).imp ?_ ?_
    · rintro ⟨r', hr'⟩
      exact ⟨r', map_toOption_eq_ok.1 hr'⟩
    · rintro ⟨g, hg, t, e, ht, hout, he⟩
      exact ⟨t, g.bound, e, ht, hbound g hg, he, map_toOption_eq_error.1 hout⟩

end Resolution

/-! ## Tables -/

namespace MemberTable

/-- A table with new entries after those of another. -/
structure Gains (new : Member → Prop) (t t' : MemberTable) : Prop where
  procedures : Appends (fun e => new (.target e.member)) t.procedures t'.procedures
  constructors : Appends (fun e => new (.target e.member)) t.constructors t'.constructors
  properties : Appends (fun e => new (.property e.member)) t.properties t'.properties
  fields : Appends (fun e => new (.field e.member)) t.fields t'.fields

/-- The tables that registrations make. -/
inductive Made : MemberTable → Prop
  | empty : Made .empty
  | register {t t' r m} : Made t → Registration.register t r = .ok (m, t') → Made t'

variable {t t' : MemberTable} {r : Registration} {m : Member} {c : Ty}

/-- What a registration comes to, by the kind of the member. -/
inductive Registers (t : MemberTable) : Member → MemberTable → Prop
  | procedure {c name impl params result isStatic declared x t'} :
    t.registerProcedure c name impl params result isStatic declared = .ok (x, t') →
      Registers t (.target x) t'
  | constructor {c impl params declared x t'} :
    t.registerConstructor c impl params declared = .ok (x, t') → Registers t (.target x) t'
  | property {c name type getter assigner isStatic declared p t'} :
    t.registerProperty c name type getter assigner isStatic declared = .ok (p, t') →
      Registers t (.property p) t'
  | field {c name type isStatic readOnly declared f t'} :
    t.registerField c name type isStatic readOnly declared = .ok (f, t') →
      Registers t (.field f) t'

theorem registers_of_register (hr : r.register t = .ok (m, t')) : t.Registers m t' := by
  cases r with
  | procedure =>
    obtain ⟨made, hregister, hm⟩ := exists_of_map_eq_ok hr
    cases hm
    exact .procedure hregister
  | constructor =>
    obtain ⟨made, hregister, hm⟩ := exists_of_map_eq_ok hr
    cases hm
    exact .constructor hregister
  | property =>
    obtain ⟨made, hregister, hm⟩ := exists_of_map_eq_ok hr
    cases hm
    exact .property hregister
  | field =>
    obtain ⟨made, hregister, hm⟩ := exists_of_map_eq_ok hr
    cases hm
    exact .field hregister

theorem Registers.registered (hr : t.Registers m t') (ht : t.Registered) : t'.Registered := by
  cases hr with
  | procedure hregister => exact registered_procedure ht hregister
  | constructor hregister => exact registered_constructor ht hregister
  | property hregister => exact registered_property ht hregister
  | field hregister => exact registered_field ht hregister

theorem Made.registered (ht : t.Made) : t.Registered := by
  induction ht with
  | empty => exact registered_empty
  | register _ hr ih => exact (registers_of_register hr).registered ih

/-- A registration adds its member after the others. -/
theorem Registers.gains (hr : t.Registers m t') : t.Gains (· = m) t' := by
  have hnothing : t.Gains (· = m) t := ⟨.refl _, .refl _, .refl _, .refl _⟩
  cases hr with
  | procedure hregister =>
    obtain ⟨rfl, rfl⟩ := Prod.mk.inj (checkKey_bind hregister)
    exact { hnothing with procedures := .concat rfl }
  | constructor hregister =>
    obtain ⟨rfl, rfl⟩ := Prod.mk.inj (checkKey_bind hregister)
    exact { hnothing with constructors := .concat rfl }
  | property hregister =>
    obtain ⟨rfl, -⟩ := Registration.marksProperty_register hregister
    exact { hnothing with properties := .concat rfl }
  | field hregister =>
    obtain ⟨rfl, rfl⟩ := Prod.mk.inj (checkKey_bind hregister)
    exact { hnothing with fields := .concat rfl }

/-- What a query selects of further entries comes after what it selected before. -/
theorem exists_select_appends {α : Type} (new : α → Prop) {es es' : List (TableEntry α)}
    (hc : c.hashable = true) (hes : Appends (fun e => new e.member) es es')
    (admits : TableEntry α → Bool) :
    ∃ as as', select es c admits = .ok as ∧ select es' c admits = .ok as' ∧ Appends new as as' := by
  have hselect : ∀ es : List (TableEntry α), select es c admits =
      .ok ((es.filter fun e => e.container.same c && admits e).map (·.member)) := by
    intro es
    simp only [select, checkKey, if_pos hc]
    rfl
  exact ⟨_, _, hselect es, hselect es', (hes.filter _).map fun _ he => he⟩

/-- The lists for a name gain the new members. -/
theorem Gains.lists {new : Member → Prop} (hgains : t.Gains new t') (ht : t.Registered)
    (ht' : t'.Registered) (hc : c.hashable = true) (name : String) (binding : SearchMask) :
    ∃ l l', t.source.Lists c name binding l ∧ t'.source.Lists c name binding l' ∧
      l.Gains new l' := by
  obtain ⟨ts, ts', hts, hts', htargets⟩ :=
    exists_select_appends (fun x => new (.target x)) hc hgains.procedures fun e =>
      binding.nameMatches e.name name && binding.admits e.member.isStatic e.member.isPublic
  obtain ⟨ps, ps', hps, hps', hproperties⟩ :=
    exists_select_appends (fun x => new (.property x)) hc hgains.properties fun e =>
      binding.nameMatches e.name name && binding.admits e.member.isStatic e.member.isPublic
  obtain ⟨fs, fs', hfs, hfs', hfields⟩ :=
    exists_select_appends (fun x => new (.field x)) hc hgains.fields fun e =>
      binding.nameMatches e.name name && binding.admits e.member.isStatic e.member.isPublic
  exact ⟨⟨ts, ps, fs⟩, ⟨ts', ps', fs'⟩,
    ⟨hts, hps, hfs, fun x hx => (ht.offeredBy (.procedure hts hx)).kind⟩,
    ⟨hts', hps', hfs', fun x hx => (ht'.offeredBy (.procedure hts' hx)).kind⟩,
    htargets, hproperties, hfields⟩

section Queries

variable {Γ : Program} {h : Heap} {ctor : String} {name : String} {shape : Shape}
  {options : Option SearchMask} {bound : Value} {p : Planner}

/-- Where queries fail, a search goes wrong or finds nothing. -/
theorem searchMembers_of_error {S : MemberSource} {e : Failure}
    {members binding : SearchMask} (hprocedures : S.procedures c name binding = .error e)
    (hproperties : S.properties c name binding = .error e)
    (hfields : S.fields c name binding = .error e) :
    Γ.searchMembers h S c name shape members binding bound = throw e ∨
      Γ.searchMembers h S c name shape members binding bound = pure none := by
  unfold searchMembers
  dsimp only
  rw [hprocedures, hproperties, hfields]
  cases members.has .invokeMethod with
  | true => exact .inl rfl
  | false =>
    cases members.has (if shape.returnsVoid then .setProperty else .getProperty) with
    | true => exact .inl rfl
    | false =>
      cases members.has (if shape.returnsVoid then .setField else .getField) with
      | true => exact .inl rfl
      | false => exact .inr rfl

/-- A container that cannot be a key has no members. -/
theorem resolve_ne_found_of_hashable (hc : c.hashable = false) (found : Resolution) :
    ((Γ.resolve h t.source ctor c name shape options bound).run.run p).1 ≠ .ok (.ok found) := by
  have hselect : ∀ {α : Type} (es : List (TableEntry α)) admits,
      select es c admits = .error .typeError := by
    intro α es admits
    simp only [select, checkKey, hc]
    rfl
  unfold resolve
  by_cases hopen : Γ.isOpen c = true
  · rw [if_pos hopen]
    intro hfound
    cases hfound
  rw [if_neg hopen]
  by_cases hname : Text.fold name = Text.fold ctor
  · rw [beq_iff_eq.2 hname]
    dsimp only
    rw [show t.source.constructors c _ = .error .typeError from hselect _ _]
    intro hfound
    cases hfound
  · rw [beq_false_of_ne hname]
    dsimp only
    obtain hfails | hnone : Γ.searchMembers h t.source c name shape (SearchMask.split options).1
        (SearchMask.split options).2 bound = throw .typeError ∨ _ = pure none :=
      searchMembers_of_error (hselect _ _) (hselect _ _) (hselect _ _)
    · rw [hfails]
      intro hfound
      cases hfound
    · rw [hnone]
      intro hfound
      cases hfound

/-- New entries of a table do not disturb what it answers. -/
theorem Gains.undisturbed {new : Member → Prop} (hgains : t.Gains new t') (ht : t.Registered)
    (ht' : t'.Registered) {p' : Planner}
    (hp' : p'.Remembers
      ((Γ.resolve h t.source ctor c name shape options bound).run.run p).2) :
    let after := (Γ.resolve h t'.source ctor c name shape options bound).run.run p'
    Undisturbed (after.2.lineups Γ h shape) (OfferedAmong new shape.returnsVoid) bound
      ((Γ.resolve h t.source ctor c name shape options bound).run.run p).1 after.1 := by
  intro after
  by_cases hopen : Γ.isOpen c = true
  · exact .of_not_found (resolve_ne_found_of_isOpen hopen) (resolve_ne_found_of_isOpen hopen)
  have hopen : Γ.isOpen c = false := by simpa using hopen
  by_cases hc : c.hashable = true
  · by_cases hname : Text.fold name = Text.fold ctor
    · obtain ⟨ts, ts', hts, hts', htargets⟩ := exists_select_appends (fun x => new (.target x)) hc
        hgains.constructors fun e => (SearchMask.split options).2.admits false e.member.isPublic
      have hgroups : List.Forall₂ (CandidateGroup.Gains (OfferedAmong new shape.returnsVoid))
          [⟨ts, bound⟩] [⟨ts', bound⟩] :=
        .cons ⟨rfl, htargets.mono fun x hx => ⟨.target x, hx, rfl⟩⟩ .nil
      refine (tries_constructors hopen hname hts).undisturbed (tries_constructors hopen hname hts')
        hgroups (fun g hg => ?_) hp'
      obtain rfl := List.mem_singleton.1 hg
      exact .inl rfl
    · obtain ⟨l, l', hl, hl', hlists⟩ :=
        hgains.lists ht ht' hc name (SearchMask.split options).2
      exact (tries_groups hopen hname hl).undisturbed (tries_groups hopen hname hl')
        (hlists.groups options shape.returnsVoid bound) (fun _ => bound_of_mem_groups) hp'
  · have hc : c.hashable = false := by simpa using hc
    exact .of_not_found (resolve_ne_found_of_hashable hc) (resolve_ne_found_of_hashable hc)

end Queries

end MemberTable

/-- Registers a function of `int` that takes one value and gives an integer. -/
def unaryRegistration (param : Ty) (id : Nat) : Registration :=
  .procedure (.builtin .int) "f" (.code (.function id)) [.parameter ⟨"p", param, .positional⟩]
    (.builtin .int) true none

/-- A table with functions of `int` by one name, which run different code. -/
def unaryTable (targets : List Target) : MemberTable where
  procedures := targets.map (⟨.builtin .int, "f", ·⟩)
  handles := (targets.mapIdx fun i t => (.code (.function i), t)).reverse

theorem made_unaryTable : (unaryTable [unaryTarget .object 0]).Made := by
  have hregister : (unaryRegistration .object 0).register .empty =
      .ok (.target (unaryTarget .object 0), unaryTable [unaryTarget .object 0]) := by
    with_unfolding_all rfl
  exact .register .empty hregister

/-- Searches such a table for the name. -/
def searchUnary (targets : List Target) (shape : Shape) : PlanM (Except NotFound Resolution) :=
  Program.resolve .empty Heap.empty (unaryTable targets).source ".ctor" (.builtin .int) "f" shape
    none .unbound

theorem run_searchUnary (targets : List Target) (shape : Shape) (p : Planner) :
    (searchUnary targets shape).run.run p =
      let out := ((Program.searchMembers .empty Heap.empty (unaryTable targets).source
        (.builtin .int) "f" shape (SearchMask.split none).1 (SearchMask.split none).2 .unbound).run
          {}).run.run p
      (out.1.map fun f => answerOf "f" (Ty.builtin .int).name f.1 f.2, out.2) :=
  run_resolve (by with_unfolding_all rfl) (by decide) none p

end CallAdapter
