import CallAdapter.Proofs.Adapter.Acceptance
import CallAdapter.Proofs.Adapter.Binding
import CallAdapter.Proofs.Conversion.Optional
import CallAdapter.Proofs.Member.Guarded
import CallAdapter.Proofs.Member.Lookup
import Mathlib

/-!
# Spellings of declared parameters

A bare type that is declared for a parameter is taken in normal form, and a parameter object keeps
its type as it was spelled. Planning looks at a declared type in two ways: whether it is one of
reference cells, which is read off the spelling, and what it plans for its content, which is put
into normal form. So the two declarations are planned alike exactly when no wrapper hides a type of
reference cells (`declared_alike_iff`).
-/

namespace CallAdapter

open Program

/-! ## Matches from one planner -/

/-- From every planner, both computations match, and what they give is related, or neither does,
and they leave the same planner. -/
def MatchAlike {α β : Type} (x : MatchM α) (y : MatchM β) (rel : α → β → Prop) : Prop :=
  ∀ p, (x.run.run.run p).2 = (y.run.run.run p).2 ∧
    Agree (Matched rel) (x.run.run.run p).1 (y.run.run.run p).1

namespace MatchAlike

variable {α β γ δ : Type} {mid : α → β → Prop} {rel : γ → δ → Prop}

theorem refl (x : MatchM α) : MatchAlike x x (· = ·) := by
  intro p
  refine ⟨rfl, ?_⟩
  match (x.run.run.run p).1 with
  | .error e => exact .error
  | .ok (.error m) => exact .ok .differs
  | .ok (.ok a) => exact .ok (.fits rfl)

theorem pure {a : α} {b : β} (h : mid a b) : MatchAlike (Pure.pure a) (Pure.pure b) mid :=
  fun _ => ⟨rfl, .ok (.fits h)⟩

theorem throw (m m' : Mismatch) :
    MatchAlike (throwThe Mismatch m : MatchM α) (throwThe Mismatch m' : MatchM β) mid :=
  fun _ => ⟨rfl, .ok .differs⟩

theorem fail (e : Failure) :
    MatchAlike (throwThe Failure e : MatchM α) (throwThe Failure e : MatchM β) mid :=
  fun _ => ⟨rfl, .error⟩

theorem bind {x : MatchM α} {y : MatchM β} {f : α → MatchM γ} {g : β → MatchM δ}
    (hxy : MatchAlike x y mid) (hfg : ∀ a b, mid a b → MatchAlike (f a) (g b) rel) :
    MatchAlike (x >>= f) (y >>= g) rel := by
  intro p
  obtain ⟨hplanner, hagree⟩ := hxy p
  cases hx : x.run.run.run p with
  | mk r q =>
    cases hy : y.run.run.run p with
    | mk r' q' =>
      rw [hx, hy] at hplanner hagree
      obtain rfl : q = q' := hplanner
      cases hagree with
      | error =>
        rw [run_match_bind_of_error hx, run_match_bind_of_error hy]
        exact ⟨rfl, .error⟩
      | ok hmatched =>
        cases hmatched with
        | fits hab =>
          rw [run_match_bind_of_ok hx, run_match_bind_of_ok hy]
          exact hfg _ _ hab q
        | differs =>
          rw [run_match_bind_of_mismatch hx, run_match_bind_of_mismatch hy]
          exact ⟨rfl, .ok .differs⟩

end MatchAlike

/-! ## Two spellings of a type -/

namespace Ty

/-- Planning sees no difference between the types: both are types of reference cells, or neither
is, and their contents have one normal form. -/
structure PlannedAlike (s t : Ty) : Prop where
  isCell : s.isCell = t.isCell
  content : s.content.normalize = t.content.normalize

theorem PlannedAlike.refl (t : Ty) : t.PlannedAlike t := ⟨rfl, rfl⟩

/-- Types of reference cells are in normal form. -/
theorem normalize_of_isCell {t : Ty} (ht : t.isCell = true) : t.normalize = t := by
  unfold normalize
  split <;> first | rfl | cases ht

/-- A type is planned as its normal form is, unless the spelling hides reference cells. -/
theorem plannedAlike_normalize {t : Ty} (ht : t.normalize.isCell = true → t.isCell = true) :
    t.normalize.PlannedAlike t := by
  by_cases hcell : t.isCell = true
  · rw [normalize_of_isCell hcell]
    exact .refl t
  · have hnormal : ¬t.normalize.isCell = true := fun h => hcell (ht h)
    rw [Bool.not_eq_true] at hcell hnormal
    refine ⟨hnormal.trans hcell.symm, ?_⟩
    rw [content_of_not_isCell hnormal, content_of_not_isCell hcell, normalize_normalize]

end Ty

section Planning

variable {Γ : Program} {h : Heap} {d d' : Ty} {ds ds' : List Ty} {t t' : Target} {S : Shape}
  {v : Value}

theorem planSlot_alike (hd : d.PlannedAlike d') (i : Nat) (g : Ty) :
    MatchAlike (Γ.planSlot i g d) (Γ.planSlot i g d') (· = ·) := by
  have hplan : Γ.planByRef g d = Γ.planByRef g d' := by
    unfold planByRef plan
    rw [hd.content]
  rw [planSlot_eq, planSlot_eq, hplan, hd.isCell]
  refine .bind (.refl _) ?_
  rintro plan _ rfl
  split
  · exact .pure rfl
  · exact .throw _ _

theorem planSlots_alike (hds : List.Forall₂ Ty.PlannedAlike ds ds') (i : Nat) (gs : List Ty) :
    MatchAlike (Γ.planSlots i gs ds) (Γ.planSlots i gs ds') (· = ·) := by
  induction hds generalizing i gs with
  | nil => exact .refl _
  | cons hd _ ih =>
    cases gs with
    | nil => exact .pure rfl
    | cons g gs =>
      refine .bind (planSlot_alike hd i g) ?_
      rintro s _ rfl
      refine .bind (ih (i + 1) gs) ?_
      rintro slots _ rfl
      exact .pure rfl

theorem capture_alike (ht : t.takesReceiver = t'.takesReceiver) (hd : d.PlannedAlike d')
    (v : Value) : MatchAlike (Γ.capture h t d v) (Γ.capture h t' d' v) (· = ·) := by
  have hplan : Γ.planValue v (if d.isCell then d.cellElement else d) =
      Γ.planValue v (if d'.isCell then d'.cellElement else d') := by
    unfold planValue plan
    exact congrArg (remembered .plans (Γ.planNormal planDepth) _) hd.content
  unfold capture
  rw [ht]
  split
  · exact .refl _
  · dsimp only
    rw [hplan]
    refine .bind (.refl _) ?_
    rintro plan _ rfl
    split
    · split
      · rw [hd.isCell]
        exact .refl _
      · split
        · exact .throw _ _
        · exact .fail _
      · exact .fail _
    · exact .throw _ _

end Planning

/-- Both plans have slots from the same sources, in the same modes and with plans of the same
kinds, and results of the same kind. -/
structure SignaturePlan.SlotsAgree (P P' : SignaturePlan) : Prop where
  slots : P.slots.map (fun s => (s.source, s.mode, s.plan.kind)) =
    P'.slots.map fun s => (s.source, s.mode, s.plan.kind)
  result : P.result.kind = P'.result.kind

/-- For every shape and bound value, the members are planned alike by each planner that is asked for
both. -/
def Target.PlannedAlike (Γ : Program) (h : Heap) (t t' : Target) : Prop :=
  ∀ S v r r' q,
    Γ.AskedBoth (Γ.planSignature h S t v).run (Γ.planSignature h S t' v).run r r' q →
      Agree (Matched SignaturePlan.SlotsAgree) r r'

section Planning

variable {Γ : Program} {h : Heap} {t t' : Target}

theorem lineUp_alike (hresult : t.result = t'.result) {ds ds' : List Ty}
    (hds : List.Forall₂ Ty.PlannedAlike ds ds') (S : Shape) (c : Option Capture) :
    MatchAlike (Γ.lineUp S t ds c) (Γ.lineUp S t' ds' c) SignaturePlan.SlotsAgree := by
  unfold lineUp
  refine .bind (planSlots_alike hds 0 S.params) ?_
  rintro slots _ rfl
  rw [hresult]
  refine .bind (.refl _) ?_
  rintro result _ rfl
  split
  · exact .pure ⟨rfl, rfl⟩
  · exact .throw _ _

/-- Members are planned alike where their inputs are, one by one. -/
theorem planSignature_alike (hreceiver : t.takesReceiver = t'.takesReceiver)
    (hresult : t.result = t'.result) (hinputs : List.Forall₂ Ty.PlannedAlike t.inputs t'.inputs)
    (S : Shape) (v : Value) :
    MatchAlike (Γ.planSignature h S t v) (Γ.planSignature h S t' v) SignaturePlan.SlotsAgree := by
  unfold planSignature
  rw [hinputs.length_eq]
  split
  · split
    · exact lineUp_alike hresult hinputs S none
    · exact .throw _ _
  · generalize t.inputs = ds, t'.inputs = ds' at hinputs
    cases hinputs with
    | nil => exact .throw _ _
    | cons hd hrest =>
      dsimp only
      rw [hrest.length_eq]
      split
      · refine .bind (capture_alike hreceiver hd v) ?_
        rintro c _ rfl
        exact lineUp_alike hresult hrest S (some c)
      · exact .throw _ _

/-- So they are on one planner that is asked for both, in either order. -/
theorem plannedAlike_of_inputs (hreceiver : t.takesReceiver = t'.takesReceiver)
    (hresult : t.result = t'.result) (hinputs : List.Forall₂ Ty.PlannedAlike t.inputs t'.inputs) :
    t.PlannedAlike Γ h t' := by
  intro S v r r' q hasked
  have halike := planSignature_alike (Γ := Γ) (h := h) hreceiver hresult hinputs S v
  cases hasked with
  | @inOrder memoize history between _ _ p _ hx hy =>
    obtain ⟨hplanner, hagree⟩ := halike (Γ.afterRequests history ⟨memoize, [], []⟩)
    rw [hx] at hplanner hagree
    have hagain := (steady_planSignature (h := h) S t' v _).2 (Γ.afterRequests between p)
      (by rw [← hplanner]; exact remembers_afterRequests between p)
    rw [hy] at hagain
    rw [show r' = _ from hagain]
    exact hagree
  | @reversed memoize history between _ _ p _ hy hx =>
    obtain ⟨hplanner, hagree⟩ := halike (Γ.afterRequests history ⟨memoize, [], []⟩)
    rw [hy] at hplanner hagree
    have hagain := (steady_planSignature (h := h) S t v _).2 (Γ.afterRequests between p)
      (by rw [hplanner]; exact remembers_afterRequests between p)
    rw [hx] at hagain
    rw [show r = _ from hagain]
    exact hagree

end Planning

/-! ## Shapes that tell cells from values -/

/-- A type that is converted to the contents of a type. -/
def Ty.reaching (d : Ty) : Ty := if d.content.normalize.isVoid then .none else .any

theorem Ty.isCell_reaching (d : Ty) : d.reaching.isCell = false := by
  unfold reaching
  split <;> rfl

/-- The type of reference cells with contents of a type. -/
def Ty.cellOf (t : Ty) : Ty := .applied (.generic (.builtin .cell)) [t]

section Telling

variable {Γ : Program} {h : Heap} {R : Reuse} {i : Nat} {gs ds pre post : List Ty} {d e : Ty}
  {slots : List Slot}

theorem leads_reaching (Γ : Program) (d : Ty) : Γ.Leads d.reaching d.content := by
  have hn : NormalPair d.reaching.normalize d.content.normalize :=
    ⟨Ty.normalize_normalize _, Ty.normalize_normalize _⟩
  unfold Leads
  by_cases hvoid : d.content.normalize.isVoid = true
  · have hreaching : d.reaching.normalize = .none := by
      rw [Ty.reaching, if_pos hvoid]
      rfl
    rw [(Ty.isVoid_iff _).1 hvoid, hreaching] at hn ⊢
    exact ⟨.identity, freshVerdict_of_direct? hn (by simp [direct?, Ty.none, Ty.builtin, Ty.cls_refusesPlanning, Ty.same]),
      rfl⟩
  · rw [Bool.not_eq_true] at hvoid
    have hreaching : d.reaching.normalize = .any := by
      rw [Ty.reaching, hvoid]
      rfl
    rw [hreaching] at hn ⊢
    by_cases htop : d.content.normalize.isTop = true
    · rcases (Ty.isTop_iff _).1 htop with hd | hd
      · rw [hd] at hn ⊢
        exact ⟨.widen, freshVerdict_of_direct? hn
          (by simp [direct?, Ty.any, Ty.cls_refusesPlanning, Ty.same, Ty.isTop]), rfl⟩
      · rw [hd] at hn ⊢
        exact ⟨.identity, freshVerdict_of_direct? hn
          (by simp [direct?, Ty.any, Ty.cls_refusesPlanning, Ty.same]), rfl⟩
    · rw [Bool.not_eq_true] at htop
      exact ⟨_, freshVerdict_of_direct? hn (direct?_of_isTop rfl htop hvoid), rfl⟩

/-- Some slot takes the content out of a cell where some parameter of the shape is a cell and the
declared type is none. -/
theorem SlotsPlanned.dereference_iff (hslots : SlotsPlanned Γ R i gs ds slots) :
    SlotMode.dereference ∈ slots.map (·.mode) ↔
      ∃ x ∈ gs.zip ds, x.1.isCell = true ∧ x.2.isCell = false := by
  induction hslots with
  | nil => simp
  | @cons i g d gs ds s slots _ hs _ ih =>
    have hmode : SlotMode.dereference = s.mode ↔ g.isCell = true ∧ d.isCell = false := by
      rw [hs.mode]
      cases g.isCell <;> cases d.isCell <;> cases s.plan.isIdentity <;> simp [SlotMode.of]
    simp [ih, hmode]

/-- A shape that reaches every input, the one in the middle by a cell. -/
def cellShape (pre : List Ty) (e : Ty) (post : List Ty) : Shape :=
  ⟨pre.map Ty.reaching ++ e.reaching.cellOf :: post.map Ty.reaching, .none⟩

theorem Ty.cellElement_cellOf (e : Ty) : e.reaching.cellOf.content = e.reaching := by
  unfold reaching
  split <;> rfl

/-- The shape fits every member with these inputs. -/
theorem accepts_cellShape {t : Target} (hinputs : t.inputs = pre ++ e :: post) :
    Γ.Accepts (cellShape pre e post) t where
  inputs := by
    have hreaching : ∀ ds : List Ty,
        List.Forall₂ (fun g d => Γ.Leads g.content d.content) (ds.map Ty.reaching) ds := by
      intro ds
      rw [List.forall₂_map_left_iff]
      refine List.forall₂_same.2 fun d _ => ?_
      rw [content_of_not_isCell d.isCell_reaching]
      exact leads_reaching Γ d
    rw [hinputs]
    refine List.rel_append (hreaching pre) (.cons ?_ (hreaching post))
    rw [Ty.cellElement_cellOf]
    exact leads_reaching Γ e
  result := .inr (.inl rfl)

/-- A slot of the shape takes the content out of a cell where the input in the middle takes none. -/
theorem dereference_cellShape
    (hslots : SlotsPlanned Γ R i (cellShape pre e post).params (pre ++ d :: post) slots) :
    SlotMode.dereference ∈ slots.map (·.mode) ↔ d.isCell = false := by
  have hreaching : ∀ ds : List Ty, ∀ x ∈ (ds.map Ty.reaching).zip ds, x.1.isCell = false := by
    intro ds x hx
    obtain ⟨d, -, hd⟩ := List.mem_map.1 (List.of_mem_zip hx).1
    rw [← hd]
    exact d.isCell_reaching
  rw [hslots.dereference_iff]
  unfold cellShape
  rw [List.zip_append (by simp), List.zip_cons_cons]
  constructor
  · rintro ⟨x, hx, hcell, hd⟩
    rcases List.mem_append.1 hx with hx | hx
    · cases hcell.symm.trans (hreaching pre x hx)
    rcases List.mem_cons.1 hx with rfl | hx
    · exact hd
    · cases hcell.symm.trans (hreaching post x hx)
  · exact fun hd => ⟨_, List.mem_append_right _ List.mem_cons_self, rfl, hd⟩

/-- What is planned for the shape takes content out of cells where the input in the middle takes
none. -/
theorem dereference_iff_of_planned {t : Target} {P : SignaturePlan}
    (hP : P.Planned Γ R h (cellShape pre e post) t .unbound) (hinputs : t.inputs = pre ++ d :: post) :
    SlotMode.dereference ∈ P.slots.map (·.mode) ↔ d.isCell = false := by
  cases hP with
  | free _ hslots => exact dereference_cellShape (hinputs ▸ hslots)
  | captured hbound => cases hbound

/-- A member that takes a cell and one that takes none in its place are planned apart. -/
theorem isCell_of_planned_alike {t t' : Target} (hinputs : t.inputs = pre ++ d :: post)
    (hinputs' : t'.inputs = pre ++ e :: post) (hd : d.isCell = true)
    (halike : t.PlannedAlike Γ h t') : e.isCell = true := by
  have hsound := sound_history (Γ := Γ) false []
  have hfits := (planSignature_matchesIff (h := h) (cellShape pre d post) t _ ⟨false, hsound⟩).2.2
    (accepts_cellShape hinputs)
  have hkept := (planSignature_yields (h := h) (cellShape pre d post) t .unbound _ hsound).1
  cases hx : (Γ.planSignature h (cellShape pre d post) t .unbound).run.run.run
      (Γ.afterRequests [] ⟨false, [], []⟩) with
  | mk r p =>
    rw [hx] at hfits hkept
    obtain ⟨P, rfl⟩ := hfits
    have hplanned := planned_of_planSignature hsound (congrArg Prod.fst hx)
    cases hy : (Γ.planSignature h (cellShape pre d post) t' .unbound).run.run.run
        (Γ.afterRequests [] p) with
    | mk r' q =>
      cases halike _ _ _ _ _ (.inOrder hx hy) with
      | ok hmatched =>
        cases hmatched with
        | fits hagree =>
          have hplanned' := planned_of_planSignature hkept (congrArg Prod.fst hy)
          have hmodes := congrArg (List.map fun s => s.2.1) hagree.slots
          rw [List.map_map, List.map_map] at hmodes
          by_contra he
          rw [Bool.not_eq_true, ← dereference_iff_of_planned hplanned' hinputs'] at he
          have hcell := (dereference_iff_of_planned hplanned hinputs).1 (hmodes ▸ he)
          cases hcell.symm.trans hd

end Telling

/-! ## Declared parameters -/

namespace ParameterSpec

/-- The type that a member has for a parameter that is declared so. -/
def declaredType : ParameterSpec → Ty
  | type t => t.normalize
  | parameter p => p.type

theorem map_type_toParameters (specs : List ParameterSpec) :
    (toParameters specs).map (·.type) = specs.map declaredType := by
  unfold toParameters
  refine List.ext_getElem? fun i => ?_
  rw [List.getElem?_map, List.getElem?_mapIdx, List.getElem?_map]
  cases specs[i]? with
  | none => rfl
  | some spec => cases spec <;> rfl

end ParameterSpec

/-- A registration of a procedure or of a constructor, by the parameters that it declares. -/
inductive Registration.Declares : (List ParameterSpec → Registration) → Prop
  | procedure (c : Ty) (name : String) (impl : Value) (result : Ty) (isStatic : Bool)
      (declared : Option Bool) :
    Declares fun specs => .procedure c name impl specs result isStatic declared
  | constructor (c : Ty) (impl : Value) (declared : Option Bool) :
    Declares fun specs => .constructor c impl specs declared

namespace Target

theorem takesReceiver_marked (t : Target) : t.marked.takesReceiver = t.takesReceiver := by
  rw [marked_eq]
  rfl

theorem result_marked (t : Target) : t.marked.result = t.result := by
  rw [marked_eq]

theorem inputs_marked (t : Target) : t.marked.inputs = t.inputs := by
  rw [marked_eq]
  rfl

end Target

/-- Members that are registered with different parameters differ in nothing else that is planned. -/
theorem Registration.Declares.exists_inputs {register : List ParameterSpec → Registration}
    (hr : Registration.Declares register) : ∃ takesReceiver result receivers,
      ∀ specs t t' x, (register specs).register t = .ok (.target x, t') →
        x.takesReceiver = takesReceiver ∧ x.result = result ∧
          x.inputs = receivers ++ specs.map ParameterSpec.declaredType := by
  cases hr with
  | procedure c name impl result isStatic declared =>
    refine ⟨!isStatic, result.normalize, if !isStatic then [c.asDeclaring.getD .any] else [], ?_⟩
    intro specs t t' x hx
    obtain ⟨made, hmade, hm⟩ := exists_of_map_eq_ok hx
    obtain ⟨htarget, -⟩ := Prod.mk.inj (MemberTable.checkKey_bind hmade)
    obtain rfl := Member.target.inj (Prod.mk.inj hm).1
    rw [← htarget, Target.takesReceiver_marked, Target.result_marked, Target.inputs_marked,
      ← ParameterSpec.map_type_toParameters]
    cases isStatic <;> simp [Target.takesReceiver, Target.inputs, Target.receiverType,
      MemberKind.isSetter]
  | constructor c impl declared =>
    refine ⟨false, c, [], ?_⟩
    intro specs t t' x hx
    obtain ⟨made, hmade, hm⟩ := exists_of_map_eq_ok hx
    obtain ⟨htarget, -⟩ := Prod.mk.inj (MemberTable.checkKey_bind hmade)
    obtain rfl := Member.target.inj (Prod.mk.inj hm).1
    rw [← htarget, Target.takesReceiver_marked, Target.result_marked, Target.inputs_marked,
      ← ParameterSpec.map_type_toParameters]
    simp [Target.takesReceiver, Target.inputs, MemberKind.isSetter]

/-- A parameter is declared by a bare type, or by an object with its own name. Both ways give
members that are planned alike, for every shape and bound value and by every planner that is asked
for both, exactly when the spelling of the type does not hide reference cells. -/
theorem declared_alike_iff (Γ : Program) (h : Heap)
    {register : List ParameterSpec → Registration} (hr : Registration.Declares register)
    {before after : List ParameterSpec} {name : String} {T : Ty} {t t' u u' : MemberTable}
    {x y : Target}
    (hx : (register (before ++ .type T :: after)).register t = .ok (.target x, t'))
    (hy : (register (before ++ .parameter ⟨name, T, .positional⟩ :: after)).register u =
      .ok (.target y, u')) :
    x.PlannedAlike Γ h y ↔ (T.normalize.isCell = true → T.isCell = true) := by
  obtain ⟨takesReceiver, result, receivers, hdeclares⟩ := hr.exists_inputs
  obtain ⟨hxreceiver, hxresult, hxinputs⟩ := hdeclares _ _ _ _ hx
  obtain ⟨hyreceiver, hyresult, hyinputs⟩ := hdeclares _ _ _ _ hy
  rw [List.map_append, List.map_cons, ← List.append_assoc] at hxinputs hyinputs
  constructor
  · exact fun halike hcell => isCell_of_planned_alike hxinputs hyinputs hcell halike
  · intro hcell
    refine plannedAlike_of_inputs (hxreceiver.trans hyreceiver.symm)
      (hxresult.trans hyresult.symm) ?_
    have hsame : ∀ ds : List Ty, List.Forall₂ Ty.PlannedAlike ds ds := fun ds =>
      List.forall₂_same.2 fun d _ => .refl d
    rw [hxinputs, hyinputs]
    exact List.rel_append (hsame _) (.cons (Ty.plannedAlike_normalize hcell) (hsame _))

/-- Registers a static procedure with these parameters. -/
def twiceRegistration (specs : List ParameterSpec) : Registration :=
  .procedure (.builtin .int) "twice" (.code (.function 0)) specs (.builtin .int) true none

/-- What the registration describes. -/
def twiceTarget (specs : List ParameterSpec) : Target :=
  Target.marked
    { kind := .procedure, name := "twice", declaring := some (.builtin .int), isStatic := true
      params := ParameterSpec.toParameters specs, result := (Ty.builtin .int).normalize
      isPublic := MemberTable.visibility none "twice", impl := .callable (.code (.function 0)) }

theorem register_twice (specs : List ParameterSpec) :
    ∃ t', (twiceRegistration specs).register .empty = .ok (.target (twiceTarget specs), t') :=
  ⟨_, rfl⟩

/-- The type with a remark. -/
def Ty.remarked (t : Ty) : Ty := .applied .annotated [t]

/-- A remark on a number makes no difference, and one on a reference cell does. -/
theorem declared_alike_remarked :
    (twiceTarget [.type (Ty.builtin .int).remarked]).PlannedAlike .empty .empty
        (twiceTarget [.parameter ⟨"n", (Ty.builtin .int).remarked, .positional⟩]) ∧
      ¬(twiceTarget [.type (Ty.builtin .int).cellOf.remarked]).PlannedAlike .empty .empty
        (twiceTarget [.parameter ⟨"n", (Ty.builtin .int).cellOf.remarked, .positional⟩]) := by
  have hiff : ∀ T : Ty, (twiceTarget [.type T]).PlannedAlike .empty .empty
      (twiceTarget [.parameter ⟨"n", T, .positional⟩]) ↔
        (T.normalize.isCell = true → T.isCell = true) := by
    intro T
    obtain ⟨t', hx⟩ := register_twice [.type T]
    obtain ⟨u', hy⟩ := register_twice [.parameter ⟨"n", T, .positional⟩]
    exact @declared_alike_iff .empty .empty twiceRegistration (.procedure ..) [] [] _ _ _ _ _ _ _ _
      hx hy
  exact ⟨(hiff _).2 fun h => absurd h (by decide), fun h => absurd ((hiff _).1 h rfl) (by decide)⟩

/-- A bare type of reference cells with a remark is not planned as a parameter object with it. -/
theorem remarked_cell_planned_apart :
    ¬∀ (Γ : Program) (h : Heap) (register : List ParameterSpec → Registration)
      (before after : List ParameterSpec) (name : String) (T : Ty) (t t' u u' : MemberTable)
      (x y : Target), Registration.Declares register →
        (register (before ++ .type T :: after)).register t = .ok (.target x, t') →
        (register (before ++ .parameter ⟨name, T, .positional⟩ :: after)).register u =
          .ok (.target y, u') → x.PlannedAlike Γ h y := by
  intro halike
  obtain ⟨t', hx⟩ := register_twice [.type (Ty.builtin .int).cellOf.remarked]
  obtain ⟨u', hy⟩ := register_twice
    [.parameter ⟨"n", (Ty.builtin .int).cellOf.remarked, .positional⟩]
  have hplanned := halike .empty .empty twiceRegistration [] [] _ _ _ _ _ _ _ _ (.procedure ..) hx hy
  have hinputs : ∀ spec : ParameterSpec,
      (twiceTarget [spec]).inputs = [] ++ spec.declaredType :: [] := by
    intro spec
    rw [twiceTarget, Target.inputs_marked]
    cases spec <;> rfl
  cases isCell_of_planned_alike (hinputs _) (hinputs _) rfl hplanned

end CallAdapter
