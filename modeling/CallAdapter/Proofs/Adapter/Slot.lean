import CallAdapter.Adapter.Invocation
import CallAdapter.Proofs.Conversion.Remembering
import CallAdapter.Proofs.Conversion.Soundness

/-!
# Slots fill their inputs

What `planSignature` promises about each slot (`Planned`), and what a slot makes of a value that
fits the parameter of the shape (`delivers_marshal`): a failure, or an input that fits the declared
type, on a heap that keeps all that was there.
-/

namespace CallAdapter

open Program

/-! ## Growing heaps -/

/-- Attributes that an instance has, it keeps, and none of them becomes the absent value. -/
def Heap.Grows (h h' : Heap) : Prop :=
  ∀ addr name v, h.attr? addr name = some v →
    ∃ v', h'.attr? addr name = some v' ∧ (v'.isNone = true → v.isNone = true)

/-- Attributes that an instance has keep their values. -/
def Heap.Extends (h h' : Heap) : Prop :=
  ∀ addr name v, h.attr? addr name = some v → h'.attr? addr name = some v

namespace Heap

variable {h h' h'' : Heap}

theorem Extends.refl (h : Heap) : h.Extends h := fun _ _ _ => id

theorem Extends.trans (hh : h.Extends h') (hh' : h'.Extends h'') : h.Extends h'' :=
  fun addr name v hv => hh' addr name v (hh addr name v hv)

theorem Extends.grows (hh : h.Extends h') : h.Grows h' :=
  fun addr name v hv => ⟨v, hh addr name v hv, id⟩

theorem extends_alloc (h : Heap) (i : Instance) : h.Extends (h.alloc i).2 := by
  intro addr name v hv
  unfold attr? attrsAt get? at hv ⊢
  cases hget : h.instances[addr]? with
  | none =>
    rw [hget] at hv
    cases hv
  | some j =>
    rw [hget] at hv
    have hlt := (Array.getElem?_eq_some_iff.1 hget).1
    rw [show (h.alloc i).2.instances[addr]? = some j by
      simp only [alloc, Array.getElem?_push, hget, if_neg (Nat.ne_of_lt hlt)]]
    exact hv

theorem attr?_alloc (h : Heap) (v : Value) :
    (h.alloc ⟨.plain, [("value", v)]⟩).2.attr? h.instances.size "value" = some v := by
  unfold attr? attrsAt get? alloc
  simp

end Heap

section Fits

variable {Γ : Program} {h h' : Heap} {t : Ty} {v : Value}

theorem hasAttr_mono (hh : h.Grows h') {protocol : Cls} {name : String}
    (hv : Γ.hasAttr h v protocol name = true) : Γ.hasAttr h' v protocol name = true := by
  unfold hasAttr at hv ⊢
  rw [Bool.or_eq_true] at hv ⊢
  refine hv.imp_right fun hv => ?_
  split at hv
  · rename_i c addr _
    cases hattr : h.attr? addr name with
    | none =>
      rw [hattr] at hv
      split
      · rw [hasField, Bool.and_eq_true, Bool.not_eq_true'] at hv
        rw [hv.2, Bool.and_false, Bool.not_false]
      · exact hv
    | some u =>
      obtain ⟨u', hu', habsent⟩ := hh addr name u hattr
      rw [hattr] at hv
      dsimp only at hv ⊢
      rw [hu']
      simp only [Bool.not_eq_true', Bool.and_eq_false_iff] at hv ⊢
      exact hv.imp_left fun hu => Bool.eq_false_iff.2 fun hu' => Bool.eq_false_iff.1 hu (habsent hu')
  · exact hv
  · cases hv

/-- Instances stay instances. -/
theorem isInstance_mono (hh : h.Grows h') {c : Cls} (hv : Γ.isInstance h v c = some true) :
    Γ.isInstance h' v c = some true := by
  unfold isInstance at hv ⊢
  dsimp only at hv ⊢
  split at hv
  · rw [if_pos ‹_›]
  rw [if_neg ‹_›]
  split at hv
  · cases hv
  rw [if_neg ‹_›]
  split at hv
  · rw [if_pos ‹_›]
    split at hv
    · rw [if_pos ‹_›]
      rw [Option.some.injEq, Bool.or_eq_true, List.all_eq_true] at hv ⊢
      exact hv.imp_right fun hnames name hname => hasAttr_mono hh (hnames name hname)
    · cases hv
  · rw [if_neg ‹_›]
    exact hv

theorem Fits.mono (hh : h.Grows h') (hfits : Fits Γ h t v) : Fits Γ h' t v := by
  induction hfits with
  | top ht => exact .top ht
  | absent ht hv => exact .absent ht hv
  | ofClass hu ho hc => exact .ofClass hu ho (isInstance_mono hh hc)
  | intAsFloat hi => exact .intAsFloat (isInstance_mono hh hi)
  | intAsComplex hi => exact .intAsComplex (isInstance_mono hh hi)
  | floatAsComplex hf => exact .floatAsComplex (isInstance_mono hh hf)
  | member hu hm _ ih => exact .member hu hm ih

/-- The value has the type of a parameter or an input: for reference cells, it is a cell and its
content has the content type. -/
def FitsSlot (Γ : Program) (h : Heap) (t : Ty) (v : Value) : Prop :=
  Fits Γ h t v ∧ (t.isCell = true → Γ.isCellValue v = true ∧
    ∃ w, Γ.cellContent? h v = some w ∧ Fits Γ h t.cellElement w)

theorem cellContent?_extends (hh : h.Extends h') {w : Value} (hw : Γ.cellContent? h v = some w) :
    Γ.cellContent? h' v = some w := by
  unfold cellContent? at hw ⊢
  split at hw
  · split at hw
    · rw [if_pos ‹_›]
      exact hh _ _ _ hw
    · cases hw
  · cases hw

theorem FitsSlot.extends (hh : h.Extends h') (hfits : FitsSlot Γ h t v) : FitsSlot Γ h' t v := by
  refine ⟨hfits.1.mono hh.grows, fun hcell => ?_⟩
  obtain ⟨hv, w, hw, hwfits⟩ := hfits.2 hcell
  exact ⟨hv, w, cellContent?_extends hh hw, hwfits.mono hh.grows⟩

end Fits

/-! ## Running slots -/

/-- From the world `w`, the computation keeps what is on the heap, and what it gives is good. -/
def Delivers {α : Type} (w : World) (x : Eval α) (good : Heap → α → Prop) : Prop :=
  w.heap.Extends (x.run.run w).2.heap ∧
    ∀ a, (x.run.run w).1 = .ok a → good (x.run.run w).2.heap a

namespace Delivers

variable {α β : Type} {w : World} {good : Heap → α → Prop}

theorem pure {a : α} (h : good w.heap a) : Delivers w (Pure.pure a) good :=
  ⟨.refl _, fun _ ha => Except.ok.inj ha ▸ h⟩

theorem bind {x : Eval α} {f : α → Eval β} {good' : Heap → β → Prop}
    (hx : Delivers w x good)
    (hf : ∀ a w', w.heap.Extends w'.heap → good w'.heap a → Delivers w' (f a) good') :
    Delivers w (x >>= f) good' := by
  obtain ⟨hext, hgood⟩ := hx
  unfold Delivers
  obtain ⟨e, w', hrun, hbind⟩ | ⟨a, w', hrun, hbind⟩ := run_bind_cases x f w
  · rw [hrun] at hext
    exact hbind ▸ ⟨hext, fun _ ha => by cases ha⟩
  · rw [hrun] at hext hgood
    obtain ⟨hext', hgood'⟩ := hf a w' hext (hgood a rfl)
    exact hbind ▸ ⟨hext.trans hext', hgood'⟩

end Delivers

theorem delivers_newCell {w : World} {v : Value} {good : Heap → Value → Prop}
    (h : good (w.heap.alloc ⟨.plain, [("value", v)]⟩).2
      (.object (.builtin .cell) w.heap.instances.size)) :
    Delivers w (Eval.newCell v) good :=
  ⟨Heap.extends_alloc _ _, fun _ ha => Except.ok.inj ha ▸ h⟩

theorem run_heap (w : World) : Eval.heap.run.run w = (.ok w.heap, w) := rfl

theorem run_lift {α : Type} (r : Except Failure α) (w : World) :
    (Eval.lift r).run.run w = (r, w) := by
  cases r <;> rfl

theorem run_converting (Γ : Program) (p : Plan) (v : Value) (w : World) :
    (Γ.converting p v).run.run w = (Γ.applyPlan w.heap p v, w) := by
  rw [converting, run_bind_of_ok (run_heap w), run_lift]

/-- A plan that gives every value as it is leaves a computation as it is. -/
theorem run_bind_converting {Γ : Program} {p : Plan} (hp : ∀ h v, Γ.applyPlan h p v = .ok v)
    (x : Eval Value) (w : World) :
    (do Γ.converting p (← x) : Eval Value).run.run w = x.run.run w := by
  obtain ⟨e, w', hrun, hbind⟩ | ⟨v, w', hrun, hbind⟩ := run_bind_cases x (Γ.converting p) w
  · exact hbind.trans hrun.symm
  · rw [hrun, ← hp w'.heap v]
    exact hbind.trans (run_converting Γ p v w')

/-- Converting what a computation gives changes nothing more. -/
theorem world_bind_converting (Γ : Program) (p : Plan) (x : Eval Value) (w : World) :
    ((do Γ.converting p (← x) : Eval Value).run.run w).2 = (x.run.run w).2 := by
  obtain ⟨e, w', hrun, hbind⟩ | ⟨v, w', hrun, hbind⟩ := run_bind_cases x (Γ.converting p) w
  · rw [hbind, hrun]
  · rw [hbind, run_converting, hrun]

/-! ## Filling an input -/

section Marshal

variable {Γ : Program} {K : Cls → Prop} {R : Reuse} {g d : Ty} {v : Value} {w : World}

theorem normalize_content {t : Ty} (ht : t.normalize = t) : t.content.normalize = t.content := by
  unfold Ty.content
  split
  · exact Ty.normalize_cellElement t
  · exact ht

/-- The types of the language that may be declared: contents of cells belong to it too. -/
def Declarable (K : Cls → Prop) (t : Ty) : Prop :=
  t.normalize = t ∧ Expressible K t ∧ Expressible K t.content

/-- All types of the shape are in normal form, as they are in every shape that is made. -/
def Shape.IsNormal (s : Shape) : Prop :=
  (∀ g ∈ s.params, g.normalize = g) ∧ s.returns.normalize = s.returns

theorem isNormal_make (params : List Ty) (returns : Ty) : (Shape.make params returns).IsNormal := by
  refine ⟨fun g hg => ?_, Ty.normalize_normalize returns⟩
  obtain ⟨t, -, rfl⟩ := List.mem_map.1 hg
  exact Ty.normalize_normalize t

/-- What planning promises about the slot between the types of two sides. -/
structure Slot.Planned (Γ : Program) (R : Reuse) (g d : Ty) (s : Slot) : Prop where
  mode : s.mode = SlotMode.of g.isCell d.isCell s.plan.isIdentity
  possible : s.plan.isPossible = true
  answer : Γ.PlanAnswer R g.content.normalize d.content.normalize (.ok s.plan)

theorem delivers_converting (hK : Lawful Γ K) (hR : BetweenSpellings R) {p : Plan} {s t : Ty}
    (hn : NormalPair s t) (ht : Expressible K t) (hp : p.isPossible = true)
    (hanswer : Γ.PlanAnswer R s t (.ok p)) (hv : Fits Γ w.heap s v) :
    Delivers w (Γ.converting p v) fun h u => Fits Γ h t u := by
  unfold Delivers
  rw [run_converting]
  refine ⟨.refl _, fun u hu => ?_⟩
  rw [applyPlan_of_handsOn hanswer.1] at hu
  exact fits_of_runVerdict hK hR hanswer.2 hn ht (p.isPossible_eq ▸ hp) hv hu

theorem fitsSlot_of_not_isCell {h : Heap} {t : Ty} (ht : t.isCell = false)
    (hv : Fits Γ h t.content v) : FitsSlot Γ h t v := by
  refine ⟨?_, fun hcell => by cases ht.symm.trans hcell⟩
  unfold Ty.content at hv
  rwa [ht] at hv

theorem origin_of_isCell {t : Ty} (ht : t.isCell = true) : t.origin = .cell := by
  unfold Ty.isCell at ht
  split at ht
  · rfl
  · split at ht
    · rename_i ho
      exact ho
    · cases ht
  · cases ht

theorem isInstance_of_fits_cell {h : Heap} (hv : Fits Γ h g v) (hg : g.isCell = true) :
    Γ.isInstance h v (.builtin .cell) = some true := by
  have ho := origin_of_isCell hg
  cases hv with
  | top htop =>
    rw [Ty.isTop_iff] at htop
    rcases htop with rfl | rfl <;> cases hg
  | absent hvoid _ =>
    rw [Ty.isVoid_iff] at hvoid
    subst hvoid
    cases hg
  | ofClass _ ho' hc => exact Ty.cls.inj (ho'.symm.trans ho) ▸ hc
  | intAsFloat | intAsComplex | floatAsComplex => cases hg
  | member hu => cases hu.symm.trans (Ty.isUnion_of_isCell hg)

/-- A fresh cell fits the type of cells whose content type its content fits. -/
theorem delivers_newCell_fits (hd : d.isCell = true) (hv : Fits Γ w.heap d.content v) :
    Delivers w (Eval.newCell v) fun h u => FitsSlot Γ h d u := by
  have hext := Heap.extends_alloc w.heap ⟨.plain, [("value", v)]⟩
  refine delivers_newCell ⟨?_, fun _ => ⟨derives_self_builtin Γ .cell, v, ?_, ?_⟩⟩
  · exact .ofClass (Ty.isUnion_of_isCell hd) (origin_of_isCell hd) (isInstance_classOf Γ _ _)
  · show (if Γ.derives (.builtin .cell) (.builtin .cell) = true then _ else none) = _
    rw [if_pos (derives_self_builtin Γ .cell)]
    exact Heap.attr?_alloc w.heap v
  · unfold Ty.content at hv
    rw [hd] at hv
    exact hv.mono hext.grows

theorem aliasVerdict_ne_identity {s t : Ty} : Γ.aliasVerdict s t ≠ .identity := by
  unfold aliasVerdict
  have hwiden : Verdict.widen ≠ .identity := by simp
  have hcast : ∀ op, Verdict.convert op ≠ .identity := by simp
  have himpossible : Verdict.impossible ≠ .identity := by simp
  grind

theorem classVerdict_ne_identity {s t : Ty} : Γ.classVerdict s t ≠ .identity := by
  unfold classVerdict
  have hwiden : Verdict.widen ≠ .identity := by simp
  have hcast : ∀ op, Verdict.convert op ≠ .identity := by simp
  have himpossible : Verdict.impossible ≠ .identity := by simp
  grind

/-- Only between spellings of one type is there nothing to do. -/
theorem same_of_plans_identity (hR : BetweenSpellings R) {s t : Ty} {r : Except Failure Verdict}
    (h : Γ.Plans R s t r) (hr : r = .ok .identity) : s.same t = true := by
  induction h with
  | @direct s t _ hdirect =>
    subst hr
    unfold direct? at hdirect
    have halias := aliasVerdict_ne_identity (Γ := Γ) (s := s) (t := t)
    have hclass := classVerdict_ne_identity (Γ := Γ) (s := s) (t := t)
    grind
  | reused hreuse _ ih =>
    obtain ⟨-, hss, htt⟩ := hR _ _ _ _ hreuse
    exact Ty.same_trans (Ty.same_symm hss) (Ty.same_trans (ih hr) htt)
  | @fromUnion s t as =>
    have hkind : (Program.fromUnion t as).kind ≠ .identity := by
      unfold Program.fromUnion
      grind [Verdict.kind]
    rw [Except.ok.inj hr] at hkind
    exact absurd rfl hkind
  | @intoFirst s t as =>
    rcases firstOperation_cases as with ⟨a, -, op, -, hop⟩ | ⟨-, hop⟩
    · cases hop.symm.trans (Except.ok.inj hr)
    · cases hop.symm.trans (Except.ok.inj hr)
  | fromUnionError | intoUntouched | intoError => cases hr

theorem delivers_contentOf (hg : g.isCell = true) (hv : FitsSlot Γ w.heap g v) :
    Delivers w (Γ.contentOf v) fun h u => Fits Γ h g.content u := by
  obtain ⟨-, u, hu, hfits⟩ := hv.2 hg
  have hrun : (Γ.contentOf v).run.run w = (.ok u, w) := by
    rw [contentOf, run_bind_of_ok (run_heap w), hu]
    rfl
  unfold Delivers
  rw [hrun]
  refine ⟨.refl _, fun a ha => ?_⟩
  rw [← Except.ok.inj ha, Ty.content, if_pos hg]
  exact hfits

/-- A slot makes an input of its declared type from a value of the given type, or fails. -/
theorem delivers_marshal (hK : Lawful Γ K) (hR : BetweenSpellings R) {s : Slot}
    (hs : s.Planned Γ R g d) (hg : g.normalize = g) (hd : Declarable K d)
    (hv : FitsSlot Γ w.heap g v) :
    Delivers w (Γ.marshal s v) fun h u => FitsSlot Γ h d u := by
  have hn : NormalPair g.content d.content := ⟨normalize_content hg, normalize_content hd.1⟩
  have hanswer : Γ.PlanAnswer R g.content d.content (.ok s.plan) := by
    have hs := hs.answer
    rwa [hn.1, hn.2] at hs
  have hconvert : ∀ {w' : World} {u}, Fits Γ w'.heap g.content u →
      Delivers w' (Γ.converting s.plan u) fun h u => Fits Γ h d.content u :=
    fun hu => delivers_converting hK hR hn hd.2.2 hs.possible hanswer hu
  have hplain : g.isCell = false → Fits Γ w.heap g.content v := by
    intro hgc
    rw [Ty.content, hgc]
    exact hv.1
  unfold marshal
  rw [hs.mode]
  cases hgc : g.isCell with
  | false =>
    cases hdc : d.isCell with
    | false =>
      have hfits := hconvert (hplain hgc)
      exact ⟨hfits.1, fun u hu => fitsSlot_of_not_isCell hdc (hfits.2 u hu)⟩
    | true =>
      exact (hconvert (hplain hgc)).bind fun u w' _ hu => delivers_newCell_fits hdc hu
  | true =>
    have hcell := (hv.2 hgc).1
    cases hdc : d.isCell with
    | false =>
      show Delivers w (if Γ.isCellValue v = true then _ else _) _
      rw [if_pos hcell]
      refine (delivers_contentOf hgc hv).bind fun u w' _ hu => ?_
      have hfits := hconvert hu
      exact ⟨hfits.1, fun u hu => fitsSlot_of_not_isCell hdc (hfits.2 u hu)⟩
    | true =>
      cases hid : s.plan.isIdentity with
      | false =>
        show Delivers w (if Γ.isCellValue v = true then _ else _) _
        rw [if_pos hcell]
        refine (delivers_contentOf hgc hv).bind fun u w' _ hu => ?_
        exact (hconvert hu).bind fun u w' _ hu => delivers_newCell_fits hdc hu
      | true =>
        show Delivers w (if Γ.isCellValue v = true then _ else _) _
        rw [if_pos hcell]
        have hverdict := s.plan.isIdentity_iff.1 hid
        have hsame := same_of_plans_identity hR hanswer.2 (congrArg Except.ok hverdict)
        obtain ⟨-, u, hu, hfits⟩ := hv.2 hgc
        rw [Ty.content, Ty.content, if_pos hgc, if_pos hdc] at hsame
        refine .pure ⟨?_, fun _ => ⟨hcell, u, hu, hfits.respelled hsame⟩⟩
        exact .ofClass (Ty.isUnion_of_isCell hdc) (origin_of_isCell hdc)
          (isInstance_of_fits_cell hv.1 hgc)

end Marshal

end CallAdapter
