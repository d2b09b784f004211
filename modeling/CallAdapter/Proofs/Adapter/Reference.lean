import CallAdapter.Proofs.Adapter.Unheld

/-!
# Cells on their way to the member

A cell that is handed to an adapter reaches the member as it is where every layer declares cells of
one content type on both sides (`Adapter.SharesCell`). Where some layer does not, the member gets a
plain value or a cell that was placed on the heap for this call: what it writes there shows in no
cell of the caller, and in no later call (`cell_shared_or_detached`).
-/

namespace CallAdapter

open Program

/-! ## Shared cells -/

/-- Both are types of cells, with one type of content. -/
structure Ty.SharesCell (g d : Ty) : Prop where
  given : g.isCell = true
  declared : d.isCell = true
  content : g.content.normalize.same d.content.normalize = true

/-- The input that an argument of a call becomes. A captured value takes the first one. -/
def SignaturePlan.inputOf (p : SignaturePlan) (i : Nat) : Nat :=
  if p.bound.isUnbound then i else i + 1

/-- On the way of an argument to the member, every layer has cells of one content type on both
sides. -/
def Adapter.SharesCell : Adapter → Nat → Prop
  | member p, i => ∃ g d, p.shape.params[i]? = some g ∧
      p.target.inputs[p.inputOf i]? = some d ∧ g.SharesCell d
  | overAdapter l _ inner, i => (∃ g d, l.shape.params[i]? = some g ∧
      inner.shape.params[i]? = some d ∧ g.SharesCell d) ∧ inner.SharesCell i
  | overCallable _ _, _ => False

/-- What is handed on for a type instead of a cell with a content: a value made of the content, or a
cell for one that was placed on the heap since it had a size. -/
inductive Detached (size : Nat) (content : Value) (h : Heap) (d : Ty) : Value → Prop
  | plain {v : Value} : d.isCell = false → IsYield content v → Detached size content h d v
  | cell {addr : Nat} {v : Value} : d.isCell = true → size ≤ addr →
    h.attr? addr "value" = some v → IsYield content v →
    Detached size content h d (.object (.builtin .cell) addr)

section Slots

variable {Γ : Program} {R : Reuse} {g d : Ty} {s : Slot} {size : Nat} {c u v x : Value}
  {h h' : Heap} {w w' : World}

theorem isYield_trans (hv : IsYield u v) (hx : IsYield v x) : IsYield u x := by
  rcases hx with rfl | hx
  · exact hv
  · exact .inr hx

theorem Detached.keeps (hv : Detached size u h d v) (hh : h.Keeps h') :
    Detached size u h' d v := by
  cases hv with
  | plain hd hyield => exact .plain hd hyield
  | cell hd haddr hattr hyield => exact .cell hd haddr (hh.attr? hattr) hyield

/-- Between spellings of one type there is nothing to do. -/
theorem identity_of_plans_same (hR : BetweenSpellings R) {s t : Ty} {r : Except Failure Verdict}
    (h : Γ.Plans R s t r) (hsame : s.same t = true) {verdict : Verdict} (hr : r = .ok verdict) :
    verdict = .identity := by
  have hdirect : ∀ {s t : Ty}, s.same t = true →
      Γ.direct? s t = some (.error .typeError) ∨ Γ.direct? s t = some (.ok .identity) := by
    intro s t hsame
    unfold direct?
    rw [hsame]
    split
    · exact .inl rfl
    · exact .inr rfl
  induction h with
  | direct h =>
    rcases hdirect hsame with h' | h'
    · cases (Option.some.inj (h.symm.trans h')).symm.trans hr
    · cases (Option.some.inj (h.symm.trans h')).symm.trans hr
      rfl
  | reused hreuse _ ih =>
    obtain ⟨-, hss, htt⟩ := hR _ _ _ _ hreuse
    exact ih (Ty.same_trans hss (Ty.same_trans hsame (Ty.same_symm htt))) hr
  | fromUnion hnone | fromUnionError hnone | intoUntouched hnone | intoFirst hnone
  | intoError hnone =>
    rcases hdirect hsame with h' | h' <;> cases hnone.symm.trans h'

/-- A slot between cells has nothing to do exactly where they are shared. -/
theorem isIdentity_iff_same (hR : BetweenSpellings R) (hs : s.Planned Γ R g d) :
    s.plan.isIdentity = true ↔ g.content.normalize.same d.content.normalize = true := by
  constructor
  · intro hid
    exact same_of_plans_identity hR hs.answer.2 (congrArg Except.ok (s.plan.isIdentity_iff.1 hid))
  · intro hsame
    exact s.plan.isIdentity_iff.2 (identity_of_plans_same hR hs.answer.2 hsame rfl)

/-- What a slot makes of a value comes from the value. -/
theorem isYield_of_converting (hR : BetweenSpellings R) (hs : s.Planned Γ R g d)
    (hrun : (Γ.converting s.plan v).run.run w = (.ok x, w')) : w' = w ∧ IsYield v x := by
  rw [run_converting] at hrun
  obtain ⟨hx, hw⟩ := Prod.mk.inj hrun
  rw [applyPlan_of_handsOn hs.answer.1] at hx
  exact ⟨hw.symm, isYield_of_runVerdict hR hs.answer.2
    ⟨Ty.normalize_normalize _, Ty.normalize_normalize _⟩ hx⟩

/-- What comes from the content is put into a new cell. -/
theorem detached_of_newCell (hd : d.isCell = true) (hsize : size ≤ w.heap.instances.size)
    (hv : IsYield u v) (hrun : (Eval.newCell v).run.run w = (.ok x, w')) :
    Detached size u w'.heap d x := by
  cases hrun
  exact .cell hd hsize (Heap.attr?_alloc w.heap v) hv

theorem run_contentOf (hcontent : Γ.cellContent? w.heap c = some u) :
    (Γ.contentOf c).run.run w = (.ok u, w) := by
  rw [contentOf, run_bind_of_ok (run_heap w), hcontent]
  rfl

/-- Instead of a cell with the content, a slot that does not share it hands on a detached value. -/
theorem detached_of_content (hR : BetweenSpellings R) (hs : s.Planned Γ R g d)
    (hg : g.isCell = true) (hid : d.isCell = true → s.plan.isIdentity = false)
    (hsize : size ≤ w.heap.instances.size) (hcontent : Γ.cellContent? w.heap c = some v)
    (hv : IsYield u v) (hrun : (Γ.marshal s c).run.run w = (.ok x, w')) :
    Detached size u w'.heap d x := by
  unfold marshal at hrun
  rw [hs.mode, hg] at hrun
  cases hd : d.isCell with
  | false =>
    rw [hd] at hrun
    change (if Γ.isCellValue c = true then _ else _ : Eval Value).run.run w = _ at hrun
    split at hrun
    · rw [run_bind_of_ok (run_contentOf hcontent)] at hrun
      obtain ⟨rfl, hx⟩ := isYield_of_converting hR hs hrun
      exact .plain hd (isYield_trans hv hx)
    · cases hrun
  | true =>
    rw [hd, hid hd] at hrun
    change (if Γ.isCellValue c = true then _ else _ : Eval Value).run.run w = _ at hrun
    split at hrun
    · rw [run_bind_of_ok (run_contentOf hcontent)] at hrun
      obtain ⟨r, w₁, hconvert, hnew⟩ := exists_of_run_bind_eq_ok hrun
      obtain ⟨rfl, hr⟩ := isYield_of_converting hR hs hconvert
      exact detached_of_newCell hd hsize (isYield_trans hv hr) hnew
    · cases hrun

/-- The caller's cell is handed on where it is shared, and a detached value elsewhere. -/
theorem marshal_cell (hR : BetweenSpellings R) (hs : s.Planned Γ R g d) (hg : g.isCell = true)
    (hsize : size ≤ w.heap.instances.size) (hcontent : Γ.cellContent? w.heap c = some u)
    (hrun : (Γ.marshal s c).run.run w = (.ok x, w')) :
    (g.SharesCell d ∧ x = c) ∨ (¬g.SharesCell d ∧ Detached size u w'.heap d x) := by
  have hiff := isIdentity_iff_same hR hs
  by_cases hshares : g.SharesCell d
  · refine .inl ⟨hshares, ?_⟩
    unfold marshal at hrun
    rw [hs.mode, hg, hshares.declared, hiff.2 hshares.content] at hrun
    change (if Γ.isCellValue c = true then pure c else _ : Eval Value).run.run w = _ at hrun
    split at hrun
    · exact (Except.ok.inj (congrArg Prod.fst hrun)).symm
    · cases hrun
  · refine .inr ⟨hshares, detached_of_content hR hs hg (fun hd => ?_) hsize hcontent (.inl rfl) hrun⟩
    rw [Bool.eq_false_iff]
    exact fun hid => hshares ⟨hg, hd, hiff.1 hid⟩

/-- A detached value stays detached. -/
theorem Detached.marshal (hR : BetweenSpellings R) (hs : s.Planned Γ R g d)
    (hsize : size ≤ w.heap.instances.size) (hv : Detached size u w.heap g v)
    (hrun : (Γ.marshal s v).run.run w = (.ok x, w')) : Detached size u w'.heap d x := by
  cases hv with
  | plain hg hyield =>
    unfold Program.marshal at hrun
    rw [hs.mode, hg] at hrun
    cases hd : d.isCell with
    | false =>
      rw [hd] at hrun
      obtain ⟨rfl, hx⟩ := isYield_of_converting hR hs hrun
      exact .plain hd (isYield_trans hyield hx)
    | true =>
      rw [hd] at hrun
      obtain ⟨r, w₁, hconvert, hnew⟩ := exists_of_run_bind_eq_ok hrun
      obtain ⟨rfl, hr⟩ := isYield_of_converting hR hs hconvert
      exact detached_of_newCell hd hsize (isYield_trans hyield hr) hnew
  | @cell addr v hg haddr hattr hyield =>
    have hcontent : Γ.cellContent? w.heap (.object (.builtin .cell) addr) = some v := by
      show (if Γ.derives (.builtin .cell) (.builtin .cell) = true then _ else none) = _
      rwa [if_pos (derives_self_builtin Γ .cell)]
    rcases marshal_cell hR hs hg hsize hcontent hrun with ⟨hshares, rfl⟩ | ⟨hshares, -⟩
    · have hkeeps := keepsHeap_marshal (Γ := Γ) s (.object (.builtin .cell) addr) w
      rw [hrun] at hkeeps
      exact .cell hshares.declared haddr (hkeeps.attr? hattr) hyield
    · refine detached_of_content hR hs hg (fun hd => ?_) hsize hcontent hyield hrun
      rw [Bool.eq_false_iff]
      exact fun hid => hshares ⟨hg, hd, (isIdentity_iff_same hR hs).1 hid⟩

end Slots

/-! ## Layers -/

section Layers

variable {Γ : Program} {R : Reuse} {p : SignaturePlan} {a : Adapter} {g : Ty} {i j size : Nat}
  {c u v : Value} {args values : List Value} {w w' : World}

/-- What is made of one argument, with what was placed on the heap before and after. -/
theorem exists_marshal_of_marshalAll {gs ds : List Ty} {slots : List Slot} {bound : Value}
    (hslots : SlotsPlanned Γ R i gs ds slots) (hg : gs[j]? = some g)
    (hrun : (Γ.marshalAll slots bound args).run.run w = (.ok values, w')) :
    ∃ d s x w₁ w₂, ds[j]? = some d ∧ values[j]? = some x ∧ s.Planned Γ R g d ∧
      (Γ.marshal s (args[i + j]?.getD .none)).run.run w₁ = (.ok x, w₂) ∧
      w.heap.Keeps w₁.heap ∧ w₂.heap.Keeps w'.heap := by
  induction hslots generalizing j w values w' with
  | nil => cases hg
  | @cons i g' d gs ds s slots hsource hs _ ih =>
    rw [marshalAll_argument hsource rfl] at hrun
    obtain ⟨x, w₁, hfirst, hrun⟩ := exists_of_run_bind_eq_ok hrun
    obtain ⟨xs, w₂, hrest, hrun⟩ := exists_of_run_bind_eq_ok hrun
    cases hrun
    cases j with
    | zero =>
      obtain rfl := Option.some.inj hg
      have hkeeps := keepsHeap_marshalAll (Γ := Γ) slots bound args w₁
      rw [hrest] at hkeeps
      exact ⟨d, s, x, w, w₁, rfl, rfl, hs, hfirst, .refl _, hkeeps⟩
    | succ j =>
      obtain ⟨d', s', x', w₃, w₄, hd, hx, hs', hmarshal, hbefore, hafter⟩ := ih hg hrest
      have hkeeps := keepsHeap_marshal (Γ := Γ) s (args[i]?.getD .none) w
      rw [hfirst] at hkeeps
      refine ⟨d', s', x', w₃, w₄, hd, hx, hs', ?_, hkeeps.trans hbefore, hafter⟩
      rwa [show i + (j + 1) = i + 1 + j by omega]

/-- An argument of a signature is made into its input. -/
theorem exists_marshal_of_signature (hR : BetweenSpellings R) {h : Heap} {shape : Shape}
    {t : Target} {bound : Value} (hp : p.Planned Γ R h shape t bound)
    (hg : p.shape.params[i]? = some g)
    (hrun : ((Adapter.member p).deliver Γ args).run.run w = (.ok values, w')) :
    ∃ d s x w₁ w₂, p.target.inputs[p.inputOf i]? = some d ∧ values[p.inputOf i]? = some x ∧
      s.Planned Γ R g d ∧ (Γ.marshal s (args[i]?.getD .none)).run.run w₁ = (.ok x, w₂) ∧
      w.heap.Keeps w₁.heap ∧ w₂.heap.Keeps w'.heap := by
  unfold Adapter.deliver at hrun
  split at hrun
  · split at hrun
    · cases hrun
    · cases hp with
      | free _ hslots =>
        obtain ⟨d, s, x, w₁, w₂, hd, hx, hs, hmarshal, hkeeps⟩ :=
          exists_marshal_of_marshalAll hslots hg hrun
        rw [Nat.zero_add] at hmarshal
        exact ⟨d, s, x, w₁, w₂, hd, hx, hs, hmarshal, hkeeps⟩
      | @captured declared remaining c slots result hbound hinputs hc hslots =>
        have hsource := hc.source_eq
        -- the captured value has the first input, and the arguments have the others
        have hindex : (⟨shape, t, c.slot :: slots, result, c.value, c.nullReceiver⟩ :
            SignaturePlan).inputOf i = i + 1 := by
          unfold SignaturePlan.inputOf
          rw [isUnbound_captured hR hc hbound, if_neg Bool.false_ne_true]
        change (Γ.marshalAll (c.slot :: slots) c.value args).run.run w = _ at hrun
        rw [marshalAll_bound hsource] at hrun
        obtain ⟨x₀, w₀, hfirst, hrun⟩ := exists_of_run_bind_eq_ok hrun
        obtain ⟨xs, w₁', hrest, hrun⟩ := exists_of_run_bind_eq_ok hrun
        cases hrun
        have hkeeps₀ := keepsHeap_marshal (Γ := Γ) c.slot c.value w
        rw [hfirst] at hkeeps₀
        obtain ⟨d, s, x, w₁, w₂, hd, hx, hs, hmarshal, hbefore, hafter⟩ :=
          exists_marshal_of_marshalAll hslots hg hrest
        rw [Nat.zero_add] at hmarshal
        refine ⟨d, s, x, w₁, w₂, ?_, ?_, hs, hmarshal, hkeeps₀.trans hbefore, hafter⟩
        · rw [hindex, hinputs, List.getElem?_cons_succ, hd]
        · rw [hindex, List.getElem?_cons_succ, hx]
  · cases hrun

/-- An argument of a layer is made into an input of the adapter inside, which delivers it. -/
theorem exists_marshal_of_layer {inner : Adapter} {l : Layer} {source : Value}
    (hslots : SlotsPlanned Γ R 0 l.shape.params inner.shape.params l.slots)
    (hg : l.shape.params[i]? = some g)
    (hrun : ((Adapter.overAdapter l source inner).deliver Γ args).run.run w = (.ok values, w')) :
    ∃ vs w₀ d s x w₁ w₂, inner.shape.params[i]? = some d ∧ vs[i]? = some x ∧
      s.Planned Γ R g d ∧ (Γ.marshal s (args[i]?.getD .none)).run.run w₁ = (.ok x, w₂) ∧
      w.heap.Keeps w₁.heap ∧ w₂.heap.Keeps w₀.heap ∧ w.heap.Keeps w₀.heap ∧
      (inner.deliver Γ vs).run.run w₀ = (.ok values, w') := by
  unfold Adapter.deliver at hrun
  split at hrun
  · obtain ⟨vs, w₀, hlayer, hrun⟩ := exists_of_run_bind_eq_ok hrun
    obtain ⟨d, s, x, w₁, w₂, hd, hx, hs, hmarshal, hbefore, hafter⟩ :=
      exists_marshal_of_marshalAll hslots hg hlayer
    rw [Nat.zero_add] at hmarshal
    have hkeeps := keepsHeap_marshalAll (Γ := Γ) l.slots .unbound args w
    rw [hlayer] at hkeeps
    exact ⟨vs, w₀, d, s, x, w₁, w₂, hd, hx, hs, hmarshal, hbefore, hafter, hkeeps, hrun⟩
  · cases hrun

/-- A detached argument reaches the member detached. -/
theorem detached_deliver (hR : BetweenSpellings R) (ha : a.Planned Γ R p)
    (hg : a.shape.params[i]? = some g) (harg : args[i]? = some v)
    (hsize : size ≤ w.heap.instances.size) (hv : Detached size u w.heap g v)
    (hrun : (a.deliver Γ args).run.run w = (.ok values, w')) :
    ∃ d x, values[p.inputOf i]? = some x ∧ Detached size u w'.heap d x := by
  induction ha generalizing args g v w with
  | member hp =>
    obtain ⟨d, s, x, w₁, w₂, -, hx, hs, hmarshal, hbefore, hafter⟩ :=
      exists_marshal_of_signature hR hp hg hrun
    rw [harg] at hmarshal
    exact ⟨d, x, hx, ((hv.keeps hbefore).marshal hR hs (Nat.le_trans hsize hbefore.size_le)
      hmarshal).keeps hafter⟩
  | @layer inner l source _ hslots ih =>
    obtain ⟨vs, w₀, d, s, x, w₁, w₂, hd, hx, hs, hmarshal, hbefore, hafter, hkeeps, hrun⟩ :=
      exists_marshal_of_layer hslots hg hrun
    rw [harg] at hmarshal
    exact ih hd hx (Nat.le_trans hsize hkeeps.size_le) (((hv.keeps hbefore).marshal hR hs
      (Nat.le_trans hsize hbefore.size_le) hmarshal).keeps hafter) hrun

/-- A cell reaches the member as it is where it is shared all the way, and detached elsewhere. -/
theorem deliver_cell (hR : BetweenSpellings R) (ha : a.Planned Γ R p)
    (hg : a.shape.params[i]? = some g) (hcell : g.isCell = true) (harg : args[i]? = some c)
    (hsize : size ≤ w.heap.instances.size) (hcontent : Γ.cellContent? w.heap c = some u)
    (hrun : (a.deliver Γ args).run.run w = (.ok values, w')) :
    ∃ x, values[p.inputOf i]? = some x ∧
      ((a.SharesCell i ∧ x = c) ∨ (¬a.SharesCell i ∧ ∃ d, Detached size u w'.heap d x)) := by
  induction ha generalizing args g w with
  | member hp =>
    obtain ⟨d, s, x, w₁, w₂, hd, hx, hs, hmarshal, hbefore, hafter⟩ :=
      exists_marshal_of_signature hR hp hg hrun
    rw [harg] at hmarshal
    have hcontent₁ := cellContent?_extends (fun _ _ _ => hbefore.attr?) hcontent
    refine ⟨x, hx, ?_⟩
    rcases marshal_cell hR hs hcell (Nat.le_trans hsize hbefore.size_le) hcontent₁ hmarshal with
      ⟨hshares, rfl⟩ | ⟨hshares, hdetached⟩
    · exact .inl ⟨⟨g, d, hg, hd, hshares⟩, rfl⟩
    · refine .inr ⟨?_, d, hdetached.keeps hafter⟩
      rintro ⟨g', d', hg', hd', hshares'⟩
      obtain rfl := Option.some.inj (hg.symm.trans hg')
      obtain rfl := Option.some.inj (hd.symm.trans hd')
      exact hshares hshares'
  | @layer inner l source hinner hslots ih =>
    obtain ⟨vs, w₀, d, s, x, w₁, w₂, hd, hx, hs, hmarshal, hbefore, hafter, hkeeps, hrun⟩ :=
      exists_marshal_of_layer hslots hg hrun
    rw [harg] at hmarshal
    have hsize₀ := Nat.le_trans hsize hkeeps.size_le
    have hcontent₁ := cellContent?_extends (fun _ _ _ => hbefore.attr?) hcontent
    rcases marshal_cell hR hs hcell (Nat.le_trans hsize hbefore.size_le) hcontent₁ hmarshal with
      ⟨hshares, rfl⟩ | ⟨hshares, hdetached⟩
    · have hcontent₀ := cellContent?_extends (fun _ _ _ => hkeeps.attr?) hcontent
      obtain ⟨y, hy, hinner⟩ := ih hd hshares.declared hx hsize₀ hcontent₀ hrun
      exact ⟨y, hy, hinner.imp (And.imp_left fun h => ⟨⟨g, d, hg, hd, hshares⟩, h⟩)
        (And.imp_left fun h h' => h h'.2)⟩
    · -- once it is detached, the layers inside keep it so
      obtain ⟨d', y, hy, hdetached⟩ :=
        detached_deliver hR hinner hd hx hsize₀ (hdetached.keeps hafter) hrun
      refine ⟨y, hy, .inr ⟨?_, d', hdetached⟩⟩
      rintro ⟨⟨g', d', hg', hd', hshares'⟩, -⟩
      obtain rfl := Option.some.inj (hg.symm.trans hg')
      obtain rfl := Option.some.inj (hd.symm.trans hd')
      exact hshares hshares'

end Layers

/-! ## Calls -/

/-- The member changes no object that was there, but the one that is its input at an index. -/
def Runtime.WritesOnly (Γ : Program) (rt : Runtime) (t : Target) (index : Nat) : Prop :=
  ∀ (values : List Value) (w : World), ∀ addr < w.heap.instances.size,
    (∀ v, values[index]? = some v → ¬v.At addr) →
      ((rt.invoke Γ t values).run.run w).2.heap.get? addr = w.heap.get? addr

section Calls

variable {Γ : Program} {p : SignaturePlan} {a : Adapter} {g : Ty} {i addr : Nat} {cls : Cls}
  {u : Value} {args values : List Value} {w w' : World}

theorem exists_eq_object_of_cellContent? {h : Heap} {c : Value}
    (hcontent : Γ.cellContent? h c = some u) :
    ∃ cls addr, c = .object cls addr ∧ Γ.derives cls (.builtin .cell) = true ∧
      addr < h.instances.size := by
  unfold cellContent? at hcontent
  split at hcontent
  · split at hcontent
    · exact ⟨_, _, rfl, ‹_›, Heap.lt_size_of_attr? hcontent⟩
    · cases hcontent
  · cases hcontent

/-- A detached value is no object that was there, unless it is the content itself. -/
theorem Detached.not_at {h : Heap} {d : Ty} {size : Nat} {v : Value}
    (hv : Detached size u h d v) (haddr : addr < size) (hu : ¬u.At addr) : ¬v.At addr := by
  cases hv with
  | plain _ hyield => exact not_at_of_isYield hu hyield
  | cell _ hsize _ _ =>
    rintro ⟨c, hc⟩
    cases hc
    omega

/-- A detached cell was not there before. -/
theorem Detached.size_le {h : Heap} {d : Ty} {size : Nat}
    (hv : Detached size u h d (.object cls addr)) (hu : Γ.isCellValue u = false)
    (hcell : Γ.derives cls (.builtin .cell) = true) : size ≤ addr := by
  cases hv with
  | plain _ hyield =>
    rcases hyield with rfl | ⟨x, hx⟩ | ⟨c, n, hn⟩
    · cases hcell.symm.trans hu
    · cases hx
    · cases hn
  | cell _ hsize _ _ => exact hsize

/-- What a call does with a cell at a place that is its argument at an index. -/
structure Adapter.HandsOnCell (Γ : Program) (p : SignaturePlan) (a : Adapter) (i : Nat) (cls : Cls)
    (addr : Nat) (args : List Value) (w : World) : Prop where
  /-- The member gets what is delivered. -/
  call : ∀ rt : Runtime, (a.call Γ rt args).run.run w = (do
    let values ← a.deliver Γ args
    a.conclude Γ (← rt.invoke Γ p.target values) : Eval Value).run.run w
  /-- It gets the cell itself exactly where every layer shares it. -/
  received : ∀ values w', (a.deliver Γ args).run.run w = (.ok values, w') →
    (values[p.inputOf i]? = some (.object cls addr) ↔ a.SharesCell i)
  /-- Elsewhere, a member that writes only through this input leaves the cell as it was. -/
  unchanged : ¬a.SharesCell i → ∀ rt : Runtime, rt.WritesOnly Γ p.target (p.inputOf i) →
    ((a.call Γ rt args).run.run w).2.heap.get? addr = w.heap.get? addr
  /-- A cell that it gets instead was placed on the heap by this call. -/
  fresh : ¬a.SharesCell i → ∀ values w' k place, (a.deliver Γ args).run.run w = (.ok values, w') →
    values[p.inputOf i]? = some (.object k place) → Γ.derives k (.builtin .cell) = true →
      w.heap.instances.size ≤ place
  /-- What is written to that cell shows in no other call, of any adapter and in any world where
  the cell is not among the arguments and the captured values, nor held by another cell. -/
  unobserved : ∀ values w' k place, (a.deliver Γ args).run.run w = (.ok values, w') →
    values[p.inputOf i]? = some (.object k place) →
    ∀ (a' : Adapter) (p' : SignaturePlan) (later : List Value) (w₁ w₂ : World), a'.Made Γ p' →
      ¬p'.bound.At place → (∀ v ∈ later, ¬v.At place) → w₁.heap.DifferAt place w₂.heap →
        SameOutcome ((a'.deliver Γ later).run.run w₁).1 ((a'.deliver Γ later).run.run w₂).1 ∧
          ((a'.deliver Γ later).run.run w₁).2.heap.DifferAt place
            ((a'.deliver Γ later).run.run w₂).2.heap

/-- Where a cell is not shared all the way, the caller's cell is not written. -/
theorem get?_call_of_not_shared (ha : a.Made Γ p) (hg : a.shape.params[i]? = some g)
    (hcell : g.isCell = true) (harg : args[i]? = some (.object cls addr))
    (hcontent : Γ.cellContent? w.heap (.object cls addr) = some u) (hplace : ¬u.At addr)
    (hshares : ¬a.SharesCell i) {rt : Runtime} (hrt : rt.WritesOnly Γ p.target (p.inputOf i)) :
    ((a.call Γ rt args).run.run w).2.heap.get? addr = w.heap.get? addr := by
  have hR := betweenSpellings_historyReuse
  obtain ⟨_, _, hobject, -, haddr⟩ := exists_eq_object_of_cellContent? hcontent
  cases hobject
  have hkeeps := keepsHeap_deliver (Γ := Γ) a args w
  rw [run_call_of_planned hR ha.planned]
  rcases hrun : (a.deliver Γ args).run.run w with ⟨e | values, w'⟩
  · rw [hrun] at hkeeps
    rw [run_bind_of_error hrun]
    exact hkeeps.get? addr haddr
  rw [hrun] at hkeeps
  obtain ⟨x, hx, ⟨hshared, -⟩ | ⟨-, d, hdetached⟩⟩ :=
    deliver_cell hR ha.planned hg hcell harg (Nat.le_refl _) hcontent hrun
  · exact absurd hshared hshares
  have hinput : ∀ v, values[p.inputOf i]? = some v → ¬v.At addr := by
    intro v hv
    obtain rfl := Option.some.inj (hx.symm.trans hv)
    exact hdetached.not_at haddr hplace
  have hinvoke := hrt values w' addr (Nat.lt_of_lt_of_le haddr hkeeps.size_le) hinput
  rw [run_bind_of_ok hrun, ← hkeeps.get? addr haddr, ← hinvoke]
  -- what the member gave is converted without a trace
  obtain ⟨e, w'', hmember, hbind⟩ | ⟨raw, w'', hmember, hbind⟩ :=
    run_bind_cases (rt.invoke Γ p.target values) (a.conclude Γ) w'
  · rw [hbind, hmember]
  · rw [hbind, hmember, world_conclude]

/-- A cell whose content is no cell reaches the member as it is exactly where all layers share it.
Elsewhere, what the member writes to its input shows neither in the caller's cell nor in later
calls. -/
theorem cell_shared_or_detached (ha : a.Made Γ p) (hg : a.shape.params[i]? = some g)
    (hcell : g.isCell = true) (harg : args[i]? = some (.object cls addr))
    (hcontent : Γ.cellContent? w.heap (.object cls addr) = some u)
    (hu : Γ.isCellValue u = false) (hplace : ¬u.At addr) :
    a.HandsOnCell Γ p i cls addr args w := by
  have hR := betweenSpellings_historyReuse
  obtain ⟨_, _, hobject, -, haddr⟩ := exists_eq_object_of_cellContent? hcontent
  cases hobject
  have hdelivered : ∀ {values w'}, (a.deliver Γ args).run.run w = (.ok values, w') →
      ∃ x, values[p.inputOf i]? = some x ∧ ((a.SharesCell i ∧ x = .object cls addr) ∨
        (¬a.SharesCell i ∧ ∃ d, Detached w.heap.instances.size u w'.heap d x)) :=
    fun hrun => deliver_cell hR ha.planned hg hcell harg (Nat.le_refl _) hcontent hrun
  refine ⟨fun rt => run_call_of_planned hR ha.planned rt args w, fun values w' hrun => ?_,
    fun hshares rt hrt => get?_call_of_not_shared ha hg hcell harg hcontent hplace hshares hrt,
    fun hshares values w' k place hrun hx hk => ?_, ?_⟩
  · obtain ⟨x, hx, ⟨hshares, rfl⟩ | ⟨hshares, d, hdetached⟩⟩ := hdelivered hrun
    · exact ⟨fun _ => hshares, fun _ => hx⟩
    · refine ⟨fun hsame => ?_, fun h => absurd h hshares⟩
      obtain rfl := Option.some.inj (hx.symm.trans hsame)
      exact absurd ⟨cls, rfl⟩ (hdetached.not_at haddr hplace)
  · obtain ⟨x, hx', ⟨hshared, -⟩ | ⟨-, d, hdetached⟩⟩ := hdelivered hrun
    · exact absurd hshared hshares
    · obtain rfl := Option.some.inj (hx'.symm.trans hx)
      exact hdetached.size_le hu hk
  · intro values w' k place _ _ a' p' later w₁ w₂ ha' hbound hlater hheaps
    obtain ⟨hout, -, hheaps'⟩ := oblivious_deliver hR ha'.planned hbound hlater w₁ w₂ hheaps
    exact ⟨hout, hheaps'⟩

end Calls

/-! ## A cell of a float for a cell of an integer -/

def cellOf (b : Builtin) : Ty := .applied (.native (.builtin .cell)) [.builtin b]

/-- A function of a cell of an integer. -/
def cellTarget : Target where
  kind := .procedure
  name := "f"
  declaring := none
  isStatic := true
  params := [⟨"p", cellOf .int, .positional⟩]
  result := .builtin .int
  impl := .callable (.code (.function 0))

def keptInt : Plan := .of (.builtin .int) (.builtin .int) .identity

/-- The function, for callers with a cell of an integer: they share it. -/
def cellSignature : SignaturePlan where
  shape := .make [cellOf .int] (.builtin .int)
  target := cellTarget
  slots := [⟨.argument 0, keptInt, .passThrough⟩]
  result := keptInt

/-- Callers with a cell of a float do not. -/
def floatLayer : Layer where
  shape := .make [cellOf .float] (.builtin .int)
  slots := [⟨.argument 0, truncating, .copyFromCell⟩]
  result := keptInt

theorem made_overCellSignature :
    (Adapter.overAdapter floatLayer .none (.member cellSignature)).Made .empty cellSignature := by
  have hcompiled : (Program.empty.adapterFor .empty (some (.make [cellOf .int] (.builtin .int)))
      (some cellTarget) .unbound).run.run (Program.empty.afterRequests [] ⟨false, [], []⟩) =
        (.ok (some (.member cellSignature)), ⟨false, [], []⟩) := by
    with_unfolding_all rfl
  have hwrapped : (Program.empty.planLayer (.make [cellOf .float] (.builtin .int))
      (Adapter.member cellSignature).shape).run.run
        (Program.empty.afterRequests [] ⟨false, [], []⟩) =
          (.ok (some floatLayer), ⟨false, [], []⟩) := by
    with_unfolding_all rfl
  exact .wrapped (.compiled hcompiled) hwrapped

/-- A heap with a cell that holds one and a half. -/
def floatCellWorld : World :=
  { World.empty with heap := ⟨#[⟨.plain, [("value", .scalar (.float (.finite false 3 (-1))))]⟩], []⟩ }

theorem cell_detached_floatCell :
    (Adapter.overAdapter floatLayer .none (.member cellSignature)).HandsOnCell .empty cellSignature 0
      (.builtin .cell) 0 [.object (.builtin .cell) 0] floatCellWorld := by
  have hcontent : Program.empty.cellContent? floatCellWorld.heap (.object (.builtin .cell) 0) =
      some (.scalar (.float (.finite false 3 (-1)))) := by
    cbv
  have hplace : ¬(Value.scalar (.float (.finite false 3 (-1)))).At 0 := by
    rintro ⟨c, hc⟩
    cases hc
  exact cell_shared_or_detached made_overCellSignature rfl rfl rfl hcontent (by cbv) hplace

end CallAdapter
