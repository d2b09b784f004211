import CallAdapter.Proofs.Adapter.Delivery
import CallAdapter.Proofs.Heap

/-!
# Cells that nobody holds

What a call hands to the member depends on the values that it is given and on what the cells among
them hold, and on nothing else on the heap. Where neither the arguments nor any cell hold an object,
the attributes of that object may be what they will: the member gets the same inputs
(`oblivious_deliver`).
-/

namespace CallAdapter

open Program

/-- The value is the object at a place. -/
def Value.At (place : Nat) (v : Value) : Prop := ∃ c, v = .object c place

/-- The heaps differ in the attributes of one object at most, and no other cell holds it. -/
structure Heap.DifferAt (place : Nat) (h h' : Heap) : Prop where
  present : place < h.instances.size
  size_eq : h.instances.size = h'.instances.size
  payloadAt : h.payloadAt = h'.payloadAt
  attr? : ∀ addr, addr ≠ place → h.attr? addr = h'.attr? addr
  unheld : ∀ addr u, addr ≠ place → h.attr? addr "value" = some u → ¬u.At place

/-- One result, or failures of one class. -/
inductive SameOutcome {α : Type} : Except Failure α → Except Failure α → Prop
  | ok (a : α) : SameOutcome (.ok a) (.ok a)
  | failed {e e' : Failure} : e.Alike e' → SameOutcome (.error e) (.error e')

theorem SameOutcome.refl {α : Type} (r : Except Failure α) : SameOutcome r r := by
  cases r with
  | ok a => exact .ok a
  | error e => exact .failed (.refl e)

/-! ## Conversions -/

section Conversions

variable {Γ : Program} {place : Nat} {h h' : Heap} {v u : Value}

theorem not_at_of_isYield (hv : ¬v.At place) (hu : IsYield v u) : ¬u.At place := by
  rintro ⟨c, rfl⟩
  rcases hu with rfl | ⟨x, hx⟩ | ⟨d, n, hn⟩
  · exact hv ⟨c, rfl⟩
  · cases hx
  · cases hn

theorem isInstanceOf_of_differAt (hh : h.DifferAt place h') (hv : ¬v.At place) (t : Ty) :
    Γ.isInstanceOf h v t = Γ.isInstanceOf h' v t := by
  have hattr : Γ.hasAttr h v = Γ.hasAttr h' v := by
    funext protocol name
    unfold hasAttr
    split
    · rename_i c addr
      rw [hh.attr? addr fun heq => hv ⟨c, heq ▸ rfl⟩]
    · rfl
    · rfl
  unfold isInstanceOf isInstance
  rw [hattr]

/-- An operation does the same on both heaps, up to the text of its failures. -/
theorem sameOutcome_runOperation (hh : h.DifferAt place h') (hv : ¬v.At place)
    {U U' : Ty → Value → Except Failure Value} (hU : ∀ d, SameOutcome (U d v) (U' d v))
    (op : Operation) : SameOutcome (Γ.runOperation h U op v) (Γ.runOperation h' U' op v) := by
  have hfault : ∀ dest (text text' : String),
      (Γ.castFailureWith v dest text).Alike (Γ.castFailureWith v dest text') :=
    fun dest text text' => .fault rfl
  have hshown : ∀ dest wrong, (Γ.castFailureShowing h v dest wrong).Alike
      (Γ.castFailureShowing h' v dest wrong) := by
    intro dest wrong
    unfold castFailureShowing
    rw [isWritable_congr hh.payloadAt]
    split
    · exact hfault _ _ _
    · exact .refl _
  -- no test or look-up sees the place; only a text that shows the value may
  induction op with
  | keep | constant | refuse | refuseNone => exact .refl _
  | unbox d => exact hU d
  | numeric rule d =>
    unfold runOperation
    rw [convertNumber_congr hh.payloadAt]
    split
    · exact .refl _
    · split
      · exact .failed (hshown _ _)
      · exact .refl _
  | lookup c =>
    unfold runOperation
    rw [enumMember?_congr hh.payloadAt]
    split
    · exact .refl _
    · exact .failed (hshown _ _)
    · exact .refl _
  | lookupNone d => exact .failed (hshown _ _)
  | cast d =>
    unfold runOperation
    rw [isInstanceOf_of_differAt hh hv]
    exact .refl _
  | test m hit miss hhit hmiss =>
    unfold runOperation
    rw [isInstanceOf_of_differAt hh hv]
    extract_lets belongs
    split
    · exact hhit
    · exact hmiss

theorem sameOutcome_applyPlan (hh : h.DifferAt place h') (hv : ¬v.At place) (p : Plan) :
    SameOutcome (Γ.applyPlan h p v) (Γ.applyPlan h' p v) := by
  have hunboxed : ∀ d, SameOutcome (Γ.unboxed h d v) (Γ.unboxed h' d v) := by
    intro d
    rw [unboxed_eq, unboxed_eq]
    split
    · exact .refl _
    · split
      · exact .refl _
      · exact .refl _
      · exact .refl _
      · exact .refl _
      · exact sameOutcome_runOperation hh hv (fun _ => .refl _) _
  unfold applyPlan
  split
  · exact .refl _
  · split
    · exact sameOutcome_runOperation hh hv hunboxed _
    · exact .refl _

end Conversions

/-! ## Computations -/

/-- Whatever the attributes of the object are, the computation has the same outcome, and what it
gives is good. -/
def Oblivious {α : Type} (place : Nat) (x : Eval α) (good : α → Prop) : Prop :=
  ∀ w w' : World, w.heap.DifferAt place w'.heap →
    SameOutcome (x.run.run w).1 (x.run.run w').1 ∧ (∀ a, (x.run.run w).1 = .ok a → good a) ∧
      (x.run.run w).2.heap.DifferAt place (x.run.run w').2.heap

namespace Oblivious

variable {α β : Type} {place : Nat} {good : α → Prop} {good' : β → Prop}

theorem pure {a : α} (h : good a) : Oblivious place (Pure.pure a) good :=
  fun _ _ hw => ⟨.ok a, fun _ ha => Except.ok.inj ha ▸ h, hw⟩

theorem throw {e : Failure} : Oblivious place (MonadExcept.throw e) good :=
  fun _ _ hw => ⟨.refl _, fun _ ha => (nomatch ha), hw⟩

theorem bind {x : Eval α} {f : α → Eval β} (hx : Oblivious place x good)
    (hf : ∀ a, good a → Oblivious place (f a) good') : Oblivious place (x >>= f) good' := by
  intro w w' hw
  obtain ⟨hout, hgood, hheap⟩ := hx w w' hw
  cases hrun : x.run.run w with
  | mk r w₁ =>
    cases hrun' : x.run.run w' with
    | mk r' w₁' =>
      rw [hrun, hrun'] at hout hheap
      rw [hrun] at hgood
      cases hout with
      | ok a =>
        rw [run_bind_of_ok hrun, run_bind_of_ok hrun']
        exact hf a (hgood a rfl) w₁ w₁' hheap
      | failed halike =>
        rw [run_bind_of_error hrun, run_bind_of_error hrun']
        exact ⟨.failed halike, fun _ ha => (nomatch ha), hheap⟩

end Oblivious

section Marshalling

variable {Γ : Program} {R : Reuse} {place : Nat} {g d : Ty} {s : Slot} {v : Value}
  {p : SignaturePlan} {a : Adapter} {args : List Value}

theorem oblivious_converting (hR : BetweenSpellings R) {t : Ty} {q : Plan}
    (hq : Γ.PlanAnswer R t.normalize d.normalize (.ok q)) (hv : ¬v.At place) :
    Oblivious place (Γ.converting q v) fun u => ¬u.At place := by
  intro w w' hw
  rw [run_converting, run_converting]
  refine ⟨sameOutcome_applyPlan hw hv q, fun u hu => ?_, hw⟩
  rw [applyPlan_of_handsOn hq.1] at hu
  exact not_at_of_isYield hv <| isYield_of_runVerdict hR hq.2
    ⟨Ty.normalize_normalize _, Ty.normalize_normalize _⟩ hu

theorem Heap.DifferAt.alloc {h h' : Heap} (hh : h.DifferAt place h') (hv : ¬v.At place) :
    (h.alloc ⟨.plain, [("value", v)]⟩).2.DifferAt place
      (h'.alloc ⟨.plain, [("value", v)]⟩).2 := by
  refine ⟨?_, ?_, ?_, fun addr hne => ?_, fun addr u hne hu => ?_⟩
  · exact Nat.lt_of_lt_of_le hh.present (Heap.keeps_alloc h _).size_le
  · show (h.instances.push _).size = (h'.instances.push _).size
    rw [Array.size_push, Array.size_push, hh.size_eq]
  · funext addr
    rw [payloadAt_alloc, payloadAt_alloc, hh.size_eq, hh.payloadAt]
  · funext name
    have hattr := congrFun (hh.attr? addr hne) name
    unfold Heap.attr? at hattr ⊢
    rw [attrsAt_alloc, attrsAt_alloc, hh.size_eq]
    split
    · rfl
    · exact hattr
  · unfold Heap.attr? at hu
    rw [attrsAt_alloc] at hu
    split at hu
    · cases hu
      exact hv
    · exact hh.unheld addr u hne hu

theorem oblivious_newCell (hv : ¬v.At place) :
    Oblivious place (Eval.newCell v) fun u => ¬u.At place := by
  intro w w' hw
  have hcell : (Eval.newCell v).run.run w = (.ok (.object (.builtin .cell) w.heap.instances.size),
    { w with heap := (w.heap.alloc ⟨.plain, [("value", v)]⟩).2 }) := rfl
  have hcell' : (Eval.newCell v).run.run w' =
    (.ok (.object (.builtin .cell) w'.heap.instances.size),
      { w' with heap := (w'.heap.alloc ⟨.plain, [("value", v)]⟩).2 }) := rfl
  rw [hcell, hcell', ← hw.size_eq]
  refine ⟨.refl _, fun u hu => ?_, hw.alloc hv⟩
  rintro ⟨c, rfl⟩
  cases hu
  exact absurd hw.present (Nat.lt_irrefl _)

theorem oblivious_contentOf (hv : ¬v.At place) :
    Oblivious place (Γ.contentOf v) fun u => ¬u.At place := by
  intro w w' hw
  have hcontent : Γ.cellContent? w.heap v = Γ.cellContent? w'.heap v ∧
      ∀ u, Γ.cellContent? w.heap v = some u → ¬u.At place := by
    unfold cellContent?
    split
    · rename_i c addr
      have hne : addr ≠ place := fun heq => hv ⟨c, heq ▸ rfl⟩
      split
      · rw [hw.attr? addr hne]
        exact ⟨rfl, fun u hu => hw.unheld addr u hne (by rwa [hw.attr? addr hne])⟩
      · exact ⟨rfl, fun _ hu => nomatch hu⟩
    · exact ⟨rfl, fun _ hu => nomatch hu⟩
  unfold contentOf
  rw [run_bind_of_ok (run_heap w), run_bind_of_ok (run_heap w'), ← hcontent.1]
  cases hu : Γ.cellContent? w.heap v with
  | none => exact Oblivious.throw w w' hw
  | some u =>
    have hpure : Oblivious place (pure u : Eval Value) fun u => ¬u.At place :=
      .pure (hcontent.2 u hu)
    exact hpure w w' hw

/-- A slot makes the same of a value that is not the object, and does not make the object of it. -/
theorem oblivious_marshal (hR : BetweenSpellings R) (hs : s.Planned Γ R g d) (hv : ¬v.At place) :
    Oblivious place (Γ.marshal s v) fun u => ¬u.At place := by
  have hconvert : ∀ {u : Value}, ¬u.At place →
      Oblivious place (Γ.converting s.plan u) fun u => ¬u.At place :=
    fun hu => oblivious_converting hR hs.answer hu
  unfold marshal
  split
  · exact hconvert hv
  · exact .bind (hconvert hv) fun _ hu => oblivious_newCell hu
  · split
    · exact .pure hv
    · exact .throw
  · split
    · exact .bind (oblivious_contentOf hv) fun _ hu => .bind (hconvert hu) fun _ hu =>
        oblivious_newCell hu
    · exact .throw
  · split
    · exact .bind (oblivious_contentOf hv) fun _ hu => hconvert hu
    · exact .throw

theorem oblivious_marshalAll (hR : BetweenSpellings R) {i : Nat} {gs ds : List Ty}
    {slots : List Slot} (hslots : SlotsPlanned Γ R i gs ds slots) {bound : Value}
    (hargs : ∀ v ∈ args, ¬v.At place) :
    Oblivious place (Γ.marshalAll slots bound args) fun us => ∀ u ∈ us, ¬u.At place := by
  induction hslots with
  | nil => exact .pure fun _ hu => absurd hu List.not_mem_nil
  | @cons i g d gs ds s slots hsource hs _ ih =>
    have harg : ¬(args[i]?.getD .none).At place := by
      cases hget : args[i]? with
      | none => exact fun ⟨_, h⟩ => by cases h
      | some v => exact hargs v (List.mem_of_getElem? hget)
    rw [marshalAll_argument hsource rfl]
    refine .bind (oblivious_marshal hR hs harg) fun u hu => .bind ih fun us hus => .pure ?_
    exact List.forall_mem_cons.2 ⟨hu, hus⟩

theorem oblivious_captured (hR : BetweenSpellings R) {h₀ : Heap} {t : Target} {bound : Value}
    {c : Capture} (hc : c.Planned Γ R h₀ t d bound) (hpresent : c.nullReceiver = false)
    (hv : ¬c.value.At place) : Oblivious place (Γ.marshal c.slot c.value) fun u => ¬u.At place := by
  cases hc with
  | missing => cases hpresent
  | @converted q q' v _ _ _ hq =>
    have hconvert : Oblivious place (Γ.converting q' v) fun u => ¬u.At place := by
      intro w w' hw
      rw [run_converting, run_converting, applyPlan_any hR hq, applyPlan_any hR hq]
      exact ⟨.refl _, fun u hu => Except.ok.inj hu ▸ hv, hw⟩
    cases hcell : d.isCell with
    | false => exact hconvert
    | true => exact hconvert.bind fun _ hu => oblivious_newCell hu

/-- What is handed to the member does not depend on an object that is neither among the arguments nor
captured, and that no cell holds. -/
theorem oblivious_deliver (hR : BetweenSpellings R) (ha : a.Planned Γ R p)
    (hbound : ¬p.bound.At place) (hargs : ∀ v ∈ args, ¬v.At place) :
    Oblivious place (a.deliver Γ args) fun us => ∀ u ∈ us, ¬u.At place := by
  induction ha generalizing args with
  | member hp =>
    unfold Adapter.deliver
    split
    · split
      · exact .throw
      · rename_i hnull
        rw [Bool.not_eq_true] at hnull
        cases hp with
        | free _ hslots => exact oblivious_marshalAll hR hslots hargs
        | @captured declared remaining c slots result _ _ hc hslots =>
          show Oblivious place (Γ.marshalAll (c.slot :: slots) c.value args) _
          rw [marshalAll_bound hc.source_eq]
          refine (oblivious_captured hR hc hnull hbound).bind fun u hu =>
            .bind (oblivious_marshalAll hR hslots hargs) fun us hus => .pure ?_
          exact List.forall_mem_cons.2 ⟨hu, hus⟩
    · exact .throw
  | layer _ hslots ih =>
    unfold Adapter.deliver
    split
    · exact .bind (oblivious_marshalAll hR hslots hargs) fun us hus => ih hus
    · exact .throw

end Marshalling

end CallAdapter
