import CallAdapter.Proofs.Adapter.Signature
import CallAdapter.Proofs.Conversion.Lockstep
import CallAdapter.Proofs.Heap
import CallAdapter.Proofs.Member.Equality

/-!
# Signatures on two planners side by side

A planner that was used before and one that keeps nothing find that the same shapes fit the same
members, at the same cost and with the same captured values (`planSignature_together`). Captured
values are converted to the first input of a member, so this asks that the first input is no union,
nor a cell of a union, where there is something to convert.
-/

namespace CallAdapter

open Program

/-- Both match, and what they give is related, or neither does. -/
inductive Matched {α β : Type} (rel : α → β → Prop) : Except Mismatch α → Except Mismatch β → Prop
  | fits {a : α} {b : β} : rel a b → Matched rel (.ok a) (.ok b)
  | differs {m m' : Mismatch} : Matched rel (.error m) (.error m')

/-- The two computations match alike on a planner that was used and on one that keeps nothing. -/
def MatchTogether {α β : Type} (Γ : Program) (x : MatchM α) (y : MatchM β) (rel : α → β → Prop) :
    Prop :=
  Together Γ x.run y.run (Agree (Matched rel))

namespace MatchTogether

variable {Γ : Program} {α β γ δ : Type} {mid : α → β → Prop} {rel : γ → δ → Prop}

theorem pure {a : α} {b : β} (h : mid a b) : MatchTogether Γ (Pure.pure a) (Pure.pure b) mid :=
  Together.pure (.ok (.fits h))

theorem throw {m m' : Mismatch} :
    MatchTogether Γ (throwThe Mismatch m : MatchM α) (throwThe Mismatch m' : MatchM β) mid :=
  Together.pure (.ok .differs)

theorem fail {e : Failure} :
    MatchTogether Γ (throwThe Failure e : MatchM α) (throwThe Failure e : MatchM β) mid :=
  Together.throw .error

theorem bind {x : MatchM α} {y : MatchM β} {f : α → MatchM γ} {g : β → MatchM δ}
    (hxy : MatchTogether Γ x y mid) (hfg : ∀ a b, mid a b → MatchTogether Γ (f a) (g b) rel) :
    MatchTogether Γ (x >>= f) (y >>= g) rel := by
  refine Together.bind hxy fun r r' hr => ?_
  cases hr with
  | fits h => exact hfg _ _ h
  | differs => exact Together.pure (.ok .differs)

theorem lift {x : PlanM α} {y : PlanM β} (h : Together Γ x y (Agree mid)) :
    MatchTogether Γ (liftM x) (liftM y) mid :=
  Together.bind h fun _ _ hab => Together.pure (.ok (.fits hab))

end MatchTogether

/-! ## Inputs and results -/

namespace Target

theorem Same.receiverType {t t' : Target} (h : t.Same t') :
    t.receiverType.same t'.receiverType = true :=
  h.declaring.getD _

/-- The declared types of the inputs are the same. -/
theorem Same.inputs {t t' : Target} (h : t.Same t') :
    List.Forall₂ (fun s d => s.same d = true) t.inputs t'.inputs := by
  unfold Target.inputs
  rw [h.takesReceiver_eq, h.kind]
  refine List.rel_append (List.rel_append ?_ ?_) ?_
  · split
    · exact .cons h.receiverType .nil
    · exact .nil
  · rw [List.forall₂_map_left_iff, List.forall₂_map_right_iff]
    exact h.params.imp fun _ _ hp => hp.type
  · split
    · exact .cons (h.assigned.getD _) .nil
    · exact .nil

/-- All declared types of the member can be keys. -/
def TypesHashable (t : Target) : Prop :=
  (∀ d ∈ t.inputs, d.hashable = true) ∧ t.result.hashable = true

end Target

/-- The types of two shapes are the same, in order. -/
structure Shape.Same (s s' : Shape) : Prop where
  params : List.Forall₂ (fun g g' => g.same g' = true) s.params s'.params
  returns : s.returns.same s'.returns = true

theorem Shape.same_iff {s s' : Shape} : s.same s' = true ↔ s.Same s' := by
  rw [Shape.same, Bool.and_eq_true, Ty.sameAll_iff]
  exact ⟨fun h => ⟨h.1, h.2⟩, fun h => ⟨h.params, h.returns⟩⟩

theorem Shape.same_refl (s : Shape) : s.same s = true :=
  Shape.same_iff.2 ⟨List.forall₂_same.2 fun _ _ => Ty.same_refl _, Ty.same_refl _⟩

theorem Shape.same_symm {s s' : Shape} (h : s.same s' = true) : s'.same s = true := by
  obtain ⟨hparams, hreturns⟩ := Shape.same_iff.1 h
  exact Shape.same_iff.2 ⟨(hparams.imp fun _ _ hp => Ty.same_symm hp).flip, Ty.same_symm hreturns⟩

theorem Shape.Same.arity_eq {s s' : Shape} (h : s.Same s') : s.arity = s'.arity :=
  h.params.length_eq

theorem Shape.hashable_congr {s s' : Shape} (h : s.Same s') : s.hashable = s'.hashable := by
  have hparams : Ty.allHashable s.params = Ty.allHashable s'.params := by
    have h := h.params
    generalize s.params = gs, s'.params = gs' at h ⊢
    induction h with
    | nil => rfl
    | cons hg _ ih => rw [Ty.allHashable, Ty.allHashable, Ty.hashable_congr hg, ih]
  rw [Shape.hashable, Shape.hashable, hparams, Ty.hashable_congr h.returns]

/-! ## Planning -/

/-- Signatures of one member, with the same captured value and plans that weigh the same. -/
structure SignaturePlan.Alike (p p' : SignaturePlan) : Prop where
  target : p.target.Same p'.target
  bound : p.bound = p'.bound
  plans : List.Forall₂ Plan.Alike p.plans p'.plans

/-- Captured values that are equal, with plans that weigh the same. -/
structure Capture.Alike (c c' : Capture) : Prop where
  plan : c.slot.plan.Alike c'.slot.plan
  value : c.value = c'.value
  nullReceiver : c.nullReceiver = c'.nullReceiver

/-- The value is none to convert, or it is converted on heaps that read alike and to no union. -/
def BindsAlike (h h' : Heap) (bound : Value) (declared : Ty) : Prop :=
  bound.isNone = true ∨ h.Alike h' ∧ declared.content.normalize.isUnion = false

section Planning

variable {Γ : Program} {h h' : Heap} {t t' : Target} {shape shape' : Shape} {bound : Value}

theorem isPossible_eq_of_kind_eq {p q : Plan} (h : p.kind = q.kind) :
    p.isPossible = q.isPossible := by
  unfold Plan.isPossible
  rw [h]

theorem planSlot_together (i : Nat) {g d g' d' : Ty} (hg : g.same g' = true)
    (hd : d.same d' = true) (hgkey : g.hashable = true) (hdkey : d.hashable = true) :
    MatchTogether Γ (Γ.planSlot i g d) (Γ.planSlot i g' d')
      fun s s' => s.plan.Alike s'.plan := by
  rw [planSlot_eq, planSlot_eq]
  refine .bind (.lift (plan_together (Ty.same_content hg) (Ty.same_content hd)
    (hashable_content hgkey) (hashable_content hdkey))) fun p q hpq => ?_
  rw [isPossible_eq_of_kind_eq hpq.kind]
  split
  · exact .pure hpq.alike
  · exact .throw

theorem planSlots_together (i : Nat) {gs gs' ds ds' : List Ty}
    (hgs : List.Forall₂ (fun g g' => g.same g' = true) gs gs')
    (hds : List.Forall₂ (fun d d' => d.same d' = true) ds ds')
    (hgskey : ∀ g ∈ gs, g.hashable = true) (hdskey : ∀ d ∈ ds, d.hashable = true) :
    MatchTogether Γ (Γ.planSlots i gs ds) (Γ.planSlots i gs' ds')
      fun slots slots' => List.Forall₂ (fun s s' => s.plan.Alike s'.plan) slots slots' := by
  induction hgs generalizing i ds ds' with
  | nil => exact .pure .nil
  | cons hg _ ih =>
    cases hds with
    | nil => exact .pure .nil
    | cons hd hds =>
      have hslot := planSlot_together (Γ := Γ) i hg hd (hgskey _ List.mem_cons_self)
        (hdskey _ List.mem_cons_self)
      refine .bind hslot fun s s' hs => ?_
      refine .bind (ih (i + 1) hds (fun g hg => hgskey g (List.mem_cons_of_mem _ hg))
        fun d hd => hdskey d (List.mem_cons_of_mem _ hd)) fun slots slots' hslots => ?_
      exact .pure (.cons hs hslots)

/-- Conversions with one effect give one value, both fail to cast, or fail in the same way. -/
theorem effect_eq_cases {r r' : Except Failure Value} (h : effect r = effect r') :
    (∃ v, r = .ok v ∧ r' = .ok v) ∨ ∃ e e', r = .error e ∧ r' = .error e' ∧
      (e.isCast = true ∧ e'.isCast = true ∨ e.isCast = false ∧ e = e') := by
  cases r with
  | ok v =>
    cases r' with
    | ok v' => exact .inl ⟨v, rfl, by rw [Except.ok.inj h]⟩
    | error e => cases h
  | error e =>
    cases r' with
    | ok v => cases h
    | error e' =>
      refine .inr ⟨e, e', rfl, rfl, ?_⟩
      have hoption : (if e.isCast = true then none else some e) =
          if e'.isCast = true then none else some e' := Except.error.inj h
      cases he : e.isCast <;> cases he' : e'.isCast <;> simp_all

theorem kind_of_isCast {e : Failure} (he : e.isCast = true) :
    ∃ f a b, e = .fault f ∧ f.kind = .cast a b := by
  cases e with
  | exception k m => cases he
  | fault f =>
    unfold Failure.isCast at he
    dsimp only at he
    cases hf : f.kind with
    | cast a b => exact ⟨f, a, b, rfl, hf⟩
    | _ =>
      rw [hf] at he
      cases he

/-- A bound value is converted alike. -/
theorem effect_applyPlan_of_bindsAlike {d d' : Ty} {p q : Plan}
    (hpq : PlansFor Γ (Γ.className bound).normalize d.content.normalize
      (Γ.className bound).normalize d'.normalize p q) (hd : d.content.same d' = true)
    (hbinds : BindsAlike h h' bound d) :
    effect (Γ.applyPlan h p bound) = effect (Γ.applyPlan h' q bound) := by
  rcases hbinds with hnone | ⟨hheap, hunion⟩
  · have hvoid : (Γ.className bound).normalize.isVoid = true := by
      cases bound with
      | none => rfl
      | _ => cases hnone
    obtain ⟨hp, hq⟩ := applyPlan_of_void hpq hvoid h h' bound
    rw [hp, hq]
  · have hn : ∀ t : Ty, NormalPair (Γ.className bound).normalize t.normalize := fun t =>
      ⟨Ty.normalize_normalize _, Ty.normalize_normalize t⟩
    rw [← applyPlan_congr hheap]
    exact effect_applyPlan_eq hpq (Ty.same_refl _) (Ty.same_normalize hd) rfl hunion (hn _) (hn _) h
      bound

/-- A value is captured alike. -/
theorem capture_together (ht : t.takesReceiver = t'.takesReceiver) {d d' : Ty}
    (hd : d.same d' = true) (hdkey : d.hashable = true) (hbinds : BindsAlike h h' bound d) :
    MatchTogether Γ (Γ.capture h t d bound) (Γ.capture h' t' d' bound) Capture.Alike := by
  have hplan : ∀ b b' : Builtin, Together Γ (Γ.plan (.builtin b) (.builtin b'))
      (Γ.plan (.builtin b) (.builtin b')) (Agree Plan.Alike) := fun b b' p q hp hq => by
    obtain ⟨hp', hq', hagree⟩ := plan_together (Γ := Γ) (Ty.same_refl (.builtin b))
      (Ty.same_refl (.builtin b')) rfl rfl p q hp hq
    refine ⟨hp', hq', ?_⟩
    generalize ((Γ.plan (.builtin b) (.builtin b')).run.run p).1 = r,
      ((Γ.plan (.builtin b) (.builtin b')).run.run q).1 = r' at hagree
    cases hagree with
    | ok hpq => exact .ok hpq.alike
    | error => exact .error
  unfold capture
  rw [← ht, ← Ty.isCell_congr hd]
  split
  · exact .bind (.lift (hplan .none .any)) fun p q hpq => .pure ⟨hpq, rfl, rfl⟩
  · have hcontent : d.content.same (if d.isCell then d'.cellElement else d') = true := by
      have hcontent := Ty.same_content hd
      rwa [Ty.content.eq_def d', ← Ty.isCell_congr hd] at hcontent
    refine .bind (.lift (plan_together (Ty.same_refl (Γ.className bound)) hcontent rfl
      (hashable_content hdkey))) fun p q hpq => ?_
    have heffect := effect_applyPlan_of_bindsAlike hpq hcontent hbinds
    dsimp only
    rw [isPossible_eq_of_kind_eq hpq.kind]
    split
    · -- both values are captured, or both are refused: in a cast, or with one failure
      rcases effect_eq_cases heffect with ⟨v, hv, hv'⟩ | ⟨e, e', he, he', hcast⟩
      · rw [hv, hv']
        exact .bind (.lift (hplan .any .any)) fun p q hpq => .pure ⟨hpq, rfl, rfl⟩
      · rw [he, he']
        rcases hcast with ⟨hcast, hcast'⟩ | ⟨hcast, rfl⟩
        · obtain ⟨f, a, b, rfl, hf⟩ := kind_of_isCast hcast
          obtain ⟨f', a', b', rfl, hf'⟩ := kind_of_isCast hcast'
          dsimp only
          rw [hf, hf']
          exact .throw
        · cases e with
          | exception k m => exact .fail
          | fault f =>
            dsimp only
            unfold Failure.isCast at hcast
            dsimp only at hcast
            cases hf : f.kind with
            | cast a b =>
              rw [hf] at hcast
              cases hcast
            | _ => exact .fail
    · exact .throw

theorem lineUp_together (ht : t.Same t') (hshape : shape.Same shape')
    (hshapekey : shape.hashable = true) (htkey : t.result.hashable = true)
    {remaining remaining' : List Ty}
    (hremaining : List.Forall₂ (fun d d' => d.same d' = true) remaining remaining')
    (hkeys : ∀ d ∈ remaining, d.hashable = true) {c c' : Option Capture}
    (hc : Option.Rel Capture.Alike c c') :
    MatchTogether Γ (Γ.lineUp shape t remaining c) (Γ.lineUp shape' t' remaining' c')
      SignaturePlan.Alike := by
  rw [Shape.hashable, Bool.and_eq_true, Ty.allHashable_iff] at hshapekey
  refine .bind (planSlots_together 0 hshape.params hremaining hshapekey.1 hkeys)
    fun slots slots' hslots => ?_
  refine .bind (.lift (planResult_together ht.result hshape.returns htkey hshapekey.2))
    fun r r' hr => ?_
  have hplans : List.Forall₂ Plan.Alike (slots.map (·.plan)) (slots'.map (·.plan)) := by
    rw [List.forall₂_map_left_iff, List.forall₂_map_right_iff]
    exact hslots
  rw [isPossible_eq_of_kind_eq hr.1]
  split
  · refine .pure ?_
    cases hc with
    | none => exact ⟨ht, rfl, List.rel_append hplans (.cons hr .nil)⟩
    | some hc => exact ⟨ht, hc.value, .cons hc.plan (List.rel_append hplans (.cons hr .nil))⟩
  · exact .throw

/-- Both planners line a shape and a member up alike. -/
theorem planSignature_together (ht : t.Same t') (hshape : shape.Same shape')
    (hshapekey : shape.hashable = true) (htkey : t.TypesHashable)
    (hbinds : bound.isUnbound = false → ∀ d ∈ t.inputs.head?, BindsAlike h h' bound d) :
    MatchTogether Γ (Γ.planSignature h shape t bound) (Γ.planSignature h' shape' t' bound)
      SignaturePlan.Alike := by
  have hinputs := ht.inputs
  have hkeys := htkey.1
  unfold planSignature
  rw [← hshape.arity_eq, ← hinputs.length_eq]
  split
  · split
    · exact lineUp_together ht hshape hshapekey htkey.2 hinputs hkeys .none
    · exact .throw
  · rename_i hbound
    have hbinds := hbinds (Bool.not_eq_true _ ▸ hbound)
    generalize t.inputs = ds, t'.inputs = ds' at hinputs hkeys hbinds
    cases hinputs with
    | nil => exact .throw
    | cons hd hrest =>
      dsimp only
      rw [hrest.length_eq]
      split
      · refine .bind (capture_together ht.takesReceiver_eq hd (hkeys _ List.mem_cons_self)
          (hbinds _ rfl)) fun c c' hc => ?_
        exact lineUp_together ht hshape hshapekey htkey.2 hrest
          (fun d hd => hkeys d (List.mem_cons_of_mem _ hd)) (.some hc)
      · exact .throw

end Planning

end CallAdapter
