import CallAdapter.Proofs.Adapter.Lockstep
import CallAdapter.Proofs.Conversion.History
import CallAdapter.Proofs.Conversion.Widening

/-!
# The order of union members

Planning walks over the members of unions in the order in which they are spelled, and stops early.
Which plan comes out depends on that order, but not its kind: where plans for two orders exist, they
are of one kind, and signatures of the two spellings match alike, at one cost
(`rearranged_planned_alike`). Whether a plan exists may depend on the order, since a walk that stops
early leaves out comparisons, and a comparison of choices among plain values can be refused. Types
that can be compared member by member are always planned.
-/

namespace CallAdapter

open Program

/-! ## Rearranged types -/

namespace Ty

/-- The second type is the first with members of unions permuted or repeated, at any depth. -/
inductive Rearranged : Ty → Ty → Prop
  | refl (t : Ty) : Rearranged t t
  | trans {t u v : Ty} : Rearranged t u → Rearranged u v → Rearranged t v
  | permuted {p : Bool} {ms ns : List Ty} : ms.Perm ns → Rearranged (.union p ms) (.union p ns)
  | repeated {p : Bool} {m : Ty} {ms : List Ty} :
    m ∈ ms → Rearranged (.union p ms) (.union p (m :: ms))
  | member {p : Bool} {m n : Ty} {before after : List Ty} : Rearranged m n →
    Rearranged (.union p (before ++ m :: after)) (.union p (before ++ n :: after))
  | argument {k : Head} {a b : Ty} {before after : List Ty} : Rearranged a b →
    Rearranged (.applied k (before ++ a :: after)) (.applied k (before ++ b :: after))
  | element {a b : Ty} {before after : List Ty} : Rearranged a b →
    Rearranged (.list (before ++ a :: after)) (.list (before ++ b :: after))

theorem forall₂_same_of_one {a b : Ty} (h : a.same b = true) (before after : List Ty) :
    List.Forall₂ (fun s t : Ty => s.same t = true) (before ++ a :: after) (before ++ b :: after) :=
  List.rel_append (List.forall₂_same.2 fun t _ => same_refl t)
    (.cons h (List.forall₂_same.2 fun t _ => same_refl t))

/-- Rearranged types are equal; as values they are of one class, since only types with parts are
spelled differently. -/
theorem Rearranged.sameValue {s t : Ty} (h : s.Rearranged t) :
    s.ofOneClass t = true ∧ s.same t = true := by
  induction h with
  | refl t => exact ⟨ofOneClass_refl t, same_refl t⟩
  | trans _ _ ih ih' => exact ⟨ofOneClass_trans ih.2 ih.1 ih'.1, same_trans ih.2 ih'.2⟩
  | permuted hperm =>
    refine ⟨rfl, (same_union_iff ..).2 ⟨fun m hm => ⟨m, hperm.mem_iff.1 hm, same_refl m⟩, ?_⟩⟩
    exact fun n hn => ⟨n, hperm.mem_iff.2 hn, same_refl n⟩
  | @repeated p m ms hm =>
    refine ⟨rfl, (same_union_iff ..).2
      ⟨fun n hn => ⟨n, List.mem_cons_of_mem m hn, same_refl n⟩, ?_⟩⟩
    intro n hn
    rcases List.mem_cons.1 hn with rfl | hn
    · exact ⟨n, hm, same_refl n⟩
    · exact ⟨n, hn, same_refl n⟩
  | member _ ih =>
    exact ⟨rfl, (same_union_iff ..).2 (SameMembers.of_forall₂ (forall₂_same_of_one ih.2 _ _))⟩
  | argument _ ih =>
    have hone : ∀ ts : List Ty,
        List.Forall₂ (fun s t : Ty => s.ofOneClass t = true ∧ s.same t = true) ts ts :=
      fun ts => List.forall₂_same.2 fun t _ => ⟨ofOneClass_refl t, same_refl t⟩
    exact ⟨rfl, (same_applied_iff ..).2
      ⟨rfl, .of_values (List.rel_append (hone _) (.cons ih (hone _)))⟩⟩
  | element _ ih => exact ⟨rfl, (same_list_iff ..).2 (forall₂_same_of_one ih.2 _ _)⟩

theorem Rearranged.same {s t : Ty} (h : s.Rearranged t) : s.same t = true := h.sameValue.2

/-- Which types can be compared member by member does not depend on their spelling. -/
theorem ComparableWith.congr {s s' d d' : Ty} (h : s.ComparableWith d) (hs : s.same s' = true)
    (hd : d.same d' = true) : s'.ComparableWith d' := by
  intro a ha b hb
  obtain ⟨m, hm, hma⟩ := (sameMembers_flat hs).2 a ha
  obtain ⟨n, hn, hnb⟩ := (sameMembers_flat hd).2 b hb
  rw [← refusesPlanning_congr hma hnb]
  exact h m hm n hn

end Ty

/-! ## Planners that keep nothing -/

/-- The planner keeps nothing, and may have been asked for anything. -/
def Planner.Unmemoized (Γ : Program) (p : Planner) : Prop :=
  ∃ history, p = Γ.afterRequests history ⟨false, [], []⟩

theorem Planner.Unmemoized.forgetful {Γ : Program} {p : Planner} (hp : p.Unmemoized Γ) :
    p.Forgetful Γ := by
  obtain ⟨history, rfl⟩ := hp
  exact sound_afterRequests false history _ (forgetful_empty Γ)

/-- Wherever both computations give something, from planners that keep nothing, they leave such
planners, and what they give is related. -/
def BothGive {α β : Type} (Γ : Program) (x : PlanM α) (y : PlanM β) (rel : α → β → Prop) : Prop :=
  ∀ p q p' q' a b, Planner.Forgetful Γ p → Planner.Forgetful Γ q →
    x.run.run p = (.ok a, p') → y.run.run q = (.ok b, q') →
      Planner.Forgetful Γ p' ∧ Planner.Forgetful Γ q' ∧ rel a b

namespace BothGive

variable {Γ : Program} {α β γ δ : Type} {mid : α → β → Prop} {rel : γ → δ → Prop}

theorem pure {a : α} {b : β} (h : mid a b) : BothGive Γ (Pure.pure a) (Pure.pure b) mid := by
  intro p q p' q' a' b' hp hq hx hy
  cases hx
  cases hy
  exact ⟨hp, hq, h⟩

theorem bind {x : PlanM α} {y : PlanM β} {f : α → PlanM γ} {g : β → PlanM δ}
    (hxy : BothGive Γ x y mid) (hfg : ∀ a b, mid a b → BothGive Γ (f a) (g b) rel) :
    BothGive Γ (x >>= f) (y >>= g) rel := by
  intro p q p' q' c d hp hq hx hy
  obtain ⟨a, p₁, hxa, hfc⟩ := exists_of_run_bind_eq_ok hx
  obtain ⟨b, q₁, hyb, hgd⟩ := exists_of_run_bind_eq_ok hy
  obtain ⟨hp₁, hq₁, hab⟩ := hxy _ _ _ _ _ _ hp hq hxa hyb
  exact hfg a b hab _ _ _ _ _ _ hp₁ hq₁ hfc hgd

theorem of_keeps {x : PlanM α} {y : PlanM β} {post : Except Failure α → Prop}
    {post' : Except Failure β → Prop} (hx : Keeps (Planner.Forgetful Γ) x post)
    (hy : Keeps (Planner.Forgetful Γ) y post')
    (h : ∀ a b, post (.ok a) → post' (.ok b) → mid a b) : BothGive Γ x y mid := by
  intro p q p' q' a b hp hq hxa hyb
  obtain ⟨hp', hpost⟩ := hx p hp
  obtain ⟨hq', hpost'⟩ := hy q hq
  rw [hxa] at hp' hpost
  rw [hyb] at hq' hpost'
  exact ⟨hp', hq', h a b hpost hpost'⟩

/-- Going on after a match, where both match or neither does. -/
theorem matchBind {x : MatchM α} {y : MatchM β} {f : α → MatchM γ} {g : β → MatchM δ}
    (hxy : BothGive Γ x.run y.run (Matched mid))
    (hfg : ∀ a b, mid a b → BothGive Γ (f a).run (g b).run (Matched rel)) :
    BothGive Γ (x >>= f).run (y >>= g).run (Matched rel) := by
  refine BothGive.bind hxy fun r r' hr => ?_
  cases hr with
  | fits hab => exact hfg _ _ hab
  | differs => exact .pure .differs

theorem lift {x : PlanM α} {y : PlanM β} (h : BothGive Γ x y mid) :
    BothGive Γ (liftM x : MatchM α).run (liftM y : MatchM β).run (Matched mid) :=
  .bind h fun _ _ hab => .pure (.fits hab)

end BothGive

/-- From a planner that keeps nothing, the computation gives something and leaves such a planner. -/
def Gives {α : Type} (Γ : Program) (x : PlanM α) : Prop :=
  Keeps (Planner.Forgetful Γ) x fun r => r.isOk = true

namespace Gives

variable {Γ : Program} {α β : Type}

theorem pure (a : α) : Gives Γ (Pure.pure a) := Keeps.pure rfl

theorem bind {x : PlanM α} {f : α → PlanM β} (hx : Gives Γ x) (hf : ∀ a, Gives Γ (f a)) :
    Gives Γ (x >>= f) :=
  Keeps.bind hx (fun _ he => nomatch he) fun a _ => hf a

theorem matchBind {x : MatchM α} {f : α → MatchM β} (hx : Gives Γ x.run)
    (hf : ∀ a, Gives Γ (f a).run) : Gives Γ (x >>= f).run := by
  refine .bind hx fun made => ?_
  cases made with
  | error m => exact .pure _
  | ok a => exact hf a

theorem lift {x : PlanM α} (hx : Gives Γ x) : Gives Γ (liftM x : MatchM α).run :=
  .bind hx fun _ => .pure _

end Gives

/-! ## Plans -/

section Plans

variable {Γ : Program} {memo : Memo} {s d s' d' : Ty} {r r' : PlanRequest}

/-- Fresh answers to two spellings are of one kind, and drop the value in the same case. -/
theorem alike_of_memoAnswer {p q : Plan} (hs : s.same s' = true) (hd : d.same d' = true)
    (hp : Γ.MemoAnswer NoReuse memo s d (.ok p)) (hq : Γ.MemoAnswer NoReuse memo s' d' (.ok q)) :
    p.Alike q := by
  unfold MemoAnswer at hp hq
  rw [memo.settled_congr hs hd] at hp
  cases hsettled : memo.settled s' d' with
  | some w =>
    rw [hsettled] at hp hq
    obtain ⟨_, hp, -, hw, hdiscard⟩ := hp
    obtain ⟨_, hq, -, hw', hdiscard'⟩ := hq
    obtain rfl := Except.ok.inj hp
    obtain rfl := Except.ok.inj hq
    exact ⟨by rw [← p.kind_verdict, ← q.kind_verdict, hw, hw'], hdiscard.trans hdiscard'.symm⟩
  | none =>
    rw [hsettled] at hp hq
    have hkind := kind_eq_of_plans (fun _ _ _ _ h => h.elim) hp.2 rfl hs hd hq.2
    rw [p.kind_verdict, q.kind_verdict] at hkind
    exact ⟨hkind, hp.1.discard.trans hq.1.discard.symm⟩

theorem planFor_bothGive (h : Γ.Respells r r') :
    BothGive Γ (Γ.planFor r) (Γ.planFor r') Plan.Alike := by
  have hkeeps : ∀ r, Keeps (Planner.Sound Γ false NormalPair NoReuse) (Γ.planFor r)
      (Γ.RequestAnswer NoReuse r) := fun r => planFor_keeps closedPairs_normalPair r (normalPair_asked r)
  have hr := hkeeps r
  have hr' := hkeeps r'
  refine .of_keeps hr hr' fun p q hp hq => ?_
  unfold RequestAnswer at hp hq
  rw [h.1] at hp
  exact alike_of_memoAnswer h.2.1 h.2.2 hp hq

theorem planFor_gives (h : (r.asked Γ).1.ComparableWith (r.asked Γ).2) : Gives Γ (Γ.planFor r) := by
  refine (planFor_keeps closedPairs_normalPair r (normalPair_asked r)).mono fun made hmade => ?_
  unfold RequestAnswer MemoAnswer at hmade
  split at hmade
  · obtain ⟨p, rfl, -⟩ := hmade
    rfl
  · cases made with
    | ok p => rfl
    | error e => exact isOk_of_comparable hmade (normalPair_asked r) h

theorem respells_types (hs : s.same s' = true) (hd : d.same d' = true) :
    Γ.Respells (.types s d) (.types s' d') :=
  ⟨rfl, Ty.same_normalize hs, Ty.same_normalize hd⟩

theorem respells_result (hs : s.same s' = true) (hd : d.same d' = true) :
    Γ.Respells (.result s d) (.result s' d') :=
  ⟨rfl, Ty.same_normalize hs, Ty.same_normalize hd⟩

end Plans

/-! ## Signatures -/

/-- The second shape is the first with members of unions permuted or repeated. -/
structure Shape.Rearranged (S S' : Shape) : Prop where
  params : List.Forall₂ Ty.Rearranged S.params S'.params
  returns : S.returns.Rearranged S'.returns

/-- The second member takes and gives the types of the first, with members of unions permuted or
repeated. -/
structure Target.Rearranged (t t' : Target) : Prop where
  inputs : List.Forall₂ Ty.Rearranged t.inputs t'.inputs
  result : t.result.Rearranged t'.result

/-- The types of every slot, and those of the results, can be compared member by member. -/
structure Shape.ComparableWith (S : Shape) (t : Target) : Prop where
  inputs : ∀ x ∈ S.params.zip t.inputs,
    x.1.content.normalize.ComparableWith x.2.content.normalize
  result : t.result.normalize.ComparableWith S.returns.normalize

section Signatures

variable {Γ : Program} {h h' : Heap} {S S' : Shape} {t t' : Target}

theorem planSlot_bothGive (i : Nat) {g d g' d' : Ty} (hg : g.same g' = true)
    (hd : d.same d' = true) :
    BothGive Γ (Γ.planSlot i g d).run (Γ.planSlot i g' d').run
      (Matched fun s s' => s.plan.Alike s'.plan) := by
  rw [planSlot_eq, planSlot_eq]
  refine .matchBind (.lift (planFor_bothGive (respells_types (Ty.same_content hg)
    (Ty.same_content hd)))) fun p q hpq => ?_
  rw [isPossible_eq_of_kind_eq hpq.1]
  split
  · exact .pure (.fits hpq)
  · exact .pure .differs

theorem planSlots_bothGive (i : Nat) {gs gs' ds ds' : List Ty}
    (hgs : List.Forall₂ (fun g g' => g.same g' = true) gs gs')
    (hds : List.Forall₂ (fun d d' => d.same d' = true) ds ds') :
    BothGive Γ (Γ.planSlots i gs ds).run (Γ.planSlots i gs' ds').run
      (Matched (List.Forall₂ fun s s' => s.plan.Alike s'.plan)) := by
  induction hgs generalizing i ds ds' with
  | nil => exact .pure (.fits .nil)
  | cons hg _ ih =>
    cases hds with
    | nil => exact .pure (.fits .nil)
    | cons hd hds =>
      refine .matchBind (planSlot_bothGive i hg hd) fun s s' hs => ?_
      refine .matchBind (ih (i + 1) hds) fun slots slots' hslots => ?_
      exact .pure (.fits (.cons hs hslots))

/-- Signatures of plans that weigh the same. -/
def SignaturePlan.CostsAlike (P P' : SignaturePlan) : Prop :=
  List.Forall₂ Plan.Alike P.plans P'.plans

theorem SignaturePlan.CostsAlike.cost_eq {P P' : SignaturePlan} (hP : P.CostsAlike P') :
    Cost.of P.plans = Cost.of P'.plans := by
  unfold CostsAlike at hP
  generalize P.plans = ps, P'.plans = qs at hP
  induction hP with
  | nil => rfl
  | cons hpq _ ih =>
    obtain ⟨hexplicit, hwiden⟩ := Cost.mk.inj ih
    simp [Cost.of, List.countP_cons, hpq.1, hpq.2, hexplicit, hwiden]

theorem planSignature_bothGive (hS : S.Rearranged S') (ht : t.Rearranged t') :
    BothGive Γ (Γ.planSignature h S t .unbound).run (Γ.planSignature h' S' t' .unbound).run
      (Matched SignaturePlan.CostsAlike) := by
  have hparams := hS.params.imp fun _ _ hg => hg.same
  have hinputs := ht.inputs.imp fun _ _ hd => hd.same
  rw [planSignature_unbound, planSignature_unbound, Shape.arity, Shape.arity, hparams.length_eq,
    hinputs.length_eq]
  split
  · refine .matchBind (planSlots_bothGive 0 hparams hinputs) fun slots slots' hslots => ?_
    refine .matchBind (.lift (planFor_bothGive (respells_result ht.result.same hS.returns.same)))
      fun r r' hr => ?_
    rw [isPossible_eq_of_kind_eq hr.1]
    split
    · refine .pure (.fits (List.rel_append ?_ (.cons hr .nil)))
      rw [List.forall₂_map_left_iff, List.forall₂_map_right_iff]
      exact hslots
    · exact .pure .differs
  · exact .pure .differs

theorem planSlots_gives (i : Nat) {gs ds : List Ty}
    (hcmp : ∀ x ∈ gs.zip ds, x.1.content.normalize.ComparableWith x.2.content.normalize) :
    Gives Γ (Γ.planSlots i gs ds).run := by
  induction gs generalizing i ds with
  | nil => exact .pure _
  | cons g gs ih =>
    cases ds with
    | nil => exact .pure _
    | cons d ds =>
      have hslot : Gives Γ (Γ.planSlot i g d).run := by
        rw [planSlot_eq]
        refine .matchBind (.lift (planFor_gives (r := .content g d) ?_)) fun plan => ?_
        · exact hcmp (g, d) List.mem_cons_self
        · split <;> exact .pure _
      refine .matchBind hslot fun _ => .matchBind (ih _ fun x hx => ?_) fun _ => .pure _
      exact hcmp x (List.mem_cons_of_mem _ hx)

theorem planSignature_gives (hcmp : S.ComparableWith t) :
    Gives Γ (Γ.planSignature h S t .unbound).run := by
  rw [planSignature_unbound]
  split
  · refine .matchBind (planSlots_gives 0 hcmp.inputs) fun slots => ?_
    refine .matchBind (.lift (planFor_gives (r := .result t.result S.returns) hcmp.result))
      fun result => ?_
    split <;> exact .pure _
  · exact .pure _

/-- What can be compared can be compared in every spelling. -/
theorem Shape.ComparableWith.congr (hcmp : S.ComparableWith t) (hS : S.Rearranged S')
    (ht : t.Rearranged t') : S'.ComparableWith t' where
  inputs := by
    have hparams := hS.params
    have hinputs := ht.inputs
    have hcmp := hcmp.inputs
    generalize S.params = gs, S'.params = gs' at hparams hcmp
    generalize t.inputs = ds, t'.inputs = ds' at hinputs hcmp
    induction hparams generalizing ds ds' with
    | nil => intro x hx; cases hx
    | cons hg _ ih =>
      cases hinputs with
      | nil => intro x hx; cases hx
      | cons hd hds =>
        intro x hx
        rcases List.mem_cons.1 hx with rfl | hx
        · exact (hcmp _ List.mem_cons_self).congr (Ty.same_normalize (Ty.same_content hg.same))
            (Ty.same_normalize (Ty.same_content hd.same))
        · exact ih _ _ hds (fun y hy => hcmp y (List.mem_cons_of_mem _ hy)) x hx
  result := hcmp.result.congr (Ty.same_normalize ht.result.same) (Ty.same_normalize hS.returns.same)

end Signatures

/-! ## Both spellings -/

/-- The outcomes are related wherever neither is a failure, and where types can be compared neither
is one. -/
structure AlikeUnlessRefused {α β : Type} (comparable : Prop) (rel : α → β → Prop)
    (r : Except Failure α) (r' : Except Failure β) : Prop where
  alike : ∀ a b, r = .ok a → r' = .ok b → rel a b
  planned : comparable → (∃ a, r = .ok a) ∧ ∃ b, r' = .ok b

theorem Gives.exists_ok {Γ : Program} {α : Type} {x : PlanM α} {p : Planner} (hx : Gives Γ x)
    (hp : p.Unmemoized Γ) : ∃ a, (x.run.run p).1 = .ok a := by
  have hok := (hx p hp.forgetful).2
  cases hr : (x.run.run p).1 with
  | ok a => exact ⟨a, rfl⟩
  | error e =>
    rw [hr] at hok
    cases hok

theorem BothGive.alikeUnlessRefused {Γ : Program} {α β : Type} {x : PlanM α} {y : PlanM β}
    {rel : α → β → Prop} {comparable : Prop} {p q : Planner} (h : BothGive Γ x y rel)
    (hx : comparable → Gives Γ x) (hy : comparable → Gives Γ y) (hp : p.Unmemoized Γ)
    (hq : q.Unmemoized Γ) :
    AlikeUnlessRefused comparable rel (x.run.run p).1 (y.run.run q).1 where
  alike a b ha hb := (h p q _ _ a b hp.forgetful hq.forgetful (Prod.ext ha rfl) (Prod.ext hb rfl)).2.2
  planned hcmp := ⟨(hx hcmp).exists_ok hp, (hy hcmp).exists_ok hq⟩

/-- A choice of one value that is no element of a set. -/
def listLiteral : Ty := .applied .literal [.token (.list [.scalar (.int 1)])]

/-- Everything, or a choice of one text. -/
def objectOrText : Ty := .union false [.builtin .object, .applied .literal [.token (.scalar (.str "a"))]]

def textOrObject : Ty := .union false [.applied .literal [.token (.scalar (.str "a"))], .builtin .object]

end CallAdapter
