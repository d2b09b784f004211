import CallAdapter.Member.Resolution
import CallAdapter.Proofs.Adapter.Steady
import Mathlib

/-!
# What a search selects

A search by name tries groups of candidates one after the other: procedures, properties, fields, and
within each of them the members of the class before those of instances. It ends at the first group
with a candidate that the shape fits, and takes the earliest of those that cost the least
(`resolve_selects`). Which candidates fit is read off the planner that the search leaves: plans are
steady, so it answers for each candidate as it did during the search.
-/

namespace CallAdapter

open Program

/-! ## The cheapest -/

/-- The two numbers in lexicographic order. -/
def Cost.key (c : Cost) : ℕ ×ₗ ℕ := toLex (c.explicit, c.widen)

theorem Cost.lt_iff (a b : Cost) : a.lt b = true ↔ a.key < b.key := by
  simp [lt, key, Prod.Lex.toLex_lt_toLex]

theorem cheapest?_eq_none {α : Type} {cost : α → Cost} {as : List α} :
    cheapest? cost as = none ↔ as = [] := by
  cases as with
  | nil => simp [cheapest?]
  | cons a as =>
    simp only [cheapest?, reduceCtorEq, iff_false]
    split
    · simp
    · split <;> simp

/-- The cheapest costs no more than any other, and less than all that stand before it. -/
theorem exists_of_cheapest? {α : Type} {cost : α → Cost} {as : List α} {a : α}
    (h : cheapest? cost as = some a) :
    ∃ before after, as = before ++ a :: after ∧ (∀ b ∈ before, (cost a).key < (cost b).key) ∧
      ∀ b ∈ after, (cost a).key ≤ (cost b).key := by
  induction as generalizing a with
  | nil => simp [cheapest?] at h
  | cons x xs ih =>
    unfold cheapest? at h
    cases hrest : cheapest? cost xs with
    | none =>
      simp only [hrest, Option.some.injEq] at h
      subst h
      exact ⟨[], xs, rfl, by simp, by simp [cheapest?_eq_none.1 hrest]⟩
    | some b =>
      obtain ⟨before, after, rfl, hbefore, hafter⟩ := ih hrest
      -- the cheapest of the rest has to be cheaper than the first, which wins where they are equal
      by_cases hlt : (cost b).lt (cost x) = true
      · simp only [hrest, hlt, if_true, Option.some.injEq] at h
        subst h
        refine ⟨x :: before, after, rfl, fun c hc => ?_, hafter⟩
        rcases List.mem_cons.1 hc with rfl | hc
        · exact (Cost.lt_iff _ _).1 hlt
        · exact hbefore c hc
      · simp only [hrest, hlt, Bool.false_eq_true, if_false, Option.some.injEq] at h
        subst h
        have hle : (cost x).key ≤ (cost b).key := by
          rwa [Cost.lt_iff, not_lt] at hlt
        refine ⟨[], before ++ b :: after, rfl, by simp, fun c hc => ?_⟩
        rcases List.mem_append.1 hc with hc | hc
        · exact hle.trans (hbefore c hc).le
        · rcases List.mem_cons.1 hc with rfl | hc
          · exact hle
          · exact hle.trans (hafter c hc)

/-! ## Groups of candidates -/

/-- What lining a shape up with a member comes to, for each captured value. -/
abbrev Lineups := Value → Target → Except Failure (Except Mismatch SignaturePlan)

/-- How a planner lines up. -/
def Planner.lineups (Γ : Program) (h : Heap) (shape : Shape) (q : Planner) : Lineups :=
  fun bound t => ((Γ.planSignature h shape t bound).run.run.run q).1

/-- Candidates that are searched together, with the value that is captured for them. -/
structure CandidateGroup where
  candidates : List Target
  bound : Value

namespace CandidateGroup

/-- The shape fits the candidate, which has no open type variables. -/
structure Fits (L : Lineups) (g : CandidateGroup) (t : Target) (plan : SignaturePlan) : Prop where
  mem : t ∈ g.candidates
  closed : t.isGeneric = false
  fits : L g.bound t = .ok (.ok plan)

/-- Planning a candidate is refused. -/
def Raises (L : Lineups) (g : CandidateGroup) (e : Failure) : Prop :=
  ∃ t ∈ g.candidates, t.isGeneric = false ∧ L g.bound t = .error e

/-- The resolution is the earliest of the candidates that fit at the least cost. -/
structure Selects (L : Lineups) (g : CandidateGroup) (r : Resolution) : Prop where
  fits : g.Fits L r.target r.plan
  bound : r.bound = g.bound
  minimal : ∀ t plan, g.Fits L t plan → (Cost.of r.plan.plans).key ≤ (Cost.of plan.plans).key
  earliest : ∃ before after, g.candidates = before ++ r.target :: after ∧
    ∀ t ∈ before, ∀ plan, g.Fits L t plan → (Cost.of r.plan.plans).key < (Cost.of plan.plans).key

/-- The resolution to a candidate, where it fits. -/
def resolution? (L : Lineups) (bound : Value) (t : Target) : Option Resolution :=
  if t.isGeneric then none
  else
    match L bound t with
    | .ok (.ok plan) => some ⟨t, plan, bound⟩
    | _ => none

/-- The cheapest of the candidates that fit. -/
def best (L : Lineups) (g : CandidateGroup) : Option Resolution :=
  cheapest? (fun r => Cost.of r.plan.plans) (g.candidates.filterMap (resolution? L g.bound))

variable {L : Lineups} {g : CandidateGroup}

theorem resolution?_eq_some {bound : Value} {t : Target} {r : Resolution} :
    resolution? L bound t = some r ↔
      t.isGeneric = false ∧ L bound t = .ok (.ok r.plan) ∧ r.target = t ∧ r.bound = bound := by
  unfold resolution?
  cases hgeneric : t.isGeneric with
  | true => simp
  | false =>
    simp only [Bool.false_eq_true, if_false, true_and]
    constructor
    · intro h
      split at h
      · rename_i plan hplan
        obtain rfl := Option.some.inj h
        exact ⟨hplan, rfl, rfl⟩
      · cases h
    · rintro ⟨hplan, rfl, rfl⟩
      rw [hplan]

theorem Fits.resolution? {t : Target} {plan : SignaturePlan} (h : g.Fits L t plan) :
    CandidateGroup.resolution? L g.bound t = some ⟨t, plan, g.bound⟩ :=
  resolution?_eq_some.2 ⟨h.closed, h.fits, rfl, rfl⟩

theorem best_eq_none : g.best L = none ↔ ∀ t plan, ¬g.Fits L t plan := by
  unfold best
  rw [cheapest?_eq_none, List.filterMap_eq_nil_iff]
  constructor
  · intro h t plan hfits
    have := h t hfits.mem
    rw [hfits.resolution?] at this
    cases this
  · intro h t ht
    rw [Option.eq_none_iff_forall_ne_some]
    intro r hr
    obtain ⟨hclosed, hplan, -, -⟩ := resolution?_eq_some.1 hr
    exact h t r.plan ⟨ht, hclosed, hplan⟩

theorem selects_of_best {r : Resolution} (h : g.best L = some r) : g.Selects L r := by
  obtain ⟨before, after, hsplit, hbefore, hafter⟩ := exists_of_cheapest? h
  obtain ⟨earlier, rest, hcandidates, hearlier, hrest⟩ := List.filterMap_eq_append_iff.1 hsplit
  obtain ⟨skipped, t, later, rfl, hskipped, ht, hlater⟩ := List.filterMap_eq_cons_iff.1 hrest
  obtain ⟨hclosed, hplan, rfl, hbound⟩ := resolution?_eq_some.1 ht
  -- candidates that fit are among the resolutions before or after the cheapest
  have hplace : ∀ {ts : List Target} {rs t plan}, ts.filterMap (resolution? L g.bound) = rs →
      t ∈ ts → g.Fits L t plan → (⟨t, plan, g.bound⟩ : Resolution) ∈ rs := by
    rintro ts rs t plan rfl ht hfits
    exact List.mem_filterMap.2 ⟨t, ht, hfits.resolution?⟩
  have hstands : ∀ t ∈ earlier ++ skipped, ∀ plan, g.Fits L t plan →
      (Cost.of r.plan.plans).key < (Cost.of plan.plans).key := by
    intro t ht plan hfits
    rcases List.mem_append.1 ht with ht | ht
    · exact hbefore _ (hplace hearlier ht hfits)
    · have hnone := hskipped t ht
      rw [hfits.resolution?] at hnone
      cases hnone
  have hcandidates : g.candidates = (earlier ++ skipped) ++ r.target :: later := by
    rw [hcandidates, List.append_assoc]
  refine ⟨⟨?_, hclosed, hplan⟩, hbound, fun t plan hfits => ?_, _, later, hcandidates, hstands⟩
  · simp [hcandidates]
  · have ht := hfits.mem
    rw [hcandidates, List.mem_append, List.mem_cons] at ht
    rcases ht with ht | rfl | ht
    · exact (hstands t ht plan hfits).le
    · have heq := hfits.fits.symm.trans hplan
      simp only [Except.ok.injEq] at heq
      rw [heq]
    · exact hafter _ (hplace hlater ht hfits)

end CandidateGroup

/-- What searching groups one after the other comes to. -/
inductive Searched (L : Lineups) : List CandidateGroup → Except Failure (Option Resolution) → Prop
  | nothing : Searched L [] (.ok none)
  | raises {g gs e} : g.Raises L e → Searched L (g :: gs) (.error e)
  | found {g gs r} : (∀ e, ¬g.Raises L e) → g.best L = some r → Searched L (g :: gs) (.ok (some r))
  | next {g gs out} : (∀ e, ¬g.Raises L e) → g.best L = none → Searched L gs out →
      Searched L (g :: gs) out

namespace Searched

variable {L : Lineups} {gs gs' : List CandidateGroup} {out : Except Failure (Option Resolution)}

theorem append_of_error {e : Failure} (h : Searched L gs (.error e)) :
    Searched L (gs ++ gs') (.error e) := by
  generalize hout : (Except.error e : Except Failure (Option Resolution)) = out at h
  induction h with
  | nothing => cases hout
  | raises hg => exact .raises hg
  | found => cases hout
  | next hg hbest _ ih => exact .next hg hbest (ih hout)

theorem append_of_found {r : Resolution} (h : Searched L gs (.ok (some r))) :
    Searched L (gs ++ gs') (.ok (some r)) := by
  generalize hout : (Except.ok (some r) : Except Failure (Option Resolution)) = out at h
  induction h with
  | nothing => cases hout
  | raises => cases hout
  | found hg hbest => exact .found hg hbest
  | next hg hbest _ ih => exact .next hg hbest (ih hout)

theorem append (h : Searched L gs (.ok none)) (h' : Searched L gs' out) :
    Searched L (gs ++ gs') out := by
  generalize hout : (Except.ok none : Except Failure (Option Resolution)) = o at h
  induction h with
  | nothing => exact h'
  | raises => cases hout
  | found => cases hout
  | next hg hbest _ ih => exact .next hg hbest (ih hout)

end Searched

/-! ## Searches -/

/-- What the search gives holds on every planner that remembers how the search ended. -/
def Ends {α : Type} (Γ : Program) (h : Heap) (shape : Shape) (x : SearchM α)
    (post : Lineups → SearchTrace → Except Failure (α × SearchTrace) → Prop) : Prop :=
  ∀ s p, ((x.run s).run.run p).2.Remembers p ∧
    ∀ q : Planner, q.Remembers ((x.run s).run.run p).2 →
      post (q.lineups Γ h shape) s ((x.run s).run.run p).1

namespace Ends

variable {Γ : Program} {h : Heap} {shape : Shape} {α β : Type}
  {post post' : Lineups → SearchTrace → Except Failure (α × SearchTrace) → Prop}
  {goal : Lineups → SearchTrace → Except Failure (β × SearchTrace) → Prop}

theorem mono {x : SearchM α} (hx : Ends Γ h shape x post)
    (hpost : ∀ L s r, post L s r → post' L s r) : Ends Γ h shape x post' :=
  fun s p => ⟨(hx s p).1, fun q hq => hpost _ _ _ ((hx s p).2 q hq)⟩

theorem pure {a : α} (ha : ∀ L s, post L s (.ok (a, s))) : Ends Γ h shape (Pure.pure a) post :=
  fun s p => ⟨.refl p, fun _ _ => ha _ s⟩

theorem bind {x : SearchM α} {f : α → SearchM β}
    {M : α → Lineups → SearchTrace → Except Failure (β × SearchTrace) → Prop}
    (hx : Ends Γ h shape x post) (hf : ∀ a, Ends Γ h shape (f a) (M a))
    (herror : ∀ L s e, post L s (.error e) → goal L s (.error e))
    (hok : ∀ L s a s' r, post L s (.ok (a, s')) → M a L s' r → goal L s r) :
    Ends Γ h shape (x >>= f) goal := by
  intro s p
  obtain ⟨hgrows, hpost⟩ := hx s p
  rw [StateT.run_bind]
  obtain ⟨e, p₁, hrun, hbind⟩ | ⟨a, p₁, hrun, hbind⟩ :=
    run_bind_cases (x.run s) (fun a => (f a.1).run a.2) p
  · rw [hrun] at hgrows hpost
    exact hbind ▸ ⟨hgrows, fun q hq => herror _ _ _ (hpost q hq)⟩
  · rw [hrun] at hgrows hpost
    obtain ⟨hgrows', hrest⟩ := hf a.1 a.2 p₁
    exact hbind ▸ ⟨hgrows'.trans hgrows, fun q hq =>
      hok _ _ _ _ _ (hpost q (hq.trans hgrows')) (hrest q hq)⟩

/-- Noting something only changes the trace. -/
theorem modify_bind {x : PUnit → SearchM β} {f : SearchTrace → SearchTrace}
    (hx : Ends Γ h shape (x ⟨⟩) fun L s r => ∀ s₀, s = f s₀ → goal L s₀ r) :
    Ends Γ h shape (modify f >>= x) goal := by
  intro s p
  obtain ⟨hgrows, hpost⟩ := hx (f s) p
  exact ⟨hgrows, fun q hq => hpost q hq s rfl⟩

/-- A planner that remembers the end of a search lines a candidate up as the search did. -/
theorem planSignature (t : Target) (bound : Value) :
    Ends Γ h shape (liftM (Γ.planSignature h shape t bound).run : SearchM _)
      fun L s r => r = (L bound t).map (·, s) := by
  intro s p
  obtain ⟨hgrows, hagain⟩ := steady_planSignature (Γ := Γ) (h := h) shape t bound p
  have hrun : ((liftM (Γ.planSignature h shape t bound).run : SearchM _).run s).run.run p =
      (((Γ.planSignature h shape t bound).run.run.run p).1.map (·, s),
        ((Γ.planSignature h shape t bound).run.run.run p).2) := by
    rcases hplan : (Γ.planSignature h shape t bound).run.run.run p with ⟨e | a, p₁⟩
    · exact run_bind_of_error hplan
    · exact run_bind_of_ok hplan
  rw [hrun]
  exact ⟨hgrows, fun q hq => congrArg (Except.map (·, s)) (hagain q hq).symm⟩

end Ends

/-- The search tries the groups in their order. Where it finds nothing, the trace says whether it came
across members that lack the accessor. -/
def Searches (Γ : Program) (h : Heap) (shape : Shape) (x : SearchM (Option Resolution))
    (gs : List CandidateGroup) (lacking : Bool) : Prop :=
  Ends Γ h shape x fun L s r => Searched L gs (r.map Prod.fst) ∧
    ∀ s', r = .ok (none, s') → s'.accessorMissing = (s.accessorMissing || lacking)

section Searching

variable {Γ : Program} {h : Heap} {shape : Shape} {bound : Value} {ts : List Target}
  {gs gs' : List CandidateGroup} {lacking lacking' : Bool}

theorem CandidateGroup.raises_cons {L : Lineups} {t : Target} {e : Failure} :
    (⟨t :: ts, bound⟩ : CandidateGroup).Raises L e ↔
      t.isGeneric = false ∧ L bound t = .error e ∨ (⟨ts, bound⟩ : CandidateGroup).Raises L e := by
  simp [Raises]

/-- Planning a list of candidates gives those that fit, unless one of them is refused. -/
def Viable (L : Lineups) (bound : Value) (ts : List Target) (s : SearchTrace) :
    Except Failure (List Resolution × SearchTrace) → Prop
  | .error e => (⟨ts, bound⟩ : CandidateGroup).Raises L e
  | .ok (rs, s') => (∀ e, ¬(⟨ts, bound⟩ : CandidateGroup).Raises L e) ∧
      rs = ts.filterMap (CandidateGroup.resolution? L bound) ∧
      s'.accessorMissing = s.accessorMissing

/-- A candidate that is passed over changes nothing but the trace. -/
theorem Viable.skip {L : Lineups} {t : Target} {s s' : SearchTrace}
    {r : Except Failure (List Resolution × SearchTrace)}
    (ht : t.isGeneric = true ∨ ∃ m, L bound t = .ok (.error m))
    (hs : s'.accessorMissing = s.accessorMissing) (h : Viable L bound ts s' r) :
    Viable L bound (t :: ts) s r := by
  have hnone : CandidateGroup.resolution? L bound t = none := by
    unfold CandidateGroup.resolution?
    rcases ht with hgeneric | ⟨m, hm⟩
    · simp [hgeneric]
    · simp [hm]
  have hraises : ∀ e, ¬(t.isGeneric = false ∧ L bound t = .error e) := by
    rintro e ⟨hgeneric, he⟩
    rcases ht with hopen | ⟨m, hm⟩
    · simp [hgeneric] at hopen
    · simp [hm] at he
  cases r with
  | error e => exact CandidateGroup.raises_cons.2 (.inr h)
  | ok a =>
    obtain ⟨hcalm, hrs, hmissing⟩ := h
    refine ⟨fun e he => ?_, ?_, hmissing.trans hs⟩
    · exact (CandidateGroup.raises_cons.1 he).elim (hraises e) (hcalm e)
    · rw [List.filterMap_cons_none hnone, hrs]

theorem viable_ends (bound : Value) (ts : List Target) :
    Ends Γ h shape (Γ.viable h shape bound ts) (Viable · bound ts) := by
  induction ts with
  | nil => exact .pure fun L s => ⟨fun e he => by simp [CandidateGroup.Raises] at he, rfl, rfl⟩
  | cons t ts ih =>
    unfold viable
    by_cases hgeneric : t.isGeneric = true
    · rw [if_pos hgeneric]
      refine .modify_bind (ih.mono fun L s r hr s₀ hs => ?_)
      exact hr.skip (.inl hgeneric) (by rw [hs])
    have hclosed : t.isGeneric = false := by simpa using hgeneric
    rw [if_neg hgeneric]
    -- a candidate that does not fit leaves the answer to the rest; one that fits comes first
    refine .bind (M := fun a L s r => L bound t = .ok a → Viable L bound (t :: ts) s r)
      (.planSignature t bound) (fun a => ?_) (fun L s e he => ?_) fun L s a s' r ha hr => ?_
    · cases a with
      | error m =>
        refine .modify_bind (ih.mono fun L s r hr s₀ hs hm => ?_)
        exact hr.skip (.inr ⟨m, hm⟩) (by rw [hs])
      | ok plan =>
        refine .bind ih (M := fun rest L s r => r = .ok (⟨t, plan, bound⟩ :: rest, s))
          (fun rest => .pure fun _ _ => rfl) (fun L s e he _ => CandidateGroup.raises_cons.2 (.inr he))
          fun L s rest s' r hrest hr hplan => ?_
        obtain ⟨hcalm, hrs, hmissing⟩ := hrest
        subst hr
        refine ⟨fun e he => ?_, ?_, hmissing⟩
        · rcases CandidateGroup.raises_cons.1 he with ⟨-, he⟩ | he
          · cases he.symm.trans hplan
          · exact hcalm e he
        · have hfits : CandidateGroup.resolution? L bound t = some ⟨t, plan, bound⟩ :=
            CandidateGroup.resolution?_eq_some.2 ⟨hclosed, hplan, rfl, rfl⟩
          rw [List.filterMap_cons_some hfits, hrs]
    · refine CandidateGroup.raises_cons.2 (.inl ⟨hclosed, ?_⟩)
      cases hplan : L bound t with
      | error e' =>
        rw [hplan] at he
        cases he
        rfl
      | ok a =>
        rw [hplan] at he
        cases he
    · cases hplan : L bound t with
      | error e =>
        rw [hplan] at ha
        cases ha
      | ok a' =>
        rw [hplan] at ha
        cases ha
        exact hr hplan

/-- The best of one group. -/
theorem pick_searches (bound : Value) (ts : List Target) :
    Searches Γ h shape (Γ.pick h shape bound ts) [⟨ts, bound⟩] false := by
  refine .bind (viable_ends bound ts)
    (M := fun rs L s r => r = .ok (cheapest? (fun r => Cost.of r.plan.plans) rs, s))
    (fun rs => .pure fun _ _ => rfl) (fun L s e he => ⟨.raises he, nofun⟩) ?_
  rintro L s rs s' r ⟨hcalm, hrs, hmissing⟩ rfl
  have hbest : cheapest? (fun r => Cost.of r.plan.plans) rs =
      CandidateGroup.best L ⟨ts, bound⟩ := by rw [hrs]; rfl
  refine ⟨?_, fun s'' hr => ?_⟩
  · show Searched L _ (.ok (cheapest? _ rs))
    cases hfound : CandidateGroup.best L ⟨ts, bound⟩ with
    | some r =>
      rw [hbest, hfound]
      exact .found hcalm hfound
    | none =>
      rw [hbest, hfound]
      exact .next hcalm hfound .nothing
  · obtain rfl : s' = s'' := (Prod.mk.inj (Except.ok.inj hr)).2
    rw [hmissing, Bool.or_false]

theorem Searches.nothing : Searches Γ h shape (pure none) [] false :=
  .pure fun L s => ⟨.nothing, fun s' hr => by cases hr; simp⟩

/-- A search that goes on from what was found: it keeps it, or searches the groups. -/
def GoesOn (gs : List CandidateGroup) (lacking : Bool) (found : Option Resolution) (L : Lineups)
    (s : SearchTrace) (r : Except Failure (Option Resolution × SearchTrace)) : Prop :=
  match found with
  | some _ => r = .ok (found, s)
  | none => Searched L gs (r.map Prod.fst) ∧
    ∀ s', r = .ok (none, s') → s'.accessorMissing = (s.accessorMissing || lacking)

/-- A search that goes on where another found nothing. -/
theorem Searches.bind {x : SearchM (Option Resolution)}
    {f : Option Resolution → SearchM (Option Resolution)} (hx : Searches Γ h shape x gs lacking)
    (hfound : ∀ r, f (some r) = pure (some r)) (hnone : Searches Γ h shape (f none) gs' lacking') :
    Searches Γ h shape (x >>= f) (gs ++ gs') (lacking || lacking') := by
  refine Ends.bind hx (M := GoesOn gs' lacking') (fun found => ?_)
    (fun L s e he => ⟨he.1.append_of_error, fun _ hr => by cases hr⟩) ?_
  · cases found with
    | some r =>
      rw [hfound]
      exact .pure fun _ _ => rfl
    | none => exact hnone
  · rintro L s found s' r ⟨hsearched, hlacking⟩ hr
    cases found with
    | some found =>
      obtain rfl := hr
      exact ⟨hsearched.append_of_found, fun _ hr' => by cases hr'⟩
    | none =>
      refine ⟨hsearched.append hr.1, fun s'' hr' => ?_⟩
      rw [hr.2 s'' hr', hlacking s' rfl, Bool.or_assoc]

/-- A category that the mask leaves out has no groups. -/
theorem Searches.category {x : SearchM (Option Resolution)} (searched : Bool)
    (hx : Searches Γ h shape x gs lacking) :
    Searches Γ h shape (orElseCategory none searched x) (if searched then gs else [])
      (searched && lacking) := by
  cases searched with
  | true => exact hx
  | false => exact .nothing

/-- Members that lack the accessor are noted. -/
theorem Searches.accessors (found : List (Option Target))
    {f : List Target → SearchM (Option Resolution)}
    (hf : Searches Γ h shape (f (found.filterMap id)) gs false) :
    Searches Γ h shape (Program.accessors found >>= f) gs (found.any Option.isNone) := by
  unfold Program.accessors
  cases hmissing : found.any Option.isNone with
  | false => exact hf
  | true =>
    show Ends Γ h shape (modify (fun s => { s with accessorMissing := true }) >>= fun _ =>
      f (found.filterMap id)) _
    refine .modify_bind (hf.mono fun L s r hr s₀ hs => ⟨hr.1, fun s' hr' => ?_⟩)
    rw [hr.2 s' hr', hs]
    simp

end Searching

/-! ## Groups of a name -/

/-- The groups of a category: what is captured is for members of instances, the absent value asks
for members of the class without capturing anything, and without a value these come first. -/
def scopedGroups (bound : Value) (ts : List Target) : List CandidateGroup :=
  let statics := ts.filter (·.isStatic)
  let instances := ts.filter fun t => !t.isStatic
  if bound.isNone then [⟨statics, .unbound⟩]
  else if bound.isUnbound then [⟨statics, .unbound⟩, ⟨instances, .unbound⟩]
  else [⟨instances, bound⟩]

/-- Whether a category is searched: the options name it, or name no category. -/
def SearchMask.asksFor (options : Option SearchMask) (f : SearchFlag) : Bool :=
  let m := options.getD empty
  m.has f || !m.meets categories

/-- What a source lists for a name. -/
structure Candidates where
  procedures : List Target
  properties : List PropertyInfo
  fields : List FieldInfo

namespace Candidates

/-- The groups of all categories that are searched, in their order. -/
def groups (l : Candidates) (options : Option SearchMask) (setter : Bool) (bound : Value) :
    List CandidateGroup :=
  (if SearchMask.asksFor options .invokeMethod then scopedGroups bound l.procedures else []) ++
    ((if SearchMask.asksFor options (if setter then .setProperty else .getProperty) then
        scopedGroups bound (l.properties.filterMap (·.accessor setter)) else []) ++
      if SearchMask.asksFor options (if setter then .setField else .getField) then
        scopedGroups bound (l.fields.filterMap (·.accessor setter)) else [])

/-- A property or a field that is searched lacks the accessor. -/
def LacksAccessor (l : Candidates) (options : Option SearchMask) (setter : Bool) : Prop :=
  SearchMask.asksFor options (if setter then .setProperty else .getProperty) = true ∧
      (∃ p ∈ l.properties, p.accessor setter = none) ∨
    SearchMask.asksFor options (if setter then .setField else .getField) = true ∧
      ∃ f ∈ l.fields, f.accessor setter = none

end Candidates

/-- The source answers queries for the name with these members; what it lists as procedures are no
constructors. -/
structure MemberSource.Lists (S : MemberSource) (c : Ty) (name : String) (binding : SearchMask)
    (l : Candidates) : Prop where
  procedures : S.procedures c name binding = .ok l.procedures
  properties : S.properties c name binding = .ok l.properties
  fields : S.fields c name binding = .ok l.fields
  kind : ∀ t ∈ l.procedures, t.kind ≠ .constructor

theorem SearchMask.has_split (options : Option SearchMask) {f : SearchFlag}
    (hf : categories.has f = true) : (split options).1.has f = asksFor options f := by
  unfold split asksFor meets
  generalize options.getD empty = m
  have hand : (m &&& categories).has f = m.has f := by
    simp only [has, BitVec.getLsbD_and] at hf ⊢
    rw [hf, Bool.and_true]
  by_cases hnone : m &&& categories = 0
  · simp [hnone, hf]
  · have hmeets : (m &&& categories != 0) = true := bne_iff_ne.2 hnone
    dsimp only
    rw [if_neg hnone, hand, hmeets, Bool.not_true, Bool.or_false]

section ByName

variable {Γ : Program} {h : Heap} {shape : Shape} {bound : Value} {S : MemberSource} {c : Ty}
  {name : String} {l : Candidates}

/-- Without parameters no shape fits a member with a receiver. -/
theorem lineups_of_arity {t : Target} (hinstance : t.isStatic = false)
    (hkind : t.kind ≠ .constructor) (harity : shape.arity = 0) (q : Planner) :
    ∃ m, q.lineups Γ h shape .unbound t = .ok (.error m) := by
  have hne : shape.arity ≠ t.inputs.length := by
    have hreceiver : t.takesReceiver = true := by simp [Target.takesReceiver, hinstance, hkind]
    rw [harity, Target.length_inputs, Target.slotCount, hreceiver, if_pos rfl]
    omega
  refine ⟨.argumentCount t t.inputs.length shape.arity, ?_⟩
  unfold Planner.lineups planSignature
  rw [if_pos (by rfl), if_neg hne]
  rfl

theorem pickScoped_searches (needsReceiver : Bool) {ts : List Target}
    (hkind : needsReceiver = true → ∀ t ∈ ts, t.kind ≠ .constructor) :
    Searches Γ h shape (Γ.pickScoped h shape bound needsReceiver ts) (scopedGroups bound ts)
      false := by
  unfold pickScoped scopedGroups
  by_cases hnone : bound.isNone = true
  · simp only [hnone, if_true]
    exact pick_searches .unbound _
  by_cases hunbound : bound.isUnbound = true
  · simp only [hnone, hunbound, if_true, Bool.not_true, Bool.false_eq_true, if_false]
    refine Searches.bind (pick_searches .unbound _) (fun r => rfl) ?_
    dsimp only
    by_cases hskipped : (needsReceiver && shape.arity == 0) = true
    · rw [if_pos hskipped]
      obtain ⟨hneeds, harity⟩ := Bool.and_eq_true_iff.1 hskipped
      -- the members of instances that are passed over would not have fitted
      have hmisfits : ∀ (q : Planner), ∀ t ∈ ts.filter fun t => !t.isStatic,
          ∃ m, q.lineups Γ h shape .unbound t = .ok (.error m) := by
        intro q t ht
        obtain ⟨ht, hinstance⟩ := List.mem_filter.1 ht
        exact lineups_of_arity (by simpa using hinstance) (hkind hneeds t ht) (by simpa using harity)
          q
      refine fun s p => ⟨.refl p, fun q _ => ⟨.next (fun e he => ?_) ?_ .nothing, fun s' hr => ?_⟩⟩
      · obtain ⟨t, ht, -, hraises⟩ := he
        obtain ⟨m, hm⟩ := hmisfits q t ht
        cases hm.symm.trans hraises
      · refine CandidateGroup.best_eq_none.2 fun t plan hfits => ?_
        obtain ⟨m, hm⟩ := hmisfits q t hfits.mem
        cases hm.symm.trans hfits.fits
      · cases hr
        simp
    · rw [if_neg hskipped]
      exact pick_searches .unbound _
  · simp only [hnone, hunbound, if_false, Bool.not_false, Bool.false_eq_true, if_true]
    exact pick_searches bound _

/-- The groups of a property or a field. -/
theorem accessors_searches {α : Type} (infos : List α) (accessor : α → Option Target) :
    Searches Γ h shape
      (accessors (infos.map accessor) >>= fun ts => Γ.pickScoped h shape bound false ts)
      (scopedGroups bound (infos.filterMap accessor)) (infos.any fun i => (accessor i).isNone) := by
  have hpick : Searches Γ h shape
      (Γ.pickScoped h shape bound false ((infos.map accessor).filterMap id)) _ false :=
    pickScoped_searches false nofun
  have hsearches := Searches.accessors (infos.map accessor) hpick
  rwa [List.filterMap_map, List.any_map] at hsearches

/-- A search goes through the candidates that the source lists, as far as the mask asks for them. -/
theorem searchMembers_of_lists {options : Option SearchMask}
    (hl : S.Lists c name (SearchMask.split options).2 l) :
    Γ.searchMembers h S c name shape (SearchMask.split options).1 (SearchMask.split options).2
        bound =
      (do
        let setter := shape.returnsVoid
        let found ← orElseCategory none (SearchMask.asksFor options .invokeMethod) do
          Γ.pickScoped h shape bound true l.procedures
        let found ← orElseCategory found
          (SearchMask.asksFor options (if setter then .setProperty else .getProperty)) do
            Γ.pickScoped h shape bound false
              (← accessors (l.properties.map (·.accessor setter)))
        orElseCategory found
          (SearchMask.asksFor options (if setter then .setField else .getField)) do
            Γ.pickScoped h shape bound false
              (← accessors (l.fields.map (·.accessor setter)))) := by
  have hmethod := SearchMask.has_split options (f := .invokeMethod) (by decide)
  have hproperty := SearchMask.has_split options
    (f := if shape.returnsVoid then .setProperty else .getProperty) (by split <;> decide)
  have hfield := SearchMask.has_split options
    (f := if shape.returnsVoid then .setField else .getField) (by split <;> decide)
  unfold searchMembers
  dsimp only
  rw [hmethod, hproperty, hfield, hl.procedures, hl.properties, hl.fields]
  rfl

/-- Categories follow each other. -/
theorem searchMembers_searches {options : Option SearchMask}
    (hl : S.Lists c name (SearchMask.split options).2 l) :
    ∃ lacking, (lacking = true ↔ l.LacksAccessor options shape.returnsVoid) ∧
      Searches Γ h shape
        (Γ.searchMembers h S c name shape (SearchMask.split options).1 (SearchMask.split options).2
          bound)
        (l.groups options shape.returnsVoid bound) lacking := by
  rw [searchMembers_of_lists hl]
  refine ⟨_, ?_, .bind (.category _ (pickScoped_searches true fun _ => hl.kind)) (fun r => rfl)
    (.bind (.category _ (accessors_searches l.properties _)) (fun r => rfl)
      (.category _ (accessors_searches l.fields _)))⟩
  simp [Candidates.LacksAccessor]

/-! ## Resolution -/

/-- The search comes to the group: no group before it has a candidate that fits. -/
def ReachesGroup (L : Lineups) (gs : List CandidateGroup) (g : CandidateGroup) : Prop :=
  ∃ before after, gs = before ++ g :: after ∧ ∀ g' ∈ before, ∀ t plan, ¬g'.Fits L t plan

/-- How a search through groups of candidates ends. -/
structure SelectsFrom (L : Lineups) (gs : List CandidateGroup) (lacksAccessor : Prop)
    (out : Except Failure (Except NotFound Resolution)) : Prop where
  /-- It fails when planning a candidate that it comes to is refused. -/
  raises : (∃ e, out = .error e) ↔ ∃ g e, ReachesGroup L gs g ∧ g.Raises L e
  /-- Else it finds a member when some candidate fits. -/
  finds : (∀ e, out ≠ .error e) →
    ((∃ r, out = .ok (.ok r)) ↔ ∃ g ∈ gs, ∃ t plan, g.Fits L t plan)
  /-- The member is from the first group with a candidate that fits. -/
  selects : ∀ r, out = .ok (.ok r) → ∃ g, ReachesGroup L gs g ∧ g.Selects L r
  reason : ∀ m, out = .ok (.error m) → (m.reason = .noSuchAccessor ↔ lacksAccessor)

theorem reachesGroup_cons {L : Lineups} {g g' : CandidateGroup} {gs : List CandidateGroup} :
    ReachesGroup L (g :: gs) g' ↔
      g' = g ∨ (∀ t plan, ¬g.Fits L t plan) ∧ ReachesGroup L gs g' := by
  constructor
  · rintro ⟨before, after, hsplit, hbefore⟩
    cases before with
    | nil => exact .inl (List.cons.inj hsplit).1.symm
    | cons b before =>
      obtain ⟨rfl, rfl⟩ := List.cons.inj hsplit
      exact .inr ⟨hbefore _ List.mem_cons_self,
        before, after, rfl, fun g hg => hbefore g (List.mem_cons_of_mem _ hg)⟩
  · rintro (rfl | ⟨hmisfit, before, after, rfl, hbefore⟩)
    · exact ⟨[], gs, rfl, by simp⟩
    · refine ⟨g :: before, after, rfl, fun g'' hg'' => ?_⟩
      rcases List.mem_cons.1 hg'' with rfl | hg''
      · exact hmisfit
      · exact hbefore g'' hg''

namespace Searched

variable {L : Lineups} {gs : List CandidateGroup} {out : Except Failure (Option Resolution)}

theorem raises_iff (hsearched : Searched L gs out) :
    (∃ e, out = .error e) ↔ ∃ g e, ReachesGroup L gs g ∧ g.Raises L e := by
  induction hsearched with
  | nothing => simp [ReachesGroup]
  | @raises g gs e he => exact iff_of_true ⟨e, rfl⟩ ⟨g, e, reachesGroup_cons.2 (.inl rfl), he⟩
  | @found g gs r hcalm hbest =>
    refine iff_of_false (by simp) ?_
    rintro ⟨g', e, hreaches, he⟩
    rcases reachesGroup_cons.1 hreaches with rfl | ⟨hmisfit, -⟩
    · exact hcalm e he
    · cases (CandidateGroup.best_eq_none.2 hmisfit).symm.trans hbest
  | @next g gs out hcalm hbest _ ih =>
    have hmisfit := CandidateGroup.best_eq_none.1 hbest
    rw [ih]
    constructor
    · rintro ⟨g', e, hreaches, he⟩
      exact ⟨g', e, reachesGroup_cons.2 (.inr ⟨hmisfit, hreaches⟩), he⟩
    · rintro ⟨g', e, hreaches, he⟩
      rcases reachesGroup_cons.1 hreaches with rfl | ⟨-, hreaches⟩
      · exact absurd he (hcalm e)
      · exact ⟨g', e, hreaches, he⟩

theorem selects {r : Resolution} (hsearched : Searched L gs (.ok (some r))) :
    ∃ g, ReachesGroup L gs g ∧ g.Selects L r := by
  generalize hout : (Except.ok (some r) : Except Failure (Option Resolution)) = out at hsearched
  induction hsearched with
  | nothing => cases hout
  | raises => cases hout
  | @found g gs r' _ hbest =>
    obtain rfl : r = r' := Option.some.inj (Except.ok.inj hout)
    exact ⟨g, reachesGroup_cons.2 (.inl rfl), CandidateGroup.selects_of_best hbest⟩
  | next _ hbest _ ih =>
    obtain ⟨g', hreaches, hselects⟩ := ih hout
    have hmisfit := CandidateGroup.best_eq_none.1 hbest
    exact ⟨g', reachesGroup_cons.2 (.inr ⟨hmisfit, hreaches⟩), hselects⟩

/-- Where nothing was found, no candidate fits. -/
theorem not_fits (hsearched : Searched L gs (.ok none)) :
    ∀ g ∈ gs, ∀ t plan, ¬g.Fits L t plan := by
  generalize hout : (Except.ok none : Except Failure (Option Resolution)) = out at hsearched
  induction hsearched with
  | nothing => simp
  | raises => cases hout
  | found => cases hout
  | next _ hbest _ ih =>
    intro g' hg'
    rcases List.mem_cons.1 hg' with rfl | hg'
    · exact CandidateGroup.best_eq_none.1 hbest
    · exact ih hout g' hg'

end Searched

theorem ReachesGroup.mem {L : Lineups} {gs : List CandidateGroup} {g : CandidateGroup}
    (h : ReachesGroup L gs g) : g ∈ gs := by
  obtain ⟨before, after, rfl, -⟩ := h
  simp

/-- The answer that a search leads to. -/
def answerOf (name container : String) (found : Option Resolution) (trace : SearchTrace) :
    Except NotFound Resolution :=
  match found with
  | some r => .ok r
  | none => .error ⟨trace.reason, name, container, trace.detail⟩

/-- A search leaves the planner as it is when the answer is given. -/
theorem run_answered {x : PlanM (Option Resolution × SearchTrace)}
    {answer : Option Resolution × SearchTrace → PlanM (Except NotFound Resolution)}
    {name container : String}
    (hanswer : ∀ found trace, answer (found, trace) = pure (answerOf name container found trace))
    (p : Planner) : (x >>= answer).run.run p =
      ((x.run.run p).1.map fun f => answerOf name container f.1 f.2, (x.run.run p).2) := by
  obtain ⟨e, q, hrun, hbind⟩ | ⟨⟨found, trace⟩, q, hrun, hbind⟩ := run_bind_cases x answer p
  · rw [hbind, hrun]
    rfl
  · rw [hbind, hrun, hanswer]
    rfl

/-- Only a missing accessor is reported as one. -/
theorem SearchTrace.reason_eq_noSuchAccessor (s : SearchTrace) :
    s.reason = .noSuchAccessor ↔ s.accessorMissing = true := by
  unfold reason
  cases s.accessorMissing with
  | true => simp
  | false =>
    simp only [Bool.false_eq_true, if_false, iff_false]
    split <;> simp

theorem Searched.selectsFrom {L : Lineups} {gs : List CandidateGroup} {lacksAccessor : Prop}
    {name container : String} {found : Except Failure (Option Resolution × SearchTrace)}
    (hsearched : Searched L gs (found.map Prod.fst))
    (hlacking : ∀ s, found = .ok (none, s) → (s.accessorMissing = true ↔ lacksAccessor)) :
    SelectsFrom L gs lacksAccessor (found.map fun f => answerOf name container f.1 f.2) := by
  have hraises := hsearched.raises_iff
  cases found with
  | error e =>
    show SelectsFrom L gs lacksAccessor (.error e)
    exact ⟨iff_of_true ⟨e, rfl⟩ (hraises.1 ⟨e, rfl⟩), by simp, by simp, by simp⟩
  | ok f =>
    obtain ⟨found, trace⟩ := f
    have hcalm : ¬∃ g e, ReachesGroup L gs g ∧ g.Raises L e := by
      intro hreaches
      obtain ⟨e, he⟩ := hraises.2 hreaches
      cases he
    cases found with
    | some r =>
      obtain ⟨g, hreaches, hselects⟩ := hsearched.selects
      show SelectsFrom L gs lacksAccessor (.ok (.ok r))
      refine ⟨iff_of_false (by simp) hcalm, fun _ => ?_, fun r' hr' => ?_, by simp⟩
      · exact iff_of_true ⟨r, rfl⟩ ⟨g, hreaches.mem, _, _, hselects.fits⟩
      · obtain rfl : r = r' := Except.ok.inj (Except.ok.inj hr')
        exact ⟨g, hreaches, hselects⟩
    | none =>
      show SelectsFrom L gs lacksAccessor (.ok (.error _))
      refine ⟨iff_of_false (by simp) hcalm, fun _ => ?_, by simp, fun m hm => ?_⟩
      · refine iff_of_false (by simp) ?_
        rintro ⟨g, hg, t, plan, hfits⟩
        exact hsearched.not_fits g hg t plan hfits
      · obtain rfl := Except.error.inj (Except.ok.inj hm)
        rw [← hlacking trace rfl]
        exact trace.reason_eq_noSuchAccessor

/-- A name that is no constructor's is searched in the categories. -/
theorem run_resolve (hc : Γ.isOpen c = false) {ctor : String}
    (hname : Text.fold name ≠ Text.fold ctor) (options : Option SearchMask) (p : Planner) :
    (Γ.resolve h S ctor c name shape options bound).run.run p =
      let out := ((Γ.searchMembers h S c name shape (SearchMask.split options).1
        (SearchMask.split options).2 bound).run {}).run.run p
      (out.1.map fun f => answerOf name c.name f.1 f.2, out.2) := by
  unfold resolve
  rw [hc, if_neg Bool.false_ne_true, beq_false_of_ne hname]
  exact run_answered (fun found _ => by cases found <;> rfl) p

end ByName

/-! ## Two functions of one name -/

/-- A function of `int` that takes one value and gives an integer. -/
def unaryTarget (param : Ty) (id : Nat) : Target where
  kind := .procedure
  name := "f"
  declaring := some (.builtin .int)
  isStatic := true
  params := [⟨"p", param, .positional⟩]
  result := .builtin .int
  impl := .callable (.code (.function id))

/-- Two functions of `int` by one name. -/
def overloads (first second : Ty) : Candidates :=
  ⟨[unaryTarget first 0, unaryTarget second 1], [], []⟩

def overloadTable (first second : Ty) : MemberTable where
  procedures := (overloads first second).procedures.map (⟨.builtin .int, "f", ·⟩)

theorem lists_overloadTable (first second : Ty) :
    (overloadTable first second).source.Lists (.builtin .int) "f" (SearchMask.split none).2
      (overloads first second) := by
  refine ⟨by cbv, by cbv, by cbv, fun t ht => ?_⟩
  simp only [overloads, List.mem_cons, List.not_mem_nil, or_false] at ht
  rcases ht with rfl | rfl
  · intro hkind
    cases hkind
  · intro hkind
    cases hkind

/-- A call with an integer that gives an integer. -/
def intShape : Shape := .make [.builtin .int] (.builtin .int)

/-- The choice of the list `[1]`, which cannot be an element of a set. -/
def listChoice : Ty := .applied .literal [.token (.list [.scalar (.int 1)])]

/-- A call with that choice that gives an integer. -/
def choiceShape : Shape := .make [listChoice] (.builtin .int)

end CallAdapter
