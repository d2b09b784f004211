import CallAdapter.Proofs.Adapter.Refusal
import CallAdapter.Proofs.Member.Selection

/-!
# Why a search finds nothing

A search that finds nothing blames open type variables only where it came across nothing else: no
member that lacks the accessor, and no candidate that the shape was lined up with. With a captured
value it comes across all members of instances in the categories that it searches. One of them
without open type variables is therefore found, or gives another reason (`resolve_settles`).
-/

namespace CallAdapter

open Program

/-- The trace has something else to tell than that members with open type variables were skipped. -/
def SearchTrace.Tells (s : SearchTrace) : Prop := s.accessorMissing = true ∨ s.mismatches ≠ []

theorem SearchTrace.Tells.reason_ne {s : SearchTrace} (h : s.Tells) : s.reason ≠ .openGeneric := by
  unfold reason
  rcases h with hmissing | hmismatch
  · rw [if_pos hmissing]
    nofun
  · split
    · nofun
    · rw [if_neg]
      · nofun
      · simp [hmismatch]

/-- Whatever the planner, the search relates its traces before and after, or raises an exception. -/
def Traces {α : Type} (x : SearchM α) (rel : SearchTrace → α → SearchTrace → Prop) : Prop :=
  ∀ s, Keeps (fun _ => True) (x.run s) (OutcomeIs (fun r => rel s r.1 r.2) Failure.IsException)

namespace Traces

variable {α β : Type} {rel rel' : SearchTrace → α → SearchTrace → Prop}
  {goal : SearchTrace → β → SearchTrace → Prop}

theorem mono {x : SearchM α} (hx : Traces x rel) (hrel : ∀ s a s', rel s a s' → rel' s a s') :
    Traces x rel' :=
  fun s => (hx s).mono fun r hr => by
    cases r with
    | ok a => exact hrel s a.1 a.2 hr
    | error e => exact hr

theorem pure {a : α} (h : ∀ s, rel s a s) : Traces (Pure.pure a) rel := fun s => Keeps.pure (h s)

theorem bind {x : SearchM α} {f : α → SearchM β} {R : α → SearchTrace → β → SearchTrace → Prop}
    (hx : Traces x rel) (hf : ∀ a, Traces (f a) (R a))
    (hgoal : ∀ s a s' b s'', rel s a s' → R a s' b s'' → goal s b s'') :
    Traces (x >>= f) goal :=
  fun s => Keeps.bind (hx s) (fun _ he => he) fun r hr => (hf r.1 r.2).mono fun r' hr' => by
    cases r' with
    | ok b => exact hgoal s r.1 r.2 b.1 b.2 hr hr'
    | error e => exact hr'

theorem modify (f : SearchTrace → SearchTrace) :
    Traces (modify f : SearchM PUnit) fun s _ s' => s' = f s :=
  fun _ => Keeps.pure rfl

theorem lift {x : PlanM α} (hx : FailsOnly Failure.IsException x) :
    Traces (liftM x : SearchM α) fun s _ s' => s' = s :=
  fun _ => Keeps.bind hx (fun _ he => he) fun _ _ => Keeps.pure rfl

end Traces

/-- Where the condition holds, or there was something to tell before, the search finds a member or
has something to tell. -/
def Settling (condition : Prop) (s : SearchTrace) (found : Option Resolution) (s' : SearchTrace) :
    Prop :=
  s.Tells ∨ condition → found.isSome = true ∨ s'.Tells

/-- A member of instances without open type variables. -/
structure Target.IsCandidate (t : Target) : Prop where
  isStatic : t.isStatic = false
  unmarked : t.isGeneric = false

namespace Candidates

/-- A category that is searched has a member of instances without open type variables, or a property
or a field that lacks the accessor. -/
inductive Settles (l : Candidates) (options : Option SearchMask) (setter : Bool) : Prop
  | procedure {t} : SearchMask.asksFor options .invokeMethod = true → t ∈ l.procedures →
    t.IsCandidate → Settles l options setter
  | property {p} :
    SearchMask.asksFor options (if setter then .setProperty else .getProperty) = true →
    p ∈ l.properties → (∀ t, p.accessor setter = some t → t.IsCandidate) → Settles l options setter
  | field {f} : SearchMask.asksFor options (if setter then .setField else .getField) = true →
    f ∈ l.fields → (∀ t, f.accessor setter = some t → t.IsCandidate) → Settles l options setter

end Candidates

section Searching

variable {Γ : Program} {h : Heap} {shape : Shape} {bound : Value} {ts : List Target}
  {P Q : Prop}

theorem viable_traces (bound : Value) (ts : List Target) :
    Traces (Γ.viable h shape bound ts) fun s rs s' =>
      s.Tells ∨ (∃ t ∈ ts, t.isGeneric = false) → rs ≠ [] ∨ s'.Tells := by
  induction ts with
  | nil => exact .pure fun s hs => .inr (hs.resolve_right (by simp))
  | cons t ts ih =>
    unfold viable
    split
    · rename_i hgeneric
      refine .bind (.modify _) (fun _ => ih) fun s _ s' rs s'' hs hrest hcondition => ?_
      subst hs
      refine hrest (hcondition.imp id ?_)
      rintro ⟨t', ht', hclosed⟩
      rcases List.mem_cons.1 ht' with rfl | ht'
      · rw [hgeneric] at hclosed
        cases hclosed
      · exact ⟨t', ht', hclosed⟩
    · -- either the member fits, and there is a candidate, or the trace tells why not
      refine .bind (.lift (failsOnly_planSignature h shape t bound)) (R := fun made s rs s' =>
        (∀ plan, made = .ok plan → rs ≠ []) ∧ (∀ m, made = .error m → rs ≠ [] ∨ s'.Tells))
        (fun made => ?_) ?_
      · cases made with
        | error m =>
          refine .bind (.modify _) (fun _ => ih) fun s _ s' rs s'' hs hrest => ?_
          subst hs
          exact ⟨fun _ h => (by cases h), fun _ _ => hrest (.inl (.inr (by simp)))⟩
        | ok plan =>
          refine .bind ih (fun rest => .pure fun _ => ⟨rfl, rfl⟩) (R := fun rest s rs s' =>
            rs = ⟨t, plan, bound⟩ :: rest ∧ s' = s) ?_
          rintro s rest s' rs s'' - ⟨rfl, rfl⟩
          exact ⟨fun _ _ => List.cons_ne_nil _ _, fun _ h => by cases h⟩
      · rintro s made s' rs s'' rfl ⟨hfits, hmisfit⟩ -
        cases made with
        | error m => exact hmisfit m rfl
        | ok plan => exact .inl (hfits plan rfl)

theorem pick_traces (bound : Value) (ts : List Target) :
    Traces (Γ.pick h shape bound ts) (Settling (∃ t ∈ ts, t.isGeneric = false)) := by
  refine .bind (viable_traces bound ts) (fun rs => .pure fun _ => ⟨rfl, rfl⟩)
    (R := fun rs s found s' =>
      found = cheapest? (fun r => Cost.of r.plan.plans) rs ∧ s' = s) ?_
  rintro s rs s' found s'' hrs ⟨rfl, rfl⟩ hcondition
  refine (hrs hcondition).imp_left fun hne => ?_
  rw [Option.isSome_iff_ne_none, Ne, cheapest?_eq_none]
  exact hne

/-- A captured value is for members of instances. -/
theorem pickScoped_traces (hnone : bound.isNone = false) (hcaptured : bound.isUnbound = false)
    (needsReceiver : Bool) (ts : List Target) :
    Traces (Γ.pickScoped h shape bound needsReceiver ts)
      (Settling (∃ t ∈ ts, t.IsCandidate)) := by
  unfold pickScoped
  simp only [hnone, hcaptured, Bool.false_eq_true, if_false, Bool.not_false, if_true]
  refine (pick_traces bound _).mono fun s found s' hfound hcondition => hfound ?_
  refine hcondition.imp_right ?_
  rintro ⟨t, ht, hcandidate⟩
  exact ⟨t, List.mem_filter.2 ⟨ht, by rw [hcandidate.isStatic]; rfl⟩, hcandidate.unmarked⟩

/-- A member that lacks the accessor is something to tell. -/
theorem accessors_traces (hnone : bound.isNone = false) (hcaptured : bound.isUnbound = false)
    {α : Type} (infos : List α) (accessor : α → Option Target) :
    Traces (accessors (infos.map accessor) >>= fun ts => Γ.pickScoped h shape bound false ts)
      (Settling (∃ i ∈ infos, ∀ t, accessor i = some t → t.IsCandidate)) := by
  have haccessors : Traces (accessors (infos.map accessor)) fun s ts s' =>
      ts = (infos.map accessor).filterMap id ∧ (s.Tells → s'.Tells) ∧
        ((infos.map accessor).any Option.isNone = true → s'.Tells) := by
    unfold accessors
    split
    · refine .bind (.modify _) (fun _ => .pure fun _ => ⟨rfl, rfl⟩) (R := fun _ s ts s' =>
        ts = (infos.map accessor).filterMap id ∧ s' = s) ?_
      rintro s _ s' ts s'' rfl ⟨rfl, rfl⟩
      exact ⟨rfl, fun _ => .inl rfl, fun _ => .inl rfl⟩
    · rename_i hno
      exact .pure fun s => ⟨rfl, id, fun hmissing => absurd hmissing hno⟩
  refine .bind haccessors (fun ts => pickScoped_traces hnone hcaptured false ts) ?_
  rintro s ts s' found s'' ⟨rfl, htells, hmissing⟩ hpick hcondition
  refine hpick ?_
  rcases hcondition with hs | ⟨i, hi, hcandidate⟩
  · exact .inl (htells hs)
  cases haccessor : accessor i with
  | none =>
    refine .inl (hmissing (List.any_eq_true.2 ⟨_, List.mem_map_of_mem hi, ?_⟩))
    rw [haccessor]
    rfl
  | some t =>
    refine .inr ⟨t, List.mem_filterMap.2 ⟨_, List.mem_map_of_mem hi, haccessor⟩, ?_⟩
    exact hcandidate t haccessor

theorem Settling.mono {s s' : SearchTrace} {found : Option Resolution} (h : Settling P s found s')
    (hQ : Q → P) : Settling Q s found s' :=
  fun hs => h (hs.imp_right hQ)

/-- A category that the mask leaves out settles nothing. -/
theorem Traces.category {x : SearchM (Option Resolution)} (searched : Bool)
    (hx : Traces x (Settling P)) :
    Traces (orElseCategory none searched x) (Settling (searched = true ∧ P)) := by
  cases searched with
  | true => exact hx.mono fun s found s' h => h.mono And.right
  | false => exact .pure fun s hs => .inr (hs.resolve_right fun h => Bool.false_ne_true h.1)

/-- A category is tried where those before it did not find anything. -/
theorem Traces.thenCategory {x y : SearchM (Option Resolution)} (searched : Bool)
    (hx : Traces x (Settling P)) (hy : Traces y (Settling Q)) :
    Traces (x >>= fun found => orElseCategory found searched y)
      (Settling (P ∨ searched = true ∧ Q)) := by
  refine .bind hx (R := fun found s found' s' => (found.isSome = true → found'.isSome = true) ∧
    (found = none → Settling (searched = true ∧ Q) s found' s')) (fun found => ?_) ?_
  · cases found with
    | some r => exact .pure fun _ => ⟨id, nofun⟩
    | none => exact (Traces.category searched hy).mono fun s found' s' h => ⟨nofun, fun _ => h⟩
  · rintro s found s' found' s'' hfound ⟨hkept, hnext⟩ hcondition
    cases found with
    | some r => exact .inl (hkept rfl)
    | none =>
      refine hnext rfl ?_
      rcases hcondition with hs | hP | hQ
      · exact .inl ((hfound (.inl hs)).resolve_left Bool.false_ne_true)
      · exact .inl ((hfound (.inr hP)).resolve_left Bool.false_ne_true)
      · exact .inr hQ

variable {S : MemberSource} {c : Ty} {name : String} {l : Candidates}

/-- One category after the other. -/
theorem searchMembers_traces (shape : Shape) (hnone : bound.isNone = false)
    (hcaptured : bound.isUnbound = false) {options : Option SearchMask}
    (hl : S.Lists c name (SearchMask.split options).2 l) :
    Traces (Γ.searchMembers h S c name shape (SearchMask.split options).1
      (SearchMask.split options).2 bound) (Settling (l.Settles options shape.returnsVoid)) := by
  rw [searchMembers_of_lists hl]
  dsimp only
  rw [← bind_assoc]
  refine (Traces.thenCategory _ (.thenCategory _
    (.category _ (pickScoped_traces hnone hcaptured true l.procedures))
    (accessors_traces hnone hcaptured l.properties _))
    (accessors_traces hnone hcaptured l.fields _)).mono fun s found s' h => h.mono ?_
  rintro (⟨hasks, ht, hcandidate⟩ | ⟨hasks, hp, hcandidate⟩ | ⟨hasks, hf, hcandidate⟩)
  · exact .inl (.inl ⟨hasks, _, ht, hcandidate⟩)
  · exact .inl (.inr ⟨hasks, _, hp, hcandidate⟩)
  · exact .inr ⟨hasks, _, hf, hcandidate⟩

/-- A search for a captured value among members that settle it blames no open type variables, and
raises no fault. -/
theorem resolve_settles (hc : Γ.isOpen c = false) {ctor : String}
    (hname : Text.fold name ≠ Text.fold ctor) (hnone : bound.isNone = false)
    (hcaptured : bound.isUnbound = false) {options : Option SearchMask}
    (hl : S.Lists c name (SearchMask.split options).2 l)
    (hsettles : l.Settles options shape.returnsVoid) (p : Planner) :
    OutcomeIs (fun out => ∀ m, out = .error m → m.reason ≠ .openGeneric) Failure.IsException
      ((Γ.resolve h S ctor c name shape options bound).run.run p).1 := by
  have hsearch := (searchMembers_traces (Γ := Γ) (h := h) shape hnone hcaptured hl {} p trivial).2
  rw [run_resolve hc hname]
  dsimp only
  generalize (((Γ.searchMembers h S c name shape (SearchMask.split options).1
    (SearchMask.split options).2 bound).run {}).run.run p).1 = out at hsearch ⊢
  cases out with
  | error e => exact hsearch
  | ok out =>
    intro m hm
    obtain ⟨found, trace⟩ := out
    cases found with
    | some r => cases hm
    | none =>
      cases hm
      exact ((hsearch (.inr hsettles)).resolve_left Bool.false_ne_true).reason_ne

end Searching

end CallAdapter
