import CallAdapter.Execution.Runtime
import CallAdapter.Proofs.Run

/-!
# Deferred values

A deferred value is pending until its recipe gives a value or a fault, and then settled. Whoever
takes the value of a pending one runs the recipe, which marks it as running meanwhile
(`run_force_of_pending`). Whatever else happens in a world, a deferred value does no more than
advance (`Deferred.Advances`, `World.Advances`): it changes only while it is pending, and never
loses its recipe.
-/

namespace CallAdapter

/-! ## One deferred value -/

namespace Deferred

variable {d d' d'' : Deferred}

/-- What may become of a deferred value. It keeps its recipe, which runs ever more often, and it
changes only while it is pending. A recipe that runs at the end has run from the start. -/
structure Advances (d d' : Deferred) : Prop where
  recipe : d'.recipe = d.recipe
  runs : d.runs ≤ d'.runs
  stays : d.progress ≠ .pending → d' = d
  ends : d'.progress = .running → d' = d

theorem Advances.refl (d : Deferred) : d.Advances d :=
  ⟨rfl, Nat.le_refl _, fun _ => rfl, fun _ => rfl⟩

theorem Advances.trans (h : d.Advances d') (h' : d'.Advances d'') : d.Advances d'' := by
  refine ⟨h'.recipe.trans h.recipe, Nat.le_trans h.runs h'.runs, fun hd => ?_, fun hd'' => ?_⟩
  · obtain rfl := h.stays hd
    exact h'.stays hd
  · obtain rfl := h'.ends hd''
    exact h.ends hd''

theorem outcome_finish (d : Deferred) (r : Except Failure Value) :
    (d.finish r).outcome = Outcome.of? r := by
  unfold finish outcome
  cases Outcome.of? r <;> rfl

theorem progress_finish_ne_running (d : Deferred) (r : Except Failure Value) :
    (d.finish r).progress ≠ .running := by
  unfold finish
  cases Outcome.of? r <;> simp

theorem outcome_eq_some_iff {o : Outcome} : d.outcome = some o ↔ d.progress = .settled o := by
  unfold outcome
  cases d.progress <;> simp

theorem progress_of_outcome_eq_none (h : d.outcome = none) (hrunning : d.progress ≠ .running) :
    d.progress = .pending := by
  unfold outcome at h
  cases hp : d.progress with
  | pending => rfl
  | running => exact absurd hp hrunning
  | settled o =>
    rw [hp] at h
    cases h

/-- One run of the recipe. -/
theorem advances_finish (hd : d.progress = .pending) (r : Except Failure Value) :
    d.Advances (d.start.finish r) :=
  ⟨rfl, Nat.le_succ _, fun hne => absurd hd hne,
    fun hrunning => absurd hrunning (progress_finish_ne_running _ _)⟩

end Deferred

/-! ## Deferred values in a world -/

/-- Puts a deferred value in the place of the one that is there. -/
def World.setDeferred (w : World) (addr : Nat) (d : Deferred) : World :=
  Eval.setArtifact addr (.deferred d) w

theorem deferredAt?_setDeferred (w : World) (addr : Nat) (d : Deferred) (other : Nat) :
    Eval.deferredAt? (w.setDeferred addr d) other =
      if other = addr then some d else Eval.deferredAt? w other := by
  unfold World.setDeferred Eval.deferredAt? Eval.artifactAt? Eval.setArtifact
  rw [List.find?_cons]
  by_cases h : other = addr
  · rw [if_pos h, h, beq_self_eq_true]
    rfl
  · rw [if_neg h, beq_eq_false_iff_ne.2 (Ne.symm h)]
    dsimp only
    -- no artifact of the other place is filtered out
    rw [List.find?_filter]
    congr 3
    funext a
    by_cases ha : a.1 = other <;> simp [ha, h]

theorem deferredAt?_setDeferred_self (w : World) (addr : Nat) (d : Deferred) :
    Eval.deferredAt? (w.setDeferred addr d) addr = some d := by
  rw [deferredAt?_setDeferred, if_pos rfl]

/-- Every place stays, and the deferred value at it, if there is one, does no more than advance. -/
structure World.Advances (w w' : World) : Prop where
  size_le : w.heap.instances.size ≤ w'.heap.instances.size
  deferred : ∀ addr < w.heap.instances.size, ∀ d, Eval.deferredAt? w addr = some d →
    ∃ d', Eval.deferredAt? w' addr = some d' ∧ d.Advances d'

namespace World

variable {w w' w'' : World}

/-- A change that removes no place and leaves the artifacts alone. -/
theorem advances_of_artifacts (hsize : w.heap.instances.size ≤ w'.heap.instances.size)
    (hartifacts : w'.artifacts = w.artifacts) : w.Advances w' := by
  refine ⟨hsize, fun addr _ d hd => ⟨d, ?_, .refl d⟩⟩
  rw [← hd]
  unfold Eval.deferredAt? Eval.artifactAt?
  rw [hartifacts]

theorem Advances.refl (w : World) : w.Advances w := advances_of_artifacts (Nat.le_refl _) rfl

theorem Advances.trans (h : w.Advances w') (h' : w'.Advances w'') : w.Advances w'' := by
  refine ⟨Nat.le_trans h.size_le h'.size_le, fun addr haddr d hd => ?_⟩
  obtain ⟨d', hd', hadvances⟩ := h.deferred addr haddr d hd
  obtain ⟨d'', hd'', hadvances'⟩ := h'.deferred addr (Nat.lt_of_lt_of_le haddr h.size_le) d' hd'
  exact ⟨d'', hd'', hadvances.trans hadvances'⟩

/-- A deferred value that is not pending stays as it is. -/
theorem Advances.deferredAt? (h : w.Advances w') {addr : Nat} {d : Deferred}
    (haddr : addr < w.heap.instances.size) (hd : Eval.deferredAt? w addr = some d)
    (hpending : d.progress ≠ .pending) : Eval.deferredAt? w' addr = some d := by
  obtain ⟨d', hd', hadvances⟩ := h.deferred addr haddr d hd
  rw [hd', hadvances.stays hpending]

end World

/-! ## Taking the value -/

section Take

variable {Γ : Program} {rt : Runtime} {w : World} {addr : Nat} {d : Deferred}

theorem run_force_of_none (hd : Eval.deferredAt? w addr = none) :
    (rt.force Γ addr).run.run w = (.error .typeError, w) := by
  simp only [Runtime.force, Deferred.take, ExceptT.run, StateT.run, hd]

theorem run_force_of_settled {o : Outcome} (hd : Eval.deferredAt? w addr = some d)
    (hp : d.progress = .settled o) : (rt.force Γ addr).run.run w = (o.result, w) := by
  simp only [Runtime.force, Deferred.take, ExceptT.run, StateT.run, hd, hp]

theorem run_force_of_running (hd : Eval.deferredAt? w addr = some d)
    (hp : d.progress = .running) :
    (rt.force Γ addr).run.run w = (.error (.exception .blocked none), w) := by
  simp only [Runtime.force, Deferred.take, ExceptT.run, StateT.run, hd, hp]

theorem run_force_of_pending (hd : Eval.deferredAt? w addr = some d)
    (hp : d.progress = .pending) :
    (rt.force Γ addr).run.run w =
      let out := (rt.follow Γ d.recipe).run.run (w.setDeferred addr d.start)
      (out.1, out.2.setDeferred addr (d.start.finish out.1)) := by
  simp only [Runtime.force, Deferred.take, ExceptT.run, StateT.run, hd, hp]
  rfl

end Take

end CallAdapter
