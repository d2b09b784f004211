import CallAdapter.Proofs.Conversion.Effect

/-!
# Planners that were asked before

A planner that keeps plans finds again what it kept (`remembered_of_find`). Whatever it was asked
before, it answers a pair of types in normal form with a plan for some spelling of the pair
(`HistoryReuse`, `sound_afterRequests`).
-/

namespace CallAdapter

namespace Program

variable {Γ : Program}

/-! ## Histories -/

/-- A planner after a history of requests. -/
def afterRequests (Γ : Program) (history : List PlanRequest) (p : Planner) : Planner :=
  history.foldl (fun p r => ((Γ.planFor r).run.run p).2) p

/-- Reuse between the spellings of keys in normal form. -/
def HistoryReuse : Reuse := fun s d s' d' => NormalPair s' d' ∧ Confusable s d s' d'

theorem betweenSpellings_historyReuse : BetweenSpellings HistoryReuse :=
  fun _ _ _ _ h => ⟨h.1, h.2.1, h.2.2.1⟩

theorem normalPair_asked (r : PlanRequest) : NormalPair (r.asked Γ).1 (r.asked Γ).2 := by
  cases r <;> exact ⟨Ty.normalize_normalize _, Ty.normalize_normalize _⟩

theorem sound_afterRequests (keeps : Bool) {R : Reuse} (history : List PlanRequest) (p : Planner)
    (hp : p.Sound Γ keeps NormalPair R) : (Γ.afterRequests history p).Sound Γ keeps NormalPair R := by
  induction history generalizing p with
  | nil => exact hp
  | cons r rs ih =>
    exact ih _ (planFor_keeps closedPairs_normalPair r (normalPair_asked r) p hp).1

/-- A planner has sound plans, whatever it was asked since it started. -/
theorem sound_history (memoize : Bool) (history : List PlanRequest) :
    (Γ.afterRequests history ⟨memoize, [], []⟩).Sound Γ memoize NormalPair HistoryReuse :=
  sound_afterRequests memoize history _
    (Planner.sound_of_empty fun _ _ _ _ _ _ hn hkeys => ⟨hn, hkeys⟩)

/-! ## What is kept is found -/

theorem isSome_find_insert (t : PlanTable) (s d : Ty) (p : Plan) :
    ((t.insert s d p).find s d).isSome = true := by
  rw [PlanTable.find, Option.isSome_map, List.find?_isSome]
  refine ⟨((s, d), p), List.mem_append_right _ List.mem_cons_self, ?_⟩
  rw [Ty.same_refl, Ty.same_refl]
  rfl

section Kept

variable {memo : Memo} {make : Ty → Ty → PlanM Plan} {s d : Ty} {p q : Planner} {plan : Plan}

theorem remembered_of_find (hmemo : p.memoize = true) (hs : s.hashable = true)
    (hd : d.hashable = true) (hfind : (p.table memo).find s d = some plan) :
    (remembered memo make s d).run.run p = (.ok plan, p) := by
  show (if (p.memoize && s.hashable && d.hashable) = true then _ else _ : PlanM Plan).run.run p = _
  rw [if_pos (by rw [hmemo, hs, hd]; rfl), hfind]
  rfl

theorem run_remembered_of_miss (hmemo : p.memoize = true) (hs : s.hashable = true)
    (hd : d.hashable = true) (hfind : (p.table memo).find s d = none) :
    (remembered memo make s d).run.run p = (do
      let plan ← make s d
      modify fun q => q.keep memo s d plan
      pure plan : PlanM Plan).run.run p := by
  show (if (p.memoize && s.hashable && d.hashable) = true then _ else _ : PlanM Plan).run.run p = _
  rw [if_pos (by rw [hmemo, hs, hd]; rfl), hfind]

theorem isSome_find_of_remembered (hmemo : p.memoize = true) (hs : s.hashable = true)
    (hd : d.hashable = true) (hrun : (remembered memo make s d).run.run p = (.ok plan, q)) :
    ((q.table memo).find s d).isSome = true := by
  cases hfind : (p.table memo).find s d with
  | some plan' =>
    rw [remembered_of_find hmemo hs hd hfind] at hrun
    obtain rfl := congrArg Prod.snd hrun
    rw [hfind]
    rfl
  | none =>
    rw [run_remembered_of_miss hmemo hs hd hfind] at hrun
    obtain ⟨plan', p₁, -, hkeep⟩ := exists_of_run_bind_eq_ok hrun
    obtain rfl := congrArg Prod.snd hkeep
    cases memo <;> exact isSome_find_insert _ _ _ _

theorem find_congr (t : PlanTable) {s d s' d' : Ty} (hs : s.same s' = true)
    (hd : d.same d' = true) : t.find s d = t.find s' d' := by
  unfold PlanTable.find
  congr 2
  funext e
  rw [Ty.same_congr (Ty.same_refl e.1.1) hs, Ty.same_congr (Ty.same_refl e.1.2) hd]

end Kept

end Program

end CallAdapter
