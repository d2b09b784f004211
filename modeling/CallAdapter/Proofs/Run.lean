/-!
# Running computations with state and failure

What a computation does from a state, for the sequence of two computations: the second goes on
where the first ended, or does not run. `Agree` compares two outcomes.
-/

namespace CallAdapter

section Run

variable {ε σ α β : Type} {x : ExceptT ε (StateM σ) α} {f : α → ExceptT ε (StateM σ) β}

theorem run_bind_of_ok {a : α} {s s' : σ} (h : x.run.run s = (.ok a, s')) :
    (x >>= f).run.run s = (f a).run.run s' := by
  rw [ExceptT.run_bind, StateT.run_bind, h]
  rfl

theorem run_bind_of_error {e : ε} {s s' : σ} (h : x.run.run s = (.error e, s')) :
    (x >>= f).run.run s = (.error e, s') := by
  rw [ExceptT.run_bind, StateT.run_bind, h]
  rfl

/-- The two ways a sequence goes: its first computation fails and ends it, or gives something from
which the second goes on. -/
theorem run_bind_cases (x : ExceptT ε (StateM σ) α) (f : α → ExceptT ε (StateM σ) β) (s : σ) :
    (∃ e s', x.run.run s = (.error e, s') ∧ (x >>= f).run.run s = (.error e, s')) ∨
      ∃ a s', x.run.run s = (.ok a, s') ∧ (x >>= f).run.run s = (f a).run.run s' := by
  cases hx : x.run.run s with
  | mk r s' =>
    cases r with
    | error e => exact .inl ⟨e, s', rfl, run_bind_of_error hx⟩
    | ok a => exact .inr ⟨a, s', rfl, run_bind_of_ok hx⟩

/-- Where both parts of a sequence lead to related states, the sequence does. -/
theorem relates_run_bind {R : σ → σ → Prop} (htrans : ∀ {s s' s'' : σ}, R s s' → R s' s'' → R s s'')
    (hx : ∀ s, R s (x.run.run s).2) (hf : ∀ a s, R s ((f a).run.run s).2) (s : σ) :
    R s ((x >>= f).run.run s).2 := by
  have hfirst := hx s
  obtain ⟨e, s', hrun, hbind⟩ | ⟨a, s', hrun, hbind⟩ := run_bind_cases x f s
  · rw [hrun] at hfirst
    exact hbind ▸ hfirst
  · rw [hrun] at hfirst
    exact hbind ▸ htrans hfirst (hf a s')

/-- What goes on after computations that do the same does the same. -/
theorem run_bind_congr {y : ExceptT ε (StateM σ) α} {s : σ} (h : x.run.run s = y.run.run s) :
    (x >>= f).run.run s = (y >>= f).run.run s := by
  rw [ExceptT.run_bind, StateT.run_bind, h, ExceptT.run_bind, StateT.run_bind]

/-- Computations that go on alike wherever the first one ended do the same. -/
theorem run_bind_congr_right {f' : α → ExceptT ε (StateM σ) β} {s : σ}
    (h : ∀ a s', x.run.run s = (.ok a, s') → (f a).run.run s' = (f' a).run.run s') :
    (x >>= f).run.run s = (x >>= f').run.run s := by
  obtain ⟨e, s', hx, hbind⟩ | ⟨a, s', hx, hbind⟩ := run_bind_cases x f s
  · rw [hbind, run_bind_of_error hx]
  · rw [hbind, run_bind_of_ok hx, h a s' hx]

/-- A sequence that succeeds went through its first computation. -/
theorem exists_of_run_bind_eq_ok {b : β} {s s' : σ} (h : (x >>= f).run.run s = (.ok b, s')) :
    ∃ a s₁, x.run.run s = (.ok a, s₁) ∧ (f a).run.run s₁ = (.ok b, s') := by
  obtain ⟨e, s₁, -, hbind⟩ | ⟨a, s₁, hx, hbind⟩ := run_bind_cases x f s
  · cases hbind.symm.trans h
  · exact ⟨a, s₁, hx, hbind.symm.trans h⟩

variable {g : ε → ExceptT ε (StateM σ) α}

theorem run_tryCatch_of_ok {a : α} {s s' : σ} (h : x.run.run s = (.ok a, s')) :
    (tryCatch x g).run.run s = (.ok a, s') := by
  rw [ExceptT.run_tryCatch, StateT.run_bind, h]
  rfl

theorem run_tryCatch_of_error {e : ε} {s s' : σ} (h : x.run.run s = (.error e, s')) :
    (tryCatch x g).run.run s = (g e).run.run s' := by
  rw [ExceptT.run_tryCatch, StateT.run_bind, h]
  rfl

end Run

theorem exists_of_map_eq_ok {ε α β : Type} {f : α → β} {x : Except ε α} {b : β}
    (h : x.map f = .ok b) : ∃ a, x = .ok a ∧ f a = b := by
  cases x with
  | error e => cases h
  | ok a => exact ⟨a, rfl, Except.ok.inj h⟩

/-- Both fail in the same way, or both give something, and what they give is related. -/
inductive Agree {ε α β : Type} (rel : α → β → Prop) : Except ε α → Except ε β → Prop
  | ok {a : α} {b : β} : rel a b → Agree rel (.ok a) (.ok b)
  | error {e : ε} : Agree rel (.error e) (.error e)

end CallAdapter
