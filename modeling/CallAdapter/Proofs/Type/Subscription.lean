import CallAdapter.Proofs.Type.Equality
import CallAdapter.Type.Subscription
import Mathlib

/-!
# Kept types

Types that the annotation language made once are found again. After a subscription was answered, an
equal one is answered by the very same type, unless as many others as are kept came between
(`subscribe_again`). Whatever is answered was made by an equal subscription, maybe in another
spelling (`subscribe_made`).
-/

namespace CallAdapter

namespace Subject

theorem same_refl (s : Subject) : s.same s = true := by
  cases s with
  | head h => exact decide_eq_true rfl
  | union => rfl
  | type t => exact Ty.same_refl t

theorem same_symm {s t : Subject} (h : s.same t = true) : t.same s = true := by
  cases s <;> cases t <;> simp_all [same]
  exact Ty.same_symm h

theorem same_trans {s t u : Subject} (h : s.same t = true) (h' : t.same u = true) :
    s.same u = true := by
  cases s <;> cases t <;> cases u <;> simp_all [same]
  exact Ty.same_trans h h'

end Subject

namespace Subscription

variable {s t u : Subscription}

/-- Arguments are the same when they are as parameter lists. -/
theorem same_iff : s.same t = true ↔
    s.subject.same t.subject = true ∧ (Ty.list s.args).same (.list t.args) = true := by
  rw [same, Bool.and_eq_true, Ty.same]

theorem same_refl (s : Subscription) : s.same s = true :=
  same_iff.2 ⟨Subject.same_refl _, Ty.same_refl _⟩

theorem same_symm (h : s.same t = true) : t.same s = true := by
  obtain ⟨hs, has⟩ := same_iff.1 h
  exact same_iff.2 ⟨Subject.same_symm hs, Ty.same_symm has⟩

theorem same_trans (h : s.same t = true) (h' : t.same u = true) : s.same u = true := by
  obtain ⟨hs, has⟩ := same_iff.1 h
  obtain ⟨hs', has'⟩ := same_iff.1 h'
  exact same_iff.2 ⟨Subject.same_trans hs hs', Ty.same_trans has has'⟩

/-- Equal subscriptions find the same kept types. -/
theorem made_congr (h : s.same t = true) : s.made = t.made := by
  funext e
  exact Bool.eq_iff_iff.2 ⟨fun he => same_trans he h, fun he => same_trans he (same_symm h)⟩

/-- A type that two subscriptions find was made by equal ones. -/
theorem same_of_made {e : Subscription × Ty} (h : s.made e = true) (h' : t.made e = true) :
    s.same t = true :=
  same_trans (same_symm h) h'

end Subscription

namespace KeptTypes

variable {kept : KeptTypes} {s s' : Subscription} {t : Ty} {n : Nat}

/-- Among the first `n` kept types is the one for `s`, and it is `t`. -/
def Recent (kept : KeptTypes) (n : Nat) (s : Subscription) (t : Ty) : Prop :=
  ∃ before e after, kept = before ++ e :: after ∧ before.length < n ∧
    (∀ x ∈ before, s.made x = false) ∧ s.made e = true ∧ e.2 = t

theorem Recent.mono {m : Nat} (h : kept.Recent n s t) (hnm : n ≤ m) : kept.Recent m s t := by
  obtain ⟨before, e, after, hkept, hlen, hrest⟩ := h
  exact ⟨before, e, after, hkept, Nat.lt_of_lt_of_le hlen hnm, hrest⟩

theorem Recent.congr (h : kept.Recent n s t) (hs : s.same s' = true) : kept.Recent n s' t := by
  unfold Recent at h ⊢
  rwa [Subscription.made_congr hs] at h

theorem recent_head {e : Subscription × Ty} (he : s.made e = true) (kept : KeptTypes) :
    Recent ((e :: kept).take capacity) 1 s e.2 :=
  ⟨[], e, kept.take 127, rfl, Nat.zero_lt_one, fun _ h => absurd h List.not_mem_nil, he, rfl⟩

/-- The first kept type for a subscription answers it. -/
theorem Recent.answer_eq (h : kept.Recent n s t) : (kept.answer s).1 = some t := by
  obtain ⟨before, e, after, rfl, -, hbefore, he, rfl⟩ := h
  have hnone : before.find? s.made = none := by
    refine List.find?_eq_none.2 fun x hx => ?_
    rw [hbefore x hx]
    exact Bool.false_ne_true
  rw [answer, List.find?_append, hnone, Option.none_or, List.find?_cons_of_pos he]

/-- What answers a subscription stands first afterwards. -/
theorem recent_answer (h : (kept.answer s).1 = some t) : (kept.answer s).2.Recent 1 s t := by
  unfold answer at h ⊢
  cases hfind : kept.find? s.made with
  | some e =>
    rw [hfind] at h
    obtain rfl := Option.some.inj h
    exact recent_head (List.find?_some hfind) _
  | none =>
    rw [hfind] at h
    dsimp only at h ⊢
    cases hmake : s.make with
    | none =>
      rw [hmake] at h
      cases h
    | some u =>
      rw [hmake] at h
      obtain rfl := Option.some.inj h
      exact recent_head (e := (s, u)) (Subscription.same_refl s) _

/-- One type more stands in front; a type is cut off only in the last place. -/
theorem Recent.cons (h : kept.Recent n s t) (hn : n < capacity) {e : Subscription × Ty}
    (he : s.made e = false) : Recent ((e :: kept).take capacity) (n + 1) s t := by
  obtain ⟨before, x, after, rfl, hlen, hbefore, hx, hxt⟩ := h
  refine ⟨e :: before, x, after.take (capacity - (before.length + 2)), ?_,
    Nat.succ_lt_succ hlen, ?_, hx, hxt⟩
  · have hle : (e :: before ++ [x]).length ≤ capacity := by
      simp only [List.length_append, List.length_cons, List.length_nil]
      omega
    calc ((e :: (before ++ x :: after)).take capacity)
        = ((e :: before ++ [x]) ++ after).take capacity := by simp
      _ = (e :: before ++ [x]) ++ after.take (capacity - (e :: before ++ [x]).length) := by
        rw [List.take_append, List.take_of_length_le hle]
      _ = e :: before ++ x :: after.take (capacity - (before.length + 2)) := by simp
  · intro y hy
    rcases List.mem_cons.1 hy with rfl | hy
    · exact he
    · exact hbefore y hy

/-- Taking out the type for another subscription moves none back. -/
theorem Recent.eraseP (h : kept.Recent n s t) (hs : ¬s'.same s = true) :
    Recent (kept.eraseP s'.made) n s t := by
  obtain ⟨before, x, after, rfl, hlen, hbefore, hx, hxt⟩ := h
  have hx' : ¬s'.made x = true := fun hx' => hs (Subscription.same_of_made hx' hx)
  by_cases hany : ∃ y ∈ before, s'.made y = true
  · obtain ⟨y, hy, hys⟩ := hany
    rw [List.eraseP_append_left hys _ hy]
    exact ⟨_, x, after, rfl, Nat.lt_of_le_of_lt List.length_eraseP_le hlen,
      fun z hz => hbefore z (List.mem_of_mem_eraseP hz), hx, hxt⟩
  · have hnone : ∀ y ∈ before, ¬s'.made y = true := fun y hy hys => hany ⟨y, hy, hys⟩
    rw [List.eraseP_append_right _ hnone, List.eraseP_cons_of_neg hx']
    exact ⟨before, x, _, rfl, hlen, hbefore, hx, hxt⟩

/-- A further subscription moves a type at most one place on. -/
theorem Recent.step (h : kept.Recent n s t) (hn : n < capacity) (s' : Subscription) :
    (kept.answer s').2.Recent (n + 1) s t := by
  by_cases hs : s'.same s = true
  · have hans : (kept.answer s').1 = some t := (h.congr (Subscription.same_symm hs)).answer_eq
    exact ((recent_answer hans).congr hs).mono (Nat.succ_le_succ (Nat.zero_le n))
  · unfold answer
    cases hfind : kept.find? s'.made with
    | some e =>
      have he : s.made e = false := by
        refine Bool.eq_false_iff.2 fun he => hs ?_
        exact Subscription.same_of_made (List.find?_some hfind) he
      exact (h.eraseP hs).cons hn he
    | none =>
      cases hmake : s'.make with
      | none => exact h.mono (Nat.le_succ n)
      | some u => exact h.cons (e := (s', u)) hn (Bool.eq_false_iff.2 hs)

/-- Every kept type was made by its subscription. -/
def Made (kept : KeptTypes) : Prop := ∀ e ∈ kept, e.1.make = some e.2

theorem Made.answer (h : kept.Made) (s : Subscription) : (kept.answer s).2.Made := by
  unfold KeptTypes.answer
  cases hfind : kept.find? s.made with
  | some e =>
    intro x hx
    rcases List.mem_cons.1 (List.mem_of_mem_take hx) with rfl | hx
    · exact h _ (List.mem_of_find?_eq_some hfind)
    · exact h x (List.mem_of_mem_eraseP hx)
  | none =>
    cases hmake : s.make with
    | none => exact h
    | some u =>
      intro x hx
      rcases List.mem_cons.1 (List.mem_of_mem_take hx) with rfl | hx
      · exact hmake
      · exact h x hx

theorem Made.answered (h : kept.Made) (ht : (kept.answer s).1 = some t) :
    ∃ s' : Subscription, s'.same s = true ∧ s'.make = some t := by
  obtain ⟨before, e, after, hkept, -, -, he, rfl⟩ := recent_answer ht
  exact ⟨e.1, he, h.answer s e (hkept ▸ List.mem_append_right _ List.mem_cons_self)⟩

end KeptTypes

namespace Subscriptions

variable {σ : Subscriptions} {s s' : Subscription} {t : Ty} {k : Keeper}

/-- The types that are kept after a list of subscriptions. -/
def after (σ : Subscriptions) (ss : List Subscription) : Subscriptions :=
  ss.foldl (fun σ s => (subscribe s σ).2) σ

theorem subscribe_of_keeper (hk : s.keeper? = some k) (σ : Subscriptions) :
    (subscribe s σ).1 = ((σ k).answer s).1 ∧ (subscribe s σ).2 k = ((σ k).answer s).2 := by
  simp [subscribe, hk]

/-- A subscription leaves what other kinds keep as it is. -/
theorem subscribe_kept (s : Subscription) (σ : Subscriptions) (k : Keeper) :
    (subscribe s σ).2 k = σ k ∨ (subscribe s σ).2 k = ((σ k).answer s).2 := by
  unfold subscribe
  cases s.keeper? with
  | none => exact .inl rfl
  | some j =>
    dsimp only
    split_ifs with hkj
    · subst hkj
      exact .inr rfl
    · exact .inl rfl

theorem recent_after {n : Nat} (ss : List Subscription) (h : (σ k).Recent n s t)
    (hn : n + ss.length ≤ KeptTypes.capacity) : (σ.after ss k).Recent (n + ss.length) s t := by
  induction ss generalizing σ n with
  | nil => exact h
  | cons u ss ih =>
    rw [List.length_cons] at hn ⊢
    have hstep : ((subscribe u σ).2 k).Recent (n + 1) s t := by
      rcases subscribe_kept u σ k with hsame | hans
      · rw [hsame]
        exact h.mono (Nat.le_succ n)
      · rw [hans]
        exact h.step (by omega) u
    have := ih hstep (by omega)
    rwa [show n + 1 + ss.length = n + (ss.length + 1) by omega] at this

/-- Equal subscriptions are answered by the very same type, as long as fewer others than are kept
came between. -/
theorem subscribe_again (hk : s.keeper? = some k) (hk' : s'.keeper? = some k)
    (hs : s.same s' = true) (ht : (subscribe s σ).1 = some t) {between : List Subscription}
    (hbetween : between.length < KeptTypes.capacity) :
    (subscribe s' ((subscribe s σ).2.after between)).1 = some t := by
  obtain ⟨hans, hkept⟩ := subscribe_of_keeper hk σ
  have hrecent : ((subscribe s σ).2 k).Recent 1 s t := by
    rw [hkept]
    exact KeptTypes.recent_answer (hans ▸ ht)
  rw [(subscribe_of_keeper hk' _).1]
  exact ((recent_after between hrecent (by omega)).congr hs).answer_eq

/-- Every kept type was made by its subscription. -/
def Made (σ : Subscriptions) : Prop := ∀ k, (σ k).Made

theorem made_empty : Made empty := fun _ _ h => absurd h List.not_mem_nil

theorem Made.subscribe (h : σ.Made) (s : Subscription) : Made (Subscriptions.subscribe s σ).2 := by
  intro k
  rcases subscribe_kept s σ k with hsame | hans
  · rw [hsame]
    exact h k
  · rw [hans]
    exact (h k).answer s

theorem Made.after (h : σ.Made) (ss : List Subscription) : (σ.after ss).Made := by
  induction ss generalizing σ with
  | nil => exact h
  | cons s ss ih => exact ih (h.subscribe s)

/-- After any subscriptions, the type that answers one was made by an equal one. -/
theorem subscribe_made (ss : List Subscription)
    (ht : (subscribe s (empty.after ss)).1 = some t) :
    ∃ s' : Subscription, s'.same s = true ∧ s'.make = some t := by
  have hmade : Made (empty.after ss) := made_empty.after ss
  cases hk : s.keeper? with
  | none =>
    rw [subscribe, hk] at ht
    exact ⟨s, Subscription.same_refl s, ht⟩
  | some k =>
    rw [(subscribe_of_keeper hk _).1] at ht
    exact (hmade k).answered ht

end Subscriptions

end CallAdapter
