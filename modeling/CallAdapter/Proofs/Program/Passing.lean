import CallAdapter.Proofs.Program.Inheritance
import CallAdapter.Proofs.Type.Ground

/-!
# Type parameters that are passed on

Where the bases of a hierarchy pass types on, a type parameter stands for a ground type through a
container exactly where classes keep a record of the bases that give it one (`ground_iff_recorded`).
Parameters that a container has itself are bound by its arguments, whatever the bases pass on
(`within_split`); a class that is closed binds them to any type (`get?_argumentBindings_close`).
-/

namespace CallAdapter

/-! ## Ground bindings -/

namespace Bindings

variable {m σ τ : Bindings} {v : TypeVar} {t : Ty}

/-- Every variable that is bound stands for a ground type. -/
def Ground (m : Bindings) : Prop := ∀ v t, m.get? v = some t → t.Ground

/-- What the first bindings bind, the second do too. -/
def Covered (σ m : Bindings) : Prop := ∀ v, (σ.get? v).isSome = true → (m.get? v).isSome = true

theorem Covered.refl (m : Bindings) : m.Covered m := fun _ h => h

theorem Covered.trans (h : σ.Covered m) (h' : m.Covered τ) : σ.Covered τ :=
  fun v hv => h' v (h v hv)

theorem Ground.exists (h : m.Ground) (hv : (m.get? v).isSome = true) :
    ∃ t, m.get? v = some t ∧ t.Ground := by
  obtain ⟨t, ht⟩ := Option.isSome_iff_exists.1 hv
  exact ⟨t, ht, h v t ht⟩

theorem mem_of_get? (h : m.get? v = some t) : (v, t) ∈ m := by
  obtain ⟨b, hb, rfl⟩ := Option.map_eq_some_iff.1 h
  have hv := of_decide_eq_true (List.find?_some (p := fun b : TypeVar × Ty => decide (b.1 = v)) hb)
  exact hv ▸ List.mem_of_find?_eq_some hb

/-- A variable is bound by position among the types that there are. -/
theorem isSome_get?_zip (vs : List TypeVar) (ts : List Ty) :
    ((get? (vs.zip ts) v).isSome = true) ↔ v ∈ vs.take ts.length := by
  induction vs generalizing ts with
  | nil => simp [get?]
  | cons w vs ih =>
    cases ts with
    | nil => simp [get?]
    | cons t ts =>
      rw [List.zip_cons_cons, get?_cons, List.length_cons, List.take_succ_cons, List.mem_cons]
      by_cases h : w = v
      · simp [h]
      · rw [if_neg h, ih]
        simp [Ne.symm h]

theorem covered_addDefaults (m : Bindings) (bs : Bindings) : bs.Covered (m.addDefaults bs) := by
  intro v hv
  rw [get?_addDefaults]
  cases m.get? v with
  | none => exact hv
  | some t => rfl

theorem Ground.addDefaults {bs : Bindings} (hm : m.Ground) (hbs : bs.Ground) :
    (m.addDefaults bs).Ground := by
  intro v t hv
  rw [get?_addDefaults] at hv
  cases hbound : m.get? v with
  | none =>
    rw [hbound] at hv
    exact hbs v t hv
  | some s =>
    rw [hbound] at hv
    exact hm v t (hbound.trans hv)

end Bindings

namespace Program

section Passing

variable (Γ : Program) (container : Ty)

/-- A type parameter of one of the classes above the container. -/
def IsParameter (v : TypeVar) : Prop := ∃ c σ, Γ.Path container c σ ∧ v ∈ Γ.parameters c

/-- Along recorded bases the variable is given a type. -/
def Recorded (v : TypeVar) : Prop :=
  ∃ c σ, Γ.RecordedPath container c σ ∧ (σ.get? v).isSome = true

/-- The bases above the container pass types on: in their arguments, variables stand for types, and
no base has arguments that cannot be replaced in. -/
structure PassesOn : Prop where
  closes : Γ.Closes container
  plain : ∀ ⦃c σ⦄, Γ.Path container c σ → ∀ base ∈ Γ.basesOf c, (parametrized? base).isSome = true →
    ∀ a ∈ base.args, a.IsPlain

end Passing

variable {Γ : Program} {container base : Ty} {c d : Cls} {m σ : Bindings}

/-- What a base passes on does not depend on what its class was reached with, but for the types. -/
theorem isSome_get?_passed (d : Cls) (base : Ty) (σ m : Bindings) (v : TypeVar) :
    (((Γ.passed d base σ).get? v).isSome = true) ↔ ((Γ.passed d base m).get? v).isSome = true := by
  unfold passed
  rw [Bindings.isSome_get?_zip, Bindings.isSome_get?_zip, List.length_map, List.length_map]

theorem ground_passed (hargs : ∀ a ∈ base.args, (a.substitute m).Ground) :
    (Γ.passed d base m).Ground := by
  intro v t hv
  have hmem := (List.of_mem_zip (Bindings.mem_of_get? hv)).2
  obtain ⟨a, ha, rfl⟩ := List.mem_map.1 hmem
  exact hargs a ha

/-- The arguments of recorded bases are plain. -/
theorem PassesOn.plain_recorded (hΓ : Γ.Inherits) (h : Γ.PassesOn container)
    (hc : Γ.Path container c σ) (hbase : base ∈ Γ.spelledBases c)
    (hd : parametrized? base = some d) : ∀ a ∈ base.args, a.IsPlain := by
  have harguments : (parametrized? base).isSome = true := by rw [hd]; rfl
  rcases exists_base_of_recorded hΓ hc hbase hd with hown | ⟨e, hpath, hown, -⟩
  · exact h.plain hc base hown harguments
  · exact h.plain hpath base hown harguments

/-- Ground bindings stay ground when what bases pass on is added. -/
theorem PassesOn.gathers (hΓ : Γ.Inherits) (h : Γ.PassesOn container) :
    Γ.Gathers container Bindings.Ground Bindings.Covered where
  refl := .refl
  trans := .trans
  step {c d σ m base} hc hbase hd hσ hm := by
    have hpath := hc.path hΓ h.closes
    obtain ⟨-, -, hvars⟩ := Path.recorded hΓ h.closes hpath hbase hd
    have hargs : ∀ a ∈ base.args, (a.substitute m).Ground := by
      intro a ha
      have hplain := h.plain_recorded hΓ hpath hbase hd a ha
      refine Ty.ground_substitute hplain fun v hv => hm.exists (hσ v (hvars a ha v ?_))
      rw [Ty.freeVars_of_ne_list hplain.ne_list]
      exact Ty.mem_distinctVars.2 hv
    have hcovered : (Γ.passed d base σ).Covered (m.addDefaults (Γ.passed d base m)) :=
      fun v hv => Bindings.covered_addDefaults m _ v ((isSome_get?_passed d base σ m v).1 hv)
    refine ⟨hm.addDefaults (ground_passed hargs), fun v hv => ?_, hcovered⟩
    obtain ⟨t, ht⟩ := Option.isSome_iff_exists.1 hv
    rw [Bindings.within_addDefaults m _ v t ht]
    rfl

/-- What is bound is bound along a recorded path. -/
theorem recorded_of_isSome_split (hΓ : Γ.Inherits) (hclosed : Γ.Closes container) {v : TypeVar}
    (hv : ((Γ.split container).2.get? v).isSome = true) : Γ.Recorded container v := by
  let Inv : Bindings → Prop := fun m => ∀ v, (m.get? v).isSome = true → Γ.Recorded container v
  have hgathers : Γ.Gathers container Inv fun _ _ => True := by
    refine ⟨fun _ => trivial, fun _ _ => trivial, ?_⟩
    intro c d σ m base hc hbase hd _ hm
    refine ⟨fun v hv => ?_, trivial, trivial⟩
    rw [Bindings.get?_addDefaults, Option.isSome_or, Bool.or_eq_true] at hv
    rcases hv with hv | hv
    · exact hm v hv
    · exact ⟨d, _, hc.step hbase hd, (isSome_get?_passed d base σ m v).2 hv⟩
  refine (gathers_split hΓ hclosed hgathers fun v hv => ?_).1 v hv
  obtain ⟨t, ht⟩ := Option.isSome_iff_exists.1 hv
  have hclass : ∃ k, containerClass container = .cls k := by
    by_contra hno
    rw [argumentBindings_of_not_class (not_exists.1 hno)] at ht
    cases ht
  obtain ⟨k, hk⟩ := hclass
  exact ⟨k, _, ⟨k, hk, .refl⟩, hv⟩

/-- Through a container whose own parameters stand for ground types, a variable stands for one
exactly where it is recorded. -/
theorem ground_iff_recorded (hΓ : Γ.Inherits) (h : Γ.PassesOn container)
    (hcontainer : (Γ.argumentBindings container).Ground) {v : TypeVar} :
    (∃ t, (Γ.split container).2.get? v = some t ∧ t.Ground) ↔ Γ.Recorded container v := by
  constructor
  · rintro ⟨t, ht, -⟩
    exact recorded_of_isSome_split hΓ h.closes (by rw [ht]; rfl)
  · rintro ⟨c, σ, hσ, hbound⟩
    obtain ⟨hground, hcovered⟩ := gathers_split hΓ h.closes (h.gathers hΓ) hcontainer
    exact hground.exists (hcovered hσ v hbound)

/-! ## Containers -/

/-- The types that an alias binds are among its arguments. -/
theorem forall_mem_zipBindings {P : Ty → Prop} {bs : List (TypeVar × Ty)}
    (hbs : ∀ b ∈ bs, P b.2) (hm : ∀ b ∈ m, P b.2) : ∀ b ∈ zipBindings bs m, P b.2 := by
  induction bs generalizing m with
  | nil => exact hm
  | cons b bs ih =>
    obtain ⟨hb, hbs⟩ := List.forall_mem_cons.1 hbs
    refine ih hbs ?_
    split
    · intro b' hb'
      obtain ⟨b'', hb'', rfl⟩ := List.mem_map.1 hb'
      split
      · exact hb
      · exact hm b'' hb''
    · exact List.forall_mem_append.2 ⟨hm, List.forall_mem_singleton.2 hb⟩

/-- Replacing what a variable stands for binds no other variables. -/
theorem isSome_get?_replaced (m : Bindings) (w v : TypeVar) (t : Ty) :
    (Bindings.get? (m.map fun b => if b.1 = w then (w, t) else b) v).isSome =
      (m.get? v).isSome := by
  have hfst : ∀ b : TypeVar × Ty, (if b.1 = w then (w, t) else b).1 = b.1 := by
    intro b
    split
    · rename_i h
      exact h.symm
    · rfl
  unfold Bindings.get?
  simp only [List.find?_map, Option.isSome_map, Function.comp_def, hfst]

/-- An alias binds every variable that it has an argument for. -/
theorem isSome_get?_zipBindings {bs : List (TypeVar × Ty)} {v : TypeVar}
    (hv : v ∈ bs.map Prod.fst ∨ (m.get? v).isSome = true) :
    ((zipBindings bs m).get? v).isSome = true := by
  induction bs generalizing m with
  | nil => exact hv.resolve_left List.not_mem_nil
  | cons b bs ih =>
    obtain ⟨w, t⟩ := b
    refine ih ?_
    by_cases hrest : v ∈ bs.map Prod.fst
    · exact .inl hrest
    have hv : v = w ∨ (m.get? v).isSome = true :=
      hv.imp_left fun hv => (List.mem_cons.1 hv).resolve_right hrest
    right
    split
    · rename_i hbound
      rw [isSome_get?_replaced]
      exact hv.elim (fun h => h ▸ hbound) id
    · rw [Bindings.get?_append, Option.isSome_or, Bindings.get?_cons]
      rcases hv with rfl | hv
      · simp
      · simp [hv]

/-- The types that a container binds are its arguments. -/
theorem forall_argumentBindings {P : Ty → Prop} (hargs : ∀ a ∈ container.args, P a) {v : TypeVar}
    {t : Ty} (ht : (Γ.argumentBindings container).get? v = some t) : P t := by
  have hall : ∀ b ∈ Γ.argumentBindings container, P b.2 := by
    unfold argumentBindings
    split
    · refine forall_mem_zipBindings (fun b hb => hargs b.2 (List.of_mem_zip hb).2) ?_
      exact fun _ h => nomatch h
    · exact fun _ h => nomatch h
  exact hall _ (Bindings.mem_of_get? ht)

/-- A container without open variables binds its parameters to ground types. -/
theorem ground_argumentBindings (hclosed : container.freeVars = []) :
    (Γ.argumentBindings container).Ground := by
  intro v t ht
  refine forall_argumentBindings (fun a ha => ?_) ht
  have hground : container.Ground := by
    refine Ty.ground_of_freeVars (fun ts hlist => ?_) hclosed
    rw [hlist] at ha
    cases ha
  cases container with
  | applied k as =>
    cases k with
    | literal => cases ht
    | _ =>
      exact Ty.ground_iff.2 fun w hw => Ty.ground_iff.1 hground w (Ty.mem_varsOfAll.2 ⟨a, ha, hw⟩)
  | union p ms =>
    exact Ty.ground_iff.2 fun w hw => Ty.ground_iff.1 hground w (Ty.mem_varsOfAll.2 ⟨a, ha, hw⟩)
  | _ => cases ha

theorem close_of_parameters (h : Γ.parameters c ≠ []) :
    Γ.close (.cls c) = .applied (.generic c) ((Γ.parameters c).map fun _ => .any) := by
  unfold close
  dsimp only
  rw [if_neg]
  rwa [List.isEmpty_iff]

/-- A class with type parameters that is closed binds them to any type. -/
theorem get?_argumentBindings_close {v : TypeVar} (hv : v ∈ Γ.parameters c) :
    (Γ.argumentBindings (Γ.close (.cls c))).get? v = some .any := by
  rw [close_of_parameters (List.ne_nil_of_mem hv)]
  have hbound : ((Γ.argumentBindings
      (.applied (.generic c) ((Γ.parameters c).map fun _ => .any))).get? v).isSome = true := by
    refine isSome_get?_zipBindings (.inl ?_)
    show v ∈ ((Γ.parameters c).zip ((Γ.parameters c).map fun _ => Ty.any)).map Prod.fst
    rw [List.map_fst_zip (by rw [List.length_map])]
    exact hv
  obtain ⟨t, ht⟩ := Option.isSome_iff_exists.1 hbound
  have hargs : ∀ a ∈ (Ty.applied (.generic c) ((Γ.parameters c).map fun _ => .any)).args,
      a = .any := by
    intro a ha
    obtain ⟨-, -, rfl⟩ := List.mem_map.1 ha
    rfl
  rw [ht, forall_argumentBindings hargs ht]

/-- What a container binds itself, no base binds differently. -/
theorem within_split (hΓ : Γ.Inherits) (hclosed : Γ.Closes container) :
    (Γ.argumentBindings container).Within (Γ.split container).2 := by
  have hgathers : Γ.Gathers container (Γ.argumentBindings container).Within fun _ _ => True :=
    ⟨fun _ => trivial, fun _ _ => trivial,
      fun _ _ _ _ hm => ⟨hm.trans (Bindings.within_addDefaults _ _), trivial, trivial⟩⟩
  exact (gathers_split hΓ hclosed hgathers (.refl _)).1

end Program

end CallAdapter
