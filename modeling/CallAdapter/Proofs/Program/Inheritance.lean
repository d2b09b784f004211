import CallAdapter.Program.Container
import CallAdapter.Proofs.Type.Substitution
import Mathlib.Data.List.Perm.Subperm
import Mathlib.Logic.Relation
import Mathlib.Order.WellFounded

/-!
# What type variables stand for along a hierarchy

Seen from a container, the type variables of an ancestor stand for what the bases on a path to it
pass on, one after the other (`Program.Path`). `Program.split` collects all of it in one map, in
which a variable that several classes use has one meaning. That map shows the composition along
every path exactly where no two paths give a variable different types, and every variable is reached
along the bases that classes keep a record of (`showsPaths_iff_agree`). -/

namespace CallAdapter

/-! ## Bindings inside bindings -/

namespace Bindings

variable {σ m m' : Bindings} {v : TypeVar} {t : Ty}

/-- What is bound is bound in the same way by the other bindings. -/
def Within (σ m : Bindings) : Prop := ∀ v t, σ.get? v = some t → m.get? v = some t

theorem Within.refl (σ : Bindings) : σ.Within σ := fun _ _ => id

theorem Within.trans (h : σ.Within m) (h' : m.Within m') : σ.Within m' :=
  fun v t hv => h' v t (h v t hv)

theorem get?_append (m m' : Bindings) (v : TypeVar) :
    (m ++ m').get? v = (m.get? v).or (m'.get? v) := by
  unfold get?
  rw [List.find?_append]
  cases m.find? fun b => decide (b.1 = v) <;> rfl

theorem get?_cons (w : TypeVar) (t : Ty) (m : Bindings) (v : TypeVar) :
    get? ((w, t) :: m) v = if w = v then some t else m.get? v := by
  unfold get?
  rw [List.find?_cons]
  by_cases h : w = v <;> simp [h]

theorem get?_singleton_eq_some_iff {w : TypeVar} {s : Ty} :
    get? [(w, s)] v = some t ↔ w = v ∧ s = t := by
  rw [get?_cons]
  by_cases h : w = v <;> simp [h, get?]

theorem get?_setDefault (m : Bindings) (w : TypeVar) (t : Ty) (v : TypeVar) :
    (m.setDefault w t).get? v = (m.get? v).or (if w = v then some t else none) := by
  unfold setDefault
  split
  · rename_i hbound
    by_cases h : w = v
    · subst h
      rw [Option.isSome_iff_exists] at hbound
      obtain ⟨u, hu⟩ := hbound
      rw [hu]
      rfl
    · rw [if_neg h, Option.or_none]
  · rw [get?_append, get?_cons]
    rfl

/-- Bindings that are added where there are none yet. -/
def addDefaults (m : Bindings) (bs : List (TypeVar × Ty)) : Bindings :=
  bs.foldl (fun m b => m.setDefault b.1 b.2) m

theorem get?_addDefaults (m : Bindings) (bs : Bindings) (v : TypeVar) :
    (m.addDefaults bs).get? v = (m.get? v).or (bs.get? v) := by
  induction bs generalizing m with
  | nil => exact (Option.or_none ..).symm
  | cons b bs ih =>
    show ((m.setDefault b.1 b.2).addDefaults bs).get? v = _
    rw [ih, get?_setDefault, get?_cons, Option.or_assoc]
    by_cases h : b.1 = v
    · simp [h]
    · simp [h]

theorem within_addDefaults (m : Bindings) (bs : List (TypeVar × Ty)) :
    m.Within (m.addDefaults bs) := by
  intro v t hv
  rw [get?_addDefaults, hv]
  rfl

/-- A type whose variables are bound is the same under all bindings that go on from these. -/
theorem Within.substitute_eq (h : σ.Within m) (hbound : ∀ v ∈ t.freeVars, (σ.get? v).isSome = true) :
    t.substitute m = t.substitute σ := by
  cases hvars : t.freeVars with
  | nil => rw [Ty.substitute_of_closed hvars, Ty.substitute_of_closed hvars]
  | cons w ws =>
    have hget : ∀ v ∈ t.freeVars, m.get? v = σ.get? v := by
      intro v hv
      obtain ⟨u, hu⟩ := Option.isSome_iff_exists.1 (hbound v hv)
      rw [hu, h v u hu]
    have hw : w ∈ t.freeVars := by rw [hvars]; exact List.mem_cons_self
    have hσ : σ ≠ [] := by
      rintro rfl
      cases hbound w hw
    have hm : m ≠ [] := by
      rintro rfl
      have hnone := (hget w hw).symm ▸ hbound w hw
      cases hnone
    exact Ty.substitute_congr hm hσ hget

end Bindings

namespace Program

/-! ## Paths -/

section Paths

variable (Γ : Program) (container : Ty)

/-- The bases of a class in the order of its declaration, as they were spelled. -/
def basesOf : Cls → List Ty
  | .declared c => ((Γ.info? c).map (·.bases)).getD []
  | .builtin _ => []

/-- The class that a base gives arguments to. The mark of generic classes is none. -/
def parametrized? (base : Ty) : Option Cls :=
  match base.origin? with
  | some (.cls (.builtin .generic)) => none
  | some (.cls d) => some d
  | _ => none

/-- What a base passes on to its class, where the variables of the class that spells it stand for
types. -/
def passed (d : Cls) (base : Ty) (σ : Bindings) : Bindings :=
  (Γ.parameters d).zip (base.args.map fun a => a.substitute σ)

/-- The classes above a container, with what their type variables stand for along a path of bases.
A base without arguments passes nothing on. -/
inductive Path : Cls → Bindings → Prop
  | here {k : Cls} : containerClass container = .cls k → Path k (Γ.argumentBindings container)
  | parametrized {c d : Cls} {σ : Bindings} {base : Ty} : Path c σ → base ∈ Γ.basesOf c →
    parametrized? base = some d → Path d (Γ.passed d base σ)
  | bare {c d : Cls} {σ : Bindings} : Path c σ → .cls d ∈ Γ.basesOf c → Path d []

/-- Going up over the bases with arguments that a class, or an ancestor for it, keeps a record of.
-/
inductive Climb : Cls → Bindings → Cls → Bindings → Prop
  | refl {c : Cls} {σ : Bindings} : Climb c σ c σ
  | step {c d e : Cls} {σ τ : Bindings} {base : Ty} : base ∈ Γ.spelledBases c →
    parametrized? base = some d → Climb d (Γ.passed d base σ) e τ → Climb c σ e τ

/-- The class is reached from the container over recorded bases. -/
def RecordedPath (c : Cls) (σ : Bindings) : Prop :=
  ∃ k, containerClass container = .cls k ∧ Γ.Climb k (Γ.argumentBindings container) c σ

/-- One of the bases is the class, with or without arguments. -/
def IsBase (c d : Cls) : Prop :=
  ∃ base ∈ Γ.basesOf c, base = .cls d ∨ parametrized? base = some d

/-- What holds of the classes of every program: no class is above itself, and the bases that are on
record for a class are its own, or those that are on record for one of its bases. -/
structure Inherits : Prop where
  founded : WellFounded fun d c => Γ.IsBase c d
  recorded : ∀ c : ClassRef, Γ.spelledBases (.declared c) = Γ.basesOf (.declared c) ∨
    Γ.spelledBases (.declared c) = [] ∨ ∃ d, .cls d ∈ Γ.basesOf (.declared c) ∧
      Γ.spelledBases (.declared c) = Γ.spelledBases d

/-- On every path, the variables in the arguments of a base stand for types. -/
def Closes : Prop :=
  ∀ ⦃c σ⦄, Γ.Path container c σ → ∀ base ∈ Γ.basesOf c, (parametrized? base).isSome = true →
    ∀ a ∈ base.args, ∀ v ∈ a.freeVars, (σ.get? v).isSome = true

/-- No two paths give a variable different types. -/
def PathsAgree : Prop :=
  ∀ ⦃c d σ τ⦄, Γ.Path container c σ → Γ.Path container d τ → ∀ v s t,
    σ.get? v = some s → τ.get? v = some t → s = t

/-- Every variable that stands for a type along some path does so along a recorded one. -/
def OnRecord : Prop :=
  ∀ ⦃c σ⦄, Γ.Path container c σ → ∀ v, (σ.get? v).isSome = true →
    ∃ d τ, Γ.RecordedPath container d τ ∧ (τ.get? v).isSome = true

/-- What is bound is bound so along a recorded path. -/
def Supported (m : Bindings) : Prop :=
  ∀ v t, m.get? v = some t → ∃ d τ, Γ.RecordedPath container d τ ∧ τ.get? v = some t

end Paths

section Climbing

variable {Γ : Program} {container base : Ty} {c d e : Cls} {m σ τ υ : Bindings}

theorem Climb.trans (h : Γ.Climb c σ d τ) (h' : Γ.Climb d τ e υ) : Γ.Climb c σ e υ := by
  induction h with
  | refl => exact h'
  | step hbase hd _ ih => exact .step hbase hd (ih h')

theorem RecordedPath.step (h : Γ.RecordedPath container c σ) (hbase : base ∈ Γ.spelledBases c)
    (hd : parametrized? base = some d) : Γ.RecordedPath container d (Γ.passed d base σ) := by
  obtain ⟨k, hk, hclimb⟩ := h
  exact ⟨k, hk, hclimb.trans (.step hbase hd .refl)⟩

/-- No base of a builtin class passes anything on. -/
theorem parametrized?_of_builtin {b : Builtin} (hbase : base ∈ Γ.spelledBases (.builtin b)) :
    parametrized? base = none := by
  unfold spelledBases at hbase
  rw [mro_builtin] at hbase
  generalize hfound : List.findSome? _ _ = found at hbase
  cases found with
  | none => cases hbase
  | some bases =>
    obtain ⟨k, hk, hbases⟩ := List.exists_of_findSome?_eq_some hfound
    obtain ⟨b', -, rfl⟩ := List.mem_map.1 hk
    split at hbases
    · rename_i heq
      cases heq
    · cases hbases
      obtain rfl := List.mem_singleton.1 hbase
      rfl
    · cases hbases

/-- A recorded base is one of the class itself, or of a class above it to which nothing was passed
on. -/
theorem exists_base_of_recorded (hΓ : Γ.Inherits) (hc : Γ.Path container c σ)
    (hbase : base ∈ Γ.spelledBases c) (hd : parametrized? base = some d) :
    base ∈ Γ.basesOf c ∨
      ∃ e, Γ.Path container e [] ∧ base ∈ Γ.basesOf e ∧ Relation.TransGen Γ.IsBase c e := by
  induction c using hΓ.founded.induction generalizing σ with
  | _ c ih =>
    cases c with
    | builtin b => cases (parametrized?_of_builtin hbase).symm.trans hd
    | declared r =>
      rcases hΓ.recorded r with hown | hnone | ⟨e, he, hsame⟩
      · exact .inl (hown ▸ hbase)
      · rw [hnone] at hbase
        cases hbase
      · have hstep : Γ.IsBase (.declared r) e := ⟨.cls e, he, .inl rfl⟩
        have hpath : Γ.Path container e [] := .bare hc he
        rcases ih e hstep hpath (hsame ▸ hbase) with hown | ⟨e', hpath', hbase', habove⟩
        · exact .inr ⟨e, hpath, hown, .single hstep⟩
        · exact .inr ⟨e', hpath', hbase', .head hstep habove⟩

/-- Along a recorded base of a class that is reached, there is a path. -/
theorem Path.recorded (hΓ : Γ.Inherits) (hclosed : Γ.Closes container) (hc : Γ.Path container c σ)
    (hbase : base ∈ Γ.spelledBases c) (hd : parametrized? base = some d) :
    Γ.Path container d (Γ.passed d base σ) ∧ Relation.TransGen Γ.IsBase c d ∧
      ∀ a ∈ base.args, ∀ v ∈ a.freeVars, (σ.get? v).isSome = true := by
  have harguments : (parametrized? base).isSome = true := by rw [hd]; rfl
  rcases exists_base_of_recorded hΓ hc hbase hd with hown | ⟨e, hpath, hown, habove⟩
  · exact ⟨.parametrized hc hown hd, .single ⟨base, hown, .inr hd⟩, hclosed hc base hown harguments⟩
  · have hvars : ∀ a ∈ base.args, a.freeVars = [] := by
      intro a ha
      refine List.eq_nil_iff_forall_not_mem.2 fun v hv => ?_
      cases hclosed hpath base hown harguments a ha v hv
    have hsame : Γ.passed d base σ = Γ.passed d base [] := by
      have hargs : base.args.map (fun a => a.substitute σ) =
          base.args.map fun a => a.substitute [] :=
        List.map_congr_left fun a ha => by
          rw [Ty.substitute_of_closed (hvars a ha), Ty.substitute_of_closed (hvars a ha)]
      unfold passed
      rw [hargs]
    refine ⟨hsame ▸ .parametrized hpath hown hd, habove.tail ⟨base, hown, .inr hd⟩, ?_⟩
    intro a ha v hv
    rw [hvars a ha] at hv
    cases hv

theorem RecordedPath.path (hΓ : Γ.Inherits) (hclosed : Γ.Closes container)
    (h : Γ.RecordedPath container c σ) : Γ.Path container c σ := by
  obtain ⟨k, hk, hclimb⟩ := h
  have hstart : Γ.Path container k (Γ.argumentBindings container) := .here hk
  clear hk
  generalize Γ.argumentBindings container = ρ at hclimb hstart
  induction hclimb with
  | refl => exact hstart
  | step hbase hd _ ih => exact ih (Path.recorded hΓ hclosed hstart hbase hd).1

end Climbing

/-! ## Collecting the bindings -/

section Collecting

variable {Γ : Program} {container base : Ty} {c d e : Cls} {m m' σ τ : Bindings}

theorem parametrized?_eq_some_iff :
    parametrized? base = some d ↔ base.origin? = some (.cls d) ∧ d ≠ .builtin .generic := by
  unfold parametrized?
  split
  · rename_i ho
    rw [ho]
    constructor
    · intro h
      cases h
    · rintro ⟨h, hne⟩
      cases h
      exact absurd rfl hne
  · rename_i k hne ho
    rw [ho]
    constructor
    · intro h
      obtain rfl := Option.some.inj h
      exact ⟨rfl, hne⟩
    · rintro ⟨h, -⟩
      cases h
      rfl
  · rename_i hne
    constructor
    · intro h
      cases h
    · rintro ⟨h, -⟩
      exact absurd h (hne d)

/-- What a class and those above it add to bindings, base by base. -/
theorem baseBindings_succ (fuel : Nat) (c : Cls) (m : Bindings) :
    Γ.baseBindings (fuel + 1) c m = (Γ.spelledBases c).foldl (fun m base =>
      match parametrized? base with
      | some d => Γ.baseBindings fuel d (m.addDefaults (Γ.passed d base m))
      | none => m) m := by
  rw [baseBindings]
  congr 1
  funext m base
  cases hd : parametrized? base with
  | some d =>
    obtain ⟨ho, hne⟩ := parametrized?_eq_some_iff.1 hd
    rw [ho]
    split
    · rename_i heq
      cases heq
      exact absurd rfl hne
    · rename_i heq
      cases heq
      rfl
    · rename_i hno
      exact absurd rfl (hno d)
  | none =>
    split
    · rfl
    · rename_i k hne ho
      cases hd.symm.trans (parametrized?_eq_some_iff.2 ⟨ho, hne⟩)
    · rfl

/-- The classes that were gone through to a class: each is declared, and stands below it. -/
structure Trail (Γ : Program) (trail : List Cls) (c : Cls) : Prop where
  nodup : trail.Nodup
  below : ∀ k ∈ trail, Relation.TransGen Γ.IsBase k c
  declared : trail ⊆ Γ.classes.map fun i => .declared i.ref

theorem Trail.length_le {trail : List Cls} (h : Γ.Trail trail c) :
    trail.length ≤ Γ.classes.length := by
  have hle := (h.nodup.subperm h.declared).length_le
  rwa [List.length_map] at hle

theorem declared_of_isBase (h : Γ.IsBase c d) :
    c ∈ Γ.classes.map fun i => Cls.declared i.ref := by
  obtain ⟨base, hbase, -⟩ := h
  cases c with
  | builtin b => cases hbase
  | declared r =>
    unfold basesOf info? at hbase
    dsimp only at hbase
    cases hfound : Γ.classes.find? fun i => decide (i.ref = r) with
    | none =>
      rw [hfound] at hbase
      cases hbase
    | some i =>
      refine List.mem_map.2 ⟨i, List.mem_of_find?_eq_some hfound, ?_⟩
      have hsame := List.find?_some hfound
      rw [of_decide_eq_true hsame]

/-- The trail gets longer by one class with every base. -/
theorem Trail.step (hΓ : Γ.Inherits) {trail : List Cls} (h : Γ.Trail trail c)
    (habove : Relation.TransGen Γ.IsBase c d) : Γ.Trail (c :: trail) d where
  nodup := by
    refine List.nodup_cons.2 ⟨fun hc => ?_, h.nodup⟩
    have hcycle := Relation.transGen_swap.2 (h.below c hc)
    exact (hΓ.founded.transGen.irrefl).irrefl c hcycle
  below k hk := by
    rcases List.mem_cons.1 hk with rfl | hk
    · exact habove
    · exact (h.below k hk).trans habove
  declared := by
    refine List.cons_subset.2 ⟨?_, h.declared⟩
    obtain ⟨k, hk, -⟩ := Relation.TransGen.head'_iff.1 habove
    exact declared_of_isBase hk

/-- Where paths agree, bindings that are added along a recorded path are new, or were there. -/
theorem within_addDefaults_of_agree (hagree : Γ.PathsAgree container)
    (hpath : ∀ {d τ}, Γ.RecordedPath container d τ → Γ.Path container d τ)
    (hm : Γ.Supported container m) (hτ : Γ.RecordedPath container d τ) :
    τ.Within (m.addDefaults τ) ∧ Γ.Supported container (m.addDefaults τ) := by
  constructor
  · intro v t hv
    rw [Bindings.get?_addDefaults]
    cases hbound : m.get? v with
    | none => exact hv
    | some s =>
      obtain ⟨e, υ, hυ, hs⟩ := hm v s hbound
      rw [hagree (hpath hυ) (hpath hτ) v s t hs hv]
      rfl
  · intro v t hv
    rw [Bindings.get?_addDefaults] at hv
    cases hbound : m.get? v with
    | none =>
      rw [hbound] at hv
      exact ⟨d, τ, hτ, hv⟩
    | some s =>
      rw [hbound] at hv
      exact hm v t (hbound ▸ hv)

/-- What collecting bindings keeps: a property of the collected bindings, and that they hold what
the variables of a class stand for where it is reached. -/
structure Gathers (Γ : Program) (container : Ty) (Inv : Bindings → Prop)
    (Held : Bindings → Bindings → Prop) : Prop where
  refl : ∀ m, Held m m
  trans : ∀ {m m' m''}, Held m m' → Held m' m'' → Held m m''
  step : ∀ {c d σ m base}, Γ.RecordedPath container c σ → base ∈ Γ.spelledBases c →
    parametrized? base = some d → Held σ m → Inv m →
      Inv (m.addDefaults (Γ.passed d base m)) ∧ Held m (m.addDefaults (Γ.passed d base m)) ∧
        Held (Γ.passed d base σ) (m.addDefaults (Γ.passed d base m))

variable {Inv : Bindings → Prop} {Held : Bindings → Bindings → Prop}

/-- The bases of a class add to the bindings one after the other. -/
theorem gathers_foldl (h : Γ.Gathers container Inv Held) {fuel : Nat} {bases : List Ty}
    (hstep : ∀ base ∈ bases, ∀ d m, parametrized? base = some d → Held σ m → Inv m →
      let m' := Γ.baseBindings fuel d (m.addDefaults (Γ.passed d base m))
      Inv m' ∧ Held m m' ∧ ∀ e τ, Γ.Climb d (Γ.passed d base σ) e τ → Held τ m')
    (hσ : Held σ m) (hm : Inv m) :
    let m' := bases.foldl (fun m base =>
      match parametrized? base with
      | some d => Γ.baseBindings fuel d (m.addDefaults (Γ.passed d base m))
      | none => m) m
    Inv m' ∧ Held m m' ∧ ∀ base ∈ bases, ∀ d, parametrized? base = some d →
      ∀ e τ, Γ.Climb d (Γ.passed d base σ) e τ → Held τ m' := by
  induction bases generalizing m with
  | nil => exact ⟨hm, h.refl m, fun _ h => nomatch h⟩
  | cons base bases ih =>
    rw [List.foldl_cons]
    have hrest := fun b hb => hstep b (List.mem_cons_of_mem _ hb)
    cases hd : parametrized? base with
    | none =>
      obtain ⟨hinv, hheld, habove⟩ := ih hrest hσ hm
      refine ⟨hinv, hheld, fun b hb d' hd' => ?_⟩
      rcases List.mem_cons.1 hb with rfl | hb
      · cases hd.symm.trans hd'
      · exact habove b hb d' hd'
    | some d =>
      -- what this base adds stays when the bases after it add more
      obtain ⟨hinv, hheld, habove⟩ := hstep base List.mem_cons_self d m hd hσ hm
      obtain ⟨hinv', hlater, habove'⟩ := ih hrest (h.trans hσ hheld) hinv
      refine ⟨hinv', h.trans hheld hlater, fun b hb d' hd' e τ hclimb => ?_⟩
      rcases List.mem_cons.1 hb with rfl | hb
      · obtain rfl := Option.some.inj (hd.symm.trans hd')
        exact h.trans (habove e τ hclimb) hlater
      · exact habove' b hb d' hd' e τ hclimb

/-- What is collected above a class holds what its bases pass on along every recorded path. -/
theorem gathers_baseBindings (hΓ : Γ.Inherits) (hclosed : Γ.Closes container)
    (h : Γ.Gathers container Inv Held) {fuel : Nat} {trail : List Cls}
    (hc : Γ.RecordedPath container c σ) (hσ : Held σ m) (hm : Inv m)
    (htrail : Γ.Trail trail c) (hfuel : fuel + trail.length = Γ.classes.length + 2) :
    Inv (Γ.baseBindings fuel c m) ∧ Held m (Γ.baseBindings fuel c m) ∧
      ∀ e τ, Γ.Climb c σ e τ → Held τ (Γ.baseBindings fuel c m) := by
  induction fuel generalizing c σ m trail with
  | zero =>
    -- The trail would be longer than there are classes.
    have hlength := htrail.length_le
    omega
  | succ fuel ih =>
    have hstep : ∀ base ∈ Γ.spelledBases c, ∀ d m, parametrized? base = some d → Held σ m →
        Inv m →
          let m' := Γ.baseBindings fuel d (m.addDefaults (Γ.passed d base m))
          Inv m' ∧ Held m m' ∧ ∀ e τ, Γ.Climb d (Γ.passed d base σ) e τ → Held τ m' := by
      intro base hbase d m hd hσ hm
      obtain ⟨-, habove, -⟩ := Path.recorded hΓ hclosed (hc.path hΓ hclosed) hbase hd
      obtain ⟨hadded, hkept, hheld⟩ := h.step hc hbase hd hσ hm
      obtain ⟨hinv, hlater, hclimbs⟩ := ih (hc.step hbase hd) hheld hadded
        (htrail.step hΓ habove) (by rw [List.length_cons]; omega)
      exact ⟨hinv, h.trans hkept hlater, hclimbs⟩
    rw [baseBindings_succ]
    obtain ⟨hinv, hheld, habove⟩ := gathers_foldl h hstep hσ hm
    refine ⟨hinv, hheld, fun e τ hclimb => ?_⟩
    cases hclimb with
    | refl => exact h.trans hσ hheld
    | step hbase hd hclimb => exact habove _ hbase _ hd _ _ hclimb

end Collecting

/-! ## What a container shows -/

section Shows

variable {Γ : Program} {container : Ty} {c k : Cls} {m σ τ : Bindings}

theorem argumentBindings_of_not_class (hk : ∀ k, containerClass container ≠ .cls k) :
    Γ.argumentBindings container = [] := by
  unfold argumentBindings
  split
  · rename_i o ho
    refine absurd ?_ (hk o)
    unfold containerClass
    rw [ho]
  · rfl

theorem split_of_class (hk : containerClass container = .cls k) :
    Γ.split container =
      (.cls k, Γ.baseBindings (Γ.classes.length + 2) k (Γ.argumentBindings container)) := by
  unfold split
  rw [hk]

theorem split_of_not_class (hk : ∀ k, containerClass container ≠ .cls k) :
    (Γ.split container).2 = [] := by
  unfold split
  split
  · exact absurd ‹_› (hk _)
  · exact argumentBindings_of_not_class hk

/-- The bindings of a container hold what is passed on along every recorded path. -/
theorem gathers_split (hΓ : Γ.Inherits) (hclosed : Γ.Closes container) {Inv : Bindings → Prop}
    {Held : Bindings → Bindings → Prop} (h : Γ.Gathers container Inv Held)
    (hstart : Inv (Γ.argumentBindings container)) :
    Inv (Γ.split container).2 ∧
      ∀ {c τ}, Γ.RecordedPath container c τ → Held τ (Γ.split container).2 := by
  by_cases hclass : ∃ k, containerClass container = .cls k
  · obtain ⟨k, hk⟩ := hclass
    have htrail : Γ.Trail [] k := ⟨.nil, fun _ h => (nomatch h), List.nil_subset _⟩
    obtain ⟨hinv, -, habove⟩ := gathers_baseBindings hΓ hclosed h ⟨k, hk, .refl⟩ (h.refl _) hstart
      htrail rfl
    rw [split_of_class hk]
    refine ⟨hinv, ?_⟩
    rintro c τ ⟨k', hk', hclimb⟩
    obtain rfl := Ty.cls.inj (hk.symm.trans hk')
    exact habove c τ hclimb
  · rw [argumentBindings_of_not_class (not_exists.1 hclass)] at hstart
    rw [split_of_not_class (not_exists.1 hclass)]
    refine ⟨hstart, ?_⟩
    rintro c τ ⟨k, hk, -⟩
    exact absurd ⟨k, hk⟩ hclass

/-- Where paths agree, what is collected is supported, and holds what it was collected from. -/
theorem gathers_supported (hΓ : Γ.Inherits) (hclosed : Γ.Closes container)
    (hagree : Γ.PathsAgree container) :
    Γ.Gathers container (Γ.Supported container) Bindings.Within where
  refl := .refl
  trans := .trans
  step {c d σ m base} hc hbase hd hσ hm := by
    obtain ⟨-, -, hvars⟩ := Path.recorded hΓ hclosed (hc.path hΓ hclosed) hbase hd
    have hargs : base.args.map (fun a => a.substitute m) =
        base.args.map fun a => a.substitute σ :=
      List.map_congr_left fun a ha => hσ.substitute_eq (hvars a ha)
    have hpassed : Γ.passed d base m = Γ.passed d base σ := by
      unfold passed
      rw [hargs]
    obtain ⟨hwithin, hsupported⟩ := within_addDefaults_of_agree hagree
      (fun h => h.path hΓ hclosed) hm (hc.step hbase hd)
    rw [hpassed]
    exact ⟨hsupported, Bindings.within_addDefaults m _, hwithin⟩

/-- Where paths agree, the bindings of a container hold what is passed on along every recorded path,
and nothing else. -/
theorem collects_split (hΓ : Γ.Inherits) (hclosed : Γ.Closes container)
    (hagree : Γ.PathsAgree container) :
    Γ.Supported container (Γ.split container).2 ∧
      ∀ {c τ}, Γ.RecordedPath container c τ → τ.Within (Γ.split container).2 := by
  refine gathers_split hΓ hclosed (gathers_supported hΓ hclosed hagree) fun v t hv => ?_
  by_cases hclass : ∃ k, containerClass container = .cls k
  · obtain ⟨k, hk⟩ := hclass
    exact ⟨k, _, ⟨k, hk, .refl⟩, hv⟩
  · rw [argumentBindings_of_not_class (not_exists.1 hclass)] at hv
    cases hv

/-- The bindings of the container show every variable as it is passed on along every path. -/
def ShowsPaths (Γ : Program) (container : Ty) : Prop :=
  ∀ ⦃c σ⦄, Γ.Path container c σ → σ.Within (Γ.split container).2

/-- The bindings of a container show all paths exactly where the paths agree and all that they pass
on is passed on along recorded ones. -/
theorem showsPaths_iff_agree (hΓ : Γ.Inherits) (hclosed : Γ.Closes container) :
    Γ.ShowsPaths container ↔ Γ.PathsAgree container ∧ Γ.OnRecord container := by
  constructor
  · intro hshows
    have hagree : Γ.PathsAgree container := by
      intro c d σ τ hσ hτ v s t hs ht
      exact Option.some.inj ((hshows hσ v s hs).symm.trans (hshows hτ v t ht))
    refine ⟨hagree, fun c σ hσ v hv => ?_⟩
    obtain ⟨s, hs⟩ := Option.isSome_iff_exists.1 hv
    obtain ⟨d, τ, hτ, ht⟩ := (collects_split hΓ hclosed hagree).1 v s (hshows hσ v s hs)
    exact ⟨d, τ, hτ, by rw [ht]; rfl⟩
  · rintro ⟨hagree, hrecord⟩ c σ hσ v s hs
    obtain ⟨d, τ, hτ, hv⟩ := hrecord hσ v (by rw [hs]; rfl)
    obtain ⟨t, ht⟩ := Option.isSome_iff_exists.1 hv
    rw [hagree hσ (hτ.path hΓ hclosed) v s t hs ht]
    exact (collects_split hΓ hclosed hagree).2 hτ v t ht

end Shows

end Program

end CallAdapter
