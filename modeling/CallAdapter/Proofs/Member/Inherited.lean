import CallAdapter.Member.Reflection
import CallAdapter.Proofs.Program.Inheritance
import Mathlib

/-!
# Inherited members

A member that a container has from an ancestor is described with the types that the variables of the
ancestor stand for. These are the types that the bases on the paths to the ancestor pass on, exactly
where the paths agree and all of them are on record (`shows_composition_iff`).
-/

namespace CallAdapter

open Program Reflection

/-! ## Annotations -/

namespace Reflection

/-- The functions whose annotations describe an entry. -/
def describingFunctions : Callee → List Nat
  | .function id | .staticMethod id | .classMethod id | .cachedProperty id => [id]
  | .property getter setter => getter.toList ++ setter.toList
  | _ => []

/-- All annotations that describe a found member. -/
def annotationsOf (Γ : Program) (f : Found) : List Ty :=
  (fieldHint? Γ f).toList ++
    match f.entry with
    | some (.code callee) =>
      (describingFunctions callee).flatMap fun id => (Γ.functionHints id).map (·.2)
    | _ => []

section Congr

variable {Γ : Program} {container c : Ty} {m m' : Bindings} {f : Found}

theorem seen_of_closed {t : Ty} (ht : t.normalize.freeVars = []) (m m' : Bindings) :
    seen m t = seen m' t := by
  unfold seen
  rw [Ty.substitute_of_closed ht, Ty.substitute_of_closed ht]

theorem seen_any (m m' : Bindings) : seen m .any = seen m' .any :=
  seen_of_closed (by rw [Ty.normalize_cls]; rfl) m m'

theorem mem_of_hint? {hints : List (String × Ty)} {name : String} {t : Ty}
    (h : Program.hint? hints name = some t) : t ∈ hints.map (·.2) := by
  unfold Program.hint? at h
  obtain ⟨x, hx, rfl⟩ := Option.map_eq_some_iff.1 h
  exact List.mem_map_of_mem (List.mem_of_find?_eq_some hx)

theorem resultType_congr {hints : List (String × Ty)}
    (h : ∀ t ∈ hints.map (·.2), seen m t = seen m' t) (s : Signature) :
    resultType s hints m = resultType s hints m' := by
  unfold resultType
  cases hhint : Program.hint? hints "return" with
  | some t => exact h t (mem_of_hint? hhint)
  | none =>
    dsimp only
    rw [seen_any m m']

theorem parameters_congr {hints : List (String × Ty)}
    (h : ∀ t ∈ hints.map (·.2), seen m t = seen m' t) (ps : ParameterList) :
    parameters ps hints m = parameters ps hints m' := by
  have hdeclared : ∀ name, seen m ((Program.hint? hints name).getD .any) =
      seen m' ((Program.hint? hints name).getD .any) := by
    intro name
    cases hhint : Program.hint? hints name with
    | some t => exact h t (mem_of_hint? hhint)
    | none => exact seen_any m m'
  unfold parameters
  simp only [hdeclared]

theorem hints_congr {callee : Callee} (hentry : f.entry = some (.code callee)) {id : Nat}
    (hid : id ∈ describingFunctions callee)
    (h : ∀ t ∈ annotationsOf Γ f, seen m t = seen m' t) :
    ∀ t ∈ (Γ.functionHints id).map (·.2), seen m t = seen m' t := by
  intro t ht
  refine h t (List.mem_append_right _ ?_)
  rw [hentry]
  exact List.mem_flatMap.2 ⟨id, hid, ht⟩

/-- A procedure is described alike where its annotations are seen alike. -/
theorem procedure?_congr (h : ∀ t ∈ annotationsOf Γ f, seen m t = seen m' t) :
    procedure? Γ container c m f = procedure? Γ container c m' f := by
  unfold procedure?
  cases hentry : f.entry with
  | none => simp only [Option.bind_eq_bind, Option.bind_none]
  | some v =>
    cases v with
    | code callee =>
      have hhints : ∀ t ∈ (hintsOf Γ callee).map (·.2), seen m t = seen m' t := by
        cases callee with
        | function id | staticMethod id | classMethod id =>
          exact hints_congr hentry (List.mem_singleton.2 rfl) h
        | _ => exact fun _ ht => nomatch ht
      simp only [Option.bind_eq_bind, Option.bind_some, parameters_congr hhints,
        resultType_congr hhints]
    | _ => simp only [Option.bind_eq_bind, Option.bind_some]

theorem getterType_congr {callee : Callee} (hentry : f.entry = some (.code callee))
    (h : ∀ t ∈ annotationsOf Γ f, seen m t = seen m' t) {getter : Option Callee}
    (hgetter : ∀ id, getter = some (.function id) → id ∈ describingFunctions callee) :
    getterType Γ m getter = getterType Γ m' getter := by
  unfold getterType
  split
  · rename_i id
    have hhints := hints_congr hentry (hgetter id rfl) h
    split
    · exact resultType_congr hhints _
    · rfl
  · rfl

theorem setterType_congr {callee : Callee} (hentry : f.entry = some (.code callee))
    (h : ∀ t ∈ annotationsOf Γ f, seen m t = seen m' t) {getter : Option Callee}
    {setter : Option Nat}
    (hgetter : ∀ id, getter = some (.function id) → id ∈ describingFunctions callee)
    (hsetter : ∀ id, setter = some id → id ∈ describingFunctions callee) :
    setterType Γ m getter setter = setterType Γ m' getter setter := by
  unfold setterType
  cases hhint : setter.bind (assignedHint? Γ) with
  | none => exact getterType_congr hentry h hgetter
  | some t =>
    obtain ⟨id, hid, hassigned⟩ := Option.bind_eq_some_iff.1 hhint
    refine hints_congr hentry (hsetter id hid) h t ?_
    unfold assignedHint? at hassigned
    obtain ⟨sig, -, hassigned⟩ := Option.bind_eq_some_iff.1 hassigned
    obtain ⟨p, -, hassigned⟩ := Option.bind_eq_some_iff.1 hassigned
    exact mem_of_hint? hassigned

/-- The functions of a property describe it. -/
theorem describes_of_accessorsOf? {entry : Value} {getter : Option Callee} {setter : Option Nat}
    (h : accessorsOf? entry = some (getter, setter)) :
    ∃ callee, entry = .code callee ∧
      (∀ id, getter = some (.function id) → id ∈ describingFunctions callee) ∧
      ∀ id, setter = some id → id ∈ describingFunctions callee := by
  unfold accessorsOf? at h
  split at h
  · cases h
    refine ⟨_, rfl, fun id hid => ?_, fun id hid => ?_⟩
    · obtain ⟨id', rfl, hid'⟩ := Option.map_eq_some_iff.1 hid
      cases hid'
      exact List.mem_append_left _ (List.mem_singleton.2 rfl)
    · subst hid
      exact List.mem_append_right _ (List.mem_singleton.2 rfl)
  · cases h
    refine ⟨_, rfl, fun id hid => ?_, fun id hid => (nomatch hid)⟩
    cases hid
    exact List.mem_singleton.2 rfl
  · cases h
    exact ⟨_, rfl, fun id hid => (nomatch hid), fun id hid => (nomatch hid)⟩
  · cases h

/-- So are a property and a field. -/
theorem property?_congr {entry : Value} (hentry : f.entry = some entry)
    (h : ∀ t ∈ annotationsOf Γ f, seen m t = seen m' t) (receiver : Ty) (isPublic : Bool) :
    property? Γ receiver m f.name isPublic entry = property? Γ receiver m' f.name isPublic entry := by
  unfold property?
  cases haccessors : accessorsOf? entry with
  | none => rfl
  | some accessors =>
    obtain ⟨getter, setter⟩ := accessors
    obtain ⟨callee, rfl, hget, hset⟩ := describes_of_accessorsOf? haccessors
    have hgetter := getterType_congr hentry h hget
    have hsetter := setterType_congr hentry h hget hset
    simp only [Option.map_some, hgetter, hsetter]

theorem field?_congr (h : ∀ t ∈ annotationsOf Γ f, seen m t = seen m' t) :
    field? Γ container c m f = field? Γ container c m' f := by
  have htype : fieldType Γ m f = fieldType Γ m' f := by
    unfold fieldType
    cases hhint : fieldHint? Γ f with
    | none => cases f.entry <;> rfl
    | some t =>
      refine h t (List.mem_append_left _ ?_)
      rw [hhint]
      exact List.mem_singleton.2 rfl
  unfold field?
  rw [htype]

end Congr

end Reflection

/-! ## Seen through a container -/

/-- Every variable of the annotation stands for a type, or does so along no path at all. -/
def Program.Scoped (Γ : Program) (container : Ty) (σ : Bindings) (t : Ty) : Prop :=
  ∀ v ∈ t.normalize.freeVars, (σ.get? v).isSome = true ∨
    ∀ ⦃c τ⦄, Γ.Path container c τ → τ.get? v = none

/-- The found member is described with the types that the bindings give. -/
structure DescribedBy (Γ : Program) (container : Ty) (σ : Bindings) (f : Found) : Prop where
  procedure : procedure? Γ container (Γ.split container).1 (Γ.split container).2 f =
    procedure? Γ container (Γ.split container).1 σ f
  property : ∀ entry, f.entry = some entry → ∀ receiver isPublic,
    property? Γ receiver (Γ.split container).2 f.name isPublic entry =
      property? Γ receiver σ f.name isPublic entry
  field : field? Γ container (Γ.split container).1 (Γ.split container).2 f =
    field? Γ container (Γ.split container).1 σ f

/-- Through the container, the type parameters of an ancestor are seen as what is passed on along the
paths to it: as variables, and in the description of every member that the ancestor has. -/
structure ShowsComposition (Γ : Program) (container : Ty) : Prop where
  parameters : Γ.ShowsPaths container
  members : ∀ ⦃c σ⦄, Γ.Path container c σ → σ ≠ [] → ∀ f : Found, f.owner = c →
    (∀ t ∈ annotationsOf Γ f, Γ.Scoped container σ t) → DescribedBy Γ container σ f

section Composition

variable {Γ : Program} {container t : Ty} {c : Cls} {σ : Bindings}

/-- An annotation is seen as the bindings of its path give it. -/
theorem seen_split_eq (hshows : Γ.ShowsPaths container)
    (hsupported : ∀ v u, (Γ.split container).2.get? v = some u →
      ∃ d τ, Γ.Path container d τ ∧ τ.get? v = some u)
    (hσ : Γ.Path container c σ) (hne : σ ≠ []) (ht : Γ.Scoped container σ t) :
    seen (Γ.split container).2 t = seen σ t := by
  have hwithin := hshows hσ
  have hm : (Γ.split container).2 ≠ [] := by
    intro hnil
    obtain ⟨b, bs, rfl⟩ := List.exists_cons_of_ne_nil hne
    have hb := hwithin b.1 b.2 (by rw [Bindings.get?_cons, if_pos rfl])
    rw [hnil] at hb
    cases hb
  have hget : ∀ v ∈ t.normalize.freeVars, (Γ.split container).2.get? v = σ.get? v := by
    intro v hv
    cases hbound : σ.get? v with
    | some u => exact hwithin v u hbound
    | none =>
      rcases ht v hv with hsome | hnowhere
      · rw [hbound] at hsome
        cases hsome
      · refine Option.eq_none_iff_forall_ne_some.2 fun u hu => ?_
        obtain ⟨d, τ, hτ, huτ⟩ := hsupported v u hu
        cases huτ.symm.trans (hnowhere hτ)
  unfold seen
  rw [Ty.substitute_congr hm hne hget]

/-- Inherited members show the composition of what the bases pass on exactly where no two paths give
a variable different types, and all variables are reached over bases that classes keep on record. -/
theorem shows_composition_iff (hΓ : Γ.Inherits) (hclosed : Γ.Closes container) :
    ShowsComposition Γ container ↔ Γ.PathsAgree container ∧ Γ.OnRecord container := by
  rw [← showsPaths_iff_agree hΓ hclosed]
  refine ⟨fun h => h.parameters, fun hshows => ⟨hshows, ?_⟩⟩
  intro c σ hσ hne f _ hscoped
  have hagree : Γ.PathsAgree container := ((showsPaths_iff_agree hΓ hclosed).1 hshows).1
  have hseen : ∀ t ∈ annotationsOf Γ f, seen (Γ.split container).2 t = seen σ t := by
    intro t ht
    refine seen_split_eq hshows (fun v u hu => ?_) hσ hne (hscoped t ht)
    obtain ⟨d, τ, hτ, huτ⟩ := (collects_split hΓ hclosed hagree).1 v u hu
    exact ⟨d, τ, hτ.path hΓ hclosed, huτ⟩
  exact ⟨procedure?_congr hseen, fun entry hentry _ _ => property?_congr hentry hseen _ _,
    field?_congr hseen⟩

end Composition

/-! ## A box of elements, and a box of lists -/

def boxRef : ClassRef := ⟨"Box", "Box"⟩

def listBoxRef : ClassRef := ⟨"ListBox", "ListBox"⟩

/-- The type parameter of boxes. -/
def elementVar : TypeVar := .named "T"

def listOf (t : Ty) : Ty := .applied (.native (.builtin .list)) [t]

/-- A class of boxes with a function that gives the element. -/
def boxInfo : ClassInfo where
  ref := boxRef
  mro := [.declared boxRef, .builtin .generic, .builtin .object]
  bases := [.applied (.generic (.builtin .generic)) [.var elementVar]]
  parameters := some [elementVar]
  namespaceEntries := [("get", .code (.function 0))]
  annotations := []
  missing := []
  isProtocol := false
  isRuntime := false
  frozen := none
  fields := []
  slots := none
  members := []

/-- The boxes of lists, with a type parameter of their own or with the one of boxes. -/
def listBoxInfo (v : TypeVar) : ClassInfo where
  ref := listBoxRef
  mro := [.declared listBoxRef, .declared boxRef, .builtin .generic, .builtin .object]
  bases := [.applied (.generic (.declared boxRef)) [listOf (.var v)]]
  parameters := some [v]
  namespaceEntries := []
  annotations := []
  missing := []
  isProtocol := false
  isRuntime := false
  frozen := none
  fields := []
  slots := none
  members := []

def boxProgram (v : TypeVar) : Program where
  classes := [boxInfo, listBoxInfo v]
  functions := #[
    { name := "get"
      qualname := "Box.get"
      params := [⟨"self", none, .positional, none⟩]
      returns := some (.var elementVar)
      body := .block []
      abstract := false
      overloaded := false
      hasReceiver := true }]
  registrations := []

/-- The boxes of lists of integers. -/
def intListBox : Ty := .applied (.generic (.declared listBoxRef)) [.builtin .int]

section TwoClasses

variable {Γ : Program} {i j : ClassInfo} {base : Ty} {c : Cls}

theorem info?_of_two (hclasses : Γ.classes = [i, j]) (r : ClassRef) :
    Γ.info? r = if r = i.ref then some i else if r = j.ref then some j else none := by
  have hfind : ∀ k : ClassInfo, decide (k.ref = r) = decide (r = k.ref) :=
    fun k => decide_eq_decide.2 eq_comm
  unfold info?
  rw [hclasses, List.find?_cons, List.find?_cons, List.find?_nil, hfind, hfind]
  by_cases hi : r = i.ref
  · rw [if_pos hi, decide_eq_true hi]
  · rw [if_neg hi, decide_eq_false hi]
    by_cases hj : r = j.ref
    · rw [if_pos hj, decide_eq_true hj]
    · rw [if_neg hj, decide_eq_false hj]

theorem mem_basesOf_of_two (hclasses : Γ.classes = [i, j]) (hbase : base ∈ Γ.basesOf c) :
    (c = .declared i.ref ∧ base ∈ i.bases) ∨ (c = .declared j.ref ∧ base ∈ j.bases) := by
  cases c with
  | builtin b => cases hbase
  | declared r =>
    unfold basesOf at hbase
    dsimp only at hbase
    rw [info?_of_two hclasses] at hbase
    split at hbase
    · rename_i hr
      exact .inl ⟨by rw [hr], hbase⟩
    · split at hbase
      · rename_i hr
        exact .inr ⟨by rw [hr], hbase⟩
      · cases hbase

/-- Other classes have no bases, and none on record. -/
theorem spelledBases_of_two (hclasses : Γ.classes = [i, j]) {r : ClassRef} (hi : r ≠ i.ref)
    (hj : r ≠ j.ref) : Γ.spelledBases (.declared r) = Γ.basesOf (.declared r) := by
  have hnone : Γ.info? r = none := by
    rw [info?_of_two hclasses, if_neg hi, if_neg hj]
  have hmro : Γ.mro (.declared r) = [.declared r, .builtin .object] := by
    unfold mro
    dsimp only
    rw [hnone]
  have hown : Γ.basesOf (.declared r) = [] := by
    unfold basesOf
    dsimp only
    rw [hnone]
    rfl
  unfold spelledBases
  rw [hmro, hown, List.findSome?_cons]
  dsimp only
  rw [hnone]
  rfl

end TwoClasses

section Boxes

variable {v : TypeVar} {base : Ty} {c d : Cls} {σ : Bindings}

/-- Only the boxes of lists have a base with arguments, and it is the class of boxes. -/
theorem base_of_boxProgram (hbase : base ∈ (boxProgram v).basesOf c) :
    (c = .declared listBoxRef ∧ base = .applied (.generic (.declared boxRef)) [listOf (.var v)]) ∨
      (c = .declared boxRef ∧ base = .applied (.generic (.builtin .generic)) [.var elementVar]) := by
  rcases mem_basesOf_of_two rfl hbase with ⟨rfl, hbase⟩ | ⟨rfl, hbase⟩
  · exact .inr ⟨rfl, List.mem_singleton.1 hbase⟩
  · exact .inl ⟨rfl, List.mem_singleton.1 hbase⟩

theorem spelledBases_boxProgram (r : ClassRef) :
    (boxProgram v).spelledBases (.declared r) = (boxProgram v).basesOf (.declared r) := by
  by_cases hbox : r = boxRef
  · subst hbox
    rfl
  by_cases hlist : r = listBoxRef
  · subst hlist
    rfl
  exact spelledBases_of_two rfl hbox hlist

theorem inherits_boxProgram : (boxProgram v).Inherits where
  founded := by
    -- Only the boxes of lists have a base, which has none.
    let rank : Cls → Nat := fun c => if c = .declared listBoxRef then 1 else 0
    refine Subrelation.wf (r := fun d c => rank d < rank c) ?_ (measure rank).wf
    rintro d c ⟨base, hbase, hd⟩
    rcases base_of_boxProgram hbase with ⟨rfl, rfl⟩ | ⟨rfl, rfl⟩
    · rcases hd with hd | hd
      · cases hd
      · cases hd
        decide
    · rcases hd with hd | hd
      · cases hd
      · cases hd
  recorded r := .inl (spelledBases_boxProgram r)

theorem substitute_listOf {t : Ty} (ht : t.converted = t) :
    (listOf (.var v)).substitute [(v, t)] = listOf t := by
  have hget : Bindings.get? [(v, t)] v = some t := by
    rw [Bindings.get?_cons, if_pos rfl]
  have hvars : (listOf (.var v)).freeVars = [v] := rfl
  have hparams : (listOf (.var v)).hasParams = false := rfl
  unfold Ty.substitute
  rw [hvars, hparams]
  simp [listOf, Ty.replaceVars, Ty.replaceAll, hget, Ty.normalize, ht]

theorem passed_listBox :
    (boxProgram v).passed (.declared boxRef) (.applied (.generic (.declared boxRef)) [listOf (.var v)])
      [(v, .builtin .int)] = [(elementVar, listOf (.builtin .int))] := by
  have hparameters : (boxProgram v).parameters (.declared boxRef) = [elementVar] := rfl
  have hargument : (listOf (.var v)).substitute [(v, .builtin .int)] = listOf (.builtin .int) :=
    substitute_listOf rfl
  unfold passed
  rw [hparameters]
  simp [Ty.args, hargument]

/-- There are two classes above the boxes of lists of integers. -/
theorem path_intListBox (h : (boxProgram v).Path intListBox c σ) :
    (c = .declared listBoxRef ∧ σ = [(v, .builtin .int)]) ∨
      (c = .declared boxRef ∧ σ = [(elementVar, listOf (.builtin .int))]) := by
  induction h with
  | here hk =>
    cases hk
    exact .inl ⟨rfl, rfl⟩
  | @parametrized c d σ base _ hbase hd ih =>
    rcases base_of_boxProgram hbase with ⟨rfl, rfl⟩ | ⟨rfl, rfl⟩
    · cases hd
      rcases ih with ⟨-, rfl⟩ | ⟨h, -⟩
      · exact .inr ⟨rfl, passed_listBox⟩
      · exact absurd h (by decide)
    · cases hd
  | @bare c d σ _ hbase ih =>
    rcases base_of_boxProgram hbase with ⟨-, h⟩ | ⟨-, h⟩ <;> cases h

theorem closes_intListBox : (boxProgram v).Closes intListBox := by
  intro c σ hpath base hbase hd a ha w hw
  rcases base_of_boxProgram hbase with ⟨rfl, rfl⟩ | ⟨rfl, rfl⟩
  · rcases path_intListBox hpath with ⟨-, rfl⟩ | ⟨h, -⟩
    · obtain rfl := List.mem_singleton.1 ha
      obtain rfl := List.mem_singleton.1 hw
      rw [Bindings.get?_cons, if_pos rfl]
      rfl
    · exact absurd h (by decide)
  · cases hd

theorem path_box :
    (boxProgram v).Path intListBox (.declared boxRef) [(elementVar, listOf (.builtin .int))] := by
  have hbase : Ty.applied (.generic (.declared boxRef)) [listOf (.var v)] ∈
      (boxProgram v).basesOf (.declared listBoxRef) := List.mem_singleton.2 rfl
  have hstart : (boxProgram v).Path intListBox (.declared listBoxRef) [(v, .builtin .int)] :=
    .here rfl
  have hstep := Path.parametrized hstart hbase (d := .declared boxRef) rfl
  rwa [passed_listBox] at hstep

theorem recordedPath_intListBox (h : (boxProgram v).Path intListBox c σ) :
    (boxProgram v).RecordedPath intListBox c σ := by
  have hstart : (boxProgram v).RecordedPath intListBox (.declared listBoxRef)
      [(v, .builtin .int)] := ⟨_, rfl, .refl⟩
  rcases path_intListBox h with ⟨rfl, rfl⟩ | ⟨rfl, rfl⟩
  · exact hstart
  · have hbase : Ty.applied (.generic (.declared boxRef)) [listOf (.var v)] ∈
        (boxProgram v).spelledBases (.declared listBoxRef) := by
      rw [spelledBases_boxProgram]
      exact List.mem_singleton.2 rfl
    have hstep := hstart.step hbase rfl
    rwa [passed_listBox] at hstep

theorem onRecord_intListBox : (boxProgram v).OnRecord intListBox :=
  fun c σ hpath _ hw => ⟨c, σ, recordedPath_intListBox hpath, hw⟩

/-- The two classes have no variable in common, unless the boxes of lists take the one of boxes. -/
theorem pathsAgree_intListBox (hv : v ≠ elementVar) : (boxProgram v).PathsAgree intListBox := by
  intro c d σ τ hσ hτ w s t hs ht
  rcases path_intListBox hσ with ⟨-, rfl⟩ | ⟨-, rfl⟩
  all_goals
    obtain ⟨rfl, rfl⟩ := Bindings.get?_singleton_eq_some_iff.1 hs
    rcases path_intListBox hτ with ⟨-, rfl⟩ | ⟨-, rfl⟩
    all_goals obtain ⟨hw, rfl⟩ := Bindings.get?_singleton_eq_some_iff.1 ht
  · rfl
  · exact absurd hw.symm hv
  · exact absurd hw hv
  · rfl

end Boxes

/-- With a type parameter of their own, the boxes of lists show the elements of boxes as lists. -/
theorem shows_composition_intListBox :
    ShowsComposition (boxProgram (.named "S")) intListBox ∧
      (procedures (boxProgram (.named "S")) ⟨#[], []⟩ intListBox "get" .standard).map (·.result) =
        [listOf (.builtin .int)] :=
  ⟨(shows_composition_iff inherits_boxProgram closes_intListBox).2
    ⟨pathsAgree_intListBox (by decide), onRecord_intListBox⟩, by with_unfolding_all rfl⟩

/-- With the type parameter of boxes they show the elements of boxes as integers, though boxes are
reached with lists of them. -/
theorem shared_parameter_hides_list :
    (boxProgram elementVar).Inherits ∧ (boxProgram elementVar).Closes intListBox ∧
      (boxProgram elementVar).Path intListBox (.declared boxRef)
        [(elementVar, listOf (.builtin .int))] ∧
      (procedures (boxProgram elementVar) ⟨#[], []⟩ intListBox "get" .standard).map (·.result) =
        [.builtin .int] ∧
      ¬ShowsComposition (boxProgram elementVar) intListBox := by
  refine ⟨inherits_boxProgram, closes_intListBox, path_box, by cbv, fun hshows => ?_⟩
  have hlist := hshows.parameters path_box elementVar _ rfl
  have hint : ((boxProgram elementVar).split intListBox).2.get? elementVar = some (.builtin .int) := by
    cbv
  cases hlist.symm.trans hint

end CallAdapter
