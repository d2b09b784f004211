import CallAdapter.Proofs.Adapter.Natural
import CallAdapter.Proofs.Member.Receiver
import CallAdapter.Proofs.Program.Ancestors
import CallAdapter.Proofs.Program.Inheritance

/-!
# What a look-up finds

A look-up lists the names of several classes at once and keeps the nearest definition of each
spelling. For one name this is what attribute access does: where the definition that was found has
an entry, access by its name on the class gives the same entry of the same class
(`findEntry_of_mem_lookup`). So a method calls, and a getter of a property runs, the function that
access by the name leads to.
-/

namespace CallAdapter

open Program

/-! ## Nearest definitions -/

/-- What gives nothing can be left out of a search. -/
theorem findSome?_filter_of_none {α β : Type} {f : α → Option β} {p : α → Bool}
    (h : ∀ a, p a = false → f a = none) (as : List α) :
    (as.filter p).findSome? f = as.findSome? f := by
  induction as with
  | nil => rfl
  | cons a as ih =>
    cases hp : p a with
    | true => rw [List.filter_cons_of_pos hp, List.findSome?_cons, List.findSome?_cons, ih]
    | false =>
      rw [List.filter_cons_of_neg (ne_true_of_eq_false hp), List.findSome?_cons, h a hp, ih]

/-- What follows from the first hit is the first hit of what follows. -/
theorem findSome?_bind_of_some {α β γ : Type} {f : α → Option β} {k : β → Option γ} {as : List α}
    {b : β} {c : γ} (hf : as.findSome? f = some b) (hk : k b = some c) :
    (as.findSome? fun a => (f a).bind k) = some c := by
  obtain ⟨before, a, after, rfl, ha, hbefore⟩ := List.findSome?_eq_some_iff.1 hf
  refine List.findSome?_eq_some_iff.2 ⟨before, a, after, rfl, ?_, fun x hx => ?_⟩
  · rw [ha, Option.bind_some, hk]
  · rw [hbefore x hx, Option.bind_none]

namespace Reflection

variable {Γ : Program} {h : Heap} {c o : Cls} {name n : String} {binding : SearchMask} {f : Found}

/-- Of each spelling the first definition is kept. -/
theorem find?_of_mem_nearest {fs : List Found} (hf : f ∈ lookup.nearest fs) :
    fs.find? (fun g => g.name == f.name) = some f := by
  induction fs with
  | nil => cases hf
  | cons g fs ih =>
    unfold lookup.nearest at hf
    rw [List.find?_cons]
    rcases List.mem_cons.1 hf with rfl | hf
    · rw [beq_self_eq_true]
    · obtain ⟨hmem, hname⟩ := List.mem_filter.1 hf
      have hne : (g.name == f.name) = false := by
        rw [Bool.eq_false_iff]
        exact fun heq => bne_iff_ne.1 hname (eq_of_beq heq).symm
      rw [hne]
      exact ih hmem

theorem find?_annotated (ns : List String) (g : String → Option Value) :
    ((ns.map fun m => (m, g m)).find? fun x => x.1 == n) =
      if n ∈ ns then some (n, g n) else none := by
  induction ns with
  | nil => rfl
  | cons m ns ih =>
    rw [List.map_cons, List.find?_cons]
    by_cases hm : m = n
    · subst hm
      rw [beq_self_eq_true, if_pos List.mem_cons_self]
    · have hne : (m == n) = false := beq_eq_false_iff_ne.2 hm
      rw [hne, ih]
      simp [Ne.symm hm]

theorem find?_unannotated (es : List (String × Value)) (p : String → Bool) (hp : p n = true) :
    (((es.filter fun e => p e.1).map fun e => (e.1, some e.2)).find? fun x => x.1 == n) =
      (es.find? fun e => e.1 == n).map fun e => (e.1, some e.2) := by
  rw [List.find?_map, List.find?_filter]
  congr 2
  funext e
  by_cases he : e.1 = n
  · simp [he, hp]
  · simp [he]

/-- The names of a class are listed with the entries that the class has for them. -/
theorem bind_find?_namesOf (o : Cls) (n : String) :
    ((namesOf Γ h o).find? fun x => x.1 == n).bind (·.2) =
      h.ownEntry? Γ o n := by
  unfold namesOf Heap.ownEntry?
  dsimp only
  rw [List.find?_append, find?_annotated]
  split
  · rfl
  · rename_i hn
    have hrest := find?_unannotated (h.entries Γ o)
      (fun m => !((Γ.classHints o).map (·.1)).contains m) (n := n)
      (by rw [Bool.not_eq_true', Bool.eq_false_iff, ne_eq, List.contains_iff_mem]; exact hn)
    rw [hrest, Option.none_or]
    cases (h.entries Γ o).find? fun e => e.1 == n <;> rfl

/-- The definitions that a look-up lists for a class, of one of the names that it matches. -/
theorem find?_listed (hn : binding.nameMatches n name = true) :
    ((((namesOf Γ h o).filter fun x => binding.nameMatches x.1 name).map fun x =>
        (⟨x.1, o, x.2⟩ : Found)).find? fun g => g.name == n) =
      ((namesOf Γ h o).find? fun x => x.1 == n).map fun x => ⟨x.1, o, x.2⟩ := by
  rw [List.find?_map, List.find?_filter]
  congr 2
  funext x
  by_cases hx : x.1 = n
  · simp [hx, hn]
  · simp [hx]

/-- Access by name finds the entries of the definitions that a look-up finds. -/
theorem findEntry_of_mem_lookup
    (hself : binding.has .declaredOnly = true → Γ.OwnFirst)
    (hf : f ∈ lookup Γ h (.cls c) name binding) {v : Value} (hv : f.entry = some v) :
    h.findEntry Γ c f.name = some (f.owner, v) := by
  unfold lookup at hf
  split at hf
  · cases hf
  dsimp only at hf
  have hfind := find?_of_mem_nearest hf
  have hn : binding.nameMatches f.name name = true := by
    obtain ⟨o, -, ho⟩ := List.mem_flatMap.1 (List.mem_of_find?_eq_some hfind)
    obtain ⟨x, hx, rfl⟩ := List.mem_map.1 ho
    exact (List.mem_filter.1 hx).2
  rw [List.find?_flatMap] at hfind
  simp only [find?_listed hn] at hfind
  have hentry := findSome?_bind_of_some (k := fun g => g.entry.map fun v => (g.owner, v)) hfind
    (by rw [hv, Option.map_some])
  have hclass : ∀ o, (((namesOf Γ h o).find? fun x => x.1 == f.name).map fun x =>
        (⟨x.1, o, x.2⟩ : Found)).bind (fun g => g.entry.map fun v => (g.owner, v)) =
      (h.ownEntry? Γ o f.name).map fun v => (o, v) := by
    intro o
    rw [← bind_find?_namesOf]
    cases (namesOf Γ h o).find? fun x => x.1 == f.name <;> rfl
  simp only [hclass] at hentry
  rw [findEntry_eq]
  -- it goes through fewer classes: the first alone, or all but `object`, which lists nothing
  split at hentry
  · rename_i hdeclared
    obtain ⟨rest, hrest⟩ := List.head?_eq_some_iff.1 ((hself hdeclared).head?_mro c)
    rw [hrest, List.findSome?_cons]
    rw [List.findSome?_singleton] at hentry
    rw [hentry]
  · rwa [findSome?_filter_of_none] at hentry
    intro o ho
    obtain rfl : o = .builtin .object := by simpa using ho
    rfl

/-! ## Members of a class -/

theorem exists_split_class (c : Cls) : ∃ m, Γ.split (.cls c) = (.cls c, m) := by
  refine ⟨_, split_of_class ?_⟩
  cases c with
  | declared r => rfl
  | builtin b => cases b <;> rfl

/-- The type of a receiver of a class's member is a class. -/
theorem receiverType_class (c o : Cls) : receiverType (.cls c) (.cls c) o = .cls o := by
  unfold receiverType
  dsimp only
  split
  · rename_i heq
    rw [heq]
  · rfl

theorem normalize_resultType (sig : Signature) (hints : List (String × Ty)) (m : Bindings) :
    (resultType sig hints m).normalize = resultType sig hints m := by
  unfold resultType
  split
  · exact Ty.normalize_normalize _
  · split
    · exact Ty.normalize_normalize _
    · rfl

theorem normalize_parameters {ps : ParameterList} {hints : List (String × Ty)} {m : Bindings}
    {p : Parameter} (hp : p ∈ parameters ps hints m) (hkind : p.kind = .positional) :
    p.type.normalize = p.type := by
  obtain ⟨x, -, hx⟩ := List.mem_filterMap.1 hp
  cases hpassing : x.2 with
  | variadicKeyword =>
    rw [hpassing] at hx
    cases hx
  | variadic =>
    rw [hpassing] at hx
    obtain rfl := Option.some.inj hx
    cases hkind
  | positionalOnly | positional | keyword =>
    rw [hpassing] at hx
    obtain rfl := Option.some.inj hx
    exact Ty.normalize_normalize _

theorem normalize_getterType (m : Bindings) (g : Option Callee) :
    (getterType Γ m g).normalize = getterType Γ m g := by
  unfold getterType
  split
  · split
    · exact normalize_resultType _ _ _
    · rfl
  · rfl

end Reflection

theorem Target.marked_eq (t : Target) : t.marked = { t with isGeneric := t.marked.isGeneric } := by
  unfold marked
  split <;> rfl

theorem Target.name_marked (t : Target) : t.marked.name = t.name := by
  rw [marked_eq]

theorem Target.isStatic_marked (t : Target) : t.marked.isStatic = t.isStatic := by
  rw [marked_eq]

theorem Target.impl_marked (t : Target) : t.marked.impl = t.impl := by
  rw [marked_eq]

/-- The member runs code of a class on its receiver. -/
structure Target.Runs (t : Target) (kind : MemberKind) (o : Cls) (f : Callee) : Prop where
  kind : t.kind = kind
  isStatic : t.isStatic = false
  declaring : t.declaring = some (.cls o)
  impl : t.impl = .callable (.code f)

/-- A procedure that calls a function of a class. -/
structure Target.IsMethod (t : Target) (o : Cls) (f : Callee) : Prop
    extends t.Runs .procedure o f where
  binds : f.Binds
  normal : t.isPlain = true → t.IsNormal

/-- A getter that calls the function behind a property of a class. -/
structure Target.IsGetter (t : Target) (o : Cls) (f : Callee) : Prop
    extends t.Runs .propertyGetter o f where
  params : t.params = []
  normal : t.IsNormal

namespace Target

variable {t : Target} {kind : MemberKind} {o : Cls} {f : Callee}

theorem Runs.takesReceiver (ht : t.Runs kind o f) (hkind : kind ≠ .constructor) :
    t.takesReceiver = true := by
  rw [Target.takesReceiver, ht.isStatic, ht.kind, Bool.not_false, Bool.true_and, bne_iff_ne]
  exact hkind

theorem Runs.inputs_eq (ht : t.Runs kind o f) (hkind : kind ≠ .constructor)
    (hsetter : kind.isSetter = false) : t.inputs = .cls o :: t.params.map (·.type) := by
  unfold inputs
  rw [if_pos (ht.takesReceiver hkind), receiverType, ht.declaring, ht.kind, hsetter,
    if_neg Bool.false_ne_true, List.append_nil]
  rfl

theorem IsMethod.marked (ht : t.IsMethod o f) : t.marked.IsMethod o f := by
  rw [marked_eq]
  exact ⟨⟨ht.kind, ht.isStatic, ht.declaring, ht.impl⟩, ht.binds, ht.normal⟩

theorem IsGetter.marked (ht : t.IsGetter o f) : t.marked.IsGetter o f := by
  rw [marked_eq]
  exact ⟨⟨ht.kind, ht.isStatic, ht.declaring, ht.impl⟩, ht.params, ht.normal⟩

theorem IsMethod.inputs_eq (ht : t.IsMethod o f) : t.inputs = .cls o :: t.params.map (·.type) :=
  ht.toRuns.inputs_eq nofun rfl

theorem IsGetter.inputs_eq (ht : t.IsGetter o f) : t.inputs = [.cls o] := by
  rw [ht.toRuns.inputs_eq nofun rfl, ht.params]
  rfl

end Target

namespace Reflection

variable {Γ : Program} {h : Heap} {c : Cls} {name : String} {binding : SearchMask} {t : Target}

/-- What is described as a procedure of instances is a method. -/
theorem IsProcedure.isMethod {m : Bindings} {f : Found} {callee : Callee} {x : Target}
    (hx : IsProcedure Γ (.cls c) (.cls c) m f callee x) (hinstance : x.isStatic = false) :
    x.IsMethod f.owner callee := by
  obtain ⟨hbinds, himpl⟩ := hx.binds hinstance
  have hruns : x.Runs .procedure f.owner callee :=
    ⟨hx.kind, hinstance, receiverType_class c f.owner ▸ hx.declaring, himpl⟩
  refine ⟨hruns, hbinds, fun hplain => ⟨fun d hd => ?_, ?_⟩⟩
  · rw [hruns.inputs_eq nofun rfl] at hd
    rcases List.mem_cons.1 hd with rfl | hd
    · rfl
    · obtain ⟨p, hp, rfl⟩ := List.mem_map.1 hd
      obtain ⟨ps, hparams⟩ := hx.params
      exact normalize_parameters (hparams ▸ hp) (eq_of_beq (List.all_eq_true.1 hplain p hp))
  · obtain ⟨sig, hresult⟩ := hx.result
    rw [hresult, normalize_resultType]

/-- A procedure of instances calls the entry that access by its name finds on the class. -/
theorem exists_entry_of_mem_procedures
    (hself : binding.has .declaredOnly = true → Γ.OwnFirst)
    (ht : t ∈ procedures Γ h (.cls c) name binding) (hinstance : t.isStatic = false) :
    ∃ o f, h.findEntry Γ c t.name = some (o, .code f) ∧ t.IsMethod o f := by
  obtain ⟨m, hsplit⟩ := exists_split_class (Γ := Γ) c
  unfold procedures at ht
  rw [hsplit] at ht
  obtain ⟨x, hx, hdescribed⟩ := List.mem_filterMap.1 (List.mem_of_mem_filter ht)
  obtain ⟨f, t, rfl, hf⟩ := exists_marked_of_procedure? hdescribed
  rw [Target.isStatic_marked] at hinstance
  have hentry := findEntry_of_mem_lookup hself hx hf.entry
  rw [← hf.name] at hentry
  exact ⟨x.owner, f, t.name_marked ▸ hentry, (hf.isMethod hinstance).marked⟩

/-- The getter of a described property calls the function behind the entry. -/
theorem isGetter_of_property? {o : Cls} {m : Bindings} {isPublic : Bool} {entry : Value}
    {p : PropertyInfo} (hp : property? Γ (.cls o) m name isPublic entry = some p)
    (ht : p.getter = some t) :
    p.name = name ∧ ∃ f s, accessorsOf? entry = some (some f, s) ∧ t.IsGetter o f := by
  unfold property? at hp
  obtain ⟨⟨getter, setter⟩, haccessors, rfl⟩ := Option.map_eq_some_iff.1 hp
  obtain ⟨f, rfl, rfl⟩ := Option.map_eq_some_iff.1 ht
  refine ⟨rfl, f, setter, haccessors, Target.IsGetter.marked ?_⟩
  refine ⟨⟨rfl, rfl, rfl, rfl⟩, rfl, fun d hd => ?_, normalize_getterType m _⟩
  obtain rfl := List.mem_singleton.1 hd
  rfl

/-- A property is the entry that access by its name finds on the class. -/
theorem exists_entry_of_mem_properties {p : PropertyInfo}
    (hself : binding.has .declaredOnly = true → Γ.OwnFirst)
    (hp : p ∈ properties Γ h (.cls c) name binding) (ht : p.getter = some t) :
    ∃ o e f s, h.findEntry Γ c p.name = some (o, e) ∧ accessorsOf? e = some (some f, s) ∧
      t.IsGetter o f := by
  obtain ⟨m, hsplit⟩ := exists_split_class (Γ := Γ) c
  unfold properties at hp
  rw [hsplit] at hp
  obtain ⟨x, hx, hdescribed⟩ := List.mem_filterMap.1 hp
  dsimp only at hdescribed
  split at hdescribed
  · obtain ⟨e, he, hproperty⟩ := Option.bind_eq_some_iff.1 hdescribed
    rw [receiverType_class] at hproperty
    obtain ⟨hname, f, s, haccessors, hgetter⟩ := isGetter_of_property? hproperty ht
    exact ⟨x.owner, e, f, s, hname ▸ findEntry_of_mem_lookup hself hx he, haccessors, hgetter⟩
  · cases hdescribed

/-- A class where an entry is found has entries. -/
theorem not_isCell_of_findEntry {o : Cls} {n : String} {v : Value}
    (h : h.findEntry Γ c n = some (o, v)) : (Ty.cls o).isCell = false := by
  obtain ⟨-, -, -, ho, -⟩ := findEntry_eq_some_iff.1 h
  cases o with
  | declared r => rfl
  | builtin b =>
    cases b with
    | cell => cases ho
    | _ => rfl

end Reflection

end CallAdapter
