import CallAdapter.Proofs.Builder.Functions
import CallAdapter.Proofs.Member.Guarded
import CallAdapter.Proofs.Member.Inherited

/-!
# Handles and names

A member of a class can be described by a handle on it, the entry of the class itself, and by its
name. Both see functions and properties through the container, and describe them alike. A wrapped
function is described by its handle as it is, without the types that the container binds, so both
descriptions have the same parameters, and they agree where the container binds nothing that shows
(`describe_related`).
-/

namespace CallAdapter

open Program Reflection

/-! ## Descriptions that agree -/

/-- The descriptions show the same scope and the same parameters, up to types. -/
structure Target.Outlines (t u : Target) : Prop where
  isStatic : t.isStatic = u.isStatic
  params : t.params.map (fun p => (p.name, p.kind)) = u.params.map fun p => (p.name, p.kind)

/-- The descriptions are the same up to names and to what they run. -/
structure Target.Agrees (t u : Target) : Prop where
  kind : t.kind = u.kind
  isStatic : t.isStatic = u.isStatic
  receiver : t.isStatic = false → t.declaring = u.declaring
  params : t.params = u.params
  result : t.result = u.result
  assigned : t.assigned = u.assigned
  isGeneric : t.isGeneric = u.isGeneric

/-- Descriptions of one sort whose targets are related. -/
inductive Member.Related (R : Target → Target → Prop) : Member → Member → Prop
  | target {t u : Target} : R t u → Related R (.target t) (.target u)
  | property {p q : PropertyInfo} : p.isStatic = q.isStatic → p.type = q.type →
      Option.Rel R p.getter q.getter → Option.Rel R p.setter q.setter →
      Related R (.property p) (.property q)

namespace Target

variable {t u : Target}

theorem Agrees.refl (t : Target) : t.Agrees t := ⟨rfl, rfl, fun _ => rfl, rfl, rfl, rfl, rfl⟩

theorem Agrees.outlines (h : t.Agrees u) : t.Outlines u := ⟨h.isStatic, by rw [h.params]⟩

/-- Descriptions that agree have the same open type variables. -/
theorem Agrees.marked (h : t.Agrees u) : t.marked.Agrees u.marked := by
  have hopen : t.openVars = u.openVars := by
    unfold openVars
    rw [h.params, h.result, h.assigned]
  have hgeneric : t.marked.isGeneric = u.marked.isGeneric := by
    rw [isGeneric_marked, isGeneric_marked, h.isGeneric, hopen]
  rw [marked_eq t, marked_eq u]
  exact ⟨h.kind, h.isStatic, h.receiver, h.params, h.result, h.assigned, hgeneric⟩

/-- What declares a member of the class is no input of it. -/
theorem Agrees.declaring (h : t.Agrees u) (hstatic : t.isStatic = true) (d : Option Ty) :
    ({ t with declaring := d } : Target).Agrees u :=
  ⟨h.kind, h.isStatic, fun hinstance => by simp [show t.isStatic = false from hinstance] at hstatic,
    h.params, h.result, h.assigned, h.isGeneric⟩

theorem Outlines.marked (h : t.Outlines u) : t.marked.Outlines u.marked := by
  rw [marked_eq t, marked_eq u]
  exact ⟨h.isStatic, h.params⟩

theorem Outlines.declaring (h : t.Outlines u) (d : Option Ty) :
    ({ t with declaring := d } : Target).Outlines u :=
  ⟨h.isStatic, h.params⟩

/-- Descriptions that agree take the same inputs. -/
theorem Agrees.inputs_eq (h : t.Agrees u) : t.inputs = u.inputs := by
  unfold inputs takesReceiver receiverType
  rw [h.kind, h.isStatic, h.params, h.assigned]
  cases hstatic : u.isStatic with
  | true => rfl
  | false => rw [h.receiver (h.isStatic.trans hstatic)]

end Target

theorem Member.Related.mono {R R' : Target → Target → Prop} (hR : ∀ t u, R t u → R' t u)
    {d d' : Member} (h : d.Related R d') : d.Related R' d' := by
  have hrel : ∀ {a b : Option Target}, Option.Rel R a b → Option.Rel R' a b := by
    rintro a b (hab | _)
    · exact .some (hR _ _ hab)
    · exact .none
  cases h with
  | target h => exact .target (hR _ _ h)
  | property hstatic htype hgetter hsetter =>
    exact .property hstatic htype (hrel hgetter) (hrel hsetter)

/-! ## Entries with a handle -/

/-- The entry is a property, or a function that goes by the name, wrapped or not. -/
inductive Callee.GoesBy (Γ : Program) (n : String) : Callee → Prop
  | function {id : Nat} {f : Function} : Γ.function? id = some f → f.name = n →
      GoesBy Γ n (.function id)
  | staticMethod {id : Nat} {f : Function} : Γ.function? id = some f → f.name = n →
      GoesBy Γ n (.staticMethod id)
  | classMethod {id : Nat} {f : Function} : Γ.function? id = some f → f.name = n →
      GoesBy Γ n (.classMethod id)
  | property (getter setter : Option Nat) : GoesBy Γ n (.property getter setter)
  | cachedProperty (id : Nat) : GoesBy Γ n (.cachedProperty id)
  | builtinProperty (b : Builtin) (name : String) : GoesBy Γ n (.builtinProperty b name)

/-- What the container binds does not show in the annotations of a wrapped function. The other
entries are always seen through the container. -/
def Callee.ShowsAlike (Γ : Program) (m : Bindings) : Callee → Prop
  | .staticMethod id | .classMethod id =>
    ∀ a ∈ (Γ.functionHints id).map (·.2), Reflection.seen [] a = Reflection.seen m a
  | _ => True

namespace Reflection

variable {Γ : Program} {h : Heap} {c : Cls} {t : Ty} {m : Bindings} {n : String} {v : Value}
  {binding : SearchMask}

/-! ## The entry of a class by its own name -/

/-- Of definitions of one name only the first is kept. -/
theorem nearest_of_name_eq {f : Found} {fs : List Found} (hfs : ∀ g ∈ fs, g.name = f.name) :
    lookup.nearest (f :: fs) = [f] := by
  unfold lookup.nearest
  rw [List.filter_eq_nil_iff.2]
  intro g hg
  have hmem : g ∈ fs := List.mem_of_find?_eq_some (find?_of_mem_nearest hg)
  simp [hfs g hmem]

/-- A class with an entry is looked into before its ancestors. -/
theorem exists_owners (hown : Γ.OwnFirst) (hentry : h.ownEntry? Γ c n = some v) :
    (Ty.cls c).isClass = true ∧
      ∃ rest, ((Γ.mro c).filter fun o => decide (o ≠ .builtin .object)) = c :: rest := by
  obtain ⟨rest, hrest⟩ := List.head?_eq_some_iff.1 (hown.head?_mro c)
  have hobject : c ≠ .builtin .object := by
    rintro rfl
    cases hentry
  have hgeneric : c ≠ .builtin .generic := by
    rintro rfl
    cases hentry
  constructor
  · unfold Ty.isClass
    split
    · exact absurd (Ty.cls.inj ‹_›) hgeneric
    · rfl
    · rename_i hother
      exact absurd rfl (hother c)
  · rw [hrest, List.filter_cons_of_pos (by simpa using hobject)]
    exact ⟨_, rfl⟩

/-- A class has its own entries before those of its ancestors. -/
theorem findEntry_own (hown : Γ.OwnFirst) (hentry : h.ownEntry? Γ c n = some v) :
    h.findEntry Γ c n = some (c, v) := by
  obtain ⟨rest, hrest⟩ := List.head?_eq_some_iff.1 (hown.head?_mro c)
  exact findEntry_eq_some_iff.2 ⟨[], rest, hrest, hentry, nofun⟩

/-- The first of the names of a class that are one name stands with the entry of the class. -/
theorem exists_listed (hentry : h.ownEntry? Γ c n = some v) :
    ∃ more, (((namesOf Γ h c).filter fun x => x.1 == n).map fun x =>
      (⟨x.1, c, x.2⟩ : Found)) = ⟨n, c, some v⟩ :: more := by
  have hfind := bind_find?_namesOf (Γ := Γ) (h := h) c n
  rw [hentry] at hfind
  obtain ⟨⟨n', o⟩, hfirst, ho⟩ := Option.bind_eq_some_iff.1 hfind
  obtain rfl : n' = n := by simpa using List.find?_some hfirst
  rw [← List.head?_filter] at hfirst
  obtain ⟨more, hmore⟩ := List.head?_eq_some_iff.1 hfirst
  rw [hmore, List.map_cons]
  exact ⟨_, by rw [← ho]⟩

/-- Where spelling counts, the entry of the class is all that a look-up finds by its name. -/
theorem lookup_own (hown : Γ.OwnFirst) (hentry : h.ownEntry? Γ c n = some v)
    (hcase : binding.has .ignoreCase = false) :
    lookup Γ h (.cls c) n binding = [⟨n, c, some v⟩] := by
  obtain ⟨hclass, rest, howners⟩ := exists_owners hown hentry
  obtain ⟨more, hmore⟩ := exists_listed hentry
  have hmatches : ∀ m, binding.nameMatches m n = (m == n) := by
    intro m
    simp [SearchMask.nameMatches, hcase]
  have hname : ∀ o, ∀ g ∈ ((namesOf Γ h o).filter fun x => x.1 == n).map fun x =>
      (⟨x.1, o, x.2⟩ : Found), g.name = n := by
    intro o g hg
    obtain ⟨x, hx, rfl⟩ := List.mem_map.1 hg
    exact eq_of_beq (List.mem_filter.1 hx).2
  have hlists : ∃ others, (if binding.has .declaredOnly then [c]
      else (Γ.mro c).filter fun o => decide (o ≠ .builtin .object)) = c :: others := by
    split
    · exact ⟨[], rfl⟩
    · exact ⟨rest, howners⟩
  obtain ⟨others, hothers⟩ := hlists
  unfold lookup
  rw [hclass]
  simp only [Bool.not_true, Bool.false_eq_true, if_false, hothers, hmatches, List.flatMap_cons,
    hmore, List.cons_append]
  refine nearest_of_name_eq fun g hg => ?_
  rcases List.mem_append.1 hg with hg | hg
  · exact hname c g (hmore ▸ List.mem_cons_of_mem _ hg)
  · obtain ⟨o, -, hg⟩ := List.mem_flatMap.1 hg
    exact hname o g hg

/-! ## Descriptions by name -/

/-- The members that a container has by a name, in whatever scope and however visible. -/
def membersNamed (Γ : Program) (h : Heap) (t : Ty) (n : String) : List Member :=
  (procedures Γ h t n .standard).map .target ++ (properties Γ h t n .standard).map .property

theorem receiverType_self (t : Ty) (c : Cls) : receiverType t (.cls c) c = t := if_pos rfl

section Named

variable (hown : Γ.OwnFirst) (hsplit : Γ.split t = (.cls c, m))
  (hentry : h.ownEntry? Γ c n = some v)

include hown hsplit hentry

theorem procedures_own :
    procedures Γ h t n .standard = (procedure? Γ t (.cls c) m ⟨n, c, some v⟩).toList := by
  unfold procedures
  rw [hsplit]
  dsimp only
  rw [lookup_own hown hentry (by decide)]
  cases hp : procedure? Γ t (.cls c) m ⟨n, c, some v⟩ <;> simp [hp, MemberTable.admits_standard]

theorem properties_own :
    properties Γ h t n .standard = (property? Γ t m n (isPublicName n) v).toList := by
  unfold properties
  rw [hsplit]
  dsimp only
  rw [lookup_own hown hentry (by decide)]
  cases hp : property? Γ t m n (isPublicName n) v <;>
    simp [hp, MemberTable.admits_standard, receiverType_self]

end Named

/-! ## Descriptions by handle -/

section Described

variable {id : Nat} {f : Function} {o : Cls}

theorem functionSignature_eq (hf : Γ.function? id = some f) :
    Γ.functionSignature id =
      some ⟨f.params.map fun p => (p.name, p.passing), f.returns.isSome⟩ := by
  rw [functionSignature, hf]
  rfl

/-- What parameters are called and how they take arguments does not depend on their types. -/
theorem outline_parameters (ps : ParameterList) (hints : List (String × Ty)) (m m' : Bindings) :
    (parameters ps hints m).map (fun p => (p.name, p.kind)) =
      (parameters ps hints m').map fun p => (p.name, p.kind) := by
  unfold parameters
  rw [List.map_filterMap, List.map_filterMap]
  congr 1
  funext p
  cases p.2 <;> rfl

variable (hown : Γ.OwnFirst) (hsplit : Γ.split t = (.cls c, m))

include hown hsplit

theorem describe_function (hentry : h.ownEntry? Γ c n = some (.code (.function id)))
    (hf : Γ.function? id = some f) (hname : f.name = n) :
    describe Γ h (.value (.code (.function id))) (some t) =
      (procedure? Γ t (.cls c) m ⟨n, c, some (.code (.function id))⟩).map .target := by
  have hlookup : lookup Γ h (.cls c) n .empty = [⟨n, c, some (.code (.function id))⟩] :=
    lookup_own hown hentry (by decide)
  unfold describe
  simp only [Option.bind_some, hsplit, hf, Option.map_some, Option.getD_some, hname, hlookup]
  rw [List.find?_cons_of_pos (by simp [isDefinedBy, Callee.function?]), Option.map_some]

omit hown in
theorem describe_property {f : Callee} (hf : (accessorsOf? (.code f)).isSome = true) :
    describe Γ h (.value (.code f)) (some t) =
      (property? Γ t m (propertyName Γ f) (isPublicName (propertyName Γ f)) (.code f)).map
        .property := by
  obtain rfl : (Γ.split t).2 = m := by rw [hsplit]
  cases f <;> first | rfl | cases hf

omit hown hsplit in
/-- A wrapped function is described like the function, without a container. -/
theorem describe_staticMethod (hf : Γ.function? id = some f) (container : Option Ty) :
    describe Γ h (.value (.code (.staticMethod id))) container =
      some (.target (Γ.functionTarget id f)) := by
  show (describeCallable Γ h (.code (.function id))).map Member.target = _
  rw [describeCallable_function hf]
  rfl

omit hown hsplit in
/-- A class method is called bound to the class that was searched. -/
theorem impl_of_classMethod {container k : Ty} {found : Found} {x : Target}
    (hentry : found.entry = some (.code (.classMethod id)))
    (hx : procedure? Γ container k m found = some x) :
    x.impl = .callable (.method (.type k) (.function id)) := by
  unfold procedure? at hx
  cases hsig : Γ.functionSignature id with
  | none => simp [hentry, hsig] at hx
  | some sig =>
    simp only [hentry, hsig, Option.bind_eq_bind, Option.bind_some, Option.some.injEq] at hx
    rw [← hx, Target.impl_marked]

/-- The class method that a class has by its name is the one that its handle calls. -/
theorem describe_classMethod (hf : Γ.function? id = some f) (hname : f.name = n) :
    ∃ o, ∀ h : Heap, h.ownEntry? Γ c n = some (.code (.classMethod id)) →
      describe Γ h (.value (.code (.classMethod id))) (some t) =
        (procedure? Γ t (.cls c) [] ⟨n, o, some (.code (.classMethod id))⟩).map fun x =>
          .target { x with declaring := some t } := by
  refine ⟨.builtin .object, fun h hentry => ?_⟩
  have himpl : classAttribute? Γ h (.cls c) n = some (.method (.type (.cls c)) (.function id)) := by
    show (h.findEntry Γ c n).map _ = _
    rw [findEntry_own hown hentry, Option.map_some]
  unfold describe
  simp only [Option.bind_some, hsplit, hf, Option.map_some, Option.getD_some, hname, himpl]
  refine Option.map_congr fun x hx => ?_
  rw [impl_of_classMethod rfl hx]

end Described

/-! ## Both descriptions -/

section Both

variable {id : Nat} {g : Function} {f : Callee} {o : Cls}

theorem procedure?_function (hg : Γ.function? id = some g) :
    ∃ x, procedure? Γ t (.cls c) m ⟨n, o, some (.code (.function id))⟩ = some x := by
  simp only [procedure?, functionSignature_eq hg, Option.bind_eq_bind, Option.bind_some]
  exact ⟨_, rfl⟩

/-- The function of a wrapped one is described alike with and without a container, up to types. -/
theorem staticMethod_related (hg : Γ.function? id = some g) :
    ∃ x, procedure? Γ t (.cls c) m ⟨n, o, some (.code (.staticMethod id))⟩ = some x ∧
      (Γ.functionTarget id g).Outlines x ∧
      (Callee.ShowsAlike Γ m (.staticMethod id) → (Γ.functionTarget id g).Agrees x) := by
  simp only [procedure?, functionSignature_eq hg, Option.bind_eq_bind, Option.bind_some]
  refine ⟨_, rfl, .marked ⟨rfl, outline_parameters _ _ _ _⟩, fun hshows => .marked ?_⟩
  exact ⟨rfl, rfl, by simp, parameters_congr hshows _, resultType_congr hshows _, rfl, rfl⟩

theorem classMethod_related (hg : Γ.function? id = some g) (o' : Cls) :
    ∃ x y, procedure? Γ t (.cls c) [] ⟨n, o, some (.code (.classMethod id))⟩ = some x ∧
      procedure? Γ t (.cls c) m ⟨n, o', some (.code (.classMethod id))⟩ = some y ∧
      ({ x with declaring := some t } : Target).Outlines y ∧
      (Callee.ShowsAlike Γ m (.classMethod id) →
        ({ x with declaring := some t } : Target).Agrees y) := by
  simp only [procedure?, functionSignature_eq hg, Option.bind_eq_bind, Option.bind_some]
  refine ⟨_, _, rfl, rfl, ?_, fun hshows => ?_⟩
  · refine Target.Outlines.declaring (.marked ?_) _
    exact ⟨rfl, outline_parameters _ _ _ _⟩
  · refine Target.Agrees.declaring (.marked ?_) (Target.isStatic_marked _) _
    exact ⟨rfl, rfl, by simp, parameters_congr hshows _, resultType_congr hshows _, rfl, rfl⟩

/-- A property is described alike by all names. -/
theorem property?_related (hf : (accessorsOf? (.code f)).isSome = true) (receiver : Ty)
    (m : Bindings) (name name' : String) :
    ∃ p q, property? Γ receiver m name (isPublicName name) (.code f) = some p ∧
      property? Γ receiver m name' (isPublicName name') (.code f) = some q ∧
      (Member.property p).Related Target.Agrees (.property q) := by
  obtain ⟨⟨getter, setter⟩, haccessors⟩ := Option.isSome_iff_exists.1 hf
  unfold property?
  rw [haccessors]
  refine ⟨_, _, rfl, rfl, .property rfl rfl ?_ ?_⟩
  · cases getter with
    | none => exact .none
    | some g => exact .some (.marked ⟨rfl, rfl, fun _ => rfl, rfl, rfl, rfl, rfl⟩)
  · cases setter with
    | none => exact .none
    | some id => exact .some (.marked ⟨rfl, rfl, fun _ => rfl, rfl, rfl, rfl, rfl⟩)

/-- A property is no procedure. -/
theorem procedure?_property (hf : (accessorsOf? (.code f)).isSome = true) :
    procedure? Γ t (.cls c) m ⟨n, o, some (.code f)⟩ = none := by
  cases f <;> first | rfl | cases hf

/-- A function, wrapped or not, is no property. -/
theorem property?_function {receiver : Ty} {isPublic : Bool} {k : Nat}
    (hf : Program.Callee.function? f = some k) :
    property? Γ receiver m n isPublic (.code f) = none := by
  cases f <;> first | rfl | cases hf

theorem membersNamed_procedure (hown : Γ.OwnFirst) (hsplit : Γ.split t = (.cls c, m))
    (hentry : h.ownEntry? Γ c n = some (.code f)) {k : Nat}
    (hf : Program.Callee.function? f = some k) {x : Target}
    (hx : procedure? Γ t (.cls c) m ⟨n, c, some (.code f)⟩ = some x) :
    membersNamed Γ h t n = [.target x] := by
  unfold membersNamed
  rw [procedures_own hown hsplit hentry, hx, properties_own hown hsplit hentry,
    property?_function hf]
  rfl

theorem membersNamed_property (hown : Γ.OwnFirst) (hsplit : Γ.split t = (.cls c, m))
    (hentry : h.ownEntry? Γ c n = some (.code f))
    (hf : (accessorsOf? (.code f)).isSome = true) {p : PropertyInfo}
    (hp : property? Γ t m n (isPublicName n) (.code f) = some p) :
    membersNamed Γ h t n = [.property p] := by
  unfold membersNamed
  rw [procedures_own hown hsplit hentry, procedure?_property hf, properties_own hown hsplit hentry,
    hp]
  rfl

/-- The handle is described as the one and the name as the other, wherever the class has the
entry. -/
def DescribesAs (Γ : Program) (t : Ty) (c : Cls) (n : String) (f : Callee) (d d' : Member) : Prop :=
  ∀ h : Heap, h.ownEntry? Γ c n = some (.code f) →
    describe Γ h (.value (.code f)) (some t) = some d ∧ membersNamed Γ h t n = [d']

/-- A handle and the name describe one member, with the same scope and the same parameters. They
describe it alike where the container binds nothing that shows in a wrapped function. -/
theorem describe_related (hown : Γ.OwnFirst) (hsplit : Γ.split t = (.cls c, m))
    (hf : f.GoesBy Γ n) :
    ∃ d d', DescribesAs Γ t c n f d d' ∧ d.Related Target.Outlines d' ∧
      (f.ShowsAlike Γ m → d.Related Target.Agrees d') := by
  have hproperty : (accessorsOf? (.code f)).isSome = true → ∃ d d',
      DescribesAs Γ t c n f d d' ∧ d.Related Target.Agrees d' := by
    intro hf
    obtain ⟨p, q, hp, hq, hpq⟩ := property?_related hf t m (propertyName Γ f) n
    refine ⟨.property p, .property q, fun h hentry => ⟨?_, ?_⟩, hpq⟩
    · rw [describe_property hsplit hf, hp]
      rfl
    · exact membersNamed_property hown hsplit hentry hf hq
  -- one case for each kind of handle; properties are described in one way
  cases hf with
  | @function id g hg hname =>
    obtain ⟨x, hx⟩ := procedure?_function (c := c) (t := t) (m := m) (n := n) (o := c) hg
    refine ⟨.target x, .target x, fun h hentry => ⟨?_, ?_⟩, .target (Target.Agrees.refl x).outlines,
      fun _ => .target (.refl x)⟩
    · rw [describe_function hown hsplit hentry hg hname, hx]
      rfl
    · exact membersNamed_procedure hown hsplit hentry rfl hx
  | @staticMethod id g hg hname =>
    obtain ⟨x, hx, houtlines, hagrees⟩ := staticMethod_related (c := c) (t := t) (m := m) (n := n)
      (o := c) hg
    refine ⟨_, .target x, fun h hentry => ⟨describe_staticMethod hg _, ?_⟩, .target houtlines,
      fun hshows => .target (hagrees hshows)⟩
    exact membersNamed_procedure hown hsplit hentry rfl hx
  | @classMethod id g hg hname =>
    obtain ⟨o, ho⟩ := describe_classMethod hown hsplit hg hname
    obtain ⟨x, y, hx, hy, houtlines, hagrees⟩ := classMethod_related (c := c) (t := t) (m := m)
      (n := n) (o := o) hg c
    refine ⟨_, .target y, fun h hentry => ⟨?_, ?_⟩, .target houtlines,
      fun hshows => .target (hagrees hshows)⟩
    · rw [ho h hentry, hx]
      rfl
    · exact membersNamed_procedure hown hsplit hentry rfl hy
  | property | cachedProperty | builtinProperty =>
    obtain ⟨d, d', hd, hrelated⟩ := hproperty rfl
    exact ⟨d, d', hd, hrelated.mono fun _ _ => Target.Agrees.outlines, fun _ => hrelated⟩

end Both

end Reflection

end CallAdapter
