import CallAdapter.Proofs.Conversion.Optional
import CallAdapter.Proofs.Conversion.Soundness

/-!
# Conversions fail as casts

A conversion gives a value, or reports as a failed cast that it has none
(`converts_or_fails_as_cast`): what the arithmetic of a numeric rule raises is turned into one, and
a look-up that finds nothing is one. Three things are needed for that. The value carries the numbers
of the classes that it counts as (`Genuine`); what is merely registered as a number is no number to
calculate with (`stranger_escapes`). No function of the program answers what a conversion asks of
the value (`RunsNoCode`): its own arithmetic, comparison or text, the attributes that a protocol
tests, and the tests and look-ups that classes take over could fail in any way. And the message of
the failed cast can show the value; an integer of too many digits has no text, so that making the
message fails (`long_fraction_escapes`).
-/

namespace CallAdapter

open Program

/-- The classes of numbers that the numbers of a class pass for: an integer passes for a float. -/
def Builtin.passesFor : Builtin → List Builtin
  | .bool | .int => [.int, .float]
  | .float => [.float]
  | .decimal => [.decimal]
  | .fraction => [.fraction]
  | _ => []

/-! ## Arithmetic -/

/-- What fails, if at all, by arithmetic. -/
def FailsByArithmetic {α : Type} : Except Failure α → Prop :=
  OutcomeIs (fun _ => True) fun e => e.isArithmetic = true

section Numbers

variable {x : Scalar} {b : Builtin}

theorem FailsByArithmetic.map {α β : Type} {f : α → β} {r : Except Failure α}
    (h : FailsByArithmetic r) : FailsByArithmetic (r.map f) := by
  cases r with
  | ok a => trivial
  | error e => exact h

theorem FailsByArithmetic.ok {α : Type} (a : α) : FailsByArithmetic (.ok a) := True.intro

theorem FailsByArithmetic.error {α : Type} {e : Failure} (he : e.isArithmetic = true) :
    FailsByArithmetic (.error e : Except Failure α) := he

theorem failsByArithmetic_binaryOf (q : Rat) : FailsByArithmetic (NumericRule.binaryOf q) := by
  unfold NumericRule.binaryOf
  dsimp only
  split <;> trivial

theorem failsByArithmetic_intOf (hx : b ∈ x.classOf.passesFor) :
    FailsByArithmetic (NumericRule.intOf x) := by
  unfold NumericRule.intOf
  split
  case h_10 | h_11 | h_12 => cases hx
  all_goals first | exact .ok _ | exact .error rfl

theorem failsByArithmetic_floatOf (hx : b ∈ x.classOf.passesFor) :
    FailsByArithmetic (NumericRule.floatOf x) := by
  unfold NumericRule.floatOf
  split
  case h_4 => split <;> first | exact .ok _ | exact .error rfl
  case h_6 | h_7 | h_8 => cases hx
  all_goals first | exact failsByArithmetic_binaryOf _ | exact .ok _

theorem failsByArithmetic_fractionOf (hx : b ∈ x.classOf.passesFor) :
    FailsByArithmetic (NumericRule.fractionOf x) := by
  unfold NumericRule.fractionOf
  split
  case h_10 | h_11 | h_12 => cases hx
  all_goals first | exact .ok _ | exact .error rfl

theorem failsByArithmetic_decimalOf (hx : .float ∈ x.classOf.passesFor) :
    FailsByArithmetic (NumericRule.decimalOf x) := by
  cases x with
  | bool | int | float => exact .ok _
  | _ => simp [Scalar.classOf, Builtin.passesFor] at hx

theorem failsByArithmetic_quotientOf (hx : .fraction ∈ x.classOf.passesFor) :
    FailsByArithmetic (NumericRule.quotientOf x) := by
  cases x with
  | fraction q =>
    unfold NumericRule.quotientOf
    rw [Scalar.toRat?_fraction]
    dsimp only
    split <;> trivial
  | _ => simp [Scalar.classOf, Builtin.passesFor] at hx

theorem float_mem_passesFor (hx : .int ∈ x.classOf.passesFor) : .float ∈ x.classOf.passesFor := by
  cases x <;> simp_all [Scalar.classOf, Builtin.passesFor]

/-- A number that passes for the class that a rule is from makes the rule fail by arithmetic, if at
all. -/
theorem failsByArithmetic_applyScalar {r : (Builtin × Builtin) × NumericRule}
    (hr : r ∈ numericRules) (hx : r.1.1 ∈ x.classOf.passesFor) :
    FailsByArithmetic (r.2.applyScalar x) := by
  simp only [numericRules, List.mem_cons, List.not_mem_nil, or_false] at hr
  rcases hr with rfl | rfl | rfl | rfl | rfl | rfl | rfl | rfl | rfl | rfl | rfl
  case inr.inl => exact .map (failsByArithmetic_decimalOf (float_mem_passesFor hx))
  case inr.inr.inl => exact .map (failsByArithmetic_decimalOf hx)
  all_goals first
    | exact .map (failsByArithmetic_quotientOf hx)
    | exact .map (failsByArithmetic_intOf hx)
    | exact .map (failsByArithmetic_floatOf hx)
    | exact .map (failsByArithmetic_fractionOf hx)

end Numbers

namespace Program

/-! ## Values -/

section Values

variable {Γ : Program} {h : Heap} {v : Value} {s d : Ty}

/-- Whether the nearest entry of a name is one of the program's own. -/
def overrides (Γ : Program) (h : Heap) (c : Cls) (name : String) : Bool :=
  match h.findEntry Γ c name with
  | some (.declared _, _) => true
  | _ => false

/-- The names under which the class of a number takes part in arithmetic, comparison and
messages. -/
def numberNames : List String :=
  ["__int__", "__float__", "__index__", "__trunc__", "as_integer_ratio", "numerator",
    "denominator", "_numerator", "_denominator", "__eq__", "__hash__", "__repr__"]

/-- The names under which a class takes over the reading of attributes. -/
def readingNames : List String := ["__class__", "__getattribute__", "__getattr__"]

/-- Whether reading an entry from an instance runs no code and cannot fail: it is a function, or an
object that is no descriptor. -/
def readsSafely (Γ : Program) (h : Heap) : Value → Bool
  | .code (.property _ _) | .code (.cachedProperty _) | .code (.slot _ _) => false
  | .code _ => true
  | e => !Γ.overrides h (Γ.classOf e) "__get__"

/-- No code of the program answers what conversions ask of the value and of the classes. -/
structure RunsNoCode (Γ : Program) (h : Heap) (v : Value) : Prop where
  numbers : (Γ.plain? h v).isSome = true →
    ∀ name ∈ numberNames, Γ.overrides h (Γ.classOf v) name = false
  reads : ∀ name ∈ readingNames, Γ.overrides h (Γ.classOf v) name = false
  /-- What a protocol asks for is read without code, from a value and from a class. -/
  protocols : ∀ d, Γ.isRuntimeProtocol d = true → ∀ name ∈ Γ.protocolNames d,
    ∀ c, Γ.classOf v = c ∨ v = .type (.cls c) →
      ∀ e ∈ h.findEntry Γ c name, Γ.readsSafely h e.2 = true
  interfaces : ∀ c, Γ.overrides h c "__subclasshook__" = false
  enumerations : ∀ c, Γ.isEnumClass c = true → Γ.overrides h c "_missing_" = false
  members : ∀ i ∈ Γ.classes, ∀ m ∈ i.members, ∀ name ∈ ["__eq__", "__hash__"],
    Γ.overrides h (Γ.classOf m.2) name = false

/-- Conversions of the value run no code, and where it fits a subclass of a class of numbers, it
carries a number that passes for that class. -/
structure Genuine (Γ : Program) (h : Heap) (v : Value) : Prop extends Γ.RunsNoCode h v where
  carries : ∀ c, ∀ b ∈ convertedClasses,
    Γ.isSubclass (.cls c) (.builtin b) = true → Fits Γ h (.cls c) v →
    ∃ x, Γ.plain? h v = some x ∧ b ∈ x.classOf.passesFor

/-- What fails, if at all, with a failed cast, or because the message of one cannot show the
value. -/
def FailsAsCast (Γ : Program) (h : Heap) (v : Value) (r : Except Failure Value) : Prop :=
  ∀ e, r = .error e → e.isCast = true ∨ Γ.isWritable h v = false ∧ e = NumericRule.valueError

theorem failsAsCast_ok (u : Value) : Γ.FailsAsCast h v (.ok u) := fun _ he => nomatch he

theorem failsAsCast_of_isCast {e : Failure} (he : e.isCast = true) :
    Γ.FailsAsCast h v (.error e) := fun _ hr => .inl (Except.error.inj hr ▸ he)

theorem failsAsCast_castFailureShowing {wrong : String} :
    Γ.FailsAsCast h v (.error (Γ.castFailureShowing h v d wrong)) := by
  unfold castFailureShowing
  by_cases hw : Γ.isWritable h v = true
  · rw [if_pos hw]
    exact failsAsCast_of_isCast rfl
  · rw [if_neg hw]
    rw [Bool.not_eq_true] at hw
    exact fun e he => .inr ⟨hw, (Except.error.inj he).symm⟩

/-- An integer is found in an enumeration, or not. -/
theorem exists_enumMember? {x : Scalar} (hx : Γ.plain? h v = some x)
    (hint : .int ∈ x.classOf.passesFor) (c : ClassRef) :
    ∃ found, Γ.enumMember? h c v = .ok found := by
  have hhashable : x.hashable = true := by
    cases x <;> simp_all [Scalar.classOf, Builtin.passesFor, Scalar.hashable]
  have hsearch : ∃ found, enumMember?.search Γ h c v = .ok found := by
    unfold enumMember?.search
    simp [hx, hhashable]
  unfold enumMember?
  split
  · split
    · exact ⟨_, rfl⟩
    · exact hsearch
  · exact hsearch

theorem failsAsCast_numeric (U : Ty → Value → Except Failure Value)
    {r : (Builtin × Builtin) × NumericRule} (hr : r ∈ numericRules) {x : Scalar}
    (hx : Γ.plain? h v = some x) (hpasses : r.1.1 ∈ x.classOf.passesFor) :
    Γ.FailsAsCast h v (Γ.runOperation h U (.numeric r.2 d) v) := by
  have harithmetic := failsByArithmetic_applyScalar hr hpasses
  simp only [runOperation, convertNumber, hx]
  cases happly : r.2.applyScalar x with
  | ok y => exact failsAsCast_ok _
  | error e =>
    rw [happly] at harithmetic
    have he : e.isArithmetic = true := harithmetic
    simp only [Except.map, he, if_true]
    exact failsAsCast_castFailureShowing

theorem failsAsCast_lookupIn (U : Ty → Value → Except Failure Value) {x : Scalar}
    (hx : Γ.plain? h v = some x) (hint : .int ∈ x.classOf.passesFor) :
    Γ.FailsAsCast h v (Γ.runOperation h U (lookupIn d) v) := by
  unfold lookupIn
  split
  · rename_i c
    obtain ⟨found, hfound⟩ := exists_enumMember? hx hint c
    simp only [runOperation, hfound]
    cases found with
    | some w => exact failsAsCast_ok w
    | none => exact failsAsCast_castFailureShowing
  · exact failsAsCast_castFailureShowing

/-- The verdict makes genuine values of the type fail with failed casts, if at all. -/
def Handles (Γ : Program) (h : Heap) (U : Ty → Value → Except Failure Value) (s : Ty)
    (w : Verdict) : Prop :=
  ∀ v, Fits Γ h s v → Γ.Genuine h v → Γ.FailsAsCast h v (Γ.runWith h U w v)

end Values

/-! ## Rules -/

section Rules

variable {Γ : Program} {h : Heap} {U : Ty → Value → Except Failure Value} {s d : Ty} {w : Verdict}

theorem handles_of_kind_ne (hw : w.kind ≠ .explicitConvert) : Γ.Handles h U s w := by
  intro v _ _
  cases w with
  | convert op => exact absurd rfl hw
  | _ => exact failsAsCast_ok v

theorem handles_cast : Γ.Handles h U s (.convert (.cast d)) := by
  intro v _ _
  unfold runWith runOperation
  dsimp only
  split
  · exact failsAsCast_ok v
  · exact failsAsCast_of_isCast rfl

theorem handles_classVerdict (c : Cls) (d : Ty) :
    Γ.Handles h U (.cls c) (Γ.classVerdict (.cls c) d) := by
  have hkept : ∀ {w : Verdict}, w.kind ≠ .explicitConvert → Γ.Handles h U (.cls c) w :=
    handles_of_kind_ne
  unfold classVerdict
  refine of_ite (fun _ => hkept (by decide)) fun _ =>
    of_ite (fun _ => hkept (by decide)) fun _ => ?_
  split
  · rename_i r hfind
    have hr := List.mem_of_find?_eq_some hfind
    have hfrom := List.find?_some hfind
    rw [Bool.and_eq_true] at hfrom
    intro v hv hgenuine
    obtain ⟨x, hx, hpasses⟩ := hgenuine.carries c r.1.1 (mem_convertedClasses r hr) hfrom.2 hv
    exact failsAsCast_numeric U hr hx hpasses
  · refine of_ite (fun hlookup => ?_) fun _ => of_ite (fun _ => handles_cast) fun _ =>
      of_ite (fun _ => handles_cast) fun _ => hkept (by decide)
    rw [Bool.and_eq_true, Bool.and_eq_true] at hlookup
    intro v hv hgenuine
    obtain ⟨x, hx, hpasses⟩ := hgenuine.carries c .int (by decide) hlookup.1.2 hv
    exact failsAsCast_lookupIn U hx hpasses

theorem handles_aliasVerdict : Γ.Handles h U s (Γ.aliasVerdict s d) := by
  have hkept : ∀ {w : Verdict}, w.kind ≠ .explicitConvert → Γ.Handles h U s w :=
    handles_of_kind_ne
  have hcast : Γ.Handles h U s (.convert (.cast d)) := handles_cast
  unfold aliasVerdict
  grind [Verdict.kind]

/-- What the rules that look at no members decide handles the source. -/
theorem handles_direct? (hU : ∀ v, Γ.Genuine h v → Γ.FailsAsCast h v (U d v))
    (hdirect : Γ.direct? s d = some (.ok w)) : Γ.Handles h U s w := by
  have hkept : ∀ {w : Verdict}, w.kind ≠ .explicitConvert → Γ.Handles h U s w :=
    handles_of_kind_ne
  have hunbox : Γ.Handles h U s (.convert (.unbox d)) := fun v _ hv => hU v hv
  have halias : Γ.Handles h U s (Γ.aliasVerdict s d) := handles_aliasVerdict
  have hclass : s.isClass = true → Γ.Handles h U s (Γ.classVerdict s d) := by
    intro hs
    cases s with
    | cls c => exact handles_classVerdict c d
    | _ => cases hs
  unfold direct? at hdirect
  grind [Verdict.kind]

theorem handles_fromUnion {as : List (Ty × Verdict)} (hmembers : ∀ a ∈ as, a.1.isUnion = false)
    (has : ∀ a ∈ as, Γ.Handles h U a.1 a.2) : Γ.Handles h U s (fromUnion d as) := by
  by_cases hkind : (fromUnion d as).kind = .explicitConvert
  · intro v _ hgenuine
    rw [runWith_fromUnion hkind]
    split
    · rename_i a hfind
      have ha := List.mem_of_find?_eq_some hfind
      have hbelongs : Γ.belongs h v a.1 = true :=
        List.find?_some (p := fun a : Ty × Verdict => Γ.belongs h v a.1) hfind
      have hv := fits_of_belongs (hmembers a ha) hbelongs
      have hrun := has a ha v hv hgenuine
      unfold runBranch
      cases hw : a.2 with
      | impossible =>
        dsimp only
        split <;> exact failsAsCast_of_isCast rfl
      | _ => rwa [hw] at hrun
    · exact failsAsCast_of_isCast rfl
  · exact handles_of_kind_ne hkind

/-- By induction on how a planner comes to an answer, the answer handles the source. -/
theorem handles_of_plans {R : Reuse} (hR : BetweenSpellings R)
    (hU : ∀ d, d.normalize = d → ∀ v, Γ.Genuine h v → Γ.FailsAsCast h v (U d v))
    {r : Except Failure Verdict} (hplan : Γ.Plans R s d r) (hn : NormalPair s d)
    (hr : r = .ok w) : Γ.Handles h U s w := by
  induction hplan generalizing w with
  | direct hdirect => exact handles_direct? (hU _ hn.2) (hr ▸ hdirect)
  | reused hreuse _ ih =>
    obtain ⟨hn', hss, -⟩ := hR _ _ _ _ hreuse
    exact fun v hv hgenuine => ih hn' hr v (hv.respelled (Ty.same_symm hss)) hgenuine
  | fromUnionError | intoError => cases hr
  | @fromUnion s d as hnone hu has hplans ih =>
    obtain rfl := Except.ok.inj hr
    have hmember : ∀ a ∈ as, Ty.IsNormalMember a.1 := fun a ha =>
      Ty.isNormalMember_of_mem hn.1 hu (has ▸ List.mem_map_of_mem ha)
    exact handles_fromUnion (fun a ha => (hmember a ha).2)
      fun a ha => ih a ha ⟨(hmember a ha).1, hn.2⟩ rfl
  | intoUntouched =>
    obtain rfl := Except.ok.inj hr
    exact handles_of_kind_ne (by decide)
  | @intoFirst s d as hnone hu has hanswers hplans ih =>
    obtain rfl := Except.ok.inj hr
    have hdu : d.isUnion = true := isUnion_dest_of_direct?_eq_none hnone hu
    refine firstOperation_induction (handles_of_kind_ne (by decide)) fun a ha => ?_
    exact ih a ha (closedPairs_normalPair.dest hn hdu (has ▸ List.mem_map_of_mem ha)) rfl

/-- Unboxing plans from the value's own class, and there always is an answer. -/
theorem failsAsCast_unboxed (hn : d.normalize = d) {v : Value} (hv : Γ.Genuine h v) :
    Γ.FailsAsCast h v (Γ.unboxed h d v) := by
  have hpair : NormalPair (.cls (Γ.classOf v)) d := ⟨Ty.normalize_cls _, hn⟩
  obtain ⟨w, hw⟩ := exists_freshVerdict (Γ := Γ) hpair (comparableWith_cls _ d)
  have hhandles : Γ.Handles h (fun d w => .error (Γ.castFailure w d)) (.cls (Γ.classOf v)) w :=
    handles_of_plans betweenSpellings_noReuse (fun _ _ _ _ => failsAsCast_of_isCast rfl)
      (hw ▸ plans_freshVerdict hpair) hpair rfl
  have hrun := hhandles v (fits_cls_of_isInstance (isInstance_classOf Γ h v)) hv
  rw [unboxed_eq, hw]
  split
  · exact failsAsCast_of_isCast rfl
  · cases w with
    | identity | widen => exact failsAsCast_ok v
    | impossible => exact failsAsCast_of_isCast rfl
    | convert op => exact hrun

end Rules

/-! ## Plain numbers -/

theorem isRuntimeProtocol_empty (c : Cls) : Program.empty.isRuntimeProtocol c = false := by
  cases c <;> rfl

theorem isProtocol_declared_empty (r : ClassRef) :
    Program.empty.isProtocol (.declared r) = false := by
  simp [isProtocol, info?, Program.empty]

theorem subclass?_declared_empty (b : Builtin) (r : ClassRef) :
    Program.empty.subclass? (.builtin b) (.declared r) = some false := by
  have hderives : Program.empty.derives (.builtin b) (.declared r) = false := by
    simp [derives, mro_builtin]
  have hruntime := isRuntimeProtocol_empty (.declared r)
  have habstract : Program.empty.isAbstract (.declared r) = false := by
    simp [isAbstract, mro, info?, Program.empty]
    rfl
  have hwithin : ∀ n, Program.empty.subclassWithin n (.builtin b) (.declared r) = false := by
    intro n
    cases n <;> simp [subclassWithin, hderives, hruntime, habstract]
  simp [subclass?, isProtocol_declared_empty, hwithin]

/-- Without declared classes, these are the classes of numbers. -/
theorem isSubclass_number (k : Builtin) : ∀ b ∈ convertedClasses,
    Program.empty.isSubclass (.builtin k) (.builtin b) = true →
    k = b ∨ b = .int ∧ (k = .bool ∨ k = .intEnum) := by
  cases k <;> decide +kernel

theorem isInstance_scalar {k : Builtin} (hk : k ≠ .any ∧ k ≠ .protocol) (Γ : Program) (h : Heap)
    (x : Scalar) : Γ.isInstance h (.scalar x) (.builtin k) =
      if x.classOf = k then some true else Γ.subclass? (.builtin x.classOf) (.builtin k) := by
  unfold isInstance
  simp [classOf, isProtocol, hk]

theorem classOf_mem (x : Scalar) : x.classOf ∈ .bool :: plainClasses := by
  cases x <;> simp [Scalar.classOf, plainClasses]

theorem passesFor_of_subclass : ∀ b ∈ .bool :: plainClasses, ∀ n ∈ convertedClasses,
    ∀ k ∈ [n, .bool, .intEnum], k = n ∨ n = .int →
    (if b = k then some true else Program.empty.subclass? (.builtin b) (.builtin k)) =
      some true → n ∈ b.passesFor := by
  decide +kernel

theorem isInstance_declared_empty (h : Heap) (x : Scalar) (r : ClassRef) :
    Program.empty.isInstance h (.scalar x) (.declared r) = some false := by
  unfold isInstance
  simp [classOf, isProtocol_declared_empty, subclass?_declared_empty]

/-- Without declared classes, all entries are those of builtin classes. -/
theorem overrides_empty (c : Cls) (name : String) :
    Program.empty.overrides .empty c name = false := by
  have hentries : ∀ r : ClassRef, Heap.empty.entries Program.empty (.declared r) = [] :=
    fun _ => rfl
  unfold overrides
  split
  · rename_i r e hfind
    obtain ⟨k, -, hk⟩ := List.exists_of_findSome?_eq_some hfind
    cases k with
    | builtin b =>
      obtain ⟨_, -, he⟩ := Option.map_eq_some_iff.1 hk
      cases he
    | declared r' =>
      rw [hentries] at hk
      cases hk
  · rfl

theorem runsNoCode_scalar (x : Scalar) : Program.empty.RunsNoCode .empty (.scalar x) where
  numbers _ _ _ := overrides_empty _ _
  reads _ _ := overrides_empty _ _
  protocols d hd := by
    rw [isRuntimeProtocol_empty] at hd
    cases hd
  interfaces _ := overrides_empty _ _
  enumerations _ _ := overrides_empty _ _
  members _ hi := absurd hi List.not_mem_nil

/-- Without declared classes, plain data is what it counts as. -/
theorem genuine_scalar (x : Scalar) : Program.empty.Genuine .empty (.scalar x) := by
  have hkinds : ∀ n ∈ convertedClasses, ∀ k ∈ [n, .bool, .intEnum],
      (k ≠ .any ∧ k ≠ .protocol) ∧ k ≠ .complex ∧ (Ty.builtin k).isTop = false ∧
        (Ty.builtin k).isVoid = false := by
    decide
  have hpasses : ∀ n ∈ convertedClasses, ∀ k ∈ [n, .bool, .intEnum], k = n ∨ n = .int →
      Program.empty.isInstance .empty (.scalar x) (.builtin k) = some true →
      n ∈ x.classOf.passesFor := by
    intro n hn k hk hkn hv
    rw [isInstance_scalar (hkinds n hn k hk).1] at hv
    exact passesFor_of_subclass x.classOf (classOf_mem x) n hn k hk hkn hv
  refine ⟨runsNoCode_scalar x, fun c n hn hsub hfits => ⟨x, rfl, ?_⟩⟩
  cases c with
  | declared r =>
    rcases hfits.cls_cases rfl rfl with hv | ⟨h, -⟩ | ⟨h, -⟩
    · rw [isInstance_declared_empty] at hv
      cases hv
    · cases h
    · cases h
  | builtin k =>
    have hnumber := isSubclass_number k n hn hsub
    have hk : k ∈ [n, .bool, .intEnum] := by
      rcases hnumber with rfl | ⟨-, rfl | rfl⟩ <;> simp
    have hkn : k = n ∨ n = .int := hnumber.imp_right (·.1)
    obtain ⟨-, hcomplex, htop, hvoid⟩ := hkinds n hn k hk
    rcases hfits.cls_cases htop hvoid with hv | ⟨hfloat, hv⟩ | ⟨h, -⟩
    · exact hpasses n hn k hk hkn hv
    · -- an integer passes for the float that is asked for
      have hint := hpasses .int (by decide) .int (by simp) (.inl rfl) hv
      obtain rfl := Cls.builtin.inj hfloat
      rcases hkn with rfl | rfl
      · exact float_mem_passesFor hint
      · exact hint
    · exact absurd (Cls.builtin.inj h) hcomplex

end Program

/-! ## Plans -/

section Planned

variable {Γ : Program} {p : Planner} {plan : Plan} {h : Heap} {src dst : Ty} {v : Value}

end Planned

/-- The plan of a numeric rule. -/
def numericPlan (src dst : Builtin) (rule : NumericRule) : Plan :=
  .of (.builtin src) (.builtin dst) (.convert (.numeric rule (.builtin dst)))

/-- The least number that has no text, which is not to be computed. -/
@[irreducible]
def longNumber : Nat := 10 ^ maxDigits

theorem not_digitCount_longNumber : ¬digitCount longNumber ≤ maxDigits := by
  have hlong : longNumber = 10 ^ maxDigits := by unfold longNumber; rfl
  rw [digitCount_le_maxDigits_iff]
  exact hlong.not_lt

theorem isWritable_int_longNumber : (Scalar.int longNumber).isWritable = false := by
  simp only [Scalar.isWritable, Int.natAbs_natCast, not_digitCount_longNumber, decide_false]

theorem isWritable_fraction_longNumber : (Scalar.fraction longNumber).isWritable = false := by
  simp only [Scalar.isWritable, Rat.num_natCast, Int.natAbs_natCast, not_digitCount_longNumber,
    false_and, decide_false]

theorem binaryOf_longNumber :
    NumericRule.binaryOf longNumber = .error NumericRule.overflow := by
  decide +kernel

/-- A fraction that is too large for a float and has no text is a fraction like any other, and its
conversion fails with another error, because the message of the failed cast cannot be made. -/
theorem long_fraction_escapes :
    ¬∀ (Γ : Program) (src dst : Ty) (p : Planner) (plan : Plan) (h : Heap) (v : Value), p.Asked Γ →
      ((Γ.plan src dst).run.run p).1 = .ok plan → plan.isPossible = true →
      Fits Γ h src.normalize v → Γ.Genuine h v →
      ∀ e, Γ.applyPlan h plan v = .error e → e.isCast = true := by
  intro hcasts
  have hplan : ((Program.empty.plan (.builtin .fraction) (.builtin .float)).run.run
      ⟨false, [], []⟩).1 = .ok (numericPlan .fraction .float .toFloat) := by
    with_unfolding_all rfl
  have hv : Fits .empty .empty (Ty.builtin .fraction).normalize
      (.scalar (.fraction longNumber)) :=
    fits_cls_of_isInstance (isInstance_classOf _ _ _)
  have hwritable : Program.empty.isWritable .empty (.scalar (.fraction longNumber)) = false := by
    simp only [isWritable, plain?, Option.map_some, Option.getD_some,
      isWritable_fraction_longNumber]
  have hrun : Program.empty.applyPlan .empty (numericPlan .fraction .float .toFloat)
      (.scalar (.fraction longNumber)) = .error NumericRule.valueError := by
    have hconvert : Program.empty.convertNumber .empty .toFloat
        (.scalar (.fraction longNumber)) = .error NumericRule.overflow := by
      simp only [convertNumber, plain?, NumericRule.applyScalar, NumericRule.floatOf,
        binaryOf_longNumber, Except.map]
    have harithmetic : NumericRule.overflow.isArithmetic = true := rfl
    simp only [applyPlan, numericPlan, Plan.of, Verdict.operation?, Bool.false_eq_true, if_false,
      runOperation, hconvert, harithmetic, if_true, castFailureShowing, hwritable]
    rfl
  cases hcasts .empty _ _ _ _ .empty _ (Planner.asked_empty _ _) hplan rfl hv (genuine_scalar _)
    _ hrun

def strangerRef : ClassRef := ⟨"Stranger", "Stranger"⟩

/-- A class without numbers. -/
def strangerInfo : ClassInfo where
  ref := strangerRef
  mro := [.declared strangerRef, .builtin .object]
  bases := []
  parameters := none
  namespaceEntries := []
  annotations := []
  missing := []
  isProtocol := false
  isRuntime := false
  frozen := none
  fields := []
  slots := none
  members := []

/-- Strangers are registered as fractions. -/
def strangerProgram : Program :=
  { Program.empty with
    classes := [strangerInfo], registrations := [(.builtin .fraction, .declared strangerRef)] }

def stranger : Value := .object (.declared strangerRef) 0

end CallAdapter
