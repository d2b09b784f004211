import CallAdapter.Proofs.Conversion.Effect

/-!
# Conversions reach their type

`Fits Γ h t v` says that a value has a type: it is an instance of the class behind it, or one of
the numbers that are taken for floats or complex numbers, or it fits a member of a union. A plan
that is possible takes every value that fits its source to one that fits its destination, or fails
(`fits_of_runVerdict`). Classes answer for themselves whom they accept, so what is needed of them is
stated in `Lawful`.
-/

namespace CallAdapter

open Program

/-- The value has the type. -/
inductive Fits (Γ : Program) (h : Heap) : Ty → Value → Prop
  | top {t : Ty} {v : Value} : t.isTop = true → Fits Γ h t v
  | absent {t : Ty} {v : Value} : t.isVoid = true → v.isNone = true → Fits Γ h t v
  /-- An instance of a class, or of the class behind an alias. -/
  | ofClass {t : Ty} {c : Cls} {v : Value} : t.isUnion = false → t.origin = .cls c →
    Γ.isInstance h v c = some true → Fits Γ h t v
  | intAsFloat {v : Value} :
    Γ.isInstance h v (.builtin .int) = some true → Fits Γ h (.builtin .float) v
  | intAsComplex {v : Value} :
    Γ.isInstance h v (.builtin .int) = some true → Fits Γ h (.builtin .complex) v
  | floatAsComplex {v : Value} :
    Γ.isInstance h v (.builtin .float) = some true → Fits Γ h (.builtin .complex) v
  | member {t m : Ty} {v : Value} : t.isUnion = true → m ∈ t.unionMembers → Fits Γ h m v →
    Fits Γ h t v

/-- Types over the classes `K`: everything, nothing, classes, aliases of classes, and unions. -/
inductive Expressible (K : Cls → Prop) : Ty → Prop
  | top {t : Ty} : t.isTop = true → Expressible K t
  | absent {t : Ty} : t.isVoid = true → Expressible K t
  | ofClass {t : Ty} {c : Cls} : t.isUnion = false → t.origin = .cls c → K c → Expressible K t
  | union {t : Ty} : t.isUnion = true → (∀ m ∈ t.unionMembers, Expressible K m) →
    Expressible K t

/-- Every instance of `c` is one of `d`. -/
def AcceptsAll (Γ : Program) (c d : Cls) : Prop :=
  ∀ h v, Γ.isInstance h v c = some true → Γ.isInstance h v d = some true

/-- What is assumed of classes: being an instance follows from being a subclass, and a class that
takes all floats or all complex numbers takes the numbers that stand for them too. -/
structure Lawful (Γ : Program) (K : Cls → Prop) : Prop where
  int : K (.builtin .int)
  float : K (.builtin .float)
  closed : ∀ c d, K d → Γ.subclass? c d = some true → AcceptsAll Γ c d
  floats : ∀ d, K d → d ≠ .builtin .float → d ≠ .builtin .complex →
    AcceptsAll Γ (.builtin .float) d → AcceptsAll Γ (.builtin .int) d
  complexes : ∀ d, K d → d ≠ .builtin .float → d ≠ .builtin .complex →
    AcceptsAll Γ (.builtin .complex) d →
    AcceptsAll Γ (.builtin .int) d ∧ AcceptsAll Γ (.builtin .float) d

section Fits

variable {Γ : Program} {K : Cls → Prop} {h : Heap} {s d t : Ty} {v : Value}

theorem isInstance_classOf (Γ : Program) (h : Heap) (v : Value) :
    Γ.isInstance h v (Γ.classOf v) = some true := by
  unfold isInstance
  rw [if_pos rfl]

theorem origin_cls (c : Cls) : (Ty.cls c).origin = .cls c := by
  unfold Ty.origin Ty.origin?
  grind

theorem fits_cls_of_isInstance {c : Cls} (hc : Γ.isInstance h v c = some true) :
    Fits Γ h (.cls c) v :=
  .ofClass rfl (origin_cls c) hc

/-- A value fits a class as an instance, or as one of the numbers that stand for others. -/
theorem Fits.cls_cases {c : Cls} (hfits : Fits Γ h (.cls c) v) (htop : (Ty.cls c).isTop = false)
    (hvoid : (Ty.cls c).isVoid = false) :
    Γ.isInstance h v c = some true ∨
      (c = .builtin .float ∧ Γ.isInstance h v (.builtin .int) = some true) ∨
      (c = .builtin .complex ∧ (Γ.isInstance h v (.builtin .int) = some true ∨
        Γ.isInstance h v (.builtin .float) = some true)) := by
  cases hfits with
  | top ht => cases ht.symm.trans htop
  | absent ht _ => cases ht.symm.trans hvoid
  | ofClass _ ho hc =>
    rw [origin_cls] at ho
    exact .inl (Ty.cls.inj ho ▸ hc)
  | intAsFloat hi => exact .inr (.inl ⟨rfl, hi⟩)
  | intAsComplex hi => exact .inr (.inr ⟨rfl, .inl hi⟩)
  | floatAsComplex hf => exact .inr (.inr ⟨rfl, .inr hf⟩)
  | member hu => cases hu

/-- A value fits an alias as an instance of the class behind it. -/
theorem Fits.alias_cases (hfits : Fits Γ h t v) (ht : t.isAlias = true) :
    ∃ c, t.origin = .cls c ∧ Γ.isInstance h v c = some true := by
  cases hfits with
  | top htop =>
    rw [Ty.isTop_iff] at htop
    rcases htop with rfl | rfl <;> cases ht
  | absent hvoid _ =>
    rw [Ty.isVoid_iff] at hvoid
    subst hvoid
    cases ht
  | ofClass _ ho hc => exact ⟨_, ho, hc⟩
  | intAsFloat | intAsComplex | floatAsComplex => cases ht
  | member hu =>
    rw [Ty.isAlias, hu, Bool.not_true, Bool.and_false] at ht
    cases ht

theorem Fits.union_cases (hfits : Fits Γ h t v) (hu : t.isUnion = true) :
    ∃ m ∈ t.unionMembers, Fits Γ h m v := by
  cases hfits with
  | top ht =>
    rw [Ty.isTop_iff] at ht
    rcases ht with rfl | rfl <;> cases hu
  | absent ht _ =>
    rw [Ty.isVoid_iff] at ht
    subst ht
    cases hu
  | ofClass hu' => cases hu.symm.trans hu'
  | intAsFloat | intAsComplex | floatAsComplex => cases hu
  | member _ hm hfits => exact ⟨_, hm, hfits⟩

/-- The spelling of a type does not matter for who fits it. -/
theorem Fits.respelled (hfits : Fits Γ h s v) (hst : s.same t = true) : Fits Γ h t v := by
  induction hfits generalizing t with
  | top hs => exact .top (Ty.isTop_congr hst ▸ hs)
  | absent hs hv => exact .absent (Ty.isVoid_congr hst ▸ hs) hv
  | ofClass hu ho hc =>
    exact .ofClass (Ty.isUnion_congr hst ▸ hu) ((Ty.origin_eq_cls_congr hst hu _).1 ho) hc
  | intAsFloat hi =>
    rw [← Ty.eq_of_isClass hst rfl]
    exact .intAsFloat hi
  | intAsComplex hi =>
    rw [← Ty.eq_of_isClass hst rfl]
    exact .intAsComplex hi
  | floatAsComplex hf =>
    rw [← Ty.eq_of_isClass hst rfl]
    exact .floatAsComplex hf
  | member hu hm _ ih =>
    obtain ⟨n, hn, hmn⟩ := (Ty.unionMembers_congr hst hu).1 _ hm
    exact .member (Ty.isUnion_congr hst ▸ hu) hn (ih hmn)

end Fits

namespace Expressible

variable {K : Cls → Prop} {t : Ty}

/-- The class behind a type that is no union is one of the classes. -/
theorem class_of_origin {c : Cls} (ht : Expressible K t) (ho : t.origin = .cls c)
    (htop : t.isTop = false) (hvoid : t.isVoid = false) (hu : t.isUnion = false) : K c := by
  cases ht with
  | top h => cases h.symm.trans htop
  | absent h => cases h.symm.trans hvoid
  | ofClass _ ho' hK => exact Ty.cls.inj (ho.symm.trans ho') ▸ hK
  | union h => cases h.symm.trans hu

theorem of_mem {m : Ty} (ht : Expressible K t) (hu : t.isUnion = true)
    (hm : m ∈ t.unionMembers) : Expressible K m := by
  cases ht with
  | top h =>
    rw [Ty.isTop_iff] at h
    rcases h with rfl | rfl <;> cases hu
  | absent h =>
    rw [Ty.isVoid_iff] at h
    subst h
    cases hu
  | ofClass h => cases h.symm.trans hu
  | union _ h => exact h m hm

theorem respelled {u : Ty} (ht : Expressible K t) (htu : t.same u = true) : Expressible K u := by
  induction ht generalizing u with
  | top h => exact .top (Ty.isTop_congr htu ▸ h)
  | absent h => exact .absent (Ty.isVoid_congr htu ▸ h)
  | ofClass hu ho hK =>
    exact .ofClass (Ty.isUnion_congr htu ▸ hu) ((Ty.origin_eq_cls_congr htu hu _).1 ho) hK
  | union hu _ ih =>
    refine .union (Ty.isUnion_congr htu ▸ hu) fun n hn => ?_
    obtain ⟨m, hm, hmn⟩ := (Ty.unionMembers_congr htu hu).2 n hn
    exact ih m hm hmn

end Expressible

namespace Program

/-! ## Classes -/

section Classes

variable {Γ : Program} {K : Cls → Prop} {h : Heap} {s d : Ty} {v u : Value}

theorem isSubclass_iff {s d : Ty} :
    Γ.isSubclass s d = true ↔
      ∃ b c, s = .cls b ∧ d = .cls c ∧ s.isClass = true ∧ d.isClass = true ∧
        Γ.subclass? b c = some true := by
  unfold isSubclass
  constructor
  · intro h
    rw [Bool.and_eq_true, Bool.and_eq_true] at h
    obtain ⟨⟨hs, hd⟩, h⟩ := h
    split at h
    · exact ⟨_, _, rfl, rfl, hs, hd, beq_iff_eq.1 h⟩
    · cases h
  · rintro ⟨b, c, rfl, rfl, hs, hd, h⟩
    simp only [hs, hd, h, Bool.and_self, BEq.rfl]

/-- What fits a class fits every class that takes all of its instances, if the class is lawful. -/
theorem fits_of_subclass (hK : Lawful Γ K) {b c : Cls} (hc : K c)
    (hbc : Γ.subclass? b c = some true) (hfits : Fits Γ h (.cls b) v)
    (htop : (Ty.cls b).isTop = false) (hvoid : (Ty.cls b).isVoid = false) (hne : b ≠ c) :
    Fits Γ h (.cls c) v := by
  have haccepts := hK.closed b c hc hbc
  rcases hfits.cls_cases htop hvoid with hv | ⟨rfl, hi⟩ | ⟨rfl, hif⟩
  · exact fits_cls_of_isInstance (haccepts h v hv)
  · by_cases hcc : c = .builtin .complex
    · exact hcc ▸ .intAsComplex hi
    · exact fits_cls_of_isInstance (hK.floats c hc (Ne.symm hne) hcc haccepts h v hi)
  · by_cases hcf : c = .builtin .float
    · subst hcf
      rcases hif with hi | hf
      · exact .intAsFloat hi
      · exact fits_cls_of_isInstance hf
    · obtain ⟨hint, hfloat⟩ := hK.complexes c hc hcf (Ne.symm hne) haccepts
      rcases hif with hi | hf
      · exact fits_cls_of_isInstance (hint h v hi)
      · exact fits_cls_of_isInstance (hfloat h v hf)

/-- An integer fits everything that an integer is taken for without work. -/
theorem fits_of_numericWidening (hK : Lawful Γ K) {b c : Cls} {p : Builtin × Builtin}
    (hp : p ∈ numericWidening) (hfrom : Γ.subclass? b (.builtin p.1) = some true)
    (hto : c = .builtin p.2) (hfits : Fits Γ h (.cls b) v) (htop : (Ty.cls b).isTop = false)
    (hvoid : (Ty.cls b).isVoid = false) (hne : b ≠ c) : Fits Γ h (.cls c) v := by
  subst hto
  have hfloat : ∀ {v}, Fits Γ h (.builtin .float) v → Fits Γ h (.builtin .complex) v := by
    intro v hv
    rcases hv.cls_cases rfl rfl with hf | ⟨-, hi⟩ | ⟨h, -⟩
    · exact .floatAsComplex hf
    · exact .intAsComplex hi
    · cases h
  have hint : ∀ {v}, Fits Γ h (.builtin .int) v → Γ.isInstance h v (.builtin .int) = some true := by
    intro v hv
    rcases hv.cls_cases rfl rfl with hi | ⟨h, -⟩ | ⟨h, -⟩
    · exact hi
    · cases h
    · cases h
  have hsource : p.1 = .int → Γ.isInstance h v (.builtin .int) = some true := by
    intro hp
    rw [hp] at hfrom
    by_cases hb : b = .builtin .int
    · exact hint (by rwa [hb] at hfits)
    · exact hint (fits_of_subclass hK hK.int hfrom hfits htop hvoid hb)
  simp only [numericWidening, List.mem_cons, List.not_mem_nil, or_false] at hp
  rcases hp with rfl | rfl | rfl
  · exact .intAsFloat (hsource rfl)
  · exact .intAsComplex (hsource rfl)
  · refine hfloat ?_
    by_cases hb : b = .builtin .float
    · rwa [hb] at hfits
    · exact fits_of_subclass hK hK.float hfrom hfits htop hvoid hb

/-- Every numeric rule makes a number of the class that it is for. -/
theorem classOf_applyScalar {r : (Builtin × Builtin) × NumericRule} (hr : r ∈ numericRules)
    {x y : Scalar} (hxy : r.2.applyScalar x = .ok y) : y.classOf = r.1.2 := by
  have hmap : ∀ {α : Type} {e : Except Failure α} {f : α → Scalar} {b : Builtin},
      (∀ a, (f a).classOf = b) → e.map f = .ok y → y.classOf = b := by
    intro α e f b hf he
    cases e with
    | error e => cases he
    | ok a =>
      obtain rfl := Except.ok.inj he
      exact hf a
  simp only [numericRules, List.mem_cons, List.not_mem_nil, or_false] at hr
  rcases hr with rfl | rfl | rfl | rfl | rfl | rfl | rfl | rfl | rfl | rfl | rfl <;>
    exact hmap (fun _ => rfl) hxy

theorem fits_of_convertNumber {r : (Builtin × Builtin) × NumericRule} (hr : r ∈ numericRules)
    (hu : Γ.convertNumber h r.2 v = .ok u) : Fits Γ h (.builtin r.1.2) u := by
  unfold convertNumber at hu
  split at hu
  · rename_i x hx
    cases hy : r.2.applyScalar x with
    | error e =>
      rw [hy] at hu
      cases hu
    | ok y =>
      rw [hy] at hu
      obtain rfl := Except.ok.inj hu
      have hclass : Γ.classOf (.scalar y) = .builtin r.1.2 :=
        congrArg Cls.builtin (classOf_applyScalar hr hy)
      exact fits_cls_of_isInstance (hclass ▸ isInstance_classOf Γ h _)
  · cases hu

theorem eq_of_ite_error {α : Type} {p : Prop} [Decidable p] {e : Failure} {a b : α}
    (h : (if p then .error e else .ok a : Except Failure α) = .ok b) : a = b := by
  split at h
  · cases h
  · exact Except.ok.inj h

/-- A look-up finds members of the enumeration. -/
theorem fits_of_enumMember? {c : ClassRef} (hu : Γ.enumMember? h c v = .ok (some u)) :
    Fits Γ h (.cls (.declared c)) u := by
  have hmember : ∀ name, Fits Γ h (.cls (.declared c)) (.member c name) := fun name =>
    fits_cls_of_isInstance (isInstance_classOf Γ h (.member c name))
  have hsearch : ∀ {w}, enumMember?.search Γ h c w = .ok (some u) →
      Fits Γ h (.cls (.declared c)) u := by
    intro w hw
    unfold enumMember?.search at hw
    obtain ⟨m, -, rfl⟩ := Option.map_eq_some_iff.1 (eq_of_ite_error hw)
    exact hmember m.1
  unfold enumMember? at hu
  split at hu
  · split at hu
    · obtain rfl := Option.some.inj (Except.ok.inj hu)
      exact hmember _
    · exact hsearch hu
  · exact hsearch hu

end Classes

/-! ## Rules -/

/-- The verdict is impossible, or takes every value that fits `s` to one that fits `d`. -/
def Reaches (Γ : Program) (h : Heap) (U : Ty → Value → Except Failure Value) (s d : Ty)
    (w : Verdict) : Prop :=
  w ≠ .impossible → ∀ v u, Fits Γ h s v → Γ.runWith h U w v = .ok u → Fits Γ h d u

section Rules

variable {Γ : Program} {K : Cls → Prop} {h : Heap} {U : Ty → Value → Except Failure Value}
  {s d : Ty}

theorem reaches_impossible : Γ.Reaches h U s d .impossible :=
  fun hne => absurd rfl hne

theorem of_ite {α : Type} {P : α → Prop} {p : Prop} [Decidable p] {a b : α} (ha : p → P a)
    (hb : ¬p → P b) : P (if p then a else b) := by
  split
  · exact ha ‹_›
  · exact hb ‹_›

theorem reaches_widen (hfits : ∀ v, Fits Γ h s v → Fits Γ h d v) : Γ.Reaches h U s d .widen := by
  intro _ v u hv hu
  obtain rfl := Except.ok.inj hu
  exact hfits v hv

/-- A checked cast lets instances through. -/
theorem reaches_cast (hd : d.isUnion = false) : Γ.Reaches h U s d (.convert (.cast d)) := by
  intro _ v u _ hu
  simp only [runWith, runOperation] at hu
  split at hu
  · rename_i hinstance
    obtain rfl := Except.ok.inj hu
    unfold isInstanceOf at hinstance
    split at hinstance
    · exact .ofClass hd ‹_› (beq_iff_eq.1 hinstance)
    · cases hinstance
  · cases hu

theorem reaches_numeric {r : (Builtin × Builtin) × NumericRule} (hr : r ∈ numericRules)
    (hd : d = .builtin r.1.2) : Γ.Reaches h U s d (.convert (.numeric r.2 d)) := by
  intro _ v u _ hu
  simp only [runWith, runOperation] at hu
  split at hu
  · rename_i w hw
    obtain rfl := Except.ok.inj hu
    exact hd ▸ fits_of_convertNumber hr hw
  · split at hu <;> cases hu

theorem reaches_lookup : Γ.Reaches h U s d (.convert (lookupIn d)) := by
  intro _ v u _ hu
  unfold lookupIn at hu
  split at hu
  · simp only [runWith, runOperation] at hu
    split at hu
    · rename_i w hw
      obtain rfl := Except.ok.inj hu
      exact fits_of_enumMember? hw
    · cases hu
    · cases hu
  · cases hu

theorem reaches_classVerdict (hK : Lawful Γ K) {b c : Cls} (hc : K c)
    (htop : (Ty.cls b).isTop = false) (hvoid : (Ty.cls b).isVoid = false) (hne : b ≠ c) :
    Γ.Reaches h U (.cls b) (.cls c) (Γ.classVerdict (.cls b) (.cls c)) := by
  have hsub : ∀ {c'}, Γ.isSubclass (.cls b) (.cls c') = true → Γ.subclass? b c' = some true := by
    intro c' hbc
    obtain ⟨b₁, c₁, hb, hc, -, -, hbc⟩ := isSubclass_iff.1 hbc
    rwa [Ty.cls.inj hb, Ty.cls.inj hc]
  have hcast : Γ.Reaches h U (.cls b) (.cls c) (.convert (.cast (.cls c))) := reaches_cast rfl
  unfold classVerdict
  refine of_ite (fun hbc => ?_) fun _ => of_ite (fun hwiden => ?_) fun _ => ?_
  · exact reaches_widen fun v hv => fits_of_subclass hK hc (hsub hbc) hv htop hvoid hne
  · obtain ⟨p, hp, hfromto⟩ := List.any_eq_true.1 hwiden
    rw [Bool.and_eq_true, decide_eq_true_eq] at hfromto
    exact reaches_widen fun v hv =>
      fits_of_numericWidening hK hp (hsub hfromto.1) hfromto.2 hv htop hvoid hne
  split
  · rename_i r hr
    have hto := List.find?_some hr
    rw [Bool.and_eq_true, decide_eq_true_eq] at hto
    exact reaches_numeric (List.mem_of_find?_eq_some hr) (congrArg Ty.cls hto.1)
  · exact of_ite (fun _ => reaches_lookup) fun _ => of_ite (fun _ => hcast) fun _ =>
      of_ite (fun _ => hcast) fun _ => reaches_impossible

/-- Where an alias is on one side, values of the source are instances of the class behind it, or
the destination checks them. -/
theorem reaches_aliasVerdict (hK : Lawful Γ K) (hd : Expressible K d) (hdtop : d.isTop = false)
    (hdvoid : d.isVoid = false) (hdu : d.isUnion = false)
    (halias : s.isAlias = true ∨ d.isAlias = true) :
    Γ.Reaches h U s d (Γ.aliasVerdict s d) := by
  have hcast : Γ.Reaches h U s d (.convert (.cast d)) := reaches_cast hdu
  have hwiden : s.isAlias = true → Γ.isSubclass s.origin d.origin = true →
      Γ.Reaches h U s d .widen := by
    intro hsa hsub
    refine reaches_widen fun v hv => ?_
    obtain ⟨b, c, hb, hc, -, -, hbc⟩ := isSubclass_iff.1 hsub
    obtain ⟨b', hb', hv⟩ := hv.alias_cases hsa
    rw [Ty.cls.inj (hb'.symm.trans hb)] at hv
    exact .ofClass hdu hc
      (hK.closed b c (hd.class_of_origin hc hdtop hdvoid hdu) hbc h v hv)
  unfold aliasVerdict
  refine of_ite (fun _ => reaches_impossible) fun _ => of_ite (fun hda => ?_) fun _ =>
    of_ite (fun _ => ?_) fun hsa => of_ite (fun _ => reaches_impossible) fun _ =>
    of_ite (fun hsub => ?_) fun _ => of_ite (fun _ => hcast) fun _ => reaches_impossible
  · have hsa : s.isAlias = true := halias.resolve_right (by simpa using hda)
    exact of_ite (hwiden hsa) fun _ => of_ite (fun _ => hcast) fun _ =>
      reaches_impossible
  · exact of_ite (fun _ => hcast) fun _ => reaches_impossible
  · exact hwiden (by simpa using hsa) hsub

/-- An absent value fits an optional type. -/
theorem fits_of_isOptional {v : Value} (hv : Fits Γ h .none v) (hd : d.isOptional = true) :
    Fits Γ h d v := by
  rw [Ty.isOptional, Bool.and_eq_true, List.any_eq_true] at hd
  obtain ⟨hdu, m, hm, hvoid⟩ := hd
  exact .member hdu hm ((Ty.isVoid_iff m).1 hvoid ▸ hv)

/-- Whatever the rules that look at no members decide reaches the destination. -/
def DirectReaches (Γ : Program) (h : Heap) (U : Ty → Value → Except Failure Value) (s d : Ty)
    (o : Option (Except Failure Verdict)) : Prop :=
  ∀ w, o = some (.ok w) → Γ.Reaches h U s d w

theorem Reaches.decided {w : Verdict} (hw : Γ.Reaches h U s d w) :
    Γ.DirectReaches h U s d (some (.ok w)) := by
  intro w' hww'
  rwa [← Except.ok.inj (Option.some.inj hww')]

theorem directReaches_direct? (hK : Lawful Γ K) (hd : Expressible K d)
    (hU : ∀ v u, U d v = .ok u → Fits Γ h d u) :
    Γ.DirectReaches h U s d (Γ.direct? s d) := by
  unfold direct?
  -- one case for each rule, in the order in which the rules are asked
  refine of_ite (fun _ _ h => by cases h) fun _ => of_ite (fun hsame => ?_) fun hsame =>
    of_ite (fun htop => ?_) fun hdtop => of_ite (fun hsvoid => ?_) fun hsvoid =>
    of_ite (fun _ => reaches_impossible.decided) fun hdvoid => of_ite (fun _ => ?_) fun hstop =>
    of_ite (fun _ _ h => by cases h) fun hu => ?_
  · refine Reaches.decided fun _ v u hv hu => ?_
    obtain rfl := Except.ok.inj hu
    exact hv.respelled hsame
  · exact (reaches_widen fun v _ => .top htop).decided
  · obtain rfl := (Ty.isVoid_iff s).1 hsvoid
    refine Reaches.decided (of_ite (fun hopt => ?_) fun _ => reaches_impossible)
    exact reaches_widen fun v hv => fits_of_isOptional hv hopt
  · exact Reaches.decided fun _ v u _ hu => hU v u hu
  rw [Bool.or_eq_true, not_or, Bool.not_eq_true, Bool.not_eq_true] at hu
  rw [Bool.not_eq_true] at hsame hdtop hsvoid hdvoid hstop
  refine of_ite (fun halias => ?_) fun _ => of_ite (fun hclass => ?_) fun _ =>
    reaches_impossible.decided
  · rw [Bool.or_eq_true] at halias
    exact (reaches_aliasVerdict hK hd hdtop hdvoid hu.2 halias).decided
  · rw [Bool.and_eq_true] at hclass
    cases s with
    | cls b =>
      cases d with
      | cls c =>
        have hne : b ≠ c := by
          rintro rfl
          rw [Ty.same_refl] at hsame
          cases hsame
        have hc := hd.class_of_origin (origin_cls c) hdtop hdvoid rfl
        exact (reaches_classVerdict hK hc hstop hsvoid hne).decided
      | _ => cases hclass.2
    | _ => cases hclass.1

/-- A value that is taken to be of a member fits it. -/
theorem fits_of_belongs {v : Value} {m : Ty} (hm : m.isUnion = false)
    (hv : Γ.belongs h v m = true) : Fits Γ h m v := by
  unfold belongs at hv
  split at hv
  · exact .absent ‹_› hv
  · unfold isInstanceOf at hv
    split at hv
    · exact .ofClass hm ‹_› (beq_iff_eq.1 hv)
    · cases hv

/-- A union as a source reaches what all its members reach. -/
theorem reaches_fromUnion {as : List (Ty × Verdict)} (hs : s.isUnion = true)
    (has : as.map (·.1) = s.unionMembers) (hmembers : ∀ a ∈ as, a.1.isUnion = false)
    (hreaches : ∀ a ∈ as, Γ.Reaches h U a.1 d a.2) : Γ.Reaches h U s d (fromUnion d as) := by
  intro hne v u hv hu
  by_cases hkind : (fromUnion d as).kind = .explicitConvert
  · rw [runWith_fromUnion hkind] at hu
    split at hu
    · rename_i a hfind
      obtain ⟨m, w⟩ := a
      have ha := List.mem_of_find?_eq_some hfind
      have hbelongs := List.find?_some hfind
      dsimp only at hbelongs
      have hvm := fits_of_belongs (hmembers _ ha) hbelongs
      cases w with
      | impossible =>
        simp only [runBranch] at hu
        split at hu <;> cases hu
      | _ => exact hreaches _ ha (by simp) v u hvm hu
    · cases hu
  · -- every member is reached untouched, whichever one the value fits
    have hwiden : (as.all fun a => a.2.isImplicit) = true := by
      unfold fromUnion at hkind hne
      by_contra hall
      rw [if_neg hall] at hkind hne
      split at hne
      · exact hne rfl
      · rw [if_neg ‹_›] at hkind
        exact hkind rfl
    obtain ⟨m, hm, hvm⟩ := hv.union_cases hs
    rw [← has] at hm
    obtain ⟨a, ha, rfl⟩ := List.mem_map.1 hm
    have himplicit := List.all_eq_true.1 hwiden a ha
    have hrun : Γ.runWith h U (fromUnion d as) v = .ok v := by
      rw [fromUnion, if_pos hwiden]
      rfl
    obtain rfl := Except.ok.inj (hrun.symm.trans hu)
    refine hreaches a ha ?_ v v hvm ?_
    · intro himpossible
      rw [himpossible] at himplicit
      cases himplicit
    · cases hw : a.2 with
      | convert op =>
        rw [hw] at himplicit
        cases himplicit
      | _ => rfl

/-- What a plan makes of a value that fits the source fits the destination. -/
theorem reaches_of_plans (hK : Lawful Γ K) {R : Reuse} (hR : BetweenSpellings R)
    (hU : ∀ d, Expressible K d → d.normalize = d → ∀ v u, U d v = .ok u → Fits Γ h d u)
    {r : Except Failure Verdict} (hplan : Γ.Plans R s d r) (hn : NormalPair s d)
    (hd : Expressible K d) {w : Verdict} (hr : r = .ok w) : Γ.Reaches h U s d w := by
  induction hplan generalizing w with
  | direct hdirect => exact directReaches_direct? hK hd (hU _ hd hn.2) w (hr ▸ hdirect)
  | reused hreuse _ ih =>
    obtain ⟨hn', hss, hdd⟩ := hR _ _ _ _ hreuse
    intro hne v u hv hu
    exact (ih hn' (hd.respelled (Ty.same_symm hdd)) hr hne v u (hv.respelled (Ty.same_symm hss))
      hu).respelled hdd
  | fromUnionError | intoError => cases hr
  | @fromUnion s d as hnone hu has hplans ih =>
    obtain rfl := Except.ok.inj hr
    have hmember : ∀ a ∈ as, Ty.IsNormalMember a.1 := fun a ha =>
      Ty.isNormalMember_of_mem hn.1 hu (has ▸ List.mem_map_of_mem ha)
    exact reaches_fromUnion hu has (fun a ha => (hmember a ha).2)
      fun a ha => ih a ha ⟨(hmember a ha).1, hn.2⟩ hd rfl
  | @intoUntouched s d m as rest v hnone hu hmembers hanswers _ hv _ _ ih =>
    obtain rfl := Except.ok.inj hr
    have hdu : d.isUnion = true := isUnion_dest_of_direct?_eq_none hnone hu
    have hm : m ∈ d.unionMembers := by simp [hmembers]
    have hnm : NormalPair s m := closedPairs_normalPair.dest hn hdu hm
    refine reaches_widen fun x hx => .member hdu hm ?_
    cases v with
    | identity | widen =>
      exact ih hnm (hd.of_mem hdu hm) rfl (by simp) x x hx rfl
    | _ => cases hv
  | @intoFirst s d as hnone hu has hanswers hplans ih =>
    obtain rfl := Except.ok.inj hr
    have hdu : d.isUnion = true := isUnion_dest_of_direct?_eq_none hnone hu
    refine firstOperation_induction reaches_impossible fun a ha => ?_
    have hm : a.1 ∈ d.unionMembers := has ▸ List.mem_map_of_mem ha
    have hreaches := ih a ha (closedPairs_normalPair.dest hn hdu hm) (hd.of_mem hdu hm) rfl
    exact fun hne v u hv hu => .member hdu hm (hreaches hne v u hv hu)

theorem betweenSpellings_noReuse : BetweenSpellings NoReuse := fun _ _ _ _ h => h.elim

/-- Unboxing plans from the value's own class, which it fits. -/
theorem fits_of_unboxed (hK : Lawful Γ K) (hd : Expressible K d) (hn : d.normalize = d)
    {v u : Value} (hu : Γ.unboxed h d v = .ok u) : Fits Γ h d u := by
  have hpair : NormalPair (.cls (Γ.classOf v)) d := ⟨Ty.normalize_cls _, hn⟩
  have hv := fits_cls_of_isInstance (isInstance_classOf Γ h v)
  obtain ⟨w, hw, hne, hrun⟩ := exists_of_unboxed_eq_ok hu
  -- what the inner plan would unbox fails, so nothing comes out of it
  have hreaches : Γ.Reaches h (fun d w => .error (Γ.castFailure w d)) (.cls (Γ.classOf v)) d w :=
    reaches_of_plans hK betweenSpellings_noReuse (fun _ _ _ _ _ h => by cases h)
      (plans_freshVerdict hpair) hpair hd hw
  exact hreaches hne v u hv hrun

/-- A possible plan takes a value that fits the source to one that fits the destination, or
fails. -/
theorem fits_of_runVerdict (hK : Lawful Γ K) {R : Reuse} (hR : BetweenSpellings R) {w : Verdict}
    (hplan : Γ.Plans R s d (.ok w)) (hn : NormalPair s d) (hd : Expressible K d)
    (hw : w.isPossible = true) {v u : Value} (hv : Fits Γ h s v)
    (hu : Γ.runVerdict h w v = .ok u) : Fits Γ h d u := by
  have hne : w ≠ .impossible := by
    rintro rfl
    cases hw
  exact reaches_of_plans hK hR (fun d hd hn v u => fits_of_unboxed hK hd hn) hplan hn hd rfl hne
    v u hv hu

end Rules

/-! ## What comes out -/

section Yield

variable {Γ : Program} {h : Heap} {U : Ty → Value → Except Failure Value} {s d : Ty} {v u : Value}

/-- The value itself, plain data or a member of an enumeration. -/
def IsYield (v u : Value) : Prop := u = v ∨ (∃ x, u = .scalar x) ∨ ∃ c n, u = .member c n

theorem isYield_of_convertNumber {rule : NumericRule}
    (hu : Γ.convertNumber h rule v = .ok u) : IsYield v u := by
  unfold convertNumber at hu
  split at hu
  · rename_i x _
    cases hy : rule.applyScalar x with
    | error e =>
      rw [hy] at hu
      cases hu
    | ok y =>
      rw [hy] at hu
      exact .inr (.inl ⟨y, (Except.ok.inj hu).symm⟩)
  · cases hu

theorem isYield_of_enumMember? {c : ClassRef} (hu : Γ.enumMember? h c v = .ok (some u)) :
    ∃ n, u = .member c n := by
  have hsearch : ∀ {w}, enumMember?.search Γ h c w = .ok (some u) → ∃ n, u = .member c n := by
    intro w hw
    unfold enumMember?.search at hw
    obtain ⟨m, -, rfl⟩ := Option.map_eq_some_iff.1 (eq_of_ite_error hw)
    exact ⟨m.1, rfl⟩
  unfold enumMember? at hu
  split at hu
  · split at hu
    · exact ⟨_, (Option.some.inj (Except.ok.inj hu)).symm⟩
    · exact hsearch hu
  · exact hsearch hu

/-- The operation brings in no value of its own, and what it unboxes goes to types in normal
form. -/
def BringsNothing : Operation → Prop
  | .constant _ => False
  | .unbox d => d.normalize = d
  | .test _ hit miss => BringsNothing hit ∧ BringsNothing miss
  | _ => True

/-- The same of the operation of a verdict, if it has one. -/
def VerdictBringsNothing (w : Verdict) : Prop :=
  ∀ op, w.operation? = some op → BringsNothing op

theorem verdictBringsNothing_convert {op : Operation} :
    VerdictBringsNothing (.convert op) ↔ BringsNothing op :=
  ⟨fun h => h op rfl, fun h _ hop => Option.some.inj hop ▸ h⟩

theorem bringsNothing_aliasVerdict : VerdictBringsNothing (Γ.aliasVerdict s d) := by
  unfold aliasVerdict VerdictBringsNothing
  grind [Verdict.operation?, BringsNothing]

theorem bringsNothing_lookupIn : BringsNothing (lookupIn d) := by
  unfold lookupIn
  split <;> trivial

theorem bringsNothing_classVerdict : VerdictBringsNothing (Γ.classVerdict s d) := by
  unfold classVerdict VerdictBringsNothing
  have hlookup := bringsNothing_lookupIn (d := d)
  grind [Verdict.operation?, BringsNothing]

theorem bringsNothing_direct? {w : Verdict} (hn : d.normalize = d)
    (h : Γ.direct? s d = some (.ok w)) :
    VerdictBringsNothing w := by
  unfold direct? at h
  have halias := bringsNothing_aliasVerdict (Γ := Γ) (s := s) (d := d)
  have hclass := bringsNothing_classVerdict (Γ := Γ) (s := s) (d := d)
  unfold VerdictBringsNothing at *
  grind [Verdict.operation?, BringsNothing]

theorem bringsNothing_branch {m : Ty} {w : Verdict} {miss : Operation}
    (hw : VerdictBringsNothing w) (hmiss : BringsNothing miss) :
    BringsNothing (branch d m w miss) := by
  refine ⟨?_, hmiss⟩
  cases w with
  | identity | widen => trivial
  | convert op => exact verdictBringsNothing_convert.1 hw
  | impossible =>
    show BringsNothing (if m.isVoid = true then _ else _)
    split <;> trivial

theorem bringsNothing_fromUnion {as : List (Ty × Verdict)}
    (has : ∀ a ∈ as, VerdictBringsNothing a.2) : VerdictBringsNothing (fromUnion d as) := by
  have hbranches :
      BringsNothing (as.foldr (fun b miss => branch d b.1 b.2 miss) (.refuse d)) := by
    induction as with
    | nil => trivial
    | cons a as ih =>
      exact bringsNothing_branch (has a List.mem_cons_self)
        (ih fun b hb => has b (List.mem_cons_of_mem _ hb))
  intro op hop
  unfold fromUnion at hop
  split at hop
  · cases hop
  split at hop
  · cases hop
  · exact Option.some.inj hop ▸ hbranches

/-- Only results bring in values of their own. -/
theorem bringsNothing_of_plans {R : Reuse} (hR : BetweenSpellings R)
    {r : Except Failure Verdict} (h : Γ.Plans R s d r) (hn : NormalPair s d) {w : Verdict}
    (hr : r = .ok w) : VerdictBringsNothing w := by
  induction h generalizing w with
  | direct hdirect => exact bringsNothing_direct? hn.2 (hr ▸ hdirect)
  | reused hreuse _ ih => exact ih (hR _ _ _ _ hreuse).1 hr
  | fromUnion _ hu hmap _ ih =>
    obtain rfl := Except.ok.inj hr
    refine bringsNothing_fromUnion fun a ha => ih a ha ?_ rfl
    exact closedPairs_normalPair.source hn hu (hmap ▸ List.mem_map_of_mem ha)
  | intoUntouched =>
    obtain rfl := Except.ok.inj hr
    exact fun op hop => by cases hop
  | @intoFirst s d as hnone hu has _ _ ih =>
    obtain rfl := Except.ok.inj hr
    have hdu : d.isUnion = true := isUnion_dest_of_direct?_eq_none hnone hu
    refine firstOperation_induction (fun op hop => by cases hop) fun a ha => ?_
    exact ih a ha (closedPairs_normalPair.dest hn hdu (has ▸ List.mem_map_of_mem ha)) rfl
  | fromUnionError | intoError => cases hr

/-- An operation that brings in nothing gives back the value, or makes plain data of it. -/
theorem isYield_of_runOperation (hU : ∀ d, d.normalize = d → ∀ v u, U d v = .ok u → IsYield v u)
    {op : Operation} (hop : BringsNothing op) (hu : Γ.runOperation h U op v = .ok u) : IsYield v u := by
  induction op with
  | keep => exact .inl (Except.ok.inj hu).symm
  | numeric rule d =>
    simp only [runOperation] at hu
    split at hu
    · rename_i w hw
      exact Except.ok.inj hu ▸ isYield_of_convertNumber hw
    · split at hu <;> cases hu
  | lookup c =>
    simp only [runOperation] at hu
    split at hu
    · rename_i w hw
      obtain ⟨n, rfl⟩ := isYield_of_enumMember? hw
      exact .inr (.inr ⟨c, n, (Except.ok.inj hu).symm⟩)
    · cases hu
    · cases hu
  | cast d =>
    simp only [runOperation] at hu
    split at hu
    · exact .inl (Except.ok.inj hu).symm
    · cases hu
  | unbox d => exact hU d hop v u hu
  | constant w => exact hop.elim
  | test m hit miss ihhit ihmiss =>
    unfold runOperation at hu
    dsimp only at hu
    generalize (if m.isVoid = true then _ else _ : Bool) = belongs at hu
    split at hu
    · exact ihhit hop.1 hu
    · exact ihmiss hop.2 hu
  | lookupNone | refuseNone | refuse => cases hu

theorem isYield_of_runWith (hU : ∀ d, d.normalize = d → ∀ v u, U d v = .ok u → IsYield v u)
    {w : Verdict} (hw : VerdictBringsNothing w) (hu : Γ.runWith h U w v = .ok u) : IsYield v u := by
  cases w with
  | convert op => exact isYield_of_runOperation hU (verdictBringsNothing_convert.1 hw) hu
  | _ => exact .inl (Except.ok.inj hu).symm

theorem isYield_of_unboxed (hn : d.normalize = d) (hu : Γ.unboxed h d v = .ok u) :
    IsYield v u := by
  have hpair : NormalPair (.cls (Γ.classOf v)) d := ⟨Ty.normalize_cls _, hn⟩
  obtain ⟨w, hw, -, hrun⟩ := exists_of_unboxed_eq_ok hu
  have hplans := plans_freshVerdict (Γ := Γ) hpair
  have hbrings := bringsNothing_of_plans betweenSpellings_noReuse hplans hpair hw
  exact isYield_of_runWith (fun _ _ _ _ h => by cases h) hbrings hrun

/-- What is captured at build time is never the sentinel for no value. -/
theorem isYield_of_runVerdict {R : Reuse} (hR : BetweenSpellings R) {w : Verdict}
    (hplan : Γ.Plans R s d (.ok w)) (hn : NormalPair s d) (hu : Γ.runVerdict h w v = .ok u) :
    IsYield v u :=
  isYield_of_runWith (fun _ hd _ _ => isYield_of_unboxed hd)
    (bringsNothing_of_plans hR hplan hn rfl) hu

end Yield

/-! ## Lawful numbers -/

/-- Classes of numbers that no interface and no registration stands for. -/
def plainNumbers : List Builtin := [.int, .float, .bool, .intEnum]

section Plain

variable {b : Builtin} (hb : b ∈ plainNumbers)

include hb

theorem not_derives_of_registration :
    ∀ r ∈ Program.empty.allRegistrations, Program.empty.derives r.1 (.builtin b) = false := by
  revert b
  decide

/-- Where no class is declared, the subclasses of these are those that derive from them. -/
theorem subclassWithin_plain (n : Nat) (c : Cls) :
    Program.empty.subclassWithin n c (.builtin b) = Program.empty.derives c (.builtin b) := by
  have hstructure : Program.empty.fitsStructure c b = false := by
    simp only [plainNumbers, List.mem_cons, List.not_mem_nil, or_false] at hb
    rcases hb with rfl | rfl | rfl | rfl <;> rfl
  have hregistered : ∀ n, (Program.empty.allRegistrations.any fun r =>
      Program.empty.derives r.1 (.builtin b) && Program.empty.subclassWithin n c r.2) = false := by
    intro n
    refine List.any_eq_false.2 fun r hr => ?_
    simp [not_derives_of_registration hb r hr]
  cases n with
  | zero => simp [subclassWithin, hstructure]
  | succ n => simp [subclassWithin, hstructure, hregistered n]

theorem subclass?_plain (c : Cls) : Program.empty.subclass? c (.builtin b) =
    some (Program.empty.derives c (.builtin b)) := by
  unfold subclass?
  rw [subclassWithin_plain hb]
  rfl

theorem isInstance_plain (h : Heap) (v : Value) : Program.empty.isInstance h v (.builtin b) =
    some (Program.empty.derives (Program.empty.classOf v) (.builtin b)) := by
  have hb' : b ≠ .any ∧ b ≠ .protocol := by
    revert b
    decide
  unfold isInstance
  dsimp only
  split
  · rename_i heq
    rw [heq, derives_self_builtin]
  · rw [if_neg (by simpa using hb')]
    exact subclass?_plain hb _

end Plain

theorem derives_int_iff {c : Cls} : Program.empty.derives c (.builtin .int) = true ↔
    c = .builtin .int ∨ c = .builtin .bool ∨ c = .builtin .intEnum := by
  cases c with
  | builtin b => cases b <;> decide
  | declared c => simp [derives, mro, info?, Program.empty]

theorem derives_float_iff {c : Cls} :
    Program.empty.derives c (.builtin .float) = true ↔ c = .builtin .float := by
  cases c with
  | builtin b => cases b <;> decide
  | declared c => simp [derives, mro, info?, Program.empty]

theorem derives_bool_iff {c : Cls} :
    Program.empty.derives c (.builtin .bool) = true ↔ c = .builtin .bool := by
  cases c with
  | builtin b => cases b <;> decide
  | declared c => simp [derives, mro, info?, Program.empty]

theorem derives_intEnum_iff {c : Cls} :
    Program.empty.derives c (.builtin .intEnum) = true ↔ c = .builtin .intEnum := by
  cases c with
  | builtin b => cases b <;> decide
  | declared c => simp [derives, mro, info?, Program.empty]

/-- Integers and floats of the program without classes are lawful: every boolean is an integer. -/
theorem lawful_numbers : Lawful Program.empty fun c => c = .builtin .int ∨ c = .builtin .float where
  int := .inl rfl
  float := .inr rfl
  closed := by
    have hint : Builtin.int ∈ plainNumbers := by decide
    have hfloat : Builtin.float ∈ plainNumbers := by decide
    have hbool : Builtin.bool ∈ plainNumbers := by decide
    have henum : Builtin.intEnum ∈ plainNumbers := by decide
    rintro c d (rfl | rfl) hsub h v hv
    · rw [subclass?_plain hint, Option.some.injEq, derives_int_iff] at hsub
      rw [isInstance_plain hint, Option.some.injEq, derives_int_iff]
      rcases hsub with rfl | rfl | rfl
      · rwa [isInstance_plain hint, Option.some.injEq, derives_int_iff] at hv
      · rw [isInstance_plain hbool, Option.some.injEq, derives_bool_iff] at hv
        exact .inr (.inl hv)
      · rw [isInstance_plain henum, Option.some.injEq, derives_intEnum_iff] at hv
        exact .inr (.inr hv)
    · rw [subclass?_plain hfloat, Option.some.injEq, derives_float_iff] at hsub
      exact hsub ▸ hv
  floats := by
    rintro d (rfl | rfl) hfloat _ _
    · exact fun _ _ hv => hv
    · exact absurd rfl hfloat
  complexes := by
    rintro d (rfl | rfl) hfloat _ haccepts
    · have hcomplex := haccepts .empty (.scalar (.complex .zero .zero)) rfl
      rw [isInstance_plain (by decide), Option.some.injEq, derives_int_iff] at hcomplex
      rcases hcomplex with h | h | h <;> cases h
    · exact absurd rfl hfloat

end Program

end CallAdapter
