import CallAdapter.Proofs.Conversion.Widening

/-!
# Widening by way of another type

Where subclasses of subclasses are subclasses, widening is transitive, but for the numeric tower:
it stands beside the classes, and only classes without arguments go up in it. `Program.TowerCloses`
says what that takes, and it is all that it takes (`widens_trans_iff`).
-/

namespace CallAdapter

open Program

/-- A type over the classes `K`, in which only the classes `G` are given arguments, and only ones
that can be compared. -/
structure Ty.Over (K G : Cls → Prop) (t : Ty) : Prop where
  expressible : Expressible K t
  generic : ∀ m ∈ t.flat, m.isAlias = true → ∀ c, m.origin = .cls c → G c
  comparable : ∀ m ∈ t.flat, m.Comparable

/-- The numeric tower adds nothing that subclasses would not give. -/
structure Program.TowerCloses (Γ : Program) (K G : Cls → Prop) : Prop where
  /-- What takes floats takes the integers that stand for them. -/
  ofFloat : ∀ c, K c → (Ty.cls c).IsSolid → c ≠ .builtin .float → c ≠ .builtin .complex →
    Γ.isSubclass (.builtin .float) (.cls c) = true → Γ.isSubclass (.builtin .int) (.cls c) = true
  /-- What takes complex numbers takes the numbers that stand for them. -/
  ofComplex : ∀ c, K c → (Ty.cls c).IsSolid → c ≠ .builtin .float → c ≠ .builtin .complex →
    Γ.isSubclass (.builtin .complex) (.cls c) = true →
    Γ.isSubclass (.builtin .int) (.cls c) = true ∧ Γ.isSubclass (.builtin .float) (.cls c) = true
  /-- Integers with arguments are floats and complex numbers by their class. -/
  genericInt : ∀ c, K c → G c → Γ.isSubclass (.cls c) (.builtin .int) = true →
    Γ.isSubclass (.cls c) (.builtin .float) = true ∧
      Γ.isSubclass (.cls c) (.builtin .complex) = true
  /-- Floats with arguments are complex numbers by their class. -/
  genericFloat : ∀ c, K c → G c → Γ.isSubclass (.cls c) (.builtin .float) = true →
    Γ.isSubclass (.cls c) (.builtin .complex) = true

/-- Subclasses of subclasses are subclasses, among the classes `K`. -/
def Program.SubclassTrans (Γ : Program) (K : Cls → Prop) : Prop :=
  ∀ a b c, K a → K b → K c → Γ.subclass? a b = some true → Γ.subclass? b c = some true →
    Γ.subclass? a c = some true

namespace Ty.Over

variable {K G : Cls → Prop} {t m : Ty}

theorem of_mem (h : t.Over K G) (hu : t.isUnion = true) (hm : m ∈ t.unionMembers)
    (hmu : m.isUnion = false) : m.Over K G := by
  have hflat : m ∈ t.flat := flat_of_isUnion hu ▸ hm
  refine ⟨h.expressible.of_mem hu hm, ?_, ?_⟩ <;>
    rw [flat_of_isUnion_eq_false hmu, List.forall_mem_singleton]
  · exact h.generic m hflat
  · exact h.comparable m hflat

theorem class_of_origin {c : Cls} (h : t.Over K G) (ht : t.IsSolid) (ho : t.origin = .cls c) :
    K c :=
  h.expressible.class_of_origin ho ht.top ht.void ht.union

theorem generic_of_isAlias {c : Cls} (h : t.Over K G) (ht : t.IsSolid) (ha : t.isAlias = true)
    (ho : t.origin = .cls c) : G c :=
  h.generic t (flat_of_isUnion_eq_false ht.union ▸ List.mem_singleton_self t) ha c ho

end Ty.Over

namespace Program

section Steps

variable {Γ : Program} {K G : Cls → Prop} {s d e : Ty} {w : Builtin × Builtin}

/-- Between types with values of their own there are two rules. -/
theorem Untouched.solid_cases (h : Γ.Untouched s d) (hs : s.IsSolid) (hd : d.IsSolid) :
    s.same d = true ∨
      (Γ.isSubclass s.origin d.origin = true ∧
        (d.isAlias = true → s.isAlias = true ∧ Ty.sameAll s.args d.args = true)) ∨
      ∃ w ∈ numericWidening, Γ.isSubclass s (.builtin w.1) = true ∧ d = .builtin w.2 := by
  cases h with
  | same hsame => exact .inl hsame
  | subclass _ _ hsub hargs => exact .inr (.inl ⟨hsub, hargs⟩)
  | numeric _ hmem hsub => exact .inr (.inr ⟨_, hmem, hsub, rfl⟩)
  | top hdtop => cases hd.top.symm.trans hdtop
  | absent hsvoid => cases hs.void.symm.trans hsvoid
  | fromUnion hu => cases hs.union.symm.trans hu
  | intoUnion _ hu => cases hd.union.symm.trans hu

theorem isSubclass_cls_iff {a b : Cls} :
    Γ.isSubclass (.cls a) (.cls b) = true ↔
      (Ty.cls a).isClass = true ∧ (Ty.cls b).isClass = true ∧ Γ.subclass? a b = some true := by
  rw [isSubclass_iff]
  constructor
  · rintro ⟨_, _, ha, hb, hac, hbc, hab⟩
    cases ha
    cases hb
    exact ⟨hac, hbc, hab⟩
  · rintro ⟨hac, hbc, hab⟩
    exact ⟨a, b, rfl, rfl, hac, hbc, hab⟩

theorem isSubclass_trans (htrans : Γ.SubclassTrans K) {a b c : Cls} (ha : K a) (hb : K b)
    (hc : K c) (hab : Γ.isSubclass (.cls a) (.cls b) = true)
    (hbc : Γ.isSubclass (.cls b) (.cls c) = true) : Γ.isSubclass (.cls a) (.cls c) = true := by
  rw [isSubclass_cls_iff] at *
  exact ⟨hab.1, hbc.2.1, htrans a b c ha hb hc hab.2.2 hbc.2.2⟩

theorem isSubclass_builtin_self {b : Builtin} (hb : (Ty.builtin b).isClass = true) :
    Γ.isSubclass (.builtin b) (.builtin b) = true := by
  have hself : Γ.subclassWithin Γ.allRegistrations.length (.builtin b) (.builtin b) = true := by
    unfold subclassWithin
    rw [derives_self_builtin]
    rfl
  refine isSubclass_cls_iff.2 ⟨hb, hb, ?_⟩
  rw [subclass?, hself]
  rfl

/-- The classes of the numeric tower. -/
def TowerIn (K : Cls → Prop) : Prop :=
  K (.builtin .int) ∧ K (.builtin .float) ∧ K (.builtin .complex)

theorem TowerIn.of_mem (h : TowerIn K) (hw : w ∈ numericWidening) :
    K (.builtin w.1) ∧ K (.builtin w.2) := by
  obtain ⟨hint, hfloat, hcomplex⟩ := h
  simp only [numericWidening, List.mem_cons, List.not_mem_nil, or_false] at hw
  rcases hw with rfl | rfl | rfl
  · exact ⟨hint, hfloat⟩
  · exact ⟨hint, hcomplex⟩
  · exact ⟨hfloat, hcomplex⟩

/-- What goes up in the tower goes to all that is above. -/
theorem untouched_numeric (hs : s.IsSolid) (hw : w ∈ numericWidening)
    (hsub : Γ.isSubclass s (.builtin w.1) = true) {u : Builtin × Builtin}
    (hu : u ∈ numericWidening) : Γ.Untouched s (.builtin u.2) := by
  obtain ⟨a, _, rfl, hb, -⟩ := isSubclass_iff.1 hsub
  simp only [numericWidening, List.mem_cons, List.not_mem_nil, or_false] at hw hu
  have hcomplex : Γ.Untouched (.cls a) (.builtin .complex) := by
    rcases hw with rfl | rfl | rfl
    · exact .numeric hs (w := (.int, .complex)) (by decide) hsub
    · exact .numeric hs (w := (.int, .complex)) (by decide) hsub
    · exact .numeric hs (w := (.float, .complex)) (by decide) hsub
  have hfloat : Γ.Untouched (.cls a) (.builtin .float) := by
    rcases hw with rfl | rfl | rfl
    · exact .numeric hs (w := (.int, .float)) (by decide) hsub
    · exact .numeric hs (w := (.int, .float)) (by decide) hsub
    · refine .subclass hs ⟨rfl, rfl, rfl⟩ ?_ fun halias => ?_
      · rwa [origin_cls, Ty.builtin, origin_cls]
      · cases halias
  rcases hu with rfl | rfl | rfl
  · exact hfloat
  · exact hcomplex
  · exact hcomplex

/-- From everything only everything is reached untouched. -/
theorem Untouched.isTop_of_isTop (h : Γ.Untouched s d) (hs : s.isTop = true) : d.isTop = true := by
  cases h with
  | same hsame => exact Ty.isTop_congr hsame ▸ hs
  | top hdtop => exact hdtop
  | absent hsvoid =>
    rw [Ty.isVoid_iff] at hsvoid
    subst hsvoid
    cases hs
  | fromUnion hu => cases (isTop_eq_false_of_isUnion hu).symm.trans hs
  | intoUnion hsolid => cases hsolid.top.symm.trans hs
  | subclass hsolid => cases hsolid.top.symm.trans hs
  | numeric hsolid => cases hsolid.top.symm.trans hs

/-- Nothing is reached untouched from nothing only. -/
theorem Untouched.isVoid_of_isVoid (h : Γ.Untouched s d) (hd : d.isVoid = true) :
    s.isVoid = true := by
  cases h with
  | same hsame => exact Ty.isVoid_congr hsame ▸ hd
  | top hdtop =>
    rw [Ty.isVoid_iff] at hd
    subst hd
    cases hdtop
  | absent hsvoid => exact hsvoid
  | fromUnion _ hdvoid => cases hdvoid.symm.trans hd
  | intoUnion _ hu => cases (isVoid_eq_false_of_isUnion hu).symm.trans hd
  | subclass _ hsolid => cases hsolid.void.symm.trans hd
  | numeric _ hmem => cases (isSolid_of_numericWidening hmem).void.symm.trans hd

end Steps

section Transitivity

variable {Γ : Program} {K G : Cls → Prop} {s d e : Ty} {w : Builtin × Builtin}
variable (htrans : Γ.SubclassTrans K) (htower : Γ.TowerCloses K G) (hK : TowerIn K)

include htrans

/-- By subclasses, and by subclasses again. -/
theorem untouched_of_subclass_subclass (hs : s.IsSolid) (hd : d.IsSolid) (he : e.IsSolid)
    (hsK : s.Over K G) (hdK : d.Over K G) (heK : e.Over K G)
    (hsd : Γ.isSubclass s.origin d.origin = true)
    (hsda : d.isAlias = true → s.isAlias = true ∧ Ty.sameAll s.args d.args = true)
    (hde : Γ.isSubclass d.origin e.origin = true)
    (hdea : e.isAlias = true → d.isAlias = true ∧ Ty.sameAll d.args e.args = true) :
    Γ.Untouched s e := by
  obtain ⟨a, b, ha, hb, -⟩ := isSubclass_iff.1 hsd
  obtain ⟨_, c, -, hc, -⟩ := isSubclass_iff.1 hde
  refine .subclass hs he ?_ fun halias => ?_
  · rw [ha, hb] at hsd
    rw [hb, hc] at hde
    rw [ha, hc]
    exact isSubclass_trans htrans (hsK.class_of_origin hs ha) (hdK.class_of_origin hd hb)
      (heK.class_of_origin he hc) hsd hde
  · obtain ⟨hda, hde⟩ := hdea halias
    obtain ⟨hsa, hsd⟩ := hsda hda
    have hargs : Ty.sameAll s.args d.args = Ty.sameAll s.args e.args :=
      Ty.sameAll_congr (List.forall₂_same.2 fun _ _ => Ty.same_refl _) ((Ty.sameAll_iff ..).1 hde)
    exact ⟨hsa, hargs ▸ hsd⟩

include htower hK

/-- By subclasses, and then up in the tower: what has arguments stays with its class. -/
theorem untouched_of_subclass_numeric (hs : s.IsSolid) (hd : d.IsSolid) (hsK : s.Over K G)
    (hdK : d.Over K G) (hsd : Γ.isSubclass s.origin d.origin = true) (hw : w ∈ numericWidening)
    (hdw : Γ.isSubclass d (.builtin w.1) = true) : Γ.Untouched s (.builtin w.2) := by
  obtain ⟨b, _, rfl, -⟩ := isSubclass_iff.1 hdw
  obtain ⟨a, _, ha, hb, -⟩ := isSubclass_iff.1 hsd
  have haK : K a := hsK.class_of_origin hs ha
  have haw : Γ.isSubclass (.cls a) (.builtin w.1) = true := by
    rw [ha, origin_cls] at hsd
    exact isSubclass_trans htrans haK (hdK.class_of_origin hd (origin_cls b)) (hK.of_mem hw).1
      hsd hdw
  cases halias : s.isAlias with
  | false =>
    rw [origin_of_isAlias_eq_false halias hs.union] at ha
    exact .numeric hs hw (ha ▸ haw)
  | true =>
    have haG : G a := hsK.generic_of_isAlias hs halias ha
    have hup : Γ.isSubclass (.cls a) (.builtin w.2) = true := by
      simp only [numericWidening, List.mem_cons, List.not_mem_nil, or_false] at hw
      rcases hw with rfl | rfl | rfl
      · exact (htower.genericInt a haK haG haw).1
      · exact (htower.genericInt a haK haG haw).2
      · exact htower.genericFloat a haK haG haw
    have hsolid := isSolid_of_numericWidening hw
    refine .subclass hs hsolid ?_ fun hda => ?_
    · rwa [ha, Ty.builtin, origin_cls]
    · rw [isAlias_eq_false_of_isClass (isClass_of_numericWidening hw haw rfl).2] at hda
      cases hda

/-- Up in the tower, and then by subclasses: what is above takes what is below. -/
theorem untouched_of_numeric_subclass (hs : s.IsSolid) (he : e.IsSolid) (hsK : s.Over K G)
    (heK : e.Over K G) (hw : w ∈ numericWidening) (hsw : Γ.isSubclass s (.builtin w.1) = true)
    (hwe : Γ.isSubclass (.builtin w.2) e.origin = true)
    (hea : e.isAlias = true → (Ty.builtin w.2).isAlias = true) : Γ.Untouched s e := by
  obtain ⟨a, _, rfl, -⟩ := isSubclass_iff.1 hsw
  have halias : e.isAlias = false := by
    rw [isAlias_eq_false_of_isClass (isClass_of_numericWidening hw hsw rfl).2] at hea
    exact Bool.eq_false_iff.2 fun h => nomatch hea h
  rw [origin_of_isAlias_eq_false halias he.union] at hwe
  obtain ⟨_, c, -, rfl, -⟩ := isSubclass_iff.1 hwe
  by_cases hcf : c = .builtin .float
  · exact hcf ▸ untouched_numeric hs hw hsw (u := (.int, .float)) (by decide)
  by_cases hcc : c = .builtin .complex
  · exact hcc ▸ untouched_numeric hs hw hsw (u := (.int, .complex)) (by decide)
  have hcK : K c := heK.class_of_origin he (origin_cls c)
  have hwc : Γ.isSubclass (.builtin w.1) (.cls c) = true := by
    simp only [numericWidening, List.mem_cons, List.not_mem_nil, or_false] at hw
    rcases hw with rfl | rfl | rfl
    · exact htower.ofFloat c hcK he hcf hcc hwe
    · exact (htower.ofComplex c hcK he hcf hcc hwe).1
    · exact (htower.ofComplex c hcK he hcf hcc hwe).2
  refine .subclass hs he ?_ fun h => nomatch halias.symm.trans h
  rw [origin_cls, origin_cls]
  exact isSubclass_trans htrans (hsK.class_of_origin hs (origin_cls a)) (hK.of_mem hw).1 hcK hsw hwc

/-- Two steps between types with values of their own are one. -/
theorem Untouched.trans_solid (hsd : Γ.Untouched s d) (hde : Γ.Untouched d e) (hs : s.IsSolid)
    (hd : d.IsSolid) (he : e.IsSolid) (hsK : s.Over K G) (hdK : d.Over K G) (heK : e.Over K G) :
    Γ.Untouched s e := by
  rcases hsd.solid_cases hs hd with hsame | ⟨hsub, hargs⟩ | ⟨w, hw, hsub, rfl⟩
  · exact hde.congr (Ty.same_symm hsame) (Ty.same_refl e)
  · rcases hde.solid_cases hd he with hsame | ⟨hsub', hargs'⟩ | ⟨w, hw, hsub', rfl⟩
    · exact hsd.congr (Ty.same_refl s) hsame
    · exact untouched_of_subclass_subclass htrans hs hd he hsK hdK heK hsub hargs hsub' hargs'
    · exact untouched_of_subclass_numeric htrans htower hK hs hd hsK hdK hsub hw hsub'
  · rcases hde.solid_cases hd he with hsame | ⟨hsub', hargs'⟩ | ⟨w', hw', -, rfl⟩
    · exact hsd.congr (Ty.same_refl s) hsame
    · rw [Ty.builtin, origin_cls] at hsub'
      exact untouched_of_numeric_subclass htrans htower hK hs he hsK heK hw hsub hsub'
        fun h => (hargs' h).1
    · exact untouched_numeric hs hw hsub hw'

/-- A step into a union from a type with values of its own, and one before it. -/
theorem Untouched.trans_of_isSolid (hsd : Γ.Untouched s d) (hde : Γ.Untouched d e)
    (hs : s.IsSolid) (hd : d.IsSolid) (hsK : s.Over K G) (hdK : d.Over K G) (heK : e.Over K G)
    (hn : e.normalize = e) : Γ.Untouched s e := by
  induction hde with
  | same hsame => exact hsd.congr (Ty.same_refl s) hsame
  | top hetop => exact .top hetop
  | absent hdvoid => cases hd.void.symm.trans hdvoid
  | fromUnion hu => cases hd.union.symm.trans hu
  | intoUnion _ hu hm _ ih =>
    have hmember := Ty.isNormalMember_of_mem hn hu hm
    exact .intoUnion hs hu hm (ih hsd hd hdK (heK.of_mem hu hm hmember.2) hmember.1)
  | subclass hd he hsub hargs =>
    exact hsd.trans_solid htrans htower hK (.subclass hd he hsub hargs) hs hd he hsK hdK heK
  | numeric hd hmem hsub =>
    exact hsd.trans_solid htrans htower hK (.numeric hd hmem hsub) hs hd
      (isSolid_of_numericWidening hmem) hsK hdK heK

/-- A step after another one gives a step, where the tower closes. -/
theorem Untouched.trans (hsd : Γ.Untouched s d) (hde : Γ.Untouched d e) (hsK : s.Over K G)
    (hdK : d.Over K G) (heK : e.Over K G) (hns : s.normalize = s) (hnd : d.normalize = d)
    (hne : e.normalize = e) : Γ.Untouched s e := by
  -- the first step says how the second one goes on, unless that goes into a union
  induction hsd with
  | same hsame => exact hde.congr (Ty.same_symm hsame) (Ty.same_refl e)
  | top hdtop => exact .top (hde.isTop_of_isTop hdtop)
  | absent hsvoid hoptional =>
    rw [Ty.isOptional, Bool.and_eq_true, List.any_eq_true] at hoptional
    obtain ⟨hu, m, hm, hmvoid⟩ := hoptional
    rcases hde.union_cases hu with hsame | hetop | hmembers
    · refine .absent hsvoid (Ty.isOptional_congr hsame ▸ ?_)
      rw [Ty.isOptional, hu, Bool.true_and, List.any_eq_true]
      exact ⟨m, hm, hmvoid⟩
    · exact .top hetop
    · rw [(Ty.isVoid_iff _).1 hsvoid, ← (Ty.isVoid_iff m).1 hmvoid]
      exact hmembers m hm
  | fromUnion hu hdvoid _ ih =>
    refine .fromUnion hu (Bool.eq_false_iff.2 fun hevoid => ?_) fun m hm => ?_
    · cases hdvoid.symm.trans (hde.isVoid_of_isVoid hevoid)
    · have hmember := Ty.isNormalMember_of_mem hns hu hm
      exact ih m hm hde (hsK.of_mem hu hm hmember.2) hdK hmember.1 hnd
  | intoUnion hs hu hm hsm ih =>
    have hmember := Ty.isNormalMember_of_mem hnd hu hm
    rcases hde.union_cases hu with hsame | hetop | hmembers
    · exact (Untouched.intoUnion hs hu hm hsm).congr (Ty.same_refl _) hsame
    · exact .top hetop
    · exact ih (hmembers _ hm) hsK (hdK.of_mem hu hm hmember.2) hns hmember.1
  | subclass hs hd hsub hargs =>
    exact Untouched.trans_of_isSolid htrans htower hK (.subclass hs hd hsub hargs) hde hs hd hsK
      hdK heK hne
  | numeric hs hmem hsub =>
    exact Untouched.trans_of_isSolid htrans htower hK (.numeric hs hmem hsub) hde hs
      (isSolid_of_numericWidening hmem) hsK hdK heK hne

end Transitivity

/-! ## What the tower needs -/

section Converse

variable {Γ : Program} {K G : Cls → Prop} {c : Cls} {b : Builtin}

theorem over_cls (hc : K c) (hclass : (Ty.cls c).isClass = true) : (Ty.cls c).Over K G := by
  refine ⟨.ofClass rfl (origin_cls c) hc, ?_, ?_⟩ <;>
    rw [Ty.flat_of_isUnion_eq_false rfl, List.forall_mem_singleton]
  · exact fun halias => nomatch (isAlias_eq_false_of_isClass hclass).symm.trans halias
  · rfl

/-- The class with an argument. -/
def argued (c : Cls) : Ty := .applied (.native c) [.any]

theorem over_argued (hc : K c) (hG : G c) : (argued c).Over K G := by
  refine ⟨.ofClass rfl rfl hc, ?_, ?_⟩ <;>
    rw [Ty.flat_of_isUnion_eq_false rfl, List.forall_mem_singleton]
  · rintro - c' hc'
    cases hc'
    exact hG
  · simp [argued, Ty.any, Ty.Comparable, Ty.refusesComparison, Ty.refusesAny]

theorem isSolid_argued (c : Cls) : (argued c).IsSolid := ⟨rfl, rfl, rfl⟩

theorem untouched_cls {a : Cls} (ha : (Ty.cls a).IsSolid) (hc : (Ty.cls c).IsSolid)
    (hsub : Γ.isSubclass (.cls a) (.cls c) = true) : Γ.Untouched (.cls a) (.cls c) := by
  refine .subclass ha hc ?_ fun halias => ?_
  · rwa [origin_cls, origin_cls]
  · rw [isAlias_eq_false_of_isClass (isSubclass_cls_iff.1 hsub).2.1] at halias
    cases halias

theorem untouched_argued (hb : (Ty.builtin b).IsSolid)
    (hsub : Γ.isSubclass (.cls c) (.builtin b) = true) : Γ.Untouched (argued c) (.builtin b) := by
  refine .subclass (isSolid_argued c) hb ?_ fun halias => ?_
  · rwa [Ty.builtin, origin_cls]
  · rw [isAlias_eq_false_of_isClass (isSubclass_cls_iff.1 hsub).2.1] at halias
    cases halias

/-- The classes of the tower are classes with values of their own. -/
theorem isSolid_of_tower {w : Builtin × Builtin} (hw : w ∈ numericWidening) :
    ((Ty.builtin w.1).IsSolid ∧ (Ty.builtin w.1).isClass = true) ∧
      (Ty.builtin w.2).IsSolid ∧ (Ty.builtin w.2).isClass = true := by
  simp only [numericWidening, List.mem_cons, List.not_mem_nil, or_false] at hw
  rcases hw with rfl | rfl | rfl <;> exact ⟨⟨⟨rfl, rfl, rfl⟩, rfl⟩, ⟨rfl, rfl, rfl⟩, rfl⟩

theorem untouched_tower {w : Builtin × Builtin} (hw : w ∈ numericWidening) :
    Γ.Untouched (.builtin w.1) (.builtin w.2) := by
  obtain ⟨⟨hsolid, hclass⟩, -⟩ := isSolid_of_tower hw
  exact .numeric hsolid hw (isSubclass_builtin_self hclass)

/-- Beside the tower, a class is reached by subclasses only. -/
theorem isSubclass_of_untouched (h : Γ.Untouched (.builtin b) (.cls c))
    (hb : (Ty.builtin b).IsSolid) (hc : (Ty.cls c).IsSolid) (hclass : (Ty.builtin b).isClass = true)
    (hcf : c ≠ .builtin .float) (hcc : c ≠ .builtin .complex) :
    Γ.isSubclass (.builtin b) (.cls c) = true := by
  rcases h.solid_cases hb hc with hsame | ⟨hsub, -⟩ | ⟨w, hw, -, hcw⟩
  · rw [← (Ty.same_iff_eq_of_isAtom rfl _).1 hsame]
    exact isSubclass_builtin_self hclass
  · rwa [Ty.builtin, origin_cls, origin_cls] at hsub
  · simp only [numericWidening, List.mem_cons, List.not_mem_nil, or_false] at hw
    rcases hw with rfl | rfl | rfl
    · exact absurd (Ty.cls.inj hcw) hcf
    · exact absurd (Ty.cls.inj hcw) hcc
    · exact absurd (Ty.cls.inj hcw) hcc

/-- What has arguments is taken by its class only. -/
theorem isSubclass_of_untouched_argued (h : Γ.Untouched (argued c) (.builtin b))
    (hb : (Ty.builtin b).IsSolid) : Γ.isSubclass (.cls c) (.builtin b) = true := by
  rcases h.solid_cases (isSolid_argued c) hb with hsame | ⟨hsub, -⟩ | ⟨w, -, hsub, -⟩
  · simp [argued, Ty.same] at hsame
  · rwa [Ty.builtin, origin_cls] at hsub
  · obtain ⟨_, _, ha, -⟩ := isSubclass_iff.1 hsub
    cases ha

/-- Steps compose, for types in normal form over `K` with arguments for `G`. -/
def UntouchedTrans (Γ : Program) (K G : Cls → Prop) : Prop :=
  ∀ s d e : Ty, s.Over K G → d.Over K G → e.Over K G → s.normalize = s → d.normalize = d →
    e.normalize = e → Γ.Untouched s d → Γ.Untouched d e → Γ.Untouched s e

variable {w : Builtin × Builtin}

theorem isSubclass_up (hcompose : Γ.UntouchedTrans K G) (hK : TowerIn K)
    (hw : w ∈ numericWidening) (hc : K c) (hcs : (Ty.cls c).IsSolid) (hcf : c ≠ .builtin .float)
    (hcc : c ≠ .builtin .complex) (hsub : Γ.isSubclass (.builtin w.2) (.cls c) = true) :
    Γ.isSubclass (.builtin w.1) (.cls c) = true := by
  obtain ⟨⟨hsolid, hclass⟩, hsolid', hclass'⟩ := isSolid_of_tower hw
  obtain ⟨hfrom, hto⟩ := hK.of_mem hw
  have hcclass := (isSubclass_cls_iff.1 hsub).2.1
  exact isSubclass_of_untouched (hcompose _ _ _ (over_cls hfrom hclass) (over_cls hto hclass')
    (over_cls hc hcclass) rfl rfl rfl (untouched_tower hw) (untouched_cls hsolid' hcs hsub))
    hsolid hcs hclass hcf hcc

theorem isSubclass_argued (hcompose : Γ.UntouchedTrans K G) (hK : TowerIn K)
    (hw : w ∈ numericWidening) (hc : K c) (hG : G c)
    (hsub : Γ.isSubclass (.cls c) (.builtin w.1) = true) :
    Γ.isSubclass (.cls c) (.builtin w.2) = true := by
  obtain ⟨⟨hsolid, hclass⟩, hsolid', hclass'⟩ := isSolid_of_tower hw
  obtain ⟨hfrom, hto⟩ := hK.of_mem hw
  exact isSubclass_of_untouched_argued (hcompose _ _ _ (over_argued hc hG) (over_cls hfrom hclass)
    (over_cls hto hclass') rfl rfl rfl (untouched_argued hsolid hsub) (untouched_tower hw)) hsolid'

/-- Where subclasses of subclasses are subclasses, steps compose exactly if the tower closes. -/
theorem untouchedTrans_iff (htrans : Γ.SubclassTrans K) (hK : TowerIn K) :
    Γ.UntouchedTrans K G ↔ Γ.TowerCloses K G := by
  constructor
  · intro hcompose
    exact {
      ofFloat := fun c => isSubclass_up hcompose hK (w := (.int, .float)) (by decide)
      ofComplex := fun c hc hcs hcf hcc hsub =>
        ⟨isSubclass_up hcompose hK (w := (.int, .complex)) (by decide) hc hcs hcf hcc hsub,
          isSubclass_up hcompose hK (w := (.float, .complex)) (by decide) hc hcs hcf hcc hsub⟩
      genericInt := fun c hc hG hsub =>
        ⟨isSubclass_argued hcompose hK (w := (.int, .float)) (by decide) hc hG hsub,
          isSubclass_argued hcompose hK (w := (.int, .complex)) (by decide) hc hG hsub⟩
      genericFloat := fun c =>
        isSubclass_argued hcompose hK (w := (.float, .complex)) (by decide) }
  · intro htower s d e hs hd he hns hnd hne hsd hde
    exact Untouched.trans htrans htower hK hsd hde hs hd he hns hnd hne

end Converse

end Program

/-! ## Planners -/

section Planners

variable {Γ : Program} {K G : Cls → Prop} {s d : Ty}

theorem comparableWith_of_over (hs : s.Over K G) (hd : d.Over K G) : s.ComparableWith d :=
  fun a ha b hb => (hs.comparable a ha).not_refusesPlanning (hd.comparable b hb)

/-- Over classes, every planner widens exactly by the rules. -/
theorem Planner.Asked.widens_iff_untouched {p : Planner} (hp : p.Asked Γ)
    (hs : s.normalize.Over K G) (hd : d.normalize.Over K G) :
    p.Widens Γ s d ↔ Γ.Untouched s.normalize d.normalize := by
  rw [hp.widens_iff]
  exact Program.widens_iff_untouched (normalPair_normalize s d) (comparableWith_of_over hs hd)

/-- Widening by way of another type is widening, for all types over the classes `K` with arguments
for the classes `G`, exactly if the numeric tower closes: beside floats and complex numbers, each
class that takes floats or complex numbers takes the numbers that stand for them, and no class with
arguments enters the tower that is not a class of all the numbers above. -/
theorem widens_trans_iff (htrans : Γ.SubclassTrans K) (hK : Program.TowerIn K) :
    (∀ s d e : Ty, s.normalize.Over K G → d.normalize.Over K G → e.normalize.Over K G →
      ∀ p q r : Planner, p.Asked Γ → q.Asked Γ → r.Asked Γ → p.Widens Γ s d → q.Widens Γ d e →
        r.Widens Γ s e ∧ ∀ plan, ((Γ.plan s e).run.run r).1 = .ok plan →
          ∀ h v, Γ.applyPlan h plan v = .ok v) ↔
      Γ.TowerCloses K G := by
  rw [← untouchedTrans_iff htrans hK]
  constructor
  · intro hwidens s d e hs hd he hns hnd hne hsd hde
    have hp := Planner.asked_empty Γ false
    have hs' : s.normalize.Over K G := hns.symm ▸ hs
    have hd' : d.normalize.Over K G := hnd.symm ▸ hd
    have he' : e.normalize.Over K G := hne.symm ▸ he
    have hstep := hwidens s d e hs' hd' he' _ _ _ hp hp hp
    rw [hp.widens_iff_untouched hs' hd', hp.widens_iff_untouched hd' he',
      hp.widens_iff_untouched hs' he', hns, hnd, hne] at hstep
    exact (hstep hsd hde).1
  · intro hcompose s d e hs hd he p q r hp hq hr hsd hde
    have huntouched : Γ.Untouched s.normalize e.normalize :=
      hcompose _ _ _ hs hd he (Ty.normalize_normalize s) (Ty.normalize_normalize d)
        (Ty.normalize_normalize e) (hp.untouched_of_widens hsd) (hq.untouched_of_widens hde)
    refine ⟨(hr.widens_iff_untouched hs he).2 huntouched, fun plan hplan => ?_⟩
    exact Planner.applyPlan_of_isImplicit (hr.freshVerdict_of_plan hplan).1
      ((hr.isImplicit_iff_untouched hplan).2 huntouched)

end Planners

/-! ## Two towers -/

def tower : List Cls := [.builtin .int, .builtin .float, .builtin .complex]

/-- The tower with the truth values. -/
def numbers : List Cls := .builtin .bool :: tower

theorem towerIn_of_subset {l : List Cls} (h : tower ⊆ l) : Program.TowerIn (· ∈ l) :=
  ⟨h (by decide), h (by decide), h (by decide)⟩

theorem towerCloses_numbers : Program.empty.TowerCloses (· ∈ numbers) fun _ => False := by
  have hfloat : ∀ c ∈ numbers, c ≠ .builtin .float →
      Program.empty.isSubclass (.builtin .float) (.cls c) = false := by
    decide +kernel
  have hcomplex : ∀ c ∈ numbers, c ≠ .builtin .complex →
      Program.empty.isSubclass (.builtin .complex) (.cls c) = false := by
    decide +kernel
  exact {
    ofFloat := fun c hc _ hcf _ hsub => nomatch (hfloat c hc hcf).symm.trans hsub
    ofComplex := fun c hc _ _ hcc hsub => nomatch (hcomplex c hc hcc).symm.trans hsub
    genericInt := fun _ _ hG => hG.elim
    genericFloat := fun _ _ hG => hG.elim }

/-- A complex number, or nothing. -/
def optionalComplex : Ty := .union false [.builtin .complex, .none]

theorem normalize_optionalComplex : optionalComplex.normalize = optionalComplex := by cbv

theorem subclassTrans_numbers : Program.empty.SubclassTrans (· ∈ numbers) := by
  have hclasses : ∀ a ∈ numbers, ∀ b ∈ numbers, ∀ c ∈ numbers,
      Program.empty.subclass? a b = some true → Program.empty.subclass? b c = some true →
      Program.empty.subclass? a c = some true := by
    decide +kernel
  exact fun a b c ha hb hc => hclasses a ha b hb c hc

theorem over_numbers {c : Cls} (hc : c ∈ numbers) :
    (Ty.cls c).normalize.Over (· ∈ numbers) fun _ => False := by
  have hclass : ∀ c ∈ numbers, (Ty.cls c).isClass = true := by decide
  rw [Ty.normalize_cls]
  exact Program.over_cls hc (hclass c hc)

theorem over_optionalComplex :
    optionalComplex.normalize.Over (· ∈ numbers) fun _ => False := by
  rw [normalize_optionalComplex]
  have hcomplex : Expressible (· ∈ numbers) (.builtin .complex) :=
    .ofClass rfl (origin_cls _) (by decide)
  refine ⟨.union rfl fun m hm => ?_, fun m hm halias => ?_, fun m hm => ?_⟩
  · rcases List.mem_pair.1 hm with rfl | rfl
    · exact hcomplex
    · exact .absent rfl
  · rcases List.mem_pair.1 hm with rfl | rfl <;> cases halias
  · rcases List.mem_pair.1 hm with rfl | rfl <;> rfl

/-- Truth values are taken for floats, and floats for complex numbers or nothing. -/
theorem widens_trans_iff_numbers :
    Planner.Widens .empty ⟨true, [], []⟩ (.builtin .bool) optionalComplex := by
  have hp := Planner.asked_empty .empty true
  have hcompose := (widens_trans_iff subclassTrans_numbers (towerIn_of_subset (by decide))).2
    towerCloses_numbers
  have hbool : Planner.Widens .empty ⟨true, [], []⟩ (.builtin .bool) (.builtin .float) :=
    ⟨_, by with_unfolding_all rfl, rfl⟩
  have hfloat : Planner.Widens .empty ⟨true, [], []⟩ (.builtin .float) optionalComplex :=
    ⟨_, by with_unfolding_all rfl, rfl⟩
  exact (hcompose (.builtin .bool) (.builtin .float) optionalComplex (over_numbers (by decide))
    (over_numbers (by decide)) over_optionalComplex _ _ _ hp hp hp hbool hfloat).1

def measureRef : ClassRef := ⟨"Measure", "Measure"⟩

/-- Integers with a type argument. -/
def measureInfo : ClassInfo where
  ref := measureRef
  mro := [.declared measureRef, .builtin .int, .builtin .generic, .builtin .object]
  bases := [.builtin .int, .applied (.generic (.builtin .generic)) [.var (.named "T")]]
  parameters := some [.named "T"]
  namespaceEntries := []
  annotations := []
  missing := []
  isProtocol := false
  isRuntime := false
  frozen := none
  fields := []
  slots := none
  members := []

def measureProgram : Program := { Program.empty with classes := [measureInfo] }

def measures : List Cls := .declared measureRef :: tower

def measureOfText : Ty := .applied (.generic (.declared measureRef)) [.builtin .str]

/-- A measure with an argument is taken for an integer, and an integer for a float, but the measure
is not taken for a float. -/
theorem measure_not_float :
    ¬∀ (Γ : Program) (K G : Cls → Prop), (∀ c, K c → Γ.subclass? c c = some true) →
      Γ.SubclassTrans K → ∀ (s d e : Ty) (p : Planner), s.normalize.Over K G →
        d.normalize.Over K G → e.normalize.Over K G → p.Asked Γ → p.Widens Γ s d →
        p.Widens Γ d e → p.Widens Γ s e := by
  intro hwidens
  have htrans : ∀ a ∈ measures, ∀ b ∈ measures, ∀ c ∈ measures,
      measureProgram.subclass? a b = some true → measureProgram.subclass? b c = some true →
      measureProgram.subclass? a c = some true := by
    decide +kernel
  have hmeasure : measureOfText.normalize.Over (· ∈ measures) (· = .declared measureRef) := by
    refine ⟨.ofClass rfl rfl (by decide), fun m hm _ c hc => ?_, fun m hm => ?_⟩ <;>
      obtain rfl := List.mem_singleton.1 hm
    · exact (Ty.cls.inj hc).symm
    · exact Ty.comparable_of_hashable rfl
  obtain ⟨plan, hplan, himplicit⟩ := hwidens measureProgram (· ∈ measures)
    (· = .declared measureRef) (by decide +kernel) (fun a b c ha hb hc => htrans a ha b hb c hc)
    measureOfText (.builtin .int) (.builtin .float) ⟨false, [], []⟩ hmeasure
    (over_cls (by decide) rfl) (over_cls (by decide) rfl) (Planner.asked_empty _ _)
    ⟨.of measureOfText (.builtin .int) .widen, by with_unfolding_all rfl, rfl⟩
    ⟨.of (.builtin .int) (.builtin .float) .widen, by with_unfolding_all rfl, rfl⟩
  have hrun : ((measureProgram.plan measureOfText (.builtin .float)).run.run ⟨false, [], []⟩).1 =
      .ok (.of measureOfText (.builtin .float) .impossible) := by
    with_unfolding_all rfl
  obtain rfl := Except.ok.inj (hrun.symm.trans hplan)
  cases himplicit

end CallAdapter
