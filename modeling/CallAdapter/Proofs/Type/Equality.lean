import CallAdapter.Type.Equality
import Mathlib.Data.List.Forall2

/-!
# Equality of types is an equivalence

`Ty.same` is reflexive, symmetric and transitive (`same_refl`, `same_comm`, `same_trans`), so that
tables keyed by it hold one entry for each class of spellings. Types that are the same agree in
everything the planner looks at: whether they are unions, aliases, classes, cells, and what
stands behind them. Only the order and the repetition of members are free.
-/

namespace CallAdapter

/-! ## Plain data and tokens -/

namespace Scalar

theorem Extended.equal_iff (p q : Extended) : p.equal q = true ↔ p = q ∧ p ≠ .undefined := by
  cases p <;> cases q <;> simp [Extended.equal]

/-- Equal scalars are the same text, the same bytes, or numbers at one defined point. -/
theorem equal_iff (a b : Scalar) :
    a.equal b = true ↔
      (∃ s, a = str s ∧ b = str s) ∨ (∃ s, a = bytes s ∧ b = bytes s) ∨
        ∃ p, a.parts = some p ∧ b.parts = some p ∧ p.1 ≠ .undefined ∧ p.2 ≠ .undefined := by
  constructor
  · intro h
    unfold equal at h
    split at h
    · exact .inl ⟨_, rfl, by rw [beq_iff_eq.1 h]⟩
    · exact .inr (.inl ⟨_, rfl, by rw [beq_iff_eq.1 h]⟩)
    · split at h
      · rename_i p q hp hq
        rw [Bool.and_eq_true, Extended.equal_iff, Extended.equal_iff] at h
        obtain ⟨⟨h₁, u₁⟩, h₂, u₂⟩ := h
        exact .inr (.inr ⟨p, hp, by rw [hq, Prod.ext h₁ h₂], u₁, u₂⟩)
      · cases h
  · rintro (⟨s, rfl, rfl⟩ | ⟨s, rfl, rfl⟩ | ⟨p, ha, hb, u₁, u₂⟩)
    · simp [equal]
    · simp [equal]
    · unfold equal
      split
      · simp [parts] at ha
      · simp [parts] at ha
      · simp [ha, hb, Extended.equal_iff, u₁, u₂]

theorem equal_comm (a b : Scalar) : a.equal b = b.equal a := by
  rw [Bool.eq_iff_iff, equal_iff, equal_iff]
  grind

theorem equal_trans {a b c : Scalar} (hab : a.equal b = true) (hbc : b.equal c = true) :
    a.equal c = true := by
  rw [equal_iff] at *
  rcases hab with ⟨s, rfl, rfl⟩ | ⟨s, rfl, rfl⟩ | ⟨p, ha, hb, hp⟩
  · rcases hbc with ⟨t, h, rfl⟩ | ⟨t, h, -⟩ | ⟨q, h, -⟩
    · exact .inl ⟨s, rfl, h.symm⟩
    · cases h
    · simp [parts] at h
  · rcases hbc with ⟨t, h, -⟩ | ⟨t, h, rfl⟩ | ⟨q, h, -⟩
    · cases h
    · exact .inr (.inl ⟨s, rfl, h.symm⟩)
    · simp [parts] at h
  · rcases hbc with ⟨t, rfl, -⟩ | ⟨t, rfl, -⟩ | ⟨q, hb', hc, -⟩
    · simp [parts] at hb
    · simp [parts] at hb
    · obtain rfl := Option.some.inj (hb.symm.trans hb')
      exact .inr (.inr ⟨p, ha, hc, hp⟩)

end Scalar

namespace Token

/-- Induction over tokens, with the elements of sequences by membership. -/
theorem memInduction {motive : Token → Prop}
    (scalar : ∀ s, motive (.scalar s)) (object : ∀ c a s, motive (.object c a s))
    (member : ∀ c n s, motive (.member c n s)) (code : ∀ f s, motive (.code f s))
    (tuple : ∀ ts, (∀ t ∈ ts, motive t) → motive (.tuple ts))
    (list : ∀ ts, (∀ t ∈ ts, motive t) → motive (.list ts)) (other : ∀ s, motive (.other s))
    (t : Token) : motive t := by
  match t with
  | .scalar s => exact scalar s
  | .object c a s => exact object c a s
  | .member c n s => exact member c n s
  | .code f s => exact code f s
  | .tuple ts =>
    exact tuple ts fun u _ => memInduction scalar object member code tuple list other u
  | .list ts =>
    exact list ts fun u _ => memInduction scalar object member code tuple list other u
  | .other s => exact other s
termination_by sizeOf t

theorem sameAll_iff (ts us : List Token) :
    sameAll ts us = true ↔ List.Forall₂ (fun t u => t.same u = true) ts us := by
  induction ts generalizing us with
  | nil => cases us <;> simp [sameAll]
  | cons t ts ih => cases us <;> simp [sameAll, ih]

theorem same_refl (t : Token) : t.same t = true := by
  induction t using memInduction with
  | tuple ts ih | list ts ih =>
    simp only [same, sameAll_iff, List.forall₂_same]
    exact ih
  | scalar s => simp only [same, decide_true, Bool.true_or]
  | _ => simp [same]

theorem same_symm {t u : Token} (h : t.same u = true) : u.same t = true := by
  induction t using memInduction generalizing u with
  | tuple ts ih | list ts ih =>
    cases u <;> simp only [same, Bool.false_eq_true] at h
    rw [sameAll_iff] at h
    simp only [same, sameAll_iff]
    rw [List.forall₂_iff_get] at h ⊢
    exact ⟨h.1.symm, fun i h₁ h₂ => ih _ (List.get_mem _ _) (h.2 i h₂ h₁)⟩
  | scalar s =>
    cases u <;> simp only [same, Bool.false_eq_true] at h
    simp only [same, Bool.or_eq_true, decide_eq_true_eq] at h ⊢
    exact h.imp Eq.symm fun h => Scalar.equal_comm _ _ ▸ h
  | _ =>
    cases u <;> simp_all [same]

theorem same_trans {t u v : Token} (h : t.same u = true) (h' : u.same v = true) :
    t.same v = true := by
  induction t using memInduction generalizing u v with
  | tuple ts ih | list ts ih =>
    cases u <;> simp only [same, Bool.false_eq_true] at h
    cases v <;> simp only [same, Bool.false_eq_true] at h'
    simp only [same]
    rw [sameAll_iff, List.forall₂_iff_get] at *
    exact ⟨h.1.trans h'.1, fun i h₁ h₂ =>
      ih _ (List.get_mem _ _) (h.2 i h₁ (h'.1 ▸ h₂)) (h'.2 i (h'.1 ▸ h₂) h₂)⟩
  | scalar s =>
    cases u <;> simp only [same, Bool.false_eq_true] at h
    cases v <;> simp only [same, Bool.false_eq_true] at h'
    simp only [same, Bool.or_eq_true, decide_eq_true_eq] at h h' ⊢
    rcases h with rfl | h
    · exact h'
    · rcases h' with rfl | h'
      · exact .inr h
      · exact .inr (Scalar.equal_trans h h')
  | _ =>
    cases u <;> cases v <;> simp_all [same]

end Token

namespace Ty

/-- Induction over types, with members and arguments by membership. -/
theorem memInduction {motive : Ty → Prop}
    (null : motive .null) (cls : ∀ c, motive (.cls c)) (form : ∀ f, motive (.form f))
    (text : ∀ s, motive (.text s)) (forward : ∀ s, motive (.forward s))
    (var : ∀ v, motive (.var v)) (params : ∀ s, motive (.params s))
    (union : ∀ p ms, (∀ m ∈ ms, motive m) → motive (.union p ms))
    (applied : ∀ h as, (∀ a ∈ as, motive a) → motive (.applied h as))
    (list : ∀ ts, (∀ t ∈ ts, motive t) → motive (.list ts))
    (ellipsis : motive .ellipsis) (token : ∀ t, motive (.token t)) (t : Ty) : motive t := by
  match t with
  | .null => exact null
  | .cls c => exact cls c
  | .form f => exact form f
  | .text s => exact text s
  | .forward s => exact forward s
  | .var v => exact var v
  | .params s => exact params s
  | .union p ms =>
    exact union p ms fun m _ =>
      memInduction null cls form text forward var params union applied list ellipsis token m
  | .applied h as =>
    exact applied h as fun a _ =>
      memInduction null cls form text forward var params union applied list ellipsis token a
  | .list ts =>
    exact list ts fun u _ =>
      memInduction null cls form text forward var params union applied list ellipsis token u
  | .ellipsis => exact ellipsis
  | .token k => exact token k
termination_by sizeOf t

/-! ## Values of a choice -/

theorem ofOneClass_refl (t : Ty) : t.ofOneClass t = true := by
  unfold ofOneClass
  split <;> simp_all

theorem ofOneClass_comm (s t : Ty) : s.ofOneClass t = t.ofOneClass s := by
  unfold ofOneClass
  split
  · simp [eq_comm]
  · split
    · simp_all
    · rfl

/-- Plain data is the same as plain data only, so classes are passed on. -/
theorem ofOneClass_trans {s t u : Ty} (hst : s.same t = true) (h : s.ofOneClass t = true)
    (h' : t.ofOneClass u = true) : s.ofOneClass u = true := by
  unfold ofOneClass
  split
  · rename_i a c
    cases t with
    | token k =>
      cases k with
      | scalar b =>
        rw [ofOneClass, decide_eq_true_eq] at h h'
        rw [h, h']
        exact decide_eq_true rfl
      | _ => simp [same, Token.same] at hst
    | _ => simp [same] at hst
  · rfl

/-! ## One equation for each constructor -/

theorem allWithin_iff (values : Bool) (ms ns : List Ty) :
    allWithin values ms ns = true ↔
      ∀ m ∈ ms, ∃ n ∈ ns, (values = true → m.ofOneClass n = true) ∧ m.same n = true := by
  induction ms with
  | nil => simp [allWithin]
  | cons m ms ih => cases values <;> simp [allWithin, ih]

theorem someSame_iff (values : Bool) (ms : List Ty) (n : Ty) :
    someSame values ms n = true ↔
      ∃ m ∈ ms, (values = true → m.ofOneClass n = true) ∧ m.same n = true := by
  induction ms with
  | nil => simp [someSame]
  | cons m ms ih => cases values <;> simp [someSame, ih]

theorem sameAll_iff (as bs : List Ty) :
    sameAll as bs = true ↔ List.Forall₂ (fun a b => a.same b = true) as bs := by
  induction as generalizing bs with
  | nil => cases bs <;> simp [sameAll]
  | cons a as ih => cases bs <;> simp [sameAll, ih]

/-- Two lists of members describe one choice. -/
def SameMembers (ms ns : List Ty) : Prop :=
  (∀ m ∈ ms, ∃ n ∈ ns, m.same n = true) ∧ ∀ n ∈ ns, ∃ m ∈ ms, m.same n = true

theorem same_union_iff (p q : Bool) (ms ns : List Ty) :
    (union p ms).same (union q ns) = true ↔ SameMembers ms ns := by
  simp [same, SameMembers, allWithin_iff, someSame_iff]

/-- What is related in order is found on both sides. -/
theorem found_of_forall₂ {r : Ty → Ty → Prop} {as bs : List Ty} (h : List.Forall₂ r as bs) :
    (∀ a ∈ as, ∃ b ∈ bs, r a b) ∧ ∀ b ∈ bs, ∃ a ∈ as, r a b := by
  induction h with
  | nil => exact ⟨nofun, nofun⟩
  | cons hab _ ih =>
    refine ⟨List.forall_mem_cons.2 ⟨⟨_, List.mem_cons_self, hab⟩, fun a ha => ?_⟩,
      List.forall_mem_cons.2 ⟨⟨_, List.mem_cons_self, hab⟩, fun b hb => ?_⟩⟩
    · obtain ⟨b, hb, hab⟩ := ih.1 a ha
      exact ⟨b, List.mem_cons_of_mem _ hb, hab⟩
    · obtain ⟨a, ha, hab⟩ := ih.2 b hb
      exact ⟨a, List.mem_cons_of_mem _ ha, hab⟩

/-- Two lists of values make one choice. -/
def SameValues (as bs : List Ty) : Prop :=
  (∀ a ∈ as, ∃ b ∈ bs, a.ofOneClass b = true ∧ a.same b = true) ∧
    ∀ b ∈ bs, ∃ a ∈ as, a.ofOneClass b = true ∧ a.same b = true

/-- Two lists of arguments make one alias of the head. -/
def SameArgs (h : Head) (as bs : List Ty) : Prop :=
  if h = .literal then SameValues as bs else List.Forall₂ (fun a b => a.same b = true) as bs

theorem SameArgs.values {as bs : List Ty} (h : SameArgs .literal as bs) : SameValues as bs := by
  rwa [SameArgs, if_pos rfl] at h

theorem SameArgs.forall₂ {k : Head} {as bs : List Ty} (h : SameArgs k as bs)
    (hk : k ≠ .literal) : List.Forall₂ (fun a b => a.same b = true) as bs := by
  rwa [SameArgs, if_neg hk] at h

theorem SameArgs.of_forall₂ {k : Head} {as bs : List Ty} (hk : k ≠ .literal)
    (h : List.Forall₂ (fun a b => a.same b = true) as bs) : SameArgs k as bs := by
  rwa [SameArgs, if_neg hk]

/-- Values are compared with their classes. -/
theorem SameArgs.of_values {k : Head} {as bs : List Ty}
    (h : List.Forall₂ (fun a b => a.ofOneClass b = true ∧ a.same b = true) as bs) :
    SameArgs k as bs := by
  by_cases hk : k = .literal
  · subst hk
    exact found_of_forall₂ h
  · exact .of_forall₂ hk (h.imp fun _ _ hab => hab.2)

/-- Whatever the head, each argument is found again. -/
theorem SameArgs.members {k : Head} {as bs : List Ty} (h : SameArgs k as bs) :
    SameMembers as bs := by
  by_cases hk : k = .literal
  · subst hk
    exact ⟨fun a ha => (h.values.1 a ha).imp fun b hb => ⟨hb.1, hb.2.2⟩,
      fun b hb => (h.values.2 b hb).imp fun a ha => ⟨ha.1, ha.2.2⟩⟩
  · exact found_of_forall₂ (h.forall₂ hk)

theorem same_applied_iff (h k : Head) (as bs : List Ty) :
    (applied h as).same (applied k bs) = true ↔ h = k ∧ SameArgs h as bs := by
  unfold same SameArgs SameValues
  by_cases hh : h = .literal
  · simp [hh, allWithin_iff, someSame_iff]
  · simp [hh, sameAll_iff]

theorem same_list_iff (as bs : List Ty) :
    (list as).same (list bs) = true ↔ List.Forall₂ (fun a b => a.same b = true) as bs := by
  simp [same, sameAll_iff]

/-- A type without parts that other spellings could vary. -/
def isAtom : Ty → Bool
  | union _ _ | applied _ _ | list _ | token _ => false
  | _ => true

theorem same_iff_eq_of_isAtom {s : Ty} (hs : s.isAtom = true) (t : Ty) :
    s.same t = true ↔ s = t := by
  cases s <;> simp [isAtom] at hs <;> cases t <;> simp [same]

theorem same_token_iff (a b : Token) : (token a).same (token b) = true ↔ a.same b = true := by
  simp [same]

/-- What is the same as a union is a union of the same members. -/
theorem eq_union_of_same {p : Bool} {ms : List Ty} {t : Ty} (h : (union p ms).same t = true) :
    ∃ q ns, t = union q ns ∧ SameMembers ms ns := by
  cases t with
  | union q ns => exact ⟨q, ns, rfl, (same_union_iff ..).1 h⟩
  | _ => simp [same] at h

theorem eq_applied_of_same {k : Head} {as : List Ty} {t : Ty}
    (h : (applied k as).same t = true) : ∃ bs, t = applied k bs ∧ SameArgs k as bs := by
  cases t with
  | applied j bs =>
    obtain ⟨rfl, hb⟩ := (same_applied_iff ..).1 h
    exact ⟨bs, rfl, hb⟩
  | _ => simp [same] at h

theorem eq_list_of_same {as : List Ty} {t : Ty} (h : (list as).same t = true) :
    ∃ bs, t = list bs ∧ List.Forall₂ (fun a b => a.same b = true) as bs := by
  cases t with
  | list bs => exact ⟨bs, rfl, (same_list_iff ..).1 h⟩
  | _ => simp [same] at h

theorem eq_token_of_same {a : Token} {t : Ty} (h : (token a).same t = true) :
    ∃ b, t = token b ∧ a.same b = true := by
  cases t with
  | token b => exact ⟨b, rfl, (same_token_iff ..).1 h⟩
  | _ => simp [same] at h

/-! ## The equivalence -/

theorem same_refl (t : Ty) : t.same t = true := by
  induction t using memInduction with
  | union p ms ih =>
    exact (same_union_iff ..).2 ⟨fun m hm => ⟨m, hm, ih m hm⟩, fun m hm => ⟨m, hm, ih m hm⟩⟩
  | applied h as ih =>
    refine (same_applied_iff ..).2 ⟨rfl, ?_⟩
    by_cases hh : h = .literal
    · subst hh
      exact ⟨fun a ha => ⟨a, ha, ofOneClass_refl a, ih a ha⟩,
        fun a ha => ⟨a, ha, ofOneClass_refl a, ih a ha⟩⟩
    · exact .of_forall₂ hh (List.forall₂_same.2 ih)
  | list ts ih => exact (same_list_iff ..).2 (List.forall₂_same.2 ih)
  | token t => exact (same_token_iff ..).2 (Token.same_refl t)
  | _ => exact (same_iff_eq_of_isAtom rfl _).2 rfl

theorem same_symm {s t : Ty} (h : s.same t = true) : t.same s = true := by
  induction s using memInduction generalizing t with
  | union p ms ih =>
    obtain ⟨q, ns, rfl, hms, hns⟩ := eq_union_of_same h
    refine (same_union_iff ..).2 ⟨fun n hn => ?_, fun m hm => ?_⟩
    · obtain ⟨m, hm, hmn⟩ := hns n hn
      exact ⟨m, hm, ih m hm hmn⟩
    · obtain ⟨n, hn, hmn⟩ := hms m hm
      exact ⟨n, hn, ih m hm hmn⟩
  | applied k as ih =>
    obtain ⟨bs, rfl, hb⟩ := eq_applied_of_same h
    refine (same_applied_iff ..).2 ⟨rfl, ?_⟩
    by_cases hk : k = .literal
    · subst hk
      refine ⟨fun b hb' => ?_, fun a ha => ?_⟩
      · obtain ⟨a, ha, hclass, hab⟩ := hb.values.2 b hb'
        exact ⟨a, ha, ofOneClass_comm a b ▸ hclass, ih a ha hab⟩
      · obtain ⟨b, hb', hclass, hab⟩ := hb.values.1 a ha
        exact ⟨b, hb', ofOneClass_comm a b ▸ hclass, ih a ha hab⟩
    · have hb := hb.forall₂ hk
      rw [List.forall₂_iff_get] at hb
      refine .of_forall₂ hk (List.forall₂_iff_get.2 ⟨hb.1.symm, fun i h₁ h₂ => ?_⟩)
      exact ih _ (List.get_mem _ _) (hb.2 i h₂ h₁)
  | list ts ih =>
    obtain ⟨bs, rfl, hb⟩ := eq_list_of_same h
    rw [List.forall₂_iff_get] at hb
    refine (same_list_iff ..).2 (List.forall₂_iff_get.2 ⟨hb.1.symm, fun i h₁ h₂ => ?_⟩)
    exact ih _ (List.get_mem _ _) (hb.2 i h₂ h₁)
  | token a =>
    obtain ⟨b, rfl, hb⟩ := eq_token_of_same h
    exact (same_token_iff ..).2 (Token.same_symm hb)
  | _ =>
    obtain rfl := (same_iff_eq_of_isAtom rfl _).1 h
    exact same_refl _

theorem same_comm (s t : Ty) : s.same t = t.same s :=
  Bool.eq_iff_iff.2 ⟨same_symm, same_symm⟩

theorem same_trans {s t u : Ty} (h : s.same t = true) (h' : t.same u = true) :
    s.same u = true := by
  induction s using memInduction generalizing t u with
  | union p ms ih =>
    obtain ⟨q, ns, rfl, hms, hns⟩ := eq_union_of_same h
    obtain ⟨r, ks, rfl, hns', hks⟩ := eq_union_of_same h'
    refine (same_union_iff ..).2 ⟨fun m hm => ?_, fun k hk => ?_⟩
    · obtain ⟨n, hn, hmn⟩ := hms m hm
      obtain ⟨k, hk, hnk⟩ := hns' n hn
      exact ⟨k, hk, ih m hm hmn hnk⟩
    · obtain ⟨n, hn, hnk⟩ := hks k hk
      obtain ⟨m, hm, hmn⟩ := hns n hn
      exact ⟨m, hm, ih m hm hmn hnk⟩
  | applied k as ih =>
    obtain ⟨bs, rfl, hb⟩ := eq_applied_of_same h
    obtain ⟨cs, rfl, hc⟩ := eq_applied_of_same h'
    refine (same_applied_iff ..).2 ⟨rfl, ?_⟩
    by_cases hk : k = .literal
    · subst hk
      refine ⟨fun a ha => ?_, fun c hc' => ?_⟩
      · obtain ⟨b, hb', hclass, hab⟩ := hb.values.1 a ha
        obtain ⟨c, hc', hclass', hbc⟩ := hc.values.1 b hb'
        exact ⟨c, hc', ofOneClass_trans hab hclass hclass', ih a ha hab hbc⟩
      · obtain ⟨b, hb', hclass', hbc⟩ := hc.values.2 c hc'
        obtain ⟨a, ha, hclass, hab⟩ := hb.values.2 b hb'
        exact ⟨a, ha, ofOneClass_trans hab hclass hclass', ih a ha hab hbc⟩
    · have hb := hb.forall₂ hk
      have hc := hc.forall₂ hk
      rw [List.forall₂_iff_get] at hb hc
      refine .of_forall₂ hk (List.forall₂_iff_get.2 ⟨hb.1.trans hc.1, fun i h₁ h₂ => ?_⟩)
      exact ih _ (List.get_mem _ _) (hb.2 i h₁ (hc.1 ▸ h₂)) (hc.2 i (hc.1 ▸ h₂) h₂)
  | list ts ih =>
    obtain ⟨bs, rfl, hb⟩ := eq_list_of_same h
    obtain ⟨cs, rfl, hc⟩ := eq_list_of_same h'
    rw [List.forall₂_iff_get] at hb hc
    refine (same_list_iff ..).2
      (List.forall₂_iff_get.2 ⟨hb.1.trans hc.1, fun i h₁ h₂ => ?_⟩)
    exact ih _ (List.get_mem _ _) (hb.2 i h₁ (hc.1 ▸ h₂)) (hc.2 i (hc.1 ▸ h₂) h₂)
  | token a =>
    obtain ⟨b, rfl, hb⟩ := eq_token_of_same h
    obtain ⟨c, rfl, hc⟩ := eq_token_of_same h'
    exact (same_token_iff ..).2 (Token.same_trans hb hc)
  | _ =>
    obtain rfl := (same_iff_eq_of_isAtom rfl _).1 h
    exact h'

theorem same_congr {s s' t t' : Ty} (hs : s.same s' = true) (ht : t.same t' = true) :
    s.same t = s'.same t' :=
  Bool.eq_iff_iff.2
    ⟨fun h => same_trans (same_symm hs) (same_trans h ht),
      fun h => same_trans hs (same_trans h (same_symm ht))⟩

/-! ## What the same types agree in -/

section Agreement

variable {s t : Ty}

/-- What does not look at parts, and takes all unions alike, agrees on types that are the same. -/
theorem same_congr_head {β : Type} (f : Ty → β)
    (union : ∀ p q ms ns, f (union p ms) = f (.union q ns))
    (applied : ∀ k as bs, f (applied k as) = f (.applied k bs))
    (list : ∀ as bs, f (list as) = f (.list bs))
    (token : ∀ a b, f (token a) = f (.token b)) (h : s.same t = true) : f s = f t := by
  cases s with
  | union p ms =>
    obtain ⟨q, ns, rfl, -⟩ := eq_union_of_same h
    exact union ..
  | applied k as =>
    obtain ⟨bs, rfl, -⟩ := eq_applied_of_same h
    exact applied ..
  | list as =>
    obtain ⟨bs, rfl, -⟩ := eq_list_of_same h
    exact list ..
  | token a =>
    obtain ⟨b, rfl, -⟩ := eq_token_of_same h
    exact token ..
  | _ => rw [(same_iff_eq_of_isAtom rfl _).1 h]

theorem isTop_congr (h : s.same t = true) : s.isTop = t.isTop :=
  same_congr_head isTop (fun _ _ _ _ => rfl) (fun _ _ _ => rfl) (fun _ _ => rfl)
    (fun _ _ => rfl) h

theorem isVoid_congr (h : s.same t = true) : s.isVoid = t.isVoid :=
  same_congr_head isVoid (fun _ _ _ _ => rfl) (fun _ _ _ => rfl) (fun _ _ => rfl)
    (fun _ _ => rfl) h

theorem isUnion_congr (h : s.same t = true) : s.isUnion = t.isUnion :=
  same_congr_head isUnion (fun _ _ _ _ => rfl) (fun _ _ _ => rfl) (fun _ _ => rfl)
    (fun _ _ => rfl) h

theorem isClass_congr (h : s.same t = true) : s.isClass = t.isClass :=
  same_congr_head isClass (fun _ _ _ _ => rfl) (fun _ _ _ => rfl) (fun _ _ => rfl)
    (fun _ _ => rfl) h

/-- Classes have one spelling. -/
theorem eq_of_isClass (h : s.same t = true) (hs : s.isClass = true) : s = t := by
  cases s with
  | cls c => exact (same_iff_eq_of_isAtom rfl _).1 h
  | _ => cases hs

theorem isCell_congr (h : s.same t = true) : s.isCell = t.isCell :=
  same_congr_head isCell (fun _ _ _ _ => rfl) (fun _ _ _ => rfl) (fun _ _ => rfl)
    (fun _ _ => rfl) h

theorem isAlias_union (p : Bool) (ms : List Ty) : (union p ms).isAlias = false := by
  cases p <;> rfl

theorem isUnion_of_isAlias {t : Ty} (h : t.isAlias = true) : t.isUnion = false := by
  rw [isAlias, Bool.and_eq_true, Bool.not_eq_true'] at h
  exact h.2

theorem isAlias_congr (h : s.same t = true) : s.isAlias = t.isAlias :=
  same_congr_head isAlias (fun p q ms ns => by rw [isAlias_union, isAlias_union])
    (fun _ _ _ => rfl) (fun _ _ => rfl) (fun _ _ => rfl) h

/-- Types that are no unions have the same class behind them, if any. -/
theorem origin_eq_cls_congr (h : s.same t = true) (hs : s.isUnion = false) (c : Cls) :
    s.origin = .cls c ↔ t.origin = .cls c := by
  cases s with
  | union p ms => cases hs
  | applied k as =>
    obtain ⟨bs, rfl, -⟩ := eq_applied_of_same h
    rfl
  | list as =>
    obtain ⟨bs, rfl, -⟩ := eq_list_of_same h
    simp [origin, origin?]
  | token a =>
    obtain ⟨b, rfl, -⟩ := eq_token_of_same h
    simp [origin, origin?]
  | _ => rw [(same_iff_eq_of_isAtom rfl _).1 h]

theorem origin_ne_literal (h : s.origin.isClass = true) : s.origin ≠ .form .literal :=
  fun hform => by rw [hform] at h; cases h

/-- The arguments of types that are no unions, and no choices among values, are the same one by
one. -/
theorem args_congr (h : s.same t = true) (hs : s.isUnion = false)
    (hform : s.origin ≠ .form .literal) :
    List.Forall₂ (fun a b => a.same b = true) s.args t.args := by
  cases s with
  | union p ms => cases hs
  | applied k as =>
    obtain ⟨bs, rfl, hb⟩ := eq_applied_of_same h
    refine hb.forall₂ ?_
    rintro rfl
    exact hform rfl
  | list as =>
    obtain ⟨bs, rfl, -⟩ := eq_list_of_same h
    exact .nil
  | token a =>
    obtain ⟨b, rfl, -⟩ := eq_token_of_same h
    exact .nil
  | _ =>
    rw [← (same_iff_eq_of_isAtom rfl _).1 h]
    exact .nil

theorem unionMembers_congr (h : s.same t = true) (hs : s.isUnion = true) :
    SameMembers s.unionMembers t.unionMembers := by
  cases s with
  | union p ms =>
    obtain ⟨q, ns, rfl, hm⟩ := eq_union_of_same h
    exact hm
  | _ => cases hs

theorem isOptional_congr (h : s.same t = true) : s.isOptional = t.isOptional := by
  cases hu : s.isUnion with
  | false => simp [isOptional, ← isUnion_congr h, hu]
  | true =>
    obtain ⟨hm, hn⟩ := unionMembers_congr h hu
    rw [isOptional, isOptional, ← isUnion_congr h, hu, Bool.true_and, Bool.true_and,
      Bool.eq_iff_iff, List.any_eq_true, List.any_eq_true]
    constructor
    · rintro ⟨m, hmem, hv⟩
      obtain ⟨n, hnmem, hmn⟩ := hm m hmem
      exact ⟨n, hnmem, isVoid_congr hmn ▸ hv⟩
    · rintro ⟨n, hmem, hv⟩
      obtain ⟨m, hmmem, hmn⟩ := hn n hmem
      exact ⟨m, hmmem, isVoid_congr hmn ▸ hv⟩

/-- Types that are no unions stand over the same class or form. -/
theorem same_origin (h : s.same t = true) (hs : s.isUnion = false) :
    s.origin.same t.origin = true := by
  cases s with
  | union p ms => cases hs
  | applied k as =>
    obtain ⟨bs, rfl, -⟩ := eq_applied_of_same h
    exact same_refl _
  | list as =>
    obtain ⟨bs, rfl, hb⟩ := eq_list_of_same h
    exact h
  | token a =>
    obtain ⟨b, rfl, hb⟩ := eq_token_of_same h
    exact h
  | _ =>
    rw [(same_iff_eq_of_isAtom rfl _).1 h]
    exact same_refl _

end Agreement

theorem sameAll_congr {as as' bs bs' : List Ty}
    (ha : List.Forall₂ (fun a b => a.same b = true) as as')
    (hb : List.Forall₂ (fun a b => a.same b = true) bs bs') :
    sameAll as bs = sameAll as' bs' := by
  induction ha generalizing bs bs' with
  | nil => cases hb <;> simp [sameAll]
  | cons haa _ ih =>
    cases hb with
    | nil => simp [sameAll]
    | cons hbb hb => rw [sameAll, sameAll, same_congr haa hbb, ih hb]

/-! ## Keys -/

theorem allHashable_iff (ts : List Ty) : allHashable ts = true ↔ ∀ t ∈ ts, t.hashable = true := by
  induction ts with
  | nil => simp [allHashable]
  | cons t ts ih => simp [allHashable, ih]

end Ty

theorem Token.allHashable_iff (ts : List Token) :
    allHashable ts = true ↔ ∀ t ∈ ts, t.hashable = true := by
  induction ts with
  | nil => simp [allHashable]
  | cons t ts ih => simp [allHashable, ih]

/-- Elements that are the same one by one have what each of them keeps. -/
theorem forall_mem_of_forall₂ {α : Type} {R : α → α → Prop} {P : α → Prop} {as bs : List α}
    (h : List.Forall₂ R as bs) (hP : ∀ a ∈ as, ∀ b, R a b → P b) : ∀ b ∈ bs, P b := by
  induction h with
  | nil => exact fun _ hb => absurd hb List.not_mem_nil
  | cons hab _ ih =>
    exact List.forall_mem_cons.2 ⟨hP _ List.mem_cons_self _ hab,
      ih fun a ha => hP a (List.mem_cons_of_mem _ ha)⟩

theorem Scalar.hashable_of_equal {a b : Scalar} (h : a.equal b = true) : b.hashable = true := by
  rcases (equal_iff a b).1 h with ⟨s, -, rfl⟩ | ⟨s, -, rfl⟩ | ⟨p, -, hb, u₁, u₂⟩
  · rfl
  · rfl
  · unfold hashable
    split
    · exact absurd (congrArg Prod.fst (Option.some.inj hb)).symm u₁
    · rfl

theorem Token.hashable_of_same {a b : Token} (h : a.same b = true) (ha : a.hashable = true) :
    b.hashable = true := by
  induction a using memInduction generalizing b with
  | tuple ts ih =>
    cases b <;> simp only [same, Bool.false_eq_true] at h
    rw [sameAll_iff] at h
    rw [hashable, allHashable_iff] at ha ⊢
    exact forall_mem_of_forall₂ h fun t ht u htu => ih t ht htu (ha t ht)
  | list ts ih => simp [hashable] at ha
  | scalar s =>
    cases b <;> simp only [same, Bool.false_eq_true] at h
    simp only [Bool.or_eq_true, decide_eq_true_eq] at h
    rcases h with rfl | h
    · exact ha
    · exact Scalar.hashable_of_equal h
  | object c n s =>
    cases b <;> simp only [same, Bool.false_eq_true] at h
    rw [Bool.and_eq_true, decide_eq_true_eq] at h
    obtain ⟨rfl, -⟩ := h
    unfold hashable at ha ⊢
    grind
  | _ => cases b <;> simp_all [same, hashable]

/-- A bare parameter list. -/
def Ty.isList : Ty → Bool
  | list _ => true
  | _ => false

theorem Ty.isList_congr {a b : Ty} (h : a.same b = true) : a.isList = b.isList :=
  same_congr_head isList (fun _ _ _ _ => rfl) (fun _ _ _ => rfl) (fun _ _ => rfl)
    (fun _ _ => rfl) h

theorem Ty.misplacesList_congr {h : Head} {as bs : List Ty} (hab : SameMembers as bs) :
    misplacesList h as = misplacesList h bs := by
  unfold misplacesList
  split
  · rfl
  · rfl
  · show as.any isList = bs.any isList
    rw [Bool.eq_iff_iff, List.any_eq_true, List.any_eq_true]
    constructor
    · rintro ⟨a, ha, hlist⟩
      obtain ⟨b, hb, hsame⟩ := hab.1 a ha
      exact ⟨b, hb, isList_congr hsame ▸ hlist⟩
    · rintro ⟨b, hb, hlist⟩
      obtain ⟨a, ha, hsame⟩ := hab.2 b hb
      exact ⟨a, ha, (isList_congr hsame).trans hlist⟩

/-- Only types that are keys are the same as a key. -/
theorem Ty.hashable_of_same {s t : Ty} (h : s.same t = true) (hs : s.hashable = true) :
    t.hashable = true := by
  induction s using memInduction generalizing t with
  | union p ms ih =>
    obtain ⟨q, ns, rfl, hm⟩ := eq_union_of_same h
    rw [hashable, allHashable_iff] at hs ⊢
    intro n hn
    obtain ⟨m, hm, hmn⟩ := hm.2 n hn
    exact ih m hm hmn (hs m hm)
  | applied k as ih =>
    obtain ⟨bs, rfl, hb⟩ := eq_applied_of_same h
    rw [hashable, Bool.and_eq_true, allHashable_iff] at hs ⊢
    refine ⟨fun b hb' => ?_, ?_⟩
    · obtain ⟨a, ha, hab⟩ := hb.members.2 b hb'
      exact ih a ha hab (hs.1 a ha)
    · rw [← misplacesList_congr hb.members]
      exact hs.2
  | list as ih =>
    obtain ⟨bs, rfl, hb⟩ := eq_list_of_same h
    rw [hashable, allHashable_iff] at hs ⊢
    exact forall_mem_of_forall₂ hb fun a ha b hab => ih a ha hab (hs a ha)
  | token a =>
    obtain ⟨b, rfl, hb⟩ := eq_token_of_same h
    exact Token.hashable_of_same hb hs
  | _ =>
    rw [← (same_iff_eq_of_isAtom rfl _).1 h]
    exact hs

theorem Ty.hashable_congr {s t : Ty} (h : s.same t = true) : s.hashable = t.hashable :=
  Bool.eq_iff_iff.2 ⟨hashable_of_same h, hashable_of_same (same_symm h)⟩

theorem Ty.allHashable_congr {as bs : List Ty} (h : SameMembers as bs) :
    allHashable as = allHashable bs := by
  rw [Bool.eq_iff_iff, allHashable_iff, allHashable_iff]
  constructor
  · intro has b hb
    obtain ⟨a, ha, hab⟩ := h.2 b hb
    exact hashable_of_same hab (has a ha)
  · intro hbs a ha
    obtain ⟨b, hb, hab⟩ := h.1 a ha
    exact (hashable_congr hab).trans (hbs b hb)

/-! ## Refused comparisons -/

namespace Ty

theorem refusesAny_congr {as as' bs bs' : List Ty}
    (ih : ∀ a ∈ as, ∀ {a' b b' : Ty}, a.same a' = true → b.same b' = true →
      refusesComparison a b = refusesComparison a' b')
    (ha : List.Forall₂ (fun a b => a.same b = true) as as')
    (hb : List.Forall₂ (fun a b => a.same b = true) bs bs') :
    refusesAny as bs = refusesAny as' bs' := by
  induction ha generalizing bs bs' with
  | nil => rfl
  | cons haa _ ih' =>
    cases hb with
    | nil => rfl
    | cons hbb hb =>
      rw [refusesAny, refusesAny, ih _ List.mem_cons_self haa hbb, same_congr haa hbb,
        ih' (fun a ha => ih a (List.mem_cons_of_mem _ ha)) hb]

/-- Whether a comparison is refused does not depend on the spelling. -/
theorem refusesComparison_congr {s s' d d' : Ty} (hs : s.same s' = true) (hd : d.same d' = true) :
    refusesComparison s d = refusesComparison s' d' := by
  induction s using memInduction generalizing s' d d' with
  | union p ms _ =>
    obtain ⟨q, ns, rfl, hm⟩ := eq_union_of_same hs
    cases d with
    | union p' ks =>
      obtain ⟨q', ls, rfl, hk⟩ := eq_union_of_same hd
      rw [refusesComparison, refusesComparison, allHashable_congr hm, allHashable_congr hk]
    | _ =>
      cases d' with
      | union => simp [same] at hd
      | _ => rfl
  | applied k as ih =>
    obtain ⟨as', rfl, ha⟩ := eq_applied_of_same hs
    cases d with
    | applied j bs =>
      obtain ⟨bs', rfl, hb⟩ := eq_applied_of_same hd
      rw [refusesComparison, refusesComparison]
      by_cases hkj : k = j
      · subst hkj
        by_cases hk : k = .literal
        · rw [if_pos hk, if_pos hk, allHashable_congr ha.members, allHashable_congr hb.members]
        · rw [if_neg hk, if_neg hk, refusesAny_congr ih (ha.forall₂ hk) (hb.forall₂ hk)]
      · rw [decide_eq_false hkj, Bool.false_and, Bool.false_and]
    | _ =>
      cases d' with
      | applied => simp [same] at hd
      | _ => rfl
  | list as ih =>
    obtain ⟨as', rfl, ha⟩ := eq_list_of_same hs
    cases d with
    | list bs =>
      obtain ⟨bs', rfl, hb⟩ := eq_list_of_same hd
      rw [refusesComparison, refusesComparison, refusesAny_congr ih ha hb]
    | _ =>
      cases d' with
      | list => simp [same] at hd
      | _ => rfl
  | token a =>
    obtain ⟨a', rfl, -⟩ := eq_token_of_same hs
    rfl
  | _ =>
    rw [← (same_iff_eq_of_isAtom rfl _).1 hs]
    rfl

theorem refusesPlanning_congr {s s' d d' : Ty} (hs : s.same s' = true) (hd : d.same d' = true) :
    refusesPlanning s d = refusesPlanning s' d' := by
  unfold refusesPlanning
  rw [refusesComparison_congr hs hd, isUnion_congr hs, isUnion_congr hd, isAlias_congr hs,
    isAlias_congr hd]
  cases hsa : s'.isAlias with
  | false => rfl
  | true =>
    cases hda : d'.isAlias with
    | false => rfl
    | true =>
      have hsu := isUnion_of_isAlias ((isAlias_congr hs).trans hsa)
      have hdu := isUnion_of_isAlias ((isAlias_congr hd).trans hda)
      rw [isClass_congr (same_origin hs hsu), isClass_congr (same_origin hd hdu)]
      cases hsc : s'.origin.isClass with
      | false => rfl
      | true =>
        cases hdc : d'.origin.isClass with
        | false => rfl
        | true =>
          have hsargs := args_congr hs hsu
            (origin_ne_literal ((isClass_congr (same_origin hs hsu)).trans hsc))
          have hdargs := args_congr hd hdu
            (origin_ne_literal ((isClass_congr (same_origin hd hdu)).trans hdc))
          rw [refusesAny_congr (fun a _ => refusesComparison_congr) hsargs hdargs]

/-- A type that is compared without being refused: no choice and no union inside it has a member
that cannot be an element of a set. -/
def Comparable (t : Ty) : Prop := refusesComparison t t = false

theorem Comparable.congr {s t : Ty} (hs : s.Comparable) (h : s.same t = true) : t.Comparable :=
  (refusesComparison_congr h h).symm.trans hs

theorem forall_comparable_of_refusesAny {as : List Ty} (h : refusesAny as as = false) :
    ∀ a ∈ as, a.Comparable := by
  induction as with
  | nil => nofun
  | cons a as ih =>
    rw [refusesAny, Bool.or_eq_false_iff, same_refl, Bool.true_and] at h
    exact List.forall_mem_cons.2 ⟨h.1, ih h.2⟩

theorem Comparable.of_mem_args {k : Head} {as : List Ty} (h : (applied k as).Comparable)
    (hk : k ≠ .literal) : ∀ a ∈ as, a.Comparable := by
  rw [Comparable, refusesComparison, if_neg hk, decide_eq_true rfl, Bool.true_and] at h
  exact forall_comparable_of_refusesAny h

theorem refusesAny_of_forall {as bs : List Ty}
    (h : ∀ a ∈ as, ∀ b ∈ bs, refusesComparison a b = false) : refusesAny as bs = false := by
  induction as generalizing bs with
  | nil => rfl
  | cons a as ih =>
    cases bs with
    | nil => rfl
    | cons b bs =>
      rw [refusesAny, h a List.mem_cons_self b List.mem_cons_self, ih fun a ha b hb =>
        h a (List.mem_cons_of_mem _ ha) b (List.mem_cons_of_mem _ hb), Bool.and_false]
      rfl

theorem Comparable.not_refuses {s d : Ty} (hs : s.Comparable) (hd : d.Comparable) :
    refusesComparison s d = false := by
  induction s using memInduction generalizing d with
  | union p ms _ =>
    cases d with
    | union q ns =>
      simp only [Comparable, refusesComparison, Bool.and_self, Bool.not_eq_false'] at hs hd
      rw [refusesComparison, hs, hd]
      rfl
    | _ => rfl
  | applied k as ih =>
    cases d with
    | applied j bs =>
      rw [refusesComparison]
      by_cases hkj : k = j
      · subst hkj
        by_cases hk : k = .literal
        · simp only [Comparable, refusesComparison, if_pos hk, decide_true, Bool.true_and,
            Bool.and_self, Bool.not_eq_false'] at hs hd
          rw [if_pos hk, hs, hd]
          simp
        · rw [if_neg hk, refusesAny_of_forall fun a ha b hb =>
            ih a ha (hs.of_mem_args hk a ha) (hd.of_mem_args hk b hb), Bool.and_false]
      · rw [decide_eq_false hkj, Bool.false_and]
    | _ => rfl
  | list as ih =>
    cases d with
    | list bs =>
      rw [Comparable, refusesComparison] at hs hd
      rw [refusesComparison]
      exact refusesAny_of_forall fun a ha b hb =>
        ih a ha (forall_comparable_of_refusesAny hs a ha) (forall_comparable_of_refusesAny hd b hb)
    | _ => rfl
  | _ => rfl

/-- An alias over a class passes on to its arguments that it is comparable. -/
theorem Comparable.of_mem_of_isClass {s a : Ty} (hs : s.Comparable) (hu : s.isUnion = false)
    (hclass : s.origin.isClass = true) (ha : a ∈ s.args) : a.Comparable := by
  cases s with
  | applied k as =>
    refine hs.of_mem_args ?_ a ha
    rintro rfl
    cases hclass
  | union => cases hu
  | _ => cases ha

theorem Comparable.not_refusesPlanning {s d : Ty} (hs : s.Comparable) (hd : d.Comparable) :
    refusesPlanning s d = false := by
  unfold refusesPlanning
  rw [hs.not_refuses hd, Bool.false_or, Bool.and_eq_false_iff]
  right
  by_cases h : (s.isAlias && d.isAlias && s.origin.isClass && d.origin.isClass) = true
  · simp only [Bool.and_eq_true] at h
    obtain ⟨⟨⟨hsa, hda⟩, hsc⟩, hdc⟩ := h
    rw [refusesAny_of_forall fun a ha b hb =>
      (hs.of_mem_of_isClass (isUnion_of_isAlias hsa) hsc ha).not_refuses
        (hd.of_mem_of_isClass (isUnion_of_isAlias hda) hdc hb), Bool.and_false]
  · rw [Bool.not_eq_true] at h
    rw [h, Bool.false_and]

/-- Keys are comparable. -/
theorem comparable_of_hashable {t : Ty} (h : t.hashable = true) : t.Comparable := by
  induction t using memInduction with
  | union p ms ih =>
    rw [hashable] at h
    simp [Comparable, refusesComparison, h]
  | applied k as ih =>
    rw [hashable, Bool.and_eq_true] at h
    by_cases hk : k = .literal
    · simp [Comparable, refusesComparison, hk, h.1]
    · have hall := (allHashable_iff as).1 h.1
      rw [Comparable, refusesComparison, if_neg hk, refusesAny_of_forall fun a ha b hb =>
        (ih a ha (hall a ha)).not_refuses (ih b hb (hall b hb)), Bool.and_false]
  | list as ih =>
    rw [hashable] at h
    have hall := (allHashable_iff as).1 h
    rw [Comparable, refusesComparison]
    exact refusesAny_of_forall fun a ha b hb =>
      (ih a ha (hall a ha)).not_refuses (ih b hb (hall b hb))
  | _ => rfl

theorem refusesComparison_cls (t : Ty) (c : Cls) : refusesComparison t (cls c) = false := by
  cases t <;> rfl

theorem refusesAny_nil (as : List Ty) : refusesAny as [] = false := by
  cases as <;> rfl

/-- Planning to or from a class is never refused. -/
theorem refusesPlanning_cls (t : Ty) (c : Cls) : refusesPlanning t (cls c) = false := by
  rw [refusesPlanning, refusesComparison_cls, show (cls c).args = [] from rfl, refusesAny_nil]
  simp

theorem cls_refusesPlanning (t : Ty) (c : Cls) : refusesPlanning (cls c) t = false := by
  rw [refusesPlanning, show refusesComparison (cls c) t = false from rfl,
    show refusesAny (cls c).args t.args = false from rfl]
  simp

theorem refusesPlanning_of_isUnion {s d : Ty} (h : (s.isUnion || d.isUnion) = true) :
    refusesPlanning s d = false := by
  unfold refusesPlanning
  grind

end Ty

end CallAdapter
