import CallAdapter.Proofs.Member.Scope
import CallAdapter.Proofs.Member.Registration
import Mathlib

/-!
# What registrations leave as it was

A registration adds at most one entry, for its own container and behind the entries that are there
(`Registration.grows_into`), and so does a sequence of registrations for the containers that it
names (`MemberTable.grows_registering`). Queries for other containers do not see the new entries,
and queries for these containers list them last.

Handles on functions are kept apart from the containers: whatever was registered last for a
function is what its handle describes (`MemberTable.describe_registering`). So the description that
a container is asked for belongs to it exactly when the function was registered for it last
(`registrations_undisturbed`).
-/

namespace CallAdapter

/-! ## Answers that gain members -/

theorem Appends.trans {α : Type} {new : α → Prop} {as bs cs : List α} (h : Appends new as bs)
    (h' : Appends new bs cs) : Appends new as cs := by
  obtain ⟨ds, rfl, hds⟩ := h
  obtain ⟨es, rfl, hes⟩ := h'
  refine ⟨ds ++ es, List.append_assoc .., fun d hd => ?_⟩
  exact (List.mem_append.1 hd).elim (hds d) (hes d)

/-- Two answers to one query: both are the same failure, or the second has new members after those
of the first. -/
inductive Answer.Gains {α : Type} (new : α → Prop) :
    Except Failure (List α) → Except Failure (List α) → Prop
  | fails (e : Failure) : Answer.Gains new (.error e) (.error e)
  | appends {as bs : List α} (h : Appends new as bs) : Answer.Gains new (.ok as) (.ok bs)

theorem Answer.Gains.mono {α : Type} {new new' : α → Prop} {x y : Except Failure (List α)}
    (h : Answer.Gains new x y) (hnew : ∀ a, new a → new' a) : Answer.Gains new' x y := by
  cases h with
  | fails e => exact .fails e
  | appends h => exact .appends (h.mono hnew)

namespace MemberSource

/-- Two sources answer every query for the container alike. -/
structure AnswersAlike (S S' : MemberSource) (c : Ty) : Prop where
  procedures : S'.procedures c = S.procedures c
  constructors : S'.constructors c = S.constructors c
  properties : S'.properties c = S.properties c
  fields : S'.fields c = S.fields c

/-- The second source answers every query for the container as the first does, with new members at
the end. -/
structure Extends (new : Member → Prop) (S S' : MemberSource) (c : Ty) : Prop where
  procedures : ∀ name b,
    Answer.Gains (fun t => new (.target t)) (S.procedures c name b) (S'.procedures c name b)
  constructors : ∀ b,
    Answer.Gains (fun t => new (.target t)) (S.constructors c b) (S'.constructors c b)
  properties : ∀ name b,
    Answer.Gains (fun p => new (.property p)) (S.properties c name b) (S'.properties c name b)
  fields : ∀ name b,
    Answer.Gains (fun f => new (.field f)) (S.fields c name b) (S'.fields c name b)

theorem Extends.mono {new new' : Member → Prop} {S S' : MemberSource} {c : Ty}
    (h : S.Extends new S' c) (hnew : ∀ m, new m → new' m) : S.Extends new' S' c where
  procedures name b := (h.procedures name b).mono fun _ => hnew _
  constructors b := (h.constructors b).mono fun _ => hnew _
  properties name b := (h.properties name b).mono fun _ => hnew _
  fields name b := (h.fields name b).mono fun _ => hnew _

end MemberSource

/-! ## Entries -/

namespace MemberTable

/-- A table with new entries after those of another; what is new is said of the container and the
member of an entry. -/
structure Grows (new : Ty → Member → Prop) (t t' : MemberTable) : Prop where
  procedures : Appends (fun e => new e.container (.target e.member)) t.procedures t'.procedures
  constructors : Appends (fun e => new e.container (.target e.member)) t.constructors t'.constructors
  properties : Appends (fun e => new e.container (.property e.member)) t.properties t'.properties
  fields : Appends (fun e => new e.container (.field e.member)) t.fields t'.fields

namespace Grows

variable {new new' : Ty → Member → Prop} {t t' t'' : MemberTable} {c : Ty}

theorem refl (t : MemberTable) : t.Grows new t := ⟨.refl _, .refl _, .refl _, .refl _⟩

theorem trans (h : t.Grows new t') (h' : t'.Grows new t'') : t.Grows new t'' :=
  ⟨h.procedures.trans h'.procedures, h.constructors.trans h'.constructors,
    h.properties.trans h'.properties, h.fields.trans h'.fields⟩

theorem mono (h : t.Grows new t') (hnew : ∀ c m, new c m → new' c m) : t.Grows new' t' :=
  ⟨h.procedures.mono fun _ => hnew _ _, h.constructors.mono fun _ => hnew _ _,
    h.properties.mono fun _ => hnew _ _, h.fields.mono fun _ => hnew _ _⟩

section Select

variable {α : Type} (new : Ty → α → Prop) {es es' : List (TableEntry α)}

/-- Entries of other containers are not selected. -/
theorem select_of_others (hes : Appends (fun e => new e.container e.member) es es')
    (hnew : ∀ k a, new k a → k.same c = false) (admits : TableEntry α → Bool) :
    select es' c admits = select es c admits := by
  obtain ⟨added, rfl, hadded⟩ := hes
  have hnone : (added.filter fun e => e.container.same c && admits e) = [] := by
    refine List.filter_eq_nil_iff.2 fun e he => ?_
    simp [hnew _ _ (hadded e he)]
  simp only [select, List.filter_append, hnone, List.append_nil]

/-- New entries are selected last. -/
theorem gains_select (hes : Appends (fun e => new e.container e.member) es es')
    (admits : TableEntry α → Bool) :
    Answer.Gains (fun a => ∃ k, k.same c = true ∧ new k a) (select es c admits)
      (select es' c admits) := by
  obtain ⟨added, rfl, hadded⟩ := hes
  by_cases hc : c.hashable = true
  · simp only [select, checkKey, if_pos hc, List.filter_append, List.map_append]
    refine .appends ⟨_, rfl, fun a ha => ?_⟩
    obtain ⟨e, he, rfl⟩ := List.mem_map.1 ha
    obtain ⟨hmem, hselected⟩ := List.mem_filter.1 he
    exact ⟨e.container, (Bool.and_eq_true_iff.1 hselected).1, hadded e hmem⟩
  · simp only [select, checkKey, if_neg hc]
    exact .fails _

end Select

/-- A container that gets no entry is answered for as before. -/
theorem answersAlike (h : t.Grows new t') (hnew : ∀ k m, new k m → k.same c = false) :
    t.source.AnswersAlike t'.source c where
  procedures := by
    funext name b
    exact select_of_others _ h.procedures (fun k x => hnew k (.target x)) _
  constructors := by
    funext b
    exact select_of_others _ h.constructors (fun k x => hnew k (.target x)) _
  properties := by
    funext name b
    exact select_of_others _ h.properties (fun k p => hnew k (.property p)) _
  fields := by
    funext name b
    exact select_of_others _ h.fields (fun k f => hnew k (.field f)) _

/-- A container is answered for with its new entries at the end. -/
theorem extends_source (h : t.Grows new t') (c : Ty) :
    t.source.Extends (fun m => ∃ k, k.same c = true ∧ new k m) t'.source c where
  procedures _ _ := gains_select (fun k x => new k (.target x)) h.procedures _
  constructors _ := gains_select (fun k x => new k (.target x)) h.constructors _
  properties _ _ := gains_select (fun k p => new k (.property p)) h.properties _
  fields _ _ := gains_select (fun k f => new k (.field f)) h.fields _

end Grows

end MemberTable

/-! ## Registrations -/

namespace Registration

/-- The container that a member is registered for. -/
def container : Registration → Ty
  | procedure c .. => c
  | constructor c .. => c
  | property c .. => c
  | field c .. => c

/-- The member that a registration makes, for its container. -/
def Makes (r : Registration) (c : Ty) (m : Member) : Prop :=
  c = r.container ∧ ∃ t t', r.register t = .ok (m, t')

/-- The table after a registration; a registration that fails leaves it as it was. -/
def into (t : MemberTable) (r : Registration) : MemberTable :=
  match r.register t with
  | .ok (_, t') => t'
  | .error _ => t

/-- What a registration that goes through does to the table. -/
inductive Adds (t : MemberTable) : Registration → Member → MemberTable → Prop
  | procedure {c : Ty} {name : String} {impl : Value} {params : List ParameterSpec} {result : Ty}
      {isStatic : Bool} {declared : Option Bool} {x : Target} :
    c.hashable = true → x.declaring = c.asDeclaring →
      Adds t (.procedure c name impl params result isStatic declared) (.target x)
        { t with procedures := t.procedures ++ [⟨c, name, x⟩], handles := (impl, x) :: t.handles }
  | constructor {c : Ty} {impl : Value} {params : List ParameterSpec} {declared : Option Bool}
      {x : Target} :
    Adds t (.constructor c impl params declared) (.target x)
      { t with constructors := t.constructors ++ [⟨c, c.constructorName, x⟩] }
  | property {c : Ty} {name : String} {type : Ty} {getter assigner : Option Value}
      {isStatic : Bool} {declared : Option Bool} {p : PropertyInfo} :
    Adds t (.property c name type getter assigner isStatic declared) (.property p)
      { t with properties := t.properties ++ [⟨c, name, p⟩] }
  | field {c : Ty} {name : String} {type : Ty} {isStatic readOnly : Bool}
      {declared : Option Bool} {f : FieldInfo} :
    Adds t (.field c name type isStatic readOnly declared) (.field f)
      { t with fields := t.fields ++ [⟨c, name, f⟩] }

variable {t t' : MemberTable} {r : Registration} {m : Member}

theorem adds_of_register (hr : r.register t = .ok (m, t')) : r.Adds t m t' := by
  cases r with
  | procedure =>
    obtain ⟨made, hregister, hm⟩ := exists_of_map_eq_ok hr
    cases hm
    have hc := hashable_of_checkKey hregister
    obtain ⟨hx, ht⟩ := Prod.mk.inj (MemberTable.checkKey_bind hregister)
    rw [← ht, ← hx]
    exact .procedure hc (Target.declaring_marked _)
  | constructor =>
    obtain ⟨made, hregister, hm⟩ := exists_of_map_eq_ok hr
    cases hm
    obtain ⟨hx, ht⟩ := Prod.mk.inj (MemberTable.checkKey_bind hregister)
    rw [← ht, ← hx]
    exact .constructor
  | property =>
    obtain ⟨made, hregister, hm⟩ := exists_of_map_eq_ok hr
    cases hm
    rw [(marksProperty_register hregister).1]
    exact .property
  | field =>
    obtain ⟨made, hregister, hm⟩ := exists_of_map_eq_ok hr
    cases hm
    obtain ⟨hx, ht⟩ := Prod.mk.inj (MemberTable.checkKey_bind hregister)
    rw [← ht, ← hx]
    exact .field

/-- A registration adds its member for its container, behind the others. -/
theorem grows_register (hr : r.register t = .ok (m, t')) : t.Grows r.Makes t' := by
  have hmakes : r.Makes r.container m := ⟨rfl, t, t', hr⟩
  have hnothing : t.Grows r.Makes t := .refl t
  cases adds_of_register hr with
  | procedure => exact { hnothing with procedures := .concat hmakes }
  | constructor => exact { hnothing with constructors := .concat hmakes }
  | property => exact { hnothing with properties := .concat hmakes }
  | field => exact { hnothing with fields := .concat hmakes }

theorem grows_into (t : MemberTable) (r : Registration) : t.Grows r.Makes (r.into t) := by
  unfold into
  split
  · exact grows_register ‹_›
  · exact .refl t

/-- The registration makes the function a procedure of the container. -/
def Offers (r : Registration) (f : Value) (c : Ty) : Prop :=
  c.hashable = true ∧ ∃ name impl params result isStatic declared,
    r = procedure c name impl params result isStatic declared ∧ impl.identical f = true

/-- Of the registrations that offer the function, the last is for the container. -/
def OfferedLast (rs : List Registration) (f : Value) (c : Ty) : Prop :=
  ∃ before r after, rs = before ++ r :: after ∧ r.Offers f c ∧
    ∀ r' ∈ after, ∀ c', ¬r'.Offers f c'

variable {f : Value} {c : Ty} {rs : List Registration}

/-- What is registered for the function is what its handle stands for from then on. -/
theorem Offers.handle (hr : r.Offers f c) (t : MemberTable) :
    ∃ x, ((r.into t).handles.find? fun e => e.1.identical f).map (·.2) = some x ∧
      x.declaring = c.asDeclaring := by
  obtain ⟨hc, name, impl, params, result, isStatic, declared, rfl, himpl⟩ := hr
  obtain ⟨x, hinto, hx⟩ : ∃ x : Target,
      ((procedure c name impl params result isStatic declared).into t).handles =
        (impl, x) :: t.handles ∧ x.declaring = c.asDeclaring := by
    apply Exists.intro
    constructor
    · simp only [into, register, MemberTable.registerProcedure, MemberTable.checkKey, if_pos hc]
      rfl
    · exact Target.declaring_marked _
  refine ⟨x, ?_, hx⟩
  simp only [hinto, List.find?_cons, himpl, Option.map_some]

/-- A registration that does not offer the function leaves its handle alone. -/
theorem handle_into (hr : ∀ c, ¬r.Offers f c) (t : MemberTable) :
    ((r.into t).handles.find? fun e => e.1.identical f) =
      t.handles.find? fun e => e.1.identical f := by
  unfold into
  split
  · rename_i m t' hregister
    cases adds_of_register hregister with
    | @procedure c name impl params result isStatic declared x hc _ =>
      have himpl : impl.identical f ≠ true := fun himpl =>
        hr c ⟨hc, name, impl, params, result, isStatic, declared, rfl, himpl⟩
      simp only [List.find?_cons, himpl]
    | constructor | property | field => rfl
  · rfl

/-- Where some registration offers the function, one is the last to do so. -/
theorem exists_offeredLast (hoffers : ∃ r ∈ rs, ∃ c, r.Offers f c) : ∃ c, OfferedLast rs f c := by
  induction rs with
  | nil => simp at hoffers
  | cons r rs ih =>
    by_cases hlater : ∃ r ∈ rs, ∃ c, r.Offers f c
    · obtain ⟨c, before, x, after, rfl, hx, hafter⟩ := ih hlater
      exact ⟨c, r :: before, x, after, rfl, hx, hafter⟩
    · obtain ⟨x, hx, c, hc⟩ := hoffers
      rcases List.mem_cons.1 hx with rfl | hx
      · exact ⟨c, [], x, rs, rfl, hc, fun r hr d hd => hlater ⟨r, hr, d, hd⟩⟩
      · exact absurd ⟨x, hx, c, hc⟩ hlater

end Registration

/-- The member belongs to the container, in some spelling of it. -/
def Target.IsDeclaredBy (x : Target) (c : Ty) : Prop := (x.declaring.getD .null).same c = true

namespace MemberTable

/-- The table after registrations in their order. -/
def registering (t : MemberTable) (rs : List Registration) : MemberTable :=
  rs.foldl Registration.into t

variable {t : MemberTable} {rs : List Registration} {f : Value} {c : Ty}

theorem registering_append (t : MemberTable) (rs more : List Registration) :
    t.registering (rs ++ more) = (t.registering rs).registering more := List.foldl_append

/-- Registrations add their members for their containers, behind the others. -/
theorem grows_registering (t : MemberTable) (rs : List Registration) :
    t.Grows (fun c m => ∃ r ∈ rs, r.Makes c m) (t.registering rs) := by
  induction rs generalizing t with
  | nil => exact .refl t
  | cons r rs ih =>
    refine Grows.trans ((r.grows_into t).mono fun c m hm => ?_)
      ((ih (r.into t)).mono fun c m hm => ?_)
    · exact ⟨r, List.mem_cons_self, hm⟩
    · obtain ⟨r', hr', hm⟩ := hm
      exact ⟨r', List.mem_cons_of_mem _ hr', hm⟩

/-- Registrations that do not offer the function leave its handle alone. -/
theorem handle_registering (t : MemberTable) (hrs : ∀ r ∈ rs, ∀ c, ¬r.Offers f c) :
    ((t.registering rs).handles.find? fun e => e.1.identical f) =
      t.handles.find? fun e => e.1.identical f := by
  induction rs generalizing t with
  | nil => rfl
  | cons r rs ih =>
    obtain ⟨hr, hrest⟩ := List.forall_mem_cons.1 hrs
    exact (ih (r.into t) hrest).trans (Registration.handle_into hr t)

/-- The handle of a function stands for what was registered for it last. -/
theorem describe_registering (t : MemberTable) (hlast : Registration.OfferedLast rs f c)
    (d : Option Ty) :
    ∃ x, (t.registering rs).source.describe (.value f) d = .ok (some (.target x)) ∧
      x.declaring = c.asDeclaring := by
  obtain ⟨before, r, after, rfl, hr, hafter⟩ := hlast
  obtain ⟨x, hx, hdeclaring⟩ := hr.handle (t.registering before)
  refine ⟨x, ?_, hdeclaring⟩
  rw [registering_append]
  show Except.ok ((((r.into (t.registering before)).registering after).handles.find? _).map _) = _
  rw [handle_registering _ hafter]
  obtain ⟨e, he, rfl⟩ := Option.map_eq_some_iff.1 hx
  rw [he]
  rfl

/-- What is declared by a container is declared by the containers that are the same. -/
theorem isDeclaredBy_iff {x : Target} (hx : x.declaring = c.asDeclaring) (d : Ty) :
    x.IsDeclaredBy d ↔ c.same d = true := by
  have hc : c.asDeclaring.getD .null = c := by cases c <;> rfl
  rw [Target.IsDeclaredBy, hx, hc]

end MemberTable

/-- After any registrations, further ones leave the answers for all containers but their own as they
were, and to the answers for their own they add their members at the end. The handle of a procedure
is described by a container that it was registered for exactly when it was registered for that
container last. -/
theorem registrations_undisturbed (rs more : List Registration) :
    let t := MemberTable.empty.registering rs
    let t' := MemberTable.empty.registering (rs ++ more)
    (∀ c, (∀ r ∈ more, r.container.same c = false) → t.source.AnswersAlike t'.source c) ∧
      (∀ c, t.source.Extends (fun m => ∃ r ∈ more, r.container.same c = true ∧
        r.Makes r.container m) t'.source c) ∧
      ∀ f d, (∃ r ∈ rs, r.Offers f d) → ∃ x,
        t.source.describe (.value f) (some d) = .ok (some (.target x)) ∧
          (x.IsDeclaredBy d ↔ ∃ c, Registration.OfferedLast rs f c ∧ c.same d = true) := by
  intro t t'
  have hgrows : t.Grows (fun c m => ∃ r ∈ more, r.Makes c m) t' := by
    have ht' : t' = t.registering more := MemberTable.registering_append _ _ _
    rw [ht']
    exact t.grows_registering more
  refine ⟨fun c hc => hgrows.answersAlike ?_, fun c => ?_, fun f d hoffers => ?_⟩
  · rintro k m ⟨r, hr, rfl, -⟩
    exact hc r hr
  · refine (hgrows.extends_source c).mono fun m hm => ?_
    obtain ⟨k, hk, r, hr, hmakes⟩ := hm
    obtain rfl := hmakes.1
    exact ⟨r, hr, hk, hmakes⟩
  · obtain ⟨c, hlast⟩ := Registration.exists_offeredLast
      (hoffers.imp fun r hr => ⟨hr.1, d, hr.2⟩)
    obtain ⟨x, hx, hdeclaring⟩ := MemberTable.empty.describe_registering hlast (some d)
    refine ⟨x, hx, fun hd => ⟨c, hlast, (MemberTable.isDeclaredBy_iff hdeclaring d).1 hd⟩, ?_⟩
    rintro ⟨k, hk, hsame⟩
    obtain ⟨y, hy, hy'⟩ := MemberTable.empty.describe_registering hk (some d)
    obtain rfl : y = x := by simpa [hy] using hx
    exact (MemberTable.isDeclaredBy_iff hy' d).2 hsame

/-- Registers one function, as a static procedure of a container. -/
def noopRegistration (c : Ty) : Registration :=
  .procedure c "noop" (.code (.function 0)) [] .null true none

theorem offers_noop {c : Ty} (hc : c.hashable = true) :
    (noopRegistration c).Offers (.code (.function 0)) c :=
  ⟨hc, _, _, _, _, _, _, rfl, by simp [Value.identical]⟩

/-- After registrations for `str` and for `int`, one for `list` concerns lists alone, and the function
is described as one of `int`. -/
theorem registrations_undisturbed_noop :
    let rs := [noopRegistration (.builtin .str), noopRegistration (.builtin .int)]
    let more := [noopRegistration (.builtin .list)]
    let t := MemberTable.empty.registering rs
    let t' := MemberTable.empty.registering (rs ++ more)
    t.source.AnswersAlike t'.source (.builtin .int) ∧
      ∃ x, t.source.describe (.value (.code (.function 0))) (some (.builtin .int)) =
        .ok (some (.target x)) ∧ x.IsDeclaredBy (.builtin .int) := by
  intro rs more t t'
  obtain ⟨halike, -, hhandle⟩ := registrations_undisturbed rs more
  have hint : (noopRegistration (.builtin .int)).Offers (.code (.function 0)) (.builtin .int) :=
    offers_noop rfl
  refine ⟨halike _ (by simp [more, noopRegistration, Registration.container, Ty.same]), ?_⟩
  obtain ⟨x, hx, hdeclared⟩ := hhandle (.code (.function 0)) (.builtin .int)
    ⟨_, List.mem_cons_of_mem _ List.mem_cons_self, hint⟩
  exact ⟨x, hx, hdeclared.2 ⟨_, ⟨[_], _, [], rfl, hint, by simp⟩, Ty.same_refl _⟩⟩

/-- A function that is registered for `int` and then for `str` is described as one of `str`, also for
`int`. -/
theorem handle_leaves_container :
    ¬∀ (rs : List Registration) (f : Value) (d : Ty), (∃ r ∈ rs, r.Offers f d) →
      ∃ x, (MemberTable.empty.registering rs).source.describe (.value f) (some d) =
        .ok (some (.target x)) ∧ x.IsDeclaredBy d := by
  intro hdeclares
  have hlast : Registration.OfferedLast
      [noopRegistration (.builtin .int), noopRegistration (.builtin .str)] (.code (.function 0))
      (.builtin .str) :=
    ⟨[_], _, [], rfl, offers_noop rfl, by simp⟩
  obtain ⟨x, hx, hint⟩ := hdeclares _ (.code (.function 0)) (.builtin .int)
    ⟨_, List.mem_cons_self, offers_noop rfl⟩
  obtain ⟨y, hy, hstr⟩ := MemberTable.empty.describe_registering hlast (some (.builtin .int))
  rw [hx] at hy
  cases hy
  have hsame := (MemberTable.isDeclaredBy_iff hstr _).1 hint
  simp [Ty.same] at hsame

end CallAdapter
