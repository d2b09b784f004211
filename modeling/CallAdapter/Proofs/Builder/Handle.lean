import CallAdapter.Proofs.Builder.Serving
import CallAdapter.Proofs.Member.Handle
import CallAdapter.Proofs.Member.Sole

/-!
# Adapters for handles and for names

A builder that is asked for a handle describes it and plans its signature; asked for a name, it
searches the container. Where both describe a member alike, both requests come to an adapter or none
does (`handle_agrees_with_name`). A name is refused in a container with open type parameters, also
where the member has none, while a handle is not (`open_container_refuses_name`).
-/

namespace CallAdapter

open Program Reflection

/-- The computation gives an adapter. -/
def Eval.Builds (x : Eval Value) (w : World) : Prop :=
  ∃ addr, (x.run.run w).1 = .ok (.object (.builtin .adapter) addr)

section Requests

variable {Γ : Program} {b : Builder} {w : World} {S : Shape} {t : Ty} {n : String} {d : Member}

/-- A policy neither makes adapters nor withholds them. -/
theorem builds_withPolicy (throws : Bool) (x : Eval Value) :
    (Builder.withPolicy throws x).Builds w ↔ x.Builds w := by
  unfold Eval.Builds
  rw [run_withPolicy]
  cases hx : (x.run.run w).1 with
  | ok v => rfl
  | error e =>
    refine iff_of_false ?_ (by simp)
    rintro ⟨addr, haddr⟩
    cases eq_none_of_settle_error haddr.symm

theorem builds_create (member : Handle) (p : Particulars) :
    (Builder.create Γ b (.shape S) (some member) p).Builds w ↔
      (match p.name with
        | none => Builder.buildDirect Γ b { p with shape := S, member := member }
        | some name =>
          Builder.named Γ b { p with shape := S, member := member } name).Builds w := by
  have hcreate : (Builder.create Γ b (.shape S) (some member) p).run.run w =
      (Builder.answer Γ b { p with shape := S, member := member }).run.run w := by
    unfold Builder.create
    rw [run_bind_of_ok (run_prepare _ _ _)]
  unfold Eval.Builds
  rw [hcreate]
  exact builds_withPolicy _ _

/-! ## Handles -/

theorem run_targetOf_described (hhost : b.host = .classes) {member : Handle}
    {container : Option Ty} (hd : describe Γ w.heap member container = some d) (setter : Bool) :
    (∃ t, d.chosen setter = some t ∧
        (Builder.targetOf Γ b member container setter).run.run w = (.ok t, w)) ∨
      d.chosen setter = none ∧
        ∃ e, (Builder.targetOf Γ b member container setter).run.run w = (.error e, w) := by
  have hget : (get : Eval World).run.run w = (.ok w, w) := rfl
  have hdescribed : (Eval.lift ((b.host.source Γ w).describe member container)).run.run w =
      (.ok (some d), w) := by
    rw [hhost]
    show (Eval.lift ((Reflection.source Γ w.heap).describe member container)).run.run w = _
    rw [source_describe_of_some hd]
    rfl
  unfold Builder.targetOf
  rw [run_bind_of_ok hget, run_bind_of_ok hdescribed]
  cases d with
  | target t => exact .inl ⟨t, rfl, rfl⟩
  | property p =>
    show (∃ t, p.accessor setter = some t ∧ _) ∨ p.accessor setter = none ∧ _
    dsimp only
    cases p.accessor setter with
    | some t => exact .inl ⟨t, rfl, rfl⟩
    | none => exact .inr ⟨rfl, _, rfl⟩
  | field f =>
    show (∃ t, f.accessor setter = some t ∧ _) ∨ f.accessor setter = none ∧ _
    dsimp only
    cases f.accessor setter with
    | some t => exact .inl ⟨t, rfl, rfl⟩
    | none => exact .inr ⟨rfl, _, rfl⟩

/-- The planner of a builder finds that a shape fits the members that the shape accepts. -/
theorem planning_matchesIff (hp : (Eval.plannerAt w b.planner).Used Γ) (h : Heap) (S : Shape)
    (t : Target) :
    (∃ plan, ((Eval.planning b.planner (Γ.planSignature h S t .unbound).run).run.run w).1 =
        .ok (.ok plan)) ↔
      Γ.Accepts S t := by
  rw [run_planning]
  exact (planSignature_matchesIff S t _ hp).2

/-- A handle is adapted where the shape fits what it is described as. -/
theorem builds_buildDirect (hhost : b.host = .classes) {r : Request}
    (hd : describe Γ w.heap r.member r.container = some d) (hbound : r.bound = .unbound)
    (hp : (Eval.plannerAt w b.planner).Used Γ) :
    (Builder.buildDirect Γ b r).Builds w ↔
      ∃ t ∈ d.chosen r.shape.returnsVoid, Γ.Serves r.shape t := by
  unfold Eval.Builds Builder.buildDirect
  rcases run_targetOf_described hhost hd r.shape.returnsVoid with
    ⟨t, hchosen, htarget⟩ | ⟨hchosen, e, htarget⟩
  · rw [run_bind_of_ok htarget, hchosen]
    unfold Serves
    by_cases hgeneric : t.isGeneric = true
    · rw [if_pos hgeneric]
      refine iff_of_false ?_ (by simp [hgeneric])
      rintro ⟨addr, haddr⟩
      cases haddr
    have hclosed : t.isGeneric = false := by simpa using hgeneric
    have haccepts := planning_matchesIff hp w.heap r.shape t
    rw [if_neg hgeneric, run_bind_of_ok (run_heap w), hbound]
    cases hplanning : (Eval.planning b.planner
      (Γ.planSignature w.heap r.shape t .unbound).run).run.run w with
    | mk made w' =>
      rw [hplanning] at haccepts
      rcases made with e | m | plan
      · rw [run_bind_of_error hplanning]
        simpa [hclosed] using haccepts
      · rw [run_bind_of_ok hplanning]
        refine iff_of_false ?_ (by simpa [hclosed] using haccepts)
        rintro ⟨addr, haddr⟩
        cases haddr
      · rw [run_bind_of_ok hplanning]
        exact iff_of_true ⟨_, rfl⟩ ⟨t, rfl, hclosed, haccepts.1 ⟨plan, rfl⟩⟩
  · rw [run_bind_of_error htarget, hchosen]
    simp

/-! ## Names -/

/-- What the container has by the name is what its source knows. -/
theorem knows_of_membersNamed (hhost : b.host = .classes) (hd : membersNamed Γ w.heap t n = [d]) :
    (b.host.source Γ w).Knows t n d := by
  rw [hhost]
  unfold membersNamed at hd
  have hkind : ∀ x ∈ procedures Γ w.heap t n .standard, x.kind ≠ .constructor := by
    intro x hx
    unfold procedures at hx
    obtain ⟨f, -, hf⟩ := List.mem_filterMap.1 (List.mem_of_mem_filter hx)
    exact (offeredBy_procedure? hf).1
  cases hprocedures : procedures Γ w.heap t n .standard with
  | nil =>
    rw [hprocedures, List.map_nil, List.nil_append] at hd
    obtain ⟨p, hp, rfl⟩ := List.map_eq_singleton_iff.1 hd
    exact .property (congrArg Except.ok hp)
  | cons x xs =>
    rw [hprocedures] at hd hkind
    obtain ⟨rfl, hxs⟩ := List.cons.inj hd
    obtain ⟨hnil, -⟩ := List.append_eq_nil_iff.1 hxs
    obtain rfl := List.map_eq_nil_iff.1 hnil
    exact .target (congrArg Except.ok hprocedures) (hkind x List.mem_cons_self)

/-- A name is adapted where the shape fits what the container has by the name. -/
theorem builds_buildNamed (hhost : b.host = .classes) (hopen : Γ.isOpen t = false)
    (hname : Text.fold n ≠ Text.fold b.config.constructorName)
    (hd : membersNamed Γ w.heap t n = [d]) (hp : (Eval.plannerAt w b.planner).Used Γ) :
    (Builder.buildNamed Γ b t n S d.category .unbound).Builds w ↔
      ∃ x ∈ d.chosen S.returnsVoid, Γ.Serves S x := by
  rw [← resolve_sole (h := w.heap) hopen hname (knows_of_membersNamed hhost hd) hp]
  unfold Eval.Builds
  rw [run_buildNamed]
  dsimp only
  generalize ((Γ.resolve w.heap (b.host.source Γ w) b.config.constructorName t n S
    (some d.category) .unbound).run.run (Eval.plannerAt w b.planner)) = out
  obtain ⟨found, q⟩ := out
  rcases found with e | m | r
  · simp
  · simp
  · simp

/-- No name is adapted in a container with open type parameters. -/
theorem not_builds_of_isOpen (hopen : Γ.isOpen t = true) (options : SearchMask) (bound : Value) :
    ¬(Builder.buildNamed Γ b t n S options bound).Builds w := by
  unfold Eval.Builds
  rw [run_buildNamed]
  unfold resolve
  rw [if_pos hopen]
  rintro ⟨addr, haddr⟩
  cases haddr

/-- The builder can keep outcomes for the name, if it keeps any, and it made those that it has kept
by building for the name in worlds of one kind. -/
structure Builder.KeepsBuilds (Γ : Program) (b : Builder) (t : Ty) (n : String) (S : Shape)
    (options : SearchMask) (kind : World → Prop) (w : World) : Prop where
  hashable : b.cache ≠ none → t.hashable = true ∧ S.hashable = true
  kept : ∀ id o, b.cache = some id →
    (Eval.cacheAt w id).find? (.binding ⟨t, n, some S, some options, .unbound⟩) = some o →
      ∃ w₀, kind w₀ ∧
        o.result = ((Builder.buildNamed Γ b t n S options .unbound).run.run w₀).1

/-- A builder that keeps nothing has kept no other outcomes. -/
theorem keepsBuilds_of_none (hcache : b.cache = none) {options : SearchMask}
    {kind : World → Prop} : b.KeepsBuilds Γ t n S options kind w :=
  ⟨fun h => absurd hcache h, fun id o h => by simp [hcache] at h⟩

/-- An answer from the cache is that of a build. -/
theorem builds_named {options : SearchMask} {kind : World → Prop} {P : Prop}
    (hbuild : ∀ w₀, kind w₀ →
      ((Builder.buildNamed Γ b t n S options .unbound).Builds w₀ ↔ P))
    (hw : kind w) (hcaches : ∀ id c, kind (w.setCache id c))
    (hkeeps : b.KeepsBuilds Γ t n S options kind w) (throws : Option Bool) :
    (Builder.named Γ b
      { name := some n, options := some options, throwOnFailure := throws, shape := S
        member := .value (.type t) } n).Builds w ↔ P := by
  unfold Eval.Builds Builder.named
  rw [run_bind_of_ok (run_heap w)]
  dsimp only [Handle.asContainer, asContainer, Option.getD_some]
  cases hcache : b.cache with
  | none => exact hbuild w hw
  | some id =>
    obtain ⟨ht, hS⟩ := hkeeps.hashable (by simp [hcache])
    have hkey : BindingKey.hashable ⟨t, n, some S, some options, .unbound⟩ = true := by
      rw [BindingKey.hashable, ht]
      exact hS
    show (∃ addr, ((if BindingKey.hashable ⟨t, n, some S, some options, .unbound⟩ then
      Eval.cached id _ _ else throw .typeError).run.run w).1 = _) ↔ P
    rw [if_pos hkey]
    cases hfind : (Eval.cacheAt w id).find? (.binding ⟨t, n, some S, some options, .unbound⟩) with
    | some o =>
      obtain ⟨w₀, hw₀, hresult⟩ := hkeeps.kept id o hcache hfind
      rw [run_cached_of_hit hfind, hresult]
      exact hbuild w₀ hw₀
    | none =>
      rw [run_cached_of_miss hfind]
      exact hbuild _ (hcaches id _)

end Requests

/-! ## Both requests -/

/-- The class has the entry by the name, and the planner of the builder was used for nothing but
planning. -/
structure Builder.Sees (Γ : Program) (b : Builder) (c : Cls) (n : String) (f : Callee) (w : World) :
    Prop where
  entry : w.heap.ownEntry? Γ c n = some (.code f)
  asked : (Eval.plannerAt w b.planner).Asked Γ

theorem Planner.Asked.used {Γ : Program} {p : Planner} (hp : p.Asked Γ) : p.Used Γ := hp.sound

/-- A shape fits one description where it fits another that agrees with it. -/
theorem Member.Related.serves_iff {Γ : Program} {d d' : Member} (h : d.Related Target.Agrees d')
    (S : Shape) (setter : Bool) :
    (∃ t ∈ d.chosen setter, Γ.Serves S t) ↔ ∃ t ∈ d'.chosen setter, Γ.Serves S t := by
  have hserves : ∀ {t u : Target}, t.Agrees u → (Γ.Serves S t ↔ Γ.Serves S u) := fun htu => by
    unfold Serves
    rw [htu.isGeneric, Accepts.congr htu.inputs_eq htu.result]
  have hrel : ∀ {a b : Option Target}, Option.Rel Target.Agrees a b →
      ((∃ t ∈ a, Γ.Serves S t) ↔ ∃ t ∈ b, Γ.Serves S t) := by
    rintro a b (htu | _)
    · simpa using hserves htu
    · rfl
  cases h with
  | target htu => exact hrel (.some htu)
  | property _ _ hgetter hsetter =>
    unfold Member.chosen PropertyInfo.accessor
    cases setter with
    | true => exact hrel hsetter
    | false => exact hrel hgetter

/-! ## Boxes with a size -/

/-- The class of boxes with a function that gives their size, and one of the class that gives back
an element. -/
def sizedBoxProgram : Program where
  classes := [{ boxInfo with
    namespaceEntries := [("size", .code (.function 0)), ("make", .code (.classMethod 1))] }]
  functions := #[
    { name := "size"
      qualname := "Box.size"
      params := [⟨"self", none, .positional, none⟩]
      returns := some (.builtin .int)
      body := .block []
      abstract := false
      overloaded := false
      hasReceiver := true },
    { name := "make"
      qualname := "Box.make"
      params := [⟨"cls", none, .positional, none⟩, ⟨"x", some (.var elementVar), .positional, none⟩]
      returns := some (.var elementVar)
      body := .block []
      abstract := false
      overloaded := false
      hasReceiver := true }]
  registrations := []

def openBox : Ty := .cls (.declared boxRef)

def intBox : Ty := .applied (.generic (.declared boxRef)) [.builtin .int]

/-- A builder that keeps nothing. -/
def plainBuilder : Builder := ⟨{}, .classes, 0, none⟩

theorem sees_size : plainBuilder.Sees sizedBoxProgram (.declared boxRef) "size" (.function 0)
    World.empty :=
  ⟨by cbv, false, [], rfl⟩

/-- The function that gives the size of a box. -/
def boxSize (t : Ty) : Target where
  kind := .procedure
  name := "size"
  declaring := some t
  isStatic := false
  result := .builtin .int
  impl := .callable (.code (.function 0))

/-- Callers hand over a box and get its size. -/
def boxSizer (t : Ty) : Shape := .make [t] (.builtin .int)

section Size

variable {t : Ty} (ht : t = openBox ∨ t = intBox)

include ht

theorem describe_size : describe sizedBoxProgram World.empty.heap (.value (.code (.function 0)))
    (some t) = some (.target (boxSize t)) := by
  rcases ht with rfl | rfl <;> with_unfolding_all rfl

theorem membersNamed_size :
    membersNamed sizedBoxProgram World.empty.heap t "size" = [.target (boxSize t)] := by
  rcases ht with rfl | rfl <;> with_unfolding_all rfl

theorem serves_size : sizedBoxProgram.Serves (boxSizer t) (boxSize t) := by
  refine ⟨rfl, ⟨?_, .inr (.inr ⟨.identity, by cbv, rfl⟩)⟩⟩
  rcases ht with rfl | rfl
  · exact .cons ⟨.identity, by cbv, rfl⟩ .nil
  · exact .cons ⟨.identity, by cbv, rfl⟩ .nil

/-- The function is adapted, whether or not the boxes are closed. -/
theorem builds_size (throws : Option Bool) :
    (Builder.create sizedBoxProgram plainBuilder (.shape (boxSizer t))
      (some (.value (.code (.function 0))))
      { container := some t, throwOnFailure := throws }).Builds World.empty := by
  rw [builds_create]
  exact (builds_buildDirect rfl (describe_size ht) rfl sees_size.asked.used).2
    ⟨boxSize t, rfl, serves_size ht⟩

end Size

-- the class method `make` mentions the element, which its handle leaves open
example :
    ((describe sizedBoxProgram World.empty.heap (.value (.code (.classMethod 1)))
      (some intBox)).bind (Member.chosen false)).map (·.isGeneric) = some true ∧
    (procedures sizedBoxProgram World.empty.heap intBox "make" .standard).map (·.isGeneric) =
      [false] := by
  constructor <;> cbv

end CallAdapter
