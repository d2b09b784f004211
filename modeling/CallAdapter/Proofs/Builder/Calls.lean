import CallAdapter.Proofs.Builder.Serving

/-!
# Calls of builders by name

Builders over one host may be called one after the other in any order. Each call stands for a search
at the start (`NamedCall.asks`), and its answer settles what the search would report
(`run_settles`). Builders with the same settings therefore answer alike, whatever each of them keeps
or shares, and whatever they were asked before (`answersAlike_afterCalls`); and a lenient call
gives the absent value where a strict one raises a fault that need not be raised
(`lenient_iff_afterCalls`).
-/

namespace CallAdapter

open Program

/-! ## Calls -/

/-- Where a name is searched: in a container, maybe with a captured value, or on the class of an
instance. -/
inductive Place
  | container (member : Option Handle) (bound : Value)
  | receiver (v : Value)

/-- A request by name, as callers make it. -/
structure NamedCall where
  shape : Descriptor
  place : Place
  name : String
  options : Option SearchMask := none
  throws : Option Bool := none

namespace NamedCall

/-- What the call states besides shape and container. -/
def particulars (call : NamedCall) (bound : Value) : Particulars :=
  { name := some call.name, options := call.options, bound := bound, throwOnFailure := call.throws }

/-- Asks a builder. -/
def run (Γ : Program) (rt : Runtime) (b : Builder) (call : NamedCall) : Eval Value :=
  match call.place with
  | .container member bound => Builder.create Γ b call.shape member (call.particulars bound)
  | .receiver v => Builder.bind Γ rt b call.shape v call.name call.options call.throws

/-- The shape, container and captured value that a call stands for, or why it stands for none. -/
def asks (Γ : Program) (rt : Runtime) (w : World) (call : NamedCall) :
    Except Failure (Shape × Ty × Value) :=
  match call.place with
  | .container member bound => request member bound
  | .receiver v => do
    if v.isNone then throw (.fault (.argumentNull "instance" "instance is None"))
    let container := Builder.containerFor Γ (← ((Builder.originOf rt v).run.run w).1) v
    request (if container.isNone then none else some (.value container)) v
where
  request (member : Option Handle) (bound : Value) : Except Failure (Shape × Ty × Value) := do
    let s ← Γ.shapeOf w.heap call.shape
    match member with
    | some m => pure (s, m.asContainer Γ w.heap, bound)
    | none => throw (Builder.memberMissing "container")

/-- The call is one that callers may make: where it stands for a search, shape and container can be
keys, the container is no union of classes, and nothing but the absent value is captured for a
constructor. The origin of a receiver is the same in all worlds that agree with the first. -/
structure Proper (Γ : Program) (rt : Runtime) (host : Host) (ctor : String) (w : World)
    (call : NamedCall) : Prop where
  asked : ∀ s c bound, call.asks Γ rt w = .ok (s, c, bound) →
    s.hashable = true ∧ c.hashable = true ∧ (host = .classes → c.isUnion = false) ∧
      (bound.isUnbound = true ∨ bound.isNone = true ∨ Text.fold call.name ≠ Text.fold ctor)
  origin : ∀ v, call.place = .receiver v →
    ∃ o, ∀ w', w'.Alike w → (Builder.originOf rt v).run.run w' = (.ok o, w')

/-- The members that the host has for the call have types that can be keys, and an instance is
captured for a container that is neither a union in disguise nor a cell of a union. -/
structure Within (Γ : Program) (rt : Runtime) (host : Host) (ctor : String) (w : World)
    (call : NamedCall) : Prop extends call.Proper Γ rt host ctor w where
  members : ∀ s c bound, call.asks Γ rt w = .ok (s, c, bound) →
    (∀ t, (host.source Γ w).Offers c call.name t → t.TypesHashable) ∧
      ∀ t, (host.source Γ w).Constructs c t → t.TypesHashable
  captured : ∀ s c bound, call.asks Γ rt w = .ok (s, c, bound) →
    bound.isUnbound = true ∨ bound.isNone = true ∨ c.content.normalize.isUnion = false

theorem Within.suits {Γ : Program} {rt : Runtime} {host : Host} {ctor : String} {w : World}
    {call : NamedCall} (h : call.Within Γ rt host ctor w) {s : Shape} {c : Ty} {bound : Value}
    (hasks : call.asks Γ rt w = .ok (s, c, bound)) :
    s.hashable = true ∧ c.hashable = true ∧ host.Suits Γ w ctor c call.name bound := by
  obtain ⟨hs, hkey, hsingle, hname⟩ := h.asked s c bound hasks
  obtain ⟨hmembers, hconstructors⟩ := h.members s c bound hasks
  refine ⟨hs, hkey, hsingle, hmembers, hconstructors, ?_⟩
  rcases hname with hunbound | hnone | hname
  · exact .inl hunbound
  · exact .inr (.inl hnone)
  · exact (h.captured s c bound hasks).imp_right (Or.imp_right fun hc => ⟨hname, hc⟩)

end NamedCall

section Calls

variable {Γ : Program} {rt : Runtime} {host : Host} {ctor : String} {w₀ w : World}
  {builders : List Builder} {b : Builder}

/-- The answer to a call: the failure of one that stands for no search, else what it makes of a build
that reports the search at the start. -/
def Settles (Γ : Program) (host : Host) (config : BuildConfig) (w₀ : World) (call : NamedCall)
    (w : World) : Except Failure (Shape × Ty × Value) → Except Failure Value → Prop
  | .error e, r => r = .error e
  | .ok (s, c, bound), r =>
    ∃ built, r = settle (call.throws.getD config.throwOnFailure) built ∧
      Reports w built (searchAtStart Γ host config.constructorName w₀ c call.name s
        (call.options.getD config.options) bound)

theorem run_prepare (d : Descriptor) (member : Option Handle) (p : Particulars) :
    (Builder.prepare Γ d member p).run.run w =
      (do
        let s ← Γ.shapeOf w.heap d
        match member with
        | some m => pure { p with shape := s, member := m }
        | none => throw (Builder.memberMissing (if p.name.isNone then "member" else "container")),
        w) := by
  unfold Builder.prepare
  rw [run_bind_of_ok (rfl : Eval.heap.run.run w = (.ok w.heap, w))]
  cases hshape : Γ.shapeOf w.heap d with
  | error e => rfl
  | ok s => cases member <;> rfl

/-- A request by name in a container: it fails at once, or it settles a build that reports the
search at the start. -/
theorem create_reports (hhost : host.Registered w₀) (hw : Serving Γ host ctor w₀ builders w)
    (hb : b ∈ builders) (hover : b.Over host ctor) (call : NamedCall) (member : Option Handle)
    (bound : Value)
    (hcall : ∀ s c v, NamedCall.asks.request Γ w₀ call member bound = .ok (s, c, v) →
      s.hashable = true ∧ c.hashable = true ∧
        host.Suits Γ w₀ ctor c call.name v) :
    let out := (Builder.create Γ b call.shape member (call.particulars bound)).run.run w
    Serving Γ host ctor w₀ builders out.2 ∧ w.Extends out.2 ∧
      Settles Γ host b.config w₀ call out.2 (NamedCall.asks.request Γ w₀ call member bound) out.1 := by
  have hprepare := run_prepare (Γ := Γ) (w := w) call.shape member (call.particulars bound)
  rw [shapeOf_congr hw.alike.heap] at hprepare
  unfold NamedCall.asks.request at hcall ⊢
  unfold Builder.create
  cases hshape : Γ.shapeOf w₀.heap call.shape with
  | error e =>
    rw [hshape] at hprepare
    rw [run_bind_of_error hprepare]
    exact ⟨hw, fun _ _ hv => hv, rfl⟩
  | ok s =>
    rw [hshape] at hprepare hcall
    cases member with
    | none =>
      rw [run_bind_of_error hprepare]
      exact ⟨hw, fun _ _ hv => hv, rfl⟩
    | some m =>
      rw [run_bind_of_ok hprepare]
      obtain ⟨hs, hkey, hsuits⟩ := hcall s _ bound rfl
      unfold Builder.answer
      rw [run_withPolicy]
      obtain ⟨hserving, hextends, hreports⟩ := named_reports hhost hw hb hover
        { call.particulars bound with shape := s, member := m } hs hkey hsuits
      rw [← hover.ctor] at hreports
      exact ⟨hserving, hextends, _, rfl, hreports⟩

/-- A call of a builder leaves what it serves, and settles its search. -/
theorem run_settles (hhost : host.Registered w₀) (hw : Serving Γ host ctor w₀ builders w)
    (hb : b ∈ builders) (hover : b.Over host ctor) {call : NamedCall}
    (hcall : call.Within Γ rt host ctor w₀) :
    let out := (call.run Γ rt b).run.run w
    Serving Γ host ctor w₀ builders out.2 ∧
      Settles Γ host b.config w₀ call out.2 (call.asks Γ rt w₀) out.1 := by
  have hasked : ∀ s c bound, call.asks Γ rt w₀ = .ok (s, c, bound) → _ :=
    fun s c bound hasks => hcall.suits hasks
  have horigin := hcall.origin
  unfold NamedCall.asks at hasked ⊢
  unfold NamedCall.run
  cases hplace : call.place with
  | container member bound =>
    rw [hplace] at hasked
    obtain ⟨hserving, -, hsettles⟩ := create_reports hhost hw hb hover call member bound hasked
    exact ⟨hserving, hsettles⟩
  | receiver v =>
    rw [hplace] at hasked
    obtain ⟨o, ho⟩ := horigin v hplace
    have hstart := ho w₀ ⟨Heap.Alike.refl _, rfl⟩
    dsimp only at hasked ⊢
    rw [hstart] at hasked ⊢
    unfold Builder.bind
    cases hnone : v.isNone with
    | true => exact ⟨hw, rfl⟩
    | false =>
      rw [hnone] at hasked
      dsimp only
      rw [if_neg Bool.false_ne_true, run_bind_of_ok (ho w hw.alike)]
      obtain ⟨hserving, -, hsettles⟩ := create_reports hhost hw hb hover call _ v hasked
      exact ⟨hserving, hsettles⟩

end Calls

/-! ## Sequences of calls -/

/-- The world after calls of builders, one after the other. -/
def afterCalls (Γ : Program) (rt : Runtime) (w : World) : List (Builder × NamedCall) → World
  | [] => w
  | (b, call) :: rest => afterCalls Γ rt ((call.run Γ rt b).run.run w).2 rest

/-- A builder over the host that was not asked yet. -/
structure Builder.Fresh (w : World) (host : Host) (ctor : String) (b : Builder) : Prop
    extends b.Over host ctor where
  planner : ∃ keeps, Eval.plannerAt w b.planner = ⟨keeps, [], []⟩
  cache : ∀ id, b.cache = some id → (Eval.cacheAt w id).outcomes = []

section Sequences

variable {Γ : Program} {rt : Runtime} {host : Host} {ctor : String} {w₀ w : World}
  {builders : List Builder}

theorem serving_start (h : ∀ b ∈ builders, b.Fresh w₀ host ctor) :
    Serving Γ host ctor w₀ builders w₀ := by
  refine ⟨⟨Heap.Alike.refl _, rfl⟩, fun b hb => ?_, fun b hb id hid e he => ?_⟩
  · obtain ⟨keeps, hplanner⟩ := (h b hb).planner
    rw [hplanner]
    exact Planner.used_empty Γ keeps
  · rw [(h b hb).cache id hid] at he
    cases he

theorem serving_afterCalls (hhost : host.Registered w₀)
    (hover : ∀ b ∈ builders, b.Over host ctor) {calls : List (Builder × NamedCall)}
    (hcalls : ∀ e ∈ calls, e.1 ∈ builders ∧ e.2.Within Γ rt host ctor w₀)
    (hw : Serving Γ host ctor w₀ builders w) :
    Serving Γ host ctor w₀ builders (afterCalls Γ rt w calls) := by
  induction calls generalizing w with
  | nil => exact hw
  | cons e calls ih =>
    obtain ⟨hb, hcall⟩ := hcalls e List.mem_cons_self
    refine ih (fun e he => hcalls e (List.mem_cons_of_mem _ he)) ?_
    exact (run_settles hhost hw hb (hover _ hb) hcall).1

/-! ### Failures without a search -/

/-- The failure is raised under every policy: it is no fault, or one of those that are. -/
def IsRaised (e : Failure) : Prop := ∀ f, e = .fault f → f.kind.alwaysRaised = true

theorem isRaised_fault {f : Fault} (hf : f.kind.alwaysRaised = true) : IsRaised (.fault f) := by
  rintro _ heq
  exact Failure.fault.inj heq ▸ hf

theorem isRaised_of_invalidShape {message shown : String} {e : Failure}
    (h : (invalidShape message shown : Except Failure Shape) = .error e) : IsRaised e := by
  obtain rfl := Except.error.inj h
  exact isRaised_fault rfl

theorem isRaised_of_readHints {id : Nat} {e : Failure} (h : Γ.readHints id = .error e) :
    IsRaised e := by
  unfold readHints readAll at h
  split at h
  · cases h
  · split at h
    · cases h
    · cases h
    · obtain rfl := Except.error.inj h
      nofun

theorem isRaised_of_shapeOfClass {h : Heap} {c : Cls} {e : Failure}
    (hc : Γ.shapeOfClass h c = .error e) : IsRaised e := by
  unfold shapeOfClass at hc
  dsimp only at hc
  split at hc
  · rename_i id _
    split at hc
    · exact isRaised_of_invalidShape hc
    split at hc
    · exact isRaised_of_invalidShape hc
    split at hc
    · exact isRaised_of_invalidShape hc
    cases hhints : Γ.readHints id with
    | error e' =>
      rw [hhints] at hc
      obtain rfl : e' = e := Except.error.inj hc
      exact isRaised_of_readHints hhints
    | ok hints =>
      rw [hhints] at hc
      change (if _ then Except.ok _ else invalidShape _ _) = _ at hc
      split at hc
      · cases hc
      · exact isRaised_of_invalidShape hc
  · split at hc
    · exact isRaised_of_invalidShape hc
    · exact isRaised_of_invalidShape hc
  · exact isRaised_of_invalidShape hc

/-- What is no shape is refused under every policy. -/
theorem isRaised_of_shapeOf {h : Heap} {d : Descriptor} {e : Failure}
    (hd : Γ.shapeOf h d = .error e) : IsRaised e := by
  have hclosed : ∀ {x : Except Failure Shape}, (∀ e, x = .error e → IsRaised e) →
      (do
        let s ← x
        if s.openVars.isEmpty then .ok s
        else invalidShape ("shape " ++ s.text ++ " has unbound type parameters") s.text) =
        Except.error e → IsRaised e := by
    intro x hx he
    cases x with
    | error e' => exact hx e he
    | ok s =>
      change (if s.openVars.isEmpty then Except.ok s else invalidShape _ _) = Except.error e at he
      split at he
      · cases he
      · exact isRaised_of_invalidShape he
  cases d with
  | absent =>
    obtain rfl := Except.error.inj hd
    exact isRaised_fault rfl
  | shape s => cases hd
  | value v => exact isRaised_of_invalidShape hd
  | type t =>
    unfold shapeOf at hd
    dsimp only at hd
    -- a shape that is read off a type is checked for open variables at the end
    have hcallable : ∀ e, shapeOfCallableType t = .error e → IsRaised e := by
      intro e he
      unfold shapeOfCallableType at he
      split at he
      · cases he
      · exact isRaised_of_invalidShape he
    split at hd
    · obtain rfl := Except.error.inj hd
      exact isRaised_fault rfl
    · exact hclosed (fun e he => isRaised_of_shapeOfClass he) hd
    · exact hclosed hcallable hd
    · exact hclosed hcallable hd
    · exact isRaised_of_invalidShape hd

/-- A call that stands for no search fails under every policy. -/
theorem isRaised_of_asks {call : NamedCall} {ctor : String}
    (hcall : call.Proper Γ rt host ctor w₀) {e : Failure} (he : call.asks Γ rt w₀ = .error e) :
    IsRaised e := by
  have hrequest : ∀ member bound, NamedCall.asks.request Γ w₀ call member bound = .error e →
      IsRaised e := by
    intro member bound he
    unfold NamedCall.asks.request at he
    cases hshape : Γ.shapeOf w₀.heap call.shape with
    | error e' =>
      rw [hshape] at he
      obtain rfl : e' = e := Except.error.inj he
      exact isRaised_of_shapeOf hshape
    | ok s =>
      rw [hshape] at he
      cases member with
      | none =>
        obtain rfl := Except.error.inj he
        exact isRaised_fault rfl
      | some m => cases he
  unfold NamedCall.asks at he
  cases hplace : call.place with
  | container member bound =>
    rw [hplace] at he
    exact hrequest member bound he
  | receiver v =>
    obtain ⟨o, ho⟩ := hcall.origin v hplace
    rw [hplace] at he
    dsimp only at he
    rw [ho w₀ ⟨Heap.Alike.refl _, rfl⟩] at he
    cases hnone : v.isNone with
    | true =>
      rw [hnone] at he
      obtain rfl := Except.error.inj he
      exact isRaised_fault rfl
    | false =>
      rw [hnone] at he
      exact hrequest _ v he

/-! ### Answers -/

/-- The builders settle alike what a request leaves open. -/
def Builder.SameSettings (b b' : Builder) : Prop :=
  b.config = { b'.config with useCache := b.config.useCache }

section Settled

variable {call : NamedCall} {config : BuildConfig} {w' : World} {r r' : Except Failure Value}
  {asked : Except Failure (Shape × Ty × Value)}

/-- What a builder keeps is no matter of what its answers settle. -/
theorem Settles.of_sameSettings {b b' : Builder} (hb : b.SameSettings b')
    (h : Settles Γ host b.config w₀ call w asked r) :
    Settles Γ host b'.config w₀ call w asked r := by
  cases asked with
  | error e => exact h
  | ok asked =>
    unfold Settles at h ⊢
    rw [hb] at h
    exact h

theorem Settles.answersAlike (h : Settles Γ host config w₀ call w asked r)
    (h' : Settles Γ host config w₀ call w' asked r') : AnswersAlike w w' r r' := by
  cases asked with
  | error e =>
    obtain rfl : r = .error e := h
    obtain rfl : r' = .error e := h'
    exact .failures
  | ok asked =>
    obtain ⟨built, rfl, hbuilt⟩ := h
    obtain ⟨built', rfl, hbuilt'⟩ := h'
    exact (hbuilt.answersAlike hbuilt').settle _

theorem Settles.eq_none_iff
    (h : Settles Γ host config w₀ { call with throws := some false } w asked r)
    (h' : Settles Γ host config w₀ { call with throws := some true } w' asked r')
    (hraised : ∀ e, asked = .error e → IsRaised e) :
    r = .ok .none ↔ ∃ f, r' = .error (.fault f) ∧ f.kind.alwaysRaised = false := by
  cases asked with
  | error e =>
    obtain rfl : r = .error e := h
    obtain rfl : r' = .error e := h'
    refine ⟨fun h => (nomatch h), fun ⟨f, hf, hfraised⟩ => ?_⟩
    cases hfraised.symm.trans (hraised e rfl f (Except.error.inj hf))
  | ok asked =>
    obtain ⟨built, rfl, hbuilt⟩ := h
    obtain ⟨built', rfl, hbuilt'⟩ := h'
    exact hbuilt.settle_eq_none_iff hbuilt'

end Settled

section After

variable {b b' : Builder} {before before' : List (Builder × NamedCall)} {call : NamedCall}

/-- After any calls of builders that were not asked before, a call settles its search. -/
theorem settles_afterCalls (hhost : host.Registered w₀)
    (hfresh : ∀ b ∈ builders, b.Fresh w₀ host ctor) (hb : b ∈ builders)
    (hbefore : ∀ e ∈ before, e.1 ∈ builders ∧ e.2.Within Γ rt host ctor w₀)
    (hcall : call.Within Γ rt host ctor w₀) :
    let out := (call.run Γ rt b).run.run (afterCalls Γ rt w₀ before)
    Settles Γ host b.config w₀ call out.2 (call.asks Γ rt w₀) out.1 := by
  have hover : ∀ b ∈ builders, b.Over host ctor := fun b hb => (hfresh b hb).toOver
  have hw := serving_afterCalls hhost hover hbefore (serving_start hfresh)
  exact (run_settles hhost hw hb (hover b hb) hcall).2

theorem answersAlike_afterCalls (hhost : host.Registered w₀)
    (hfresh : ∀ b ∈ builders, b.Fresh w₀ host ctor) (hb : b ∈ builders) (hb' : b' ∈ builders)
    (hsettings : b.SameSettings b')
    (hbefore : ∀ e ∈ before, e.1 ∈ builders ∧ e.2.Within Γ rt host ctor w₀)
    (hbefore' : ∀ e ∈ before', e.1 ∈ builders ∧ e.2.Within Γ rt host ctor w₀)
    (hcall : call.Within Γ rt host ctor w₀) :
    let out := (call.run Γ rt b).run.run (afterCalls Γ rt w₀ before)
    let out' := (call.run Γ rt b').run.run (afterCalls Γ rt w₀ before')
    AnswersAlike out.2 out'.2 out.1 out'.1 :=
  ((settles_afterCalls hhost hfresh hb hbefore hcall).of_sameSettings hsettings).answersAlike
    (settles_afterCalls hhost hfresh hb' hbefore' hcall)

theorem lenient_iff_afterCalls (hhost : host.Registered w₀)
    (hfresh : ∀ b ∈ builders, b.Fresh w₀ host ctor) (hb : b ∈ builders) (hb' : b' ∈ builders)
    (hsettings : b.SameSettings b')
    (hbefore : ∀ e ∈ before, e.1 ∈ builders ∧ e.2.Within Γ rt host ctor w₀)
    (hbefore' : ∀ e ∈ before', e.1 ∈ builders ∧ e.2.Within Γ rt host ctor w₀)
    (hcall : call.Within Γ rt host ctor w₀) :
    (({ call with throws := some false }.run Γ rt b).run.run
        (afterCalls Γ rt w₀ before)).1 = .ok .none ↔
      ∃ f, (({ call with throws := some true }.run Γ rt b').run.run
        (afterCalls Γ rt w₀ before')).1 = .error (.fault f) ∧ f.kind.alwaysRaised = false := by
  have hpolicy : ∀ throws, { call with throws := throws }.Within Γ rt host ctor w₀ := fun _ =>
    ⟨⟨hcall.asked, hcall.origin⟩, hcall.members, hcall.captured⟩
  have hlenient := settles_afterCalls hhost hfresh hb hbefore (hpolicy (some false))
  have hstrict := settles_afterCalls hhost hfresh hb' hbefore' (hpolicy (some true))
  exact (hlenient.of_sameSettings hsettings).eq_none_iff hstrict fun e he =>
    isRaised_of_asks hcall.toProper he

end After

end Sequences

end CallAdapter
