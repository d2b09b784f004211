import CallAdapter.Proofs.Adapter.Failure
import CallAdapter.Proofs.Adapter.Shortcut
import CallAdapter.Proofs.Conversion.Optional
import CallAdapter.Proofs.Execution.DirectCall

/-!
# Calls without a receiver

A call of an instance member with nothing for its receiver is to report that the receiver is
missing. The check stands behind the slots: it sees the absent value where the first slot hands it
over as it is, and only if no other slot fails (`missing_receiver_reported`). So it is made for
receivers of the class itself or of a subclass (`reportsMissing_of_untouched`). Where the shape lets
the receiver be absent, as an optional type or `object` does, the call fails with the cast of the
receiver instead (`not_reportsMissing_of_fits`). A planned conversion may also make a receiver out
of nothing, a member of an enumeration; then the member is invoked (`missing_receiver_cases`).

Members of cells are looked at only for shapes that give a cell for the receiver. From another type
a slot puts whatever it is given into a fresh cell.
-/

namespace CallAdapter

open Program

/-- The slot hands the absent value over as it is. -/
structure Slot.KeepsNone (Γ : Program) (h : Heap) (s : Slot) : Prop where
  mode : s.mode = .value
  applies : Γ.applyPlan h s.plan .none = .ok .none

/-- Whatever the member would do, a call of its adapter reports that the receiver is missing, and
nothing that existed is changed. -/
def Adapter.ReportsMissing (Γ : Program) (a : Adapter) (t : Target) (args : List Value)
    (w : World) : Prop :=
  ∃ w', w.Keeps w' ∧ ∀ rt : Runtime, (a.call Γ rt args).run.run w = (.error t.nullReceiver, w')

section Slots

variable {Γ : Program} {R : Reuse} {g d : Ty} {s : Slot} {w w' : World} {h : Heap}

/-! ## Slots and the absent value -/

theorem isCellValue_none (Γ : Program) : Γ.isCellValue .none = false := rfl

theorem run_marshal_none (hs : s.KeepsNone Γ w.heap) :
    (Γ.marshal s .none).run.run w = (.ok .none, w) := by
  unfold marshal
  rw [hs.mode]
  exact (run_converting Γ s.plan .none w).trans (congrArg (·, w) hs.applies)

/-- Only a slot that hands the absent value over gives it: a cell is never absent, and where a cell
is expected the absent value is refused. -/
theorem keepsNone_of_marshal (hrun : (Γ.marshal s .none).run.run w = (.ok .none, w')) :
    s.KeepsNone Γ w.heap ∧ w' = w := by
  unfold marshal at hrun
  split at hrun
  · rename_i hmode
    rw [run_converting] at hrun
    obtain ⟨happlies, hw⟩ := Prod.mk.inj hrun
    exact ⟨⟨hmode, happlies⟩, hw.symm⟩
  · obtain ⟨_, _, -, hcell⟩ := exists_of_run_bind_eq_ok hrun
    cases hcell
  all_goals
    rw [isCellValue_none, if_neg Bool.false_ne_true] at hrun
    cases hrun

/-- A slot with a cell on the given side if there is one on the declared side gives, for the absent
value, what its plan makes of it. -/
theorem applyPlan_of_marshal {v : Value} (hs : s.Planned Γ R g d)
    (hcell : d.isCell = true → g.isCell = true)
    (hrun : (Γ.marshal s .none).run.run w = (.ok v, w')) :
    Γ.applyPlan w.heap s.plan .none = .ok v ∧ w' = w := by
  unfold marshal at hrun
  split at hrun
  · rw [run_converting] at hrun
    exact ⟨(Prod.mk.inj hrun).1, (Prod.mk.inj hrun).2.symm⟩
  · rename_i hmode
    rw [hs.mode] at hmode
    cases hd : d.isCell with
    | false => cases hg : g.isCell <;> rw [hd, hg] at hmode <;> cases hmode
    | true =>
      rw [hd, hcell hd, SlotMode.of] at hmode
      split at hmode <;> cases hmode
  all_goals
    rw [isCellValue_none, if_neg Bool.false_ne_true] at hrun
    cases hrun

theorem SlotMode.of_eq_value_iff (g d i : Bool) : of g d i = value ↔ g = false ∧ d = false := by
  cases g <;> cases d <;> cases i <;> simp [of]

theorem plans_of_planned (hs : s.Planned Γ HistoryReuse g d) (hg : g.isCell = false)
    (hd : d.isCell = false) :
    Γ.Plans HistoryReuse g.normalize d.normalize (.ok s.plan.verdict) := by
  have hanswer := hs.answer.2
  rwa [content_of_not_isCell hg, content_of_not_isCell hd] at hanswer

/-- The absent value is handed over between types without cells, where the plan keeps it. -/
theorem keepsNone_iff (hs : s.Planned Γ HistoryReuse g d) :
    s.KeepsNone Γ h ↔ g.isCell = false ∧ d.isCell = false ∧
      Γ.runVerdict h s.plan.verdict .none = .ok .none := by
  rw [← applyPlan_of_handsOn hs.answer.1, ← and_assoc,
    ← SlotMode.of_eq_value_iff _ _ s.plan.isIdentity, ← hs.mode]
  exact ⟨fun h => ⟨h.mode, h.applies⟩, fun h => ⟨h.1, h.2⟩⟩

theorem isImplicit_of_plans_untouched {s d : Ty} {v : Verdict} (hn : NormalPair s d)
    (hplans : Γ.Plans HistoryReuse s d (.ok v)) (huntouched : Γ.Untouched s d) :
    v.isImplicit = true := by
  have hok := isOk_eq_of_plans (fun _ _ _ _ h => h.2) hplans (plans_freshVerdict hn)
  cases hfresh : Γ.freshVerdict s d with
  | error e =>
    rw [hfresh] at hok
    cases hok
  | ok v' =>
    have hkind := kind_eq_freshVerdict betweenSpellings_historyReuse hplans (Ty.same_refl _)
      (Ty.same_refl _) hn hfresh
    rw [isImplicit_eq_of_kind_eq hkind]
    exact (isImplicit_iff_untouched hn hfresh).2 huntouched

/-- From the class of a receiver or one below it, the absent value is handed over. -/
theorem keepsNone_of_untouched (hs : s.Planned Γ HistoryReuse g d) (hg : g.isCell = false)
    (hd : d.isCell = false) (huntouched : Γ.Untouched g.normalize d.normalize) :
    s.KeepsNone Γ h := by
  have himplicit := isImplicit_of_plans_untouched (Planner.normalPair_normalize g d)
    (plans_of_planned hs hg hd) huntouched
  refine (keepsNone_iff hs).2 ⟨hg, hd, runVerdict_of_kind_ne ?_ _⟩
  rw [s.plan.kind_verdict]
  exact (s.plan.isImplicit_verdict_iff.1 himplicit).2

/-- From a type that has the absent value to one that does not, it is not handed over. -/
theorem not_keepsNone_of_fits {K : Cls → Prop} (hK : Lawful Γ K)
    (hs : s.Planned Γ HistoryReuse g d) (hexpressible : Expressible K d.normalize)
    (hgiven : Fits Γ h g.normalize .none) (hdeclared : ¬Fits Γ h d.normalize .none) :
    ¬s.KeepsNone Γ h := by
  rw [keepsNone_iff hs]
  rintro ⟨hg, hd, hkept⟩
  have hpossible := s.plan.isPossible_eq ▸ hs.possible
  exact hdeclared (fits_of_runVerdict hK betweenSpellings_historyReuse (plans_of_planned hs hg hd)
    (Planner.normalPair_normalize g d) hexpressible hpossible hgiven hkept)

/-! ## How slots fail -/

/-- What fails, if at all, with a failed cast or an exception. -/
def RaisesCasts {α : Type} (x : Eval α) : Prop := ∀ w, FailsCasting (x.run.run w).1

namespace RaisesCasts

variable {α β : Type}

theorem pure (a : α) : RaisesCasts (Pure.pure a : Eval α) := fun _ => .ok a

theorem throw {f : Failure} (hf : f.IsCast) : RaisesCasts (MonadExcept.throw f : Eval α) :=
  fun _ => hf

theorem bind {x : Eval α} {f : α → Eval β} (hx : RaisesCasts x) (hf : ∀ a, RaisesCasts (f a)) :
    RaisesCasts (x >>= f) := by
  intro w
  have hfirst := hx w
  obtain ⟨e, w', hrun, hbind⟩ | ⟨a, w', -, hbind⟩ := run_bind_cases x f w
  · rw [hrun] at hfirst
    exact hbind ▸ hfirst
  · exact hbind ▸ hf a w'

theorem mapM {as : List α} {f : α → Eval β} (hf : ∀ a, RaisesCasts (f a)) :
    RaisesCasts (as.mapM f) := by
  induction as with
  | nil => exact .pure _
  | cons a as ih =>
    rw [List.mapM_cons]
    exact .bind (hf a) fun _ => .bind ih fun _ => .pure _

end RaisesCasts

theorem raisesCasts_converting (p : Plan) (v : Value) : RaisesCasts (Γ.converting p v) := by
  intro w
  rw [run_converting]
  exact failsCasting_applyPlan _ _ _

theorem raisesCasts_contentOf (v : Value) : RaisesCasts (Γ.contentOf v) := by
  refine .bind (fun w => .ok w.heap) fun h => ?_
  split
  · exact .pure _
  · exact .throw trivial

theorem raisesCasts_newCell (v : Value) : RaisesCasts (Eval.newCell v) := fun _ => .ok _

theorem isCast_notACell (v : Value) : (Γ.notACell v).IsCast := ⟨_, _, rfl⟩

theorem raisesCasts_marshal (s : Slot) (v : Value) : RaisesCasts (Γ.marshal s v) := by
  unfold marshal
  split
  · exact raisesCasts_converting _ _
  · exact .bind (raisesCasts_converting _ _) raisesCasts_newCell
  · split
    · exact .pure _
    · exact .throw (isCast_notACell v)
  · split
    · exact .bind (raisesCasts_contentOf _) fun _ =>
        .bind (raisesCasts_converting _ _) raisesCasts_newCell
    · exact .throw (isCast_notACell v)
  · split
    · exact .bind (raisesCasts_contentOf _) fun _ => raisesCasts_converting _ _
    · exact .throw (isCast_notACell v)

theorem raisesCasts_marshalAll (slots : List Slot) (bound : Value) (args : List Value) :
    RaisesCasts (Γ.marshalAll slots bound args) :=
  .mapM fun _ => raisesCasts_marshal _ _

end Slots

/-! ## Calls with nothing for the receiver -/

/-- How a call with nothing for the receiver goes. -/
inductive Adapter.MissingCall (Γ : Program) (sig : SignaturePlan) (t : Target) (args : List Value)
    (w : World) : Prop
  /-- The receiver is found missing. -/
  | reported {s : Slot} {slots : List Slot} {values : List Value} {w' : World} :
    sig.slots = s :: slots → s.KeepsNone Γ w.heap →
    (Γ.marshalAll slots .unbound args).run.run w = (.ok values, w') →
    (member sig).ReportsMissing Γ t args w → MissingCall Γ sig t args w
  /-- A slot fails, and the member is not invoked. -/
  | refused {f : Failure} {w' : World} : f.IsCast → w.Keeps w' →
    (∀ rt : Runtime, ((member sig).call Γ rt args).run.run w = (.error f, w')) →
    MissingCall Γ sig t args w
  /-- The planned conversion of the first slot makes a receiver out of nothing, and the member is
  invoked on it. -/
  | replaced {s : Slot} {slots : List Slot} (receiver : Value) (values : List Value)
      {w' : World} : sig.slots = s :: slots →
    Γ.applyPlan w.heap s.plan .none = .ok receiver → receiver.isNone = false →
    w.Keeps w' →
    (∀ rt : Runtime, ((member sig).call Γ rt args).run.run w = (do
      Γ.converting sig.result (← rt.invokeMember Γ t receiver values) : Eval Value).run.run w') →
    MissingCall Γ sig t args w

section Calls

variable {Γ : Program} {R : Reuse} {h₀ : Heap} {shape : Shape} {t : Target} {sig : SignaturePlan}
  {p : Planner} {v : Value} {args : List Value} {w : World}

theorem not_isCast_nullReceiver (t : Target) : ¬t.nullReceiver.IsCast :=
  fun h => h.not_isCallCheck (Or.inl rfl)

/-- The first slot makes the receiver. -/
theorem exists_first_slot (hR : BetweenSpellings R)
    (hsig : sig.Planned Γ R h₀ shape t .unbound) (hreceiver : t.takesReceiver = true)
    (hargs : (v :: args).length = shape.arity) :
    ∃ s slots g, sig.slots = s :: slots ∧ shape.params.head? = some g ∧
      s.Planned Γ R g t.receiverType ∧ ∀ (rt : Runtime) (w : World),
        ((Adapter.member sig).call Γ rt (v :: args)).run.run w = (do
          let receiver ← Γ.marshal s v
          let values ← Γ.marshalAll slots .unbound (v :: args)
          if receiver.isNone then throw t.nullReceiver
          else do Γ.converting sig.result (← rt.invokeMember Γ t receiver values) :
            Eval Value).run.run w := by
  have hpresent := hsig
  cases hsig with
  | captured hbound => cases hbound
  | @free slots result _ hslots hresult =>
    have hinputs : t.inputs = t.receiverType :: (t.params.map (·.type) ++
        if t.kind.isSetter then [t.assigned.getD .null] else []) := by
      simp [Target.inputs, hreceiver]
    rw [hinputs] at hslots
    generalize hparams : shape.params = given at hslots
    cases hslots with
    | @cons _ g _ gs _ s slots hsource hs _ =>
      refine ⟨s, slots, g, rfl, rfl, hs, fun rt w => ?_⟩
      -- behind the check of the arity, the receiver is the first value that the slots make
      have hcall : (Adapter.member ⟨shape, t, s :: slots, result, .unbound, false⟩).call Γ rt
          (v :: args) = SignaturePlan.run Γ rt ⟨shape, t, s :: slots, result, .unbound, false⟩
            (v :: args) := if_pos hargs
      rw [hcall, run_eq_runGeneral hR hpresent rfl rt hargs w]
      unfold SignaturePlan.runGeneral
      rw [marshalAll_argument hsource rfl]
      simp only [hreceiver, bind_assoc, pure_bind, if_true]
      refine run_bind_congr_right fun receiver w₁ _ => run_bind_congr_right fun values w₂ _ => ?_
      cases hnone : receiver.isNone <;> simp only [List.head?_cons, Option.getD_some, hnone] <;> rfl

theorem failsCasting_spread (h : Heap) (params : List Parameter) (values : List Value) :
    FailsCasting (Γ.spread h params values) := by
  induction params generalizing values with
  | nil =>
    unfold spread
    exact .ok _
  | cons p ps ih =>
    cases values with
    | nil =>
      unfold spread
      exact .ok _
    | cons v vs =>
      have hrest : ∀ here : CallArguments, FailsCasting (do
          let rest ← Γ.spread h ps vs
          .ok (⟨here.positional ++ rest.positional, here.keywords ++ rest.keywords⟩ :
            CallArguments)) := by
        intro here
        have hvs := ih vs
        cases hspread : Γ.spread h ps vs with
        | ok rest => exact .ok _
        | error e =>
          rw [hspread] at hvs
          exact hvs
      unfold spread
      cases p.kind with
      | positional | keyword => exact hrest _
      | variadic =>
        cases Γ.elements? h v with
        | none => exact .exception _ _
        | some es => exact hrest _

/-- Where nothing runs, members fail with exceptions. -/
theorem raisesCasts_invokeMember_exhausted (t : Target) (receiver : Value) (values : List Value) :
    RaisesCasts (Runtime.exhausted.invokeMember Γ t receiver values) := by
  have hcall : ∀ f given keywords, RaisesCasts (Runtime.exhausted.call f given keywords) :=
    fun _ _ _ => .throw trivial
  have hspread : ∀ f receivers, RaisesCasts (do
      let given ← Eval.lift (Γ.spread (← Eval.heap) t.params values)
      Runtime.exhausted.call f (receivers ++ given.positional) given.keywords) := by
    intro f receivers
    refine .bind (fun w => .ok w.heap) fun h => .bind (fun w => ?_) fun _ => hcall _ _ _
    rw [run_lift]
    exact failsCasting_spread _ _ _
  unfold Runtime.invokeMember
  extract_lets receivers
  split
  · split
    · exact hcall _ _ _
    · exact hspread _ _
  · split
    · exact hcall _ _ _
    · exact hspread _ _
  all_goals exact fun _ => trivial

/-- Where the receiver is to be a cell, the shape gives a cell for it. -/
def GivesCellToCell (shape : Shape) (t : Target) : Prop :=
  t.receiverType.isCell = true → ∀ g, shape.params.head? = some g → g.isCell = true

/-- A call with nothing for the receiver reports that it is missing, or a slot has failed before, or
the first slot has made a receiver. -/
theorem missing_receiver_cases (hR : BetweenSpellings R)
    (hsig : sig.Planned Γ R h₀ shape t .unbound) (hreceiver : t.takesReceiver = true)
    (hcells : GivesCellToCell shape t) (hargs : (Value.none :: args).length = shape.arity)
    (w : World) : Adapter.MissingCall Γ sig t (.none :: args) w := by
  obtain ⟨s, slots, g, hslots, hg, hplanned, hcall⟩ := exists_first_slot hR hsig hreceiver hargs
  have hkeeps := keepsWorld_marshal (Γ := Γ) s .none w
  have hcasts := raisesCasts_marshal (Γ := Γ) s .none w
  rcases hfirst : (Γ.marshal s .none).run.run w with ⟨e | receiver, w₁⟩
  · rw [hfirst] at hkeeps hcasts
    refine .refused hcasts hkeeps fun rt => ?_
    rw [hcall, run_bind_of_error hfirst]
  rw [hfirst] at hkeeps
  have hkeepsAll := keepsWorld_marshalAll (Γ := Γ) slots .unbound (.none :: args) w₁
  have hcastsAll := raisesCasts_marshalAll (Γ := Γ) slots .unbound (.none :: args) w₁
  rcases hothers : (Γ.marshalAll slots .unbound (.none :: args)).run.run w₁ with ⟨e | values, w₂⟩
  · rw [hothers] at hkeepsAll hcastsAll
    refine .refused hcastsAll (hkeeps.trans hkeepsAll) fun rt => ?_
    rw [hcall, run_bind_of_ok hfirst, run_bind_of_error hothers]
  rw [hothers] at hkeepsAll
  have hboth := hkeeps.trans hkeepsAll
  -- all slots are filled, and the receiver alone decides
  cases hnone : receiver.isNone with
  | false =>
    have happlied := (applyPlan_of_marshal hplanned (fun hd => hcells hd g hg) hfirst).1
    refine .replaced receiver values hslots happlied hnone hboth fun rt => ?_
    rw [hcall, run_bind_of_ok hfirst, run_bind_of_ok hothers, hnone]
    rfl
  | true =>
    cases receiver <;> try cases hnone
    obtain ⟨hs, hsame⟩ := keepsNone_of_marshal hfirst
    refine .reported hslots hs (hsame ▸ hothers) ⟨w₂, hboth, fun rt => ?_⟩
    rw [hcall, run_bind_of_ok hfirst, run_bind_of_ok hothers]
    rfl

theorem exists_keepsNone_of_reportsMissing (hR : BetweenSpellings R)
    (hsig : sig.Planned Γ R h₀ shape t .unbound) (hreceiver : t.takesReceiver = true)
    (hcells : GivesCellToCell shape t) (hargs : (Value.none :: args).length = shape.arity)
    (hreports : (Adapter.member sig).ReportsMissing Γ t (.none :: args) w) :
    ∃ s slots, sig.slots = s :: slots ∧ s.KeepsNone Γ w.heap ∧
      ∃ values w',
        (Γ.marshalAll slots .unbound (.none :: args)).run.run w = (.ok values, w') := by
  obtain ⟨w', -, hreports⟩ := hreports
  cases missing_receiver_cases hR hsig hreceiver hcells hargs w with
  | reported hslots hs hothers _ => exact ⟨_, _, hslots, hs, _, _, hothers⟩
  | refused hcast _ hrefused =>
    have h := congrArg Prod.fst ((hrefused .exhausted).symm.trans (hreports .exhausted))
    exact absurd (Except.error.inj h ▸ hcast) (not_isCast_nullReceiver t)
  | @replaced s slots receiver values w₂ _ _ _ _ hreplaced =>
    -- a member that cannot run fails otherwise
    have hcasts := (raisesCasts_invokeMember_exhausted (Γ := Γ) t receiver values).bind
      (raisesCasts_converting (Γ := Γ) sig.result) w₂
    rw [← hreplaced .exhausted, hreports .exhausted] at hcasts
    exact absurd hcasts (not_isCast_nullReceiver t)

theorem reportsMissing_of_keepsNone {s : Slot} {slots : List Slot} {values : List Value}
    {w' : World} (hR : BetweenSpellings R) (hsig : sig.Planned Γ R h₀ shape t .unbound)
    (hreceiver : t.takesReceiver = true) (hargs : (Value.none :: args).length = shape.arity)
    (hslots : sig.slots = s :: slots) (hs : s.KeepsNone Γ w.heap)
    (hothers : (Γ.marshalAll slots .unbound (.none :: args)).run.run w = (.ok values, w')) :
    (Adapter.member sig).ReportsMissing Γ t (.none :: args) w := by
  obtain ⟨s', slots', g, hslots', -, -, hcall⟩ := exists_first_slot hR hsig hreceiver hargs
  obtain ⟨rfl, rfl⟩ := List.cons.inj (hslots.symm.trans hslots')
  have hkeeps := keepsWorld_marshalAll (Γ := Γ) slots .unbound (.none :: args) w
  rw [hothers] at hkeeps
  refine ⟨w', hkeeps, fun rt => ?_⟩
  rw [hcall, run_bind_of_ok (run_marshal_none hs), run_bind_of_ok hothers]
  rfl

/-- A call of an instance member with nothing for the receiver reports that it is missing, without
the member being invoked, exactly where the slot of the receiver hands the absent value over as it
is and no other slot fails. Otherwise a slot has failed before, or the planned conversion of the
first one has made a receiver. -/
theorem missing_receiver_reported (hp : p.Asked Γ)
    (hmade : ((Γ.adapterFor h₀ (some shape) (some t) .unbound).run.run p).1 =
      .ok (some (.member sig)))
    (hreceiver : t.takesReceiver = true) (hcells : GivesCellToCell shape t)
    (hargs : (Value.none :: args).length = shape.arity) (w : World) :
    ((Adapter.member sig).ReportsMissing Γ t (.none :: args) w ↔
      ∃ s slots, sig.slots = s :: slots ∧ s.KeepsNone Γ w.heap ∧
        ∃ values w',
          (Γ.marshalAll slots .unbound (.none :: args)).run.run w = (.ok values, w')) ∧
      Adapter.MissingCall Γ sig t (.none :: args) w := by
  obtain ⟨_, hsound⟩ := hp.sound
  have hR := betweenSpellings_historyReuse
  have hsig := planned_of_adapterFor hsound hmade
  refine ⟨⟨?_, ?_⟩, missing_receiver_cases hR hsig hreceiver hcells hargs w⟩
  · exact exists_keepsNone_of_reportsMissing hR hsig hreceiver hcells hargs
  · rintro ⟨s, slots, hslots, hs, values, w', hothers⟩
    exact reportsMissing_of_keepsNone hR hsig hreceiver hargs hslots hs hothers

/-- From the class itself, the absent value is handed over. -/
theorem missing_receiver_reported_size :
    sizeAdapter.ReportsMissing sizedProgram sizeMethod [.none] World.empty :=
  (missing_receiver_reported ⟨false, [], rfl⟩ run_sizeAdapter rfl nofun rfl World.empty).1.2
    ⟨_, _, rfl, ⟨rfl, rfl⟩, _, _, rfl⟩

/-- The method of the class, for receivers of an optional type. -/
def optionalSize : SignaturePlan where
  shape := .make [(Ty.cls (.declared sizedRef)).optional] (.builtin .int)
  target := sizeMethod
  slots := [⟨.argument 0, .of (Ty.cls (.declared sizedRef)).optional (.cls (.declared sizedRef))
    (.convert (.test (.cls (.declared sizedRef)) .keep
      (.test .none (.refuseNone (.cls (.declared sizedRef)))
        (.refuse (.cls (.declared sizedRef)))))), .value⟩]
  result := .of (.builtin .int) (.builtin .int) .identity

/-- From an optional type, the cast of the receiver fails before its absence is looked at. -/
theorem optional_receiver_refused :
    ¬∀ (Γ : Program) (p : Planner) (h₀ : Heap) (shape : Shape) (t : Target) (sig : SignaturePlan)
      (args : List Value) (w : World), p.Asked Γ → t.takesReceiver = true →
      ((Γ.adapterFor h₀ (some shape) (some t) .unbound).run.run p).1 =
        .ok (some (.member sig)) →
      (Value.none :: args).length = shape.arity →
      (Adapter.member sig).ReportsMissing Γ t (.none :: args) w := by
  intro hclaim
  have hmade : ((sizedProgram.adapterFor .empty (some optionalSize.shape) (some sizeMethod)
      .unbound).run.run (sizedProgram.afterRequests [] ⟨false, [], []⟩)).1 =
        .ok (some (.member optionalSize)) := by
    with_unfolding_all rfl
  obtain ⟨w', -, hreports⟩ :=
    hclaim _ _ _ _ _ _ [] World.empty ⟨false, [], rfl⟩ rfl hmade rfl
  have hcall : (((Adapter.member optionalSize).call sizedProgram .exhausted [.none]).run.run
      World.empty).1 = .error (sizedProgram.castFailureWith .none (.cls (.declared sizedRef))
        "optional value is None; Sized required") := by
    with_unfolding_all rfl
  rw [hreports .exhausted] at hcall
  cases hcall

section Types

variable {g : Ty} (hp : p.Asked Γ)
  (hmade : ((Γ.adapterFor h₀ (some shape) (some t) .unbound).run.run p).1 =
    .ok (some (.member sig)))
  (hreceiver : t.takesReceiver = true) (hargs : (Value.none :: args).length = shape.arity)
  (hg : shape.params.head? = some g)

include hp hmade hreceiver hargs hg

/-- For receivers of the class or of one below it, a missing one is reported unless another slot
fails. -/
theorem reportsMissing_of_untouched (hgiven : g.isCell = false)
    (hdeclared : t.receiverType.isCell = false)
    (huntouched : Γ.Untouched g.normalize t.receiverType.normalize) {values : List Value}
    {w' : World}
    (hothers : (Γ.marshalAll sig.slots.tail .unbound (.none :: args)).run.run w =
      (.ok values, w')) : (Adapter.member sig).ReportsMissing Γ t (.none :: args) w := by
  obtain ⟨_, hsound⟩ := hp.sound
  have hR := betweenSpellings_historyReuse
  have hsig := planned_of_adapterFor hsound hmade
  obtain ⟨s, slots, g', hslots, hg', hplanned, -⟩ := exists_first_slot hR hsig hreceiver hargs
  obtain rfl := Option.some.inj (hg.symm.trans hg')
  rw [hslots] at hothers
  exact reportsMissing_of_keepsNone hR hsig hreceiver hargs hslots
    (keepsNone_of_untouched hplanned hgiven hdeclared huntouched) hothers

/-- For receivers that may be absent, no call reports that one is missing. -/
theorem not_reportsMissing_of_fits {K : Cls → Prop} (hK : Lawful Γ K)
    (hcells : GivesCellToCell shape t)
    (hexpressible : Expressible K t.receiverType.normalize)
    (hgiven : Fits Γ w.heap g.normalize .none)
    (hdeclared : ¬Fits Γ w.heap t.receiverType.normalize .none) :
    ¬(Adapter.member sig).ReportsMissing Γ t (.none :: args) w := by
  intro hreports
  obtain ⟨_, hsound⟩ := hp.sound
  have hR := betweenSpellings_historyReuse
  have hsig := planned_of_adapterFor hsound hmade
  obtain ⟨s, slots, hslots, hs, -⟩ :=
    exists_keepsNone_of_reportsMissing hR hsig hreceiver hcells hargs hreports
  obtain ⟨s', slots', g', hslots', hg', hplanned, -⟩ := exists_first_slot hR hsig hreceiver hargs
  obtain ⟨rfl, rfl⟩ := List.cons.inj (hslots.symm.trans hslots')
  obtain rfl := Option.some.inj (hg.symm.trans hg')
  exact not_keepsNone_of_fits hK hplanned hexpressible hgiven hdeclared hs

end Types

end Calls

end CallAdapter
