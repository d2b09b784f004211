import CallAdapter.Proofs.Adapter.Signature
import Mathlib

/-!
# Calls keep their types

A call of an adapter with arguments that fit the parameters of its shape either fails before the
member is invoked, or hands the member inputs that fit their declared types; and when the member
then gives a value that fits its result type, what the call gives fits the result of the shape
(`call_sound`). It does not matter what the planner was asked before the adapter was built.
-/

namespace CallAdapter

open Program

section Inputs

variable {Γ : Program} {K : Cls → Prop} {R : Reuse} {w : World} {t : Target} {declared : Ty}
  {bound : Value} {i : Nat} {gs ds : List Ty} {slots : List Slot} {args : List Value}

/-! ## Producing the inputs -/

theorem marshalAll_argument {s : Slot} {v : Value} (hs : s.source = .argument i)
    (hv : args[i]?.getD .none = v) :
    Γ.marshalAll (s :: slots) bound args = (do
      let u ← Γ.marshal s v
      let us ← Γ.marshalAll slots bound args
      pure (u :: us)) := by
  rw [marshalAll, List.mapM_cons, hs, ← hv]
  rfl

theorem marshalAll_bound {s : Slot} (hs : s.source = .bound) :
    Γ.marshalAll (s :: slots) bound args = (do
      let u ← Γ.marshal s bound
      let us ← Γ.marshalAll slots bound args
      pure (u :: us)) := by
  rw [marshalAll, List.mapM_cons, hs]
  rfl

/-- The first of the arguments that are left, and the others. -/
theorem drop_eq_cons {v : Value} {vs : List Value} (h : args.drop i = v :: vs) :
    args[i]?.getD .none = v ∧ args.drop (i + 1) = vs := by
  constructor
  · have hget : (args.drop i)[0]? = some v := by rw [h]; rfl
    rw [List.getElem?_drop, Nat.add_zero] at hget
    rw [hget]
    rfl
  · rw [← List.drop_drop, h]
    rfl

/-- The slots of a signature fill all inputs in turn. -/
theorem delivers_marshalAll (hK : Lawful Γ K) (hR : BetweenSpellings R)
    (hslots : SlotsPlanned Γ R i gs ds slots) (hgs : ∀ g ∈ gs, g.normalize = g)
    (hds : ∀ d ∈ ds, Declarable K d)
    (hargs : List.Forall₂ (FitsSlot Γ w.heap) gs (args.drop i)) :
    Delivers w (Γ.marshalAll slots bound args) fun h vs => List.Forall₂ (FitsSlot Γ h) ds vs := by
  induction hslots generalizing w with
  | nil => exact .pure .nil
  | @cons i g d gs ds s slots hsource hs _ ih =>
    generalize hrest : args.drop i = rest at hargs
    cases hargs with
    | cons hv hvs =>
      obtain ⟨hget, hdrop⟩ := drop_eq_cons hrest
      rw [marshalAll_argument hsource hget]
      have hg := hgs g List.mem_cons_self
      have hd := hds d List.mem_cons_self
      refine (delivers_marshal hK hR hs hg hd hv).bind fun u w' hext hu => ?_
      have hargs' : List.Forall₂ (FitsSlot Γ w'.heap) gs (args.drop (i + 1)) :=
        hdrop ▸ hvs.imp fun _ _ h => h.extends hext
      have hrec := ih (fun g hg => hgs g (List.mem_cons_of_mem _ hg))
        (fun d hd => hds d (List.mem_cons_of_mem _ hd)) hargs'
      exact hrec.bind fun vs w'' hext' hvs => .pure (.cons (hu.extends hext') hvs)

/-- From everything to everything there is nothing to do. -/
theorem applyPlan_any (hR : BetweenSpellings R) {q : Plan} (hq : Γ.PlanAnswer R .any .any (.ok q))
    (h : Heap) (v : Value) : Γ.applyPlan h q v = .ok v := by
  have hn : NormalPair .any .any := by simp [NormalPair, Ty.normalize]
  have hdirect : Γ.direct? .any .any = some (.ok .identity) := by
    simp [direct?, Ty.same_refl, Ty.any, Ty.cls_refusesPlanning]
  have hkind := kind_eq_freshVerdict hR hq.2 (Ty.same_refl _) (Ty.same_refl _) hn
    (freshVerdict_of_direct? hn hdirect)
  rw [applyPlan_of_handsOn hq.1, runVerdict_of_kind_ne (by rw [hkind]; simp [Verdict.kind])]

/-- The value that was captured still fits the first input when the adapter is called. -/
theorem delivers_captured (hK : Lawful Γ K) (hR : BetweenSpellings R) {h₀ : Heap} {c : Capture}
    (hc : c.Planned Γ R h₀ t declared bound) (hpresent : c.nullReceiver = false)
    (hd : Declarable K declared) (hgrows : h₀.Grows w.heap) :
    Delivers w (Γ.marshal c.slot c.value) fun h u => FitsSlot Γ h declared u := by
  cases hc with
  | missing => cases hpresent
  | @converted p q v hanswer hpossible hv hq =>
    have hn : NormalPair (Γ.className bound) declared.content :=
      ⟨Ty.normalize_cls _, normalize_content hd.1⟩
    rw [hn.1, hn.2] at hanswer
    have hbound : Fits Γ h₀ (Γ.className bound) bound :=
      fits_cls_of_isInstance (isInstance_classOf Γ h₀ bound)
    rw [applyPlan_of_handsOn hanswer.1] at hv
    have hfits : Fits Γ w.heap declared.content v :=
      (fits_of_runVerdict hK hR hanswer.2 hn hd.2.2 (p.isPossible_eq ▸ hpossible) hbound
        hv).mono hgrows
    have hconvert : Delivers w (Γ.converting q v) fun h u => Fits Γ h declared.content u := by
      unfold Delivers
      rw [run_converting, applyPlan_any hR hq]
      exact ⟨.refl _, fun u hu => Except.ok.inj hu ▸ hfits⟩
    cases hcell : declared.isCell with
    | false => exact ⟨hconvert.1, fun u hu => fitsSlot_of_not_isCell hcell (hconvert.2 u hu)⟩
    | true => exact hconvert.bind fun u w' _ hu => delivers_newCell_fits hcell hu

/-- A captured value is not the sentinel for no value. -/
theorem isUnbound_captured (hR : BetweenSpellings R) {h₀ : Heap} {c : Capture}
    (hc : c.Planned Γ R h₀ t declared bound) (hbound : bound.isUnbound = false) :
    c.value.isUnbound = false := by
  cases hc with
  | missing => rfl
  | @converted p q v hanswer _ hv _ =>
    have hn : NormalPair (Γ.className bound).normalize declared.content.normalize :=
      ⟨Ty.normalize_normalize _, Ty.normalize_normalize _⟩
    rw [applyPlan_of_handsOn hanswer.1] at hv
    rcases isYield_of_runVerdict hR hanswer.2 hn hv with rfl | ⟨x, rfl⟩ | ⟨c, n, rfl⟩
    · exact hbound
    · rfl
    · rfl

/-! ## Handing the arguments over as they are -/

theorem applyPlan_of_not_needsOperation {h : Heap} {p : Plan} {v : Value}
    (hdiscard : p.discard = false) (hop : p.needsOperation = false) :
    Γ.applyPlan h p v = .ok v := by
  have hnone : p.operation? = none := by simpa [Plan.needsOperation] using hop
  unfold applyPlan
  rw [hdiscard, if_neg Bool.false_ne_true, hnone]

/-- Trivial slots hand over the arguments themselves. -/
theorem run_marshalAll_of_trivial (hslots : SlotsPlanned Γ R i gs ds slots)
    (htrivial : slots.all Slot.isTrivial = true) (hlen : gs.length = (args.drop i).length) :
    (Γ.marshalAll slots bound args).run.run w = (.ok (args.drop i), w) := by
  induction hslots with
  | nil =>
    rw [List.length_eq_zero_iff.1 hlen.symm]
    rfl
  | @cons i g d gs ds s slots hsource hs _ ih =>
    rw [List.all_cons, Bool.and_eq_true, Slot.isTrivial, Bool.and_eq_true, Bool.not_eq_true',
      beq_iff_eq] at htrivial
    obtain ⟨⟨hmode, hop⟩, htrivial⟩ := htrivial
    generalize hrest : args.drop i = rest at hlen
    cases rest with
    | nil => cases hlen
    | cons v vs =>
      obtain ⟨hget, hdrop⟩ := drop_eq_cons hrest
      have hmarshal : (Γ.marshal s v).run.run w = (.ok v, w) := by
        rw [marshal, hmode]
        show (Γ.converting s.plan v).run.run w = _
        rw [run_converting, applyPlan_of_not_needsOperation hs.answer.1.discard hop]
      rw [marshalAll_argument hsource hget, run_bind_of_ok hmarshal,
        run_bind_of_ok (ih htrivial (hdrop ▸ Nat.succ.inj hlen)), hdrop]
      rfl

/-- Invokes a member on its inputs, of which the first is the receiver if it takes one. -/
def Runtime.deliver (Γ : Program) (rt : Runtime) (t : Target) (values : List Value) : Eval Value :=
  if t.takesReceiver then rt.invokeMember Γ t (values.head?.getD .none) values.tail
  else rt.invokeMember Γ t .none values

/-- What follows once all inputs are there. -/
def SignaturePlan.conclude (Γ : Program) (rt : Runtime) (p : SignaturePlan)
    (values : List Value) : Eval Value := do
  if p.target.takesReceiver && (values.head?.getD .none).isNone then throw p.target.nullReceiver
  else Γ.converting p.result (← rt.deliver Γ p.target values)

theorem runGeneral_eq (rt : Runtime) (p : SignaturePlan) :
    p.runGeneral Γ rt args = (do p.conclude Γ rt (← Γ.marshalAll p.slots p.bound args)) := by
  unfold SignaturePlan.runGeneral SignaturePlan.conclude Runtime.deliver
  congr 1
  funext values
  cases p.target.takesReceiver with
  | false => rfl
  | true =>
    dsimp only
    cases hnone : (values.head?.getD .none).isNone <;> rfl

/-- A callable member that takes its inputs one by one is called with them. -/
theorem deliver_of_isPlain (rt : Runtime) {t : Target} {f : Value} (himpl : t.impl = .callable f)
    (hkind : t.kind.isAccessor = false) (hplain : t.isPlain = true) {values : List Value}
    (hvalues : t.takesReceiver = true → values ≠ []) :
    rt.deliver Γ t values = rt.call f values [] := by
  have hinvoke : ∀ receiver vs, rt.invokeMember Γ t receiver vs =
      rt.call f ((if t.takesReceiver then [receiver] else []) ++ vs) [] := by
    intro receiver vs
    unfold Runtime.invokeMember
    rw [himpl]
    cases hk : t.kind with
    | procedure | constructor => exact if_pos hplain
    | _ =>
      rw [hk] at hkind
      cases hkind
  unfold Runtime.deliver
  rw [hinvoke, hinvoke]
  cases hreceiver : t.takesReceiver with
  | false => rfl
  | true =>
    cases values with
    | nil => exact absurd rfl (hvalues hreceiver)
    | cons v vs => rfl

/-- An attribute is no procedure or constructor. -/
theorem deliver_of_attribute (rt : Runtime) {t : Target} {name : String}
    (himpl : t.impl = .attribute name) (hkind : t.kind.isAccessor = false) (values : List Value) :
    rt.deliver Γ t values = throw .typeError := by
  have hinvoke : ∀ receiver vs, rt.invokeMember Γ t receiver vs = throw .typeError := by
    intro receiver vs
    unfold Runtime.invokeMember
    rw [himpl]
    cases hk : t.kind <;> first | rfl | (rw [hk] at hkind; cases hkind)
  unfold Runtime.deliver
  rw [hinvoke, hinvoke, ite_self]

/-- A member that is called with its arguments as they are gets what the slots would make. -/
theorem run_runDirect {p : SignaturePlan} (rt : Runtime) (hdirect : p.isDirect = true)
    (hslots : SlotsPlanned Γ R 0 gs p.target.inputs p.slots) (hgs : gs.length = args.length)
    (hds : p.target.inputs.length = args.length) :
    (p.runDirect rt args).run.run w = (p.runGeneral Γ rt args).run.run w := by
  simp only [SignaturePlan.isDirect, Bool.and_eq_true, Bool.not_eq_true'] at hdirect
  obtain ⟨⟨⟨⟨⟨-, hkind⟩, htrivial⟩, hop⟩, hdiscard⟩, hplain⟩ := hdirect
  have hargs : (Γ.marshalAll p.slots p.bound args).run.run w = (.ok (args.drop 0), w) :=
    run_marshalAll_of_trivial hslots htrivial hgs
  have hconvert : ∀ x : Eval Value,
      (do Γ.converting p.result (← x) : Eval Value).run.run w = x.run.run w := fun x =>
    run_bind_converting (fun _ _ => applyPlan_of_not_needsOperation hdiscard hop) x w
  have hnonempty : p.target.takesReceiver = true → args ≠ [] := by
    rintro hreceiver rfl
    rw [Target.length_inputs, Target.slotCount, hreceiver] at hds
    simp at hds
  rw [runGeneral_eq, run_bind_of_ok hargs, List.drop_zero]
  unfold SignaturePlan.runDirect SignaturePlan.conclude
  split
  · rfl
  rcases himpl : p.target.impl with f | name
  · rw [deliver_of_isPlain rt himpl hkind hplain hnonempty]
    exact (hconvert _).symm
  · rw [deliver_of_attribute rt himpl hkind]
    rfl

/-! ## The result -/

/-- What a call gives when the member gives a value: the default value of the wanted type where
the member gives none at all, else a value of the wanted type. -/
def FitsResult (Γ : Program) (h : Heap) (given wanted : Ty) (v : Value) : Prop :=
  if given.isVoid = true ∧ wanted.isVoid = false then v = defaultValue wanted
  else Fits Γ h wanted v

theorem fitsResult_of_applyPlan (hK : Lawful Γ K) (hR : BetweenSpellings R) {given wanted : Ty}
    {p : Plan} (hp : ResultPlanned Γ R given wanted p) (hn : NormalPair given wanted)
    (hwanted : Expressible K wanted) {h : Heap} {raw out : Value} (hraw : Fits Γ h given raw)
    (hout : Γ.applyPlan h p raw = .ok out) : FitsResult Γ h given wanted out := by
  have hanswer := hp.answer
  rw [hn.1, hn.2] at hanswer
  have hsettled : ∀ w discard, Memo.results.settled given wanted = some (w, discard) →
      p.Paired ∧ p.verdict = w ∧ p.discard = discard := by
    intro w discard h
    unfold MemoAnswer at hanswer
    rw [h] at hanswer
    obtain ⟨p', hp', hsettled⟩ := hanswer
    obtain rfl := Except.ok.inj hp'
    exact hsettled
  unfold FitsResult
  -- where one side is nothing, the plan is settled before any rule is asked
  cases hd : wanted.isVoid with
  | true =>
    rw [if_neg (fun h => by cases h.2)]
    cases hs : given.isVoid with
    | true =>
      obtain ⟨hpaired, hverdict, hdiscard⟩ :=
        hsettled .identity false (by simp [Memo.settled, hd, hs])
      rw [applyPlan_of_handsOn ⟨hpaired, hdiscard⟩, hverdict] at hout
      obtain rfl := Except.ok.inj hout
      rwa [(Ty.isVoid_iff wanted).1 hd, ← (Ty.isVoid_iff given).1 hs]
    | false =>
      obtain ⟨-, -, hdiscard⟩ := hsettled .widen true (by simp [Memo.settled, hd, hs])
      rw [applyPlan, if_pos hdiscard] at hout
      obtain rfl := Except.ok.inj hout
      exact .absent hd rfl
  | false =>
    cases hs : given.isVoid with
    | true =>
      rw [if_pos ⟨rfl, rfl⟩]
      obtain ⟨hpaired, hverdict, hdiscard⟩ :=
        hsettled (.convert (.constant (defaultValue wanted))) false (by simp [Memo.settled, hd, hs])
      rw [applyPlan_of_handsOn ⟨hpaired, hdiscard⟩, hverdict] at hout
      exact (Except.ok.inj hout).symm
    | false =>
      rw [if_neg (fun h => by cases h.1)]
      have hplan : Γ.PlanAnswer R given wanted (.ok p) := by
        unfold MemoAnswer at hanswer
        rwa [show Memo.results.settled given wanted = none by simp [Memo.settled, hd, hs]]
          at hanswer
      rw [applyPlan_of_handsOn hplan.1] at hout
      exact fits_of_runVerdict hK hR hplan.2 hn hwanted (p.isPossible_eq ▸ hp.possible) hraw hout

/-! ## Calls -/

/-- The call fails without the member, in the same way however members run. -/
def FailsEarly (call : Runtime → Eval Value) (w : World) : Prop :=
  ∃ f w', ∀ rt, (call rt).run.run w = (.error f, w')

/-- The call hands the member inputs of its declared types and fails where the member does; what
it gives otherwise comes from the member's result, and has the wanted type if that has the
declared one. -/
def CallsTyped (Γ : Program) (t : Target) (wanted : Ty) (result : Plan)
    (call : Runtime → Eval Value) (w : World) : Prop :=
  ∃ values w', w.heap.Extends w'.heap ∧ List.Forall₂ (FitsSlot Γ w'.heap) t.inputs values ∧
    ∀ rt : Runtime,
      match (rt.deliver Γ t values).run.run w' with
      | (.error e, w'') => (call rt).run.run w = (.error e, w'')
      | (.ok raw, w'') =>
        (call rt).run.run w = (Γ.applyPlan w''.heap result raw, w'') ∧
          (Fits Γ w''.heap t.result raw → ∀ out, Γ.applyPlan w''.heap result raw = .ok out →
            FitsResult Γ w''.heap t.result wanted out)

/-- Where the slots fill the inputs, a call that goes through them keeps its types. -/
theorem callsTyped_of_marshalAll (hK : Lawful Γ K) (hR : BetweenSpellings R) {p : SignaturePlan}
    {wanted : Ty} {call : Runtime → Eval Value}
    (hcall : ∀ rt, (call rt).run.run w = (p.runGeneral Γ rt args).run.run w)
    (hinputs : Delivers w (Γ.marshalAll p.slots p.bound args) fun h vs =>
      List.Forall₂ (FitsSlot Γ h) p.target.inputs vs)
    (hresult : ResultPlanned Γ R p.target.result wanted p.result)
    (hn : NormalPair p.target.result wanted) (hwanted : Expressible K wanted) :
    FailsEarly call w ∨ CallsTyped Γ p.target wanted p.result call w := by
  obtain ⟨hext, hfits⟩ := hinputs
  rcases hrun : (Γ.marshalAll p.slots p.bound args).run.run w with ⟨f | values, w'⟩
  · refine .inl ⟨f, w', fun rt => ?_⟩
    rw [hcall, runGeneral_eq, run_bind_of_error hrun]
  rw [hrun] at hext hfits
  by_cases hnull : (p.target.takesReceiver && (values.head?.getD .none).isNone) = true
  · refine .inl ⟨p.target.nullReceiver, w', fun rt => ?_⟩
    rw [hcall, runGeneral_eq, run_bind_of_ok hrun, SignaturePlan.conclude, if_pos hnull]
    rfl
  · refine .inr ⟨values, w', hext, hfits values rfl, fun rt => ?_⟩
    rw [hcall, runGeneral_eq, run_bind_of_ok hrun, SignaturePlan.conclude, if_neg hnull]
    rcases hdeliver : (rt.deliver Γ p.target values).run.run w' with ⟨e | raw, w''⟩
    · exact run_bind_of_error hdeliver
    · dsimp only
      rw [run_bind_of_ok hdeliver, run_converting]
      exact ⟨rfl, fun hraw out hout =>
        fitsResult_of_applyPlan hK hR hresult hn hwanted hraw hout⟩

/-- Calls without a captured value keep their types. -/
theorem callsTyped_of_free (hK : Lawful Γ K) (hR : BetweenSpellings R) {p : SignaturePlan}
    {wanted : Ty} (hpresent : p.nullReceiver = false)
    (hslots : SlotsPlanned Γ R 0 gs p.target.inputs p.slots)
    (hresult : ResultPlanned Γ R p.target.result wanted p.result)
    (hgs : ∀ g ∈ gs, g.normalize = g) (hinputs : ∀ d ∈ p.target.inputs, Declarable K d)
    (hn : NormalPair p.target.result wanted) (hwanted : Expressible K wanted)
    (hargs : List.Forall₂ (FitsSlot Γ w.heap) gs args) :
    FailsEarly (fun rt => p.run Γ rt args) w ∨
      CallsTyped Γ p.target wanted p.result (fun rt => p.run Γ rt args) w := by
  have hmarshal : Delivers w (Γ.marshalAll p.slots p.bound args)
      fun h vs => List.Forall₂ (FitsSlot Γ h) p.target.inputs vs :=
    delivers_marshalAll hK hR hslots hgs hinputs hargs
  by_cases hdirect : p.isDirect = true
  · have hrun : ∀ rt, p.run Γ rt args = p.runDirect rt args := by
      intro rt
      rw [SignaturePlan.run, if_neg (by rw [hpresent]; decide), if_pos hdirect]
    refine callsTyped_of_marshalAll hK hR (fun rt => ?_) hmarshal hresult hn hwanted
    rw [hrun, run_runDirect rt hdirect hslots hargs.length_eq
      (hslots.length_eq.symm.trans hargs.length_eq)]
  · refine callsTyped_of_marshalAll hK hR (fun rt => ?_) hmarshal hresult hn hwanted
    rw [SignaturePlan.run, if_neg (by rw [hpresent]; decide), if_neg hdirect]

/-- Calls with a captured value keep their types. -/
theorem callsTyped_of_captured (hK : Lawful Γ K) (hR : BetweenSpellings R) {h₀ : Heap}
    {p : SignaturePlan} {c : Capture} {wanted : Ty}
    (hc : c.Planned Γ R h₀ p.target declared bound) (hbound : bound.isUnbound = false)
    (hpslots : p.slots = c.slot :: slots) (hpbound : p.bound = c.value)
    (hpnull : p.nullReceiver = c.nullReceiver) (hdeclared : p.target.inputs = declared :: ds)
    (hslots : SlotsPlanned Γ R 0 gs ds slots)
    (hresult : ResultPlanned Γ R p.target.result wanted p.result)
    (hgs : ∀ g ∈ gs, g.normalize = g) (hinputs : ∀ d ∈ p.target.inputs, Declarable K d)
    (hn : NormalPair p.target.result wanted) (hwanted : Expressible K wanted)
    (hgrows : h₀.Grows w.heap) (hargs : List.Forall₂ (FitsSlot Γ w.heap) gs args) :
    FailsEarly (fun rt => p.run Γ rt args) w ∨
      CallsTyped Γ p.target wanted p.result (fun rt => p.run Γ rt args) w := by
  cases hpresent : c.nullReceiver with
  | true =>
    refine .inl ⟨p.target.nullReceiver, w, fun rt => ?_⟩
    show (p.run Γ rt args).run.run w = _
    rw [SignaturePlan.run, if_pos (hpnull.trans hpresent)]
    rfl
  | false =>
    have hunbound := isUnbound_captured hR hc hbound
    rw [hdeclared] at hinputs
    obtain ⟨hfirst, hrest⟩ := List.forall_mem_cons.1 hinputs
    have hrun : ∀ rt, p.run Γ rt args = p.runGeneral Γ rt args := by
      intro rt
      rw [SignaturePlan.run, if_neg (by rw [hpnull, hpresent]; decide), if_neg]
      simp [SignaturePlan.isDirect, hpbound, hunbound]
    refine callsTyped_of_marshalAll hK hR (fun rt => by rw [hrun rt]) ?_ hresult hn hwanted
    rw [hpslots, hpbound, hdeclared, marshalAll_bound hc.source_eq]
    -- the captured value has the first input, and the arguments have the others
    refine (delivers_captured hK hR hc hpresent hfirst hgrows).bind fun u w' hext hu => ?_
    have hargs' : List.Forall₂ (FitsSlot Γ w'.heap) gs (args.drop 0) :=
      hargs.imp fun _ _ h => h.extends hext
    exact (delivers_marshalAll hK hR hslots hgs hrest hargs').bind
      fun us w'' hext' hus => .pure (.cons (hu.extends hext') hus)

end Inputs

namespace Program

/-- Calls of an adapter with arguments of the types of its shape, on any heap that has grown from
the one on which it was built, and whatever its planner was asked before. -/
theorem call_sound {Γ : Program} {K : Cls → Prop} {h₀ : Heap} {shape : Shape} {t : Target}
    {bound : Value} {plan : SignaturePlan} {history : List PlanRequest} {q : Planner}
    {memoize : Bool} {w : World} {args : List Value} (hK : Lawful Γ K)
    (hshape : shape.IsNormal) (hreturns : Expressible K shape.returns)
    (hinputs : ∀ d ∈ t.inputs, Declarable K d) (hresult : t.result.normalize = t.result)
    (hplan : (Γ.planSignature h₀ shape t bound).run.run.run
      (Γ.afterRequests history ⟨memoize, [], []⟩) = (.ok (.ok plan), q))
    (hgrows : h₀.Grows w.heap) (hargs : List.Forall₂ (FitsSlot Γ w.heap) shape.params args) :
    FailsEarly (fun rt => (Adapter.member plan).call Γ rt args) w ∨
      CallsTyped Γ t shape.returns plan.result (fun rt => (Adapter.member plan).call Γ rt args)
        w := by
  have hp := planned_of_planSignature (sound_history memoize history) (congrArg Prod.fst hplan)
  have hcall : ∀ rt, (Adapter.member plan).call Γ rt args = plan.run Γ rt args := by
    intro rt
    rw [Adapter.call, if_pos (by rw [hp.shape_eq]; exact hargs.length_eq.symm)]
  simp only [hcall]
  have hR := betweenSpellings_historyReuse
  have hn : NormalPair t.result shape.returns := ⟨hresult, hshape.2⟩
  cases hp with
  | free _ hslots hresult =>
    exact callsTyped_of_free hK hR rfl hslots hresult hshape.1 hinputs hn hreturns hargs
  | captured hbound hdeclared hc hslots hresult =>
    exact callsTyped_of_captured hK hR hc hbound rfl rfl rfl hdeclared hslots hresult hshape.1
      hinputs hn hreturns hgrows hargs

/-- Floats to floats, by way of a member from integers to integers. -/
def floatShape : Shape := .make [.builtin .float] (.builtin .float)

def intTarget : Target where
  kind := .procedure
  name := "twice"
  declaring := none
  isStatic := true
  params := [⟨"x", .builtin .int, .positional⟩]
  result := .builtin .int
  impl := .callable (.code (.function 0))

/-- The conversion of the argument, and the widening of the result. -/
def truncating : Plan :=
  .of (.builtin .float) (.builtin .int) (.convert (.numeric .toInt (.builtin .int)))

def widening : Plan := .of (.builtin .int) (.builtin .float) .widen

def truncatingSignature : SignaturePlan where
  shape := floatShape
  target := intTarget
  slots := [⟨.argument 0, truncating, .value⟩]
  result := widening

theorem call_sound_truncating :
    FailsEarly (fun rt => (Adapter.member truncatingSignature).call .empty rt
        [.scalar (.float (.finite false 3 (-1)))]) .empty ∨
      CallsTyped .empty intTarget floatShape.returns truncatingSignature.result
        (fun rt => (Adapter.member truncatingSignature).call .empty rt
          [.scalar (.float (.finite false 3 (-1)))]) .empty := by
  have hfloat : Expressible (fun c => c = .builtin .int ∨ c = .builtin .float)
      (.builtin .float) := .ofClass rfl (origin_cls _) (.inr rfl)
  have hint : Expressible (fun c => c = .builtin .int ∨ c = .builtin .float)
      (.builtin .int) := .ofClass rfl (origin_cls _) (.inl rfl)
  have hinputs : ∀ d ∈ intTarget.inputs,
      Declarable (fun c => c = .builtin .int ∨ c = .builtin .float) d := by
    intro d hd
    obtain rfl := List.mem_singleton.1 hd
    exact ⟨Ty.normalize_cls _, hint, hint⟩
  have hplan : (Program.empty.planSignature .empty floatShape intTarget .unbound).run.run.run
      (Program.empty.afterRequests [.types (.builtin .float) (.builtin .int)] ⟨true, [], []⟩) =
      (.ok (.ok truncatingSignature),
        ⟨true, [((.builtin .float, .builtin .int), truncating),
          ((.builtin .int, .builtin .float), widening)],
          [((.builtin .int, .builtin .float), widening)]⟩) := by
    with_unfolding_all rfl
  have hargs : List.Forall₂ (FitsSlot .empty World.empty.heap) floatShape.params
      [.scalar (.float (.finite false 3 (-1)))] :=
    .cons ⟨fits_cls_of_isInstance rfl, fun hcell => by cases hcell⟩ .nil
  exact call_sound lawful_numbers (isNormal_make _ _) hfloat hinputs (Ty.normalize_cls _) hplan
    (Heap.Extends.refl _).grows hargs

end Program

end CallAdapter
