import CallAdapter.Proofs.Adapter.Delivery
import CallAdapter.Proofs.Conversion.Optional

/-!
# Instances captured as receivers

A member of instances takes its receiver as the class that holds it, or as a parametrization of its
own class. An instance of the class is converted to it when it is bound, and this conversion gives
the instance itself or fails (`eq_of_applyPlan_receiver`). So an adapter hands on the very instance
that was bound (`SignaturePlan.Planned.receiver`), unless the receiver is a reference cell: that is
put into a fresh cell at every call.
-/

namespace CallAdapter

open Program

/-- What a member takes as its receiver from instances of the class: a class that it derives from, or
an alias of a class. -/
inductive Ty.Receives (Γ : Program) (c : Cls) : Ty → Prop
  /-- No class is both a protocol and an enumeration. -/
  | ancestor {o : Cls} : Γ.derives c o = true →
      (Γ.isProtocol o = true → Γ.isEnum (.cls o) = false) → Receives Γ c (.cls o)
  | parametrized {g : Head} {o : Cls} {as : List Ty} : g = .generic o ∨ g = .native o →
    Receives Γ c (.applied g as)

section Receiving

variable {Γ : Program} {h : Heap} {c o : Cls} {addr : Nat} {d : Ty} {w : Verdict} {v x : Value}

/-- Running the verdict gives back the value, if it gives anything. -/
def Verdict.GivesBack (Γ : Program) (h : Heap) (w : Verdict) (x : Value) : Prop :=
  ∀ v, Γ.runVerdict h w x = .ok v → v = x

theorem givesBack_of_kind_ne (hw : w.kind ≠ .explicitConvert) : w.GivesBack Γ h x := by
  intro v hv
  rw [runVerdict_of_kind_ne hw] at hv
  exact (Except.ok.inj hv).symm

theorem givesBack_cast (d : Ty) : (Verdict.convert (.cast d)).GivesBack Γ h x := by
  intro v hv
  simp only [runVerdict, runWith, runOperation] at hv
  split at hv
  · exact (Except.ok.inj hv).symm
  · cases hv

/-- A value whose class is unknown itself is not converted. -/
theorem givesBack_unbox (hn : d.normalize = d)
    (hdirect : Γ.direct? (.cls (Γ.classOf x)) d = some (.ok (.convert (.unbox d)))) :
    (Verdict.convert (.unbox d)).GivesBack Γ h x := by
  intro v hv
  have hfresh := freshVerdict_of_direct? ⟨Ty.normalize_cls _, hn⟩ hdirect
  simp only [runVerdict, runWith, runOperation, unboxed_eq, hfresh] at hv
  split at hv <;> cases hv

theorem givesBack_aliasVerdict (s d : Ty) : (Γ.aliasVerdict s d).GivesBack Γ h x := by
  have hrule : (Γ.aliasVerdict s d).kind ≠ .explicitConvert ∨
      Γ.aliasVerdict s d = .convert (.cast d) := by
    unfold aliasVerdict
    grind [Verdict.kind]
  rcases hrule with hkind | hcast
  · exact givesBack_of_kind_ne hkind
  · rw [hcast]
    exact givesBack_cast d

/-- A class that refuses the question for subclasses is a protocol. -/
theorem isProtocol_of_not_isSubclass (hderives : Γ.derives c o = true)
    (hc : (Ty.cls c).isClass = true) (ho : (Ty.cls o).isClass = true)
    (hsub : ¬Γ.isSubclass (.cls c) (.cls o) = true) : Γ.isProtocol o = true := by
  have hwithin : ∀ n, Γ.subclassWithin n c o = true := by
    intro n
    cases n <;> simp [subclassWithin, hderives]
  by_contra hprotocol
  refine hsub ?_
  simp [isSubclass, hc, ho, subclass?, hprotocol, hwithin]

/-- Instances of a class are given to its ancestors as they are. -/
theorem givesBack_classVerdict (hderives : Γ.derives c o = true)
    (henum : Γ.isProtocol o = true → Γ.isEnum (.cls o) = false)
    (hc : (Ty.cls c).isClass = true) (ho : (Ty.cls o).isClass = true) :
    (Γ.classVerdict (.cls c) (.cls o)).GivesBack Γ h x := by
  by_cases hsub : Γ.isSubclass (.cls c) (.cls o) = true
  · unfold classVerdict
    rw [if_pos hsub]
    exact givesBack_of_kind_ne nofun
  have hprotocol := isProtocol_of_not_isSubclass hderives hc ho hsub
  -- what refuses the question is no number and no enumeration
  have hbuiltin : ∀ b, o ≠ .builtin b := by
    rintro b rfl
    cases hprotocol
  have hrule : (Γ.classVerdict (.cls c) (.cls o)).kind ≠ .explicitConvert ∨
      Γ.classVerdict (.cls c) (.cls o) = .convert (.cast (.cls o)) := by
    unfold classVerdict
    simp only [hsub, henum hprotocol, hbuiltin]
    grind [Verdict.kind]
  rcases hrule with hkind | hcast
  · exact givesBack_of_kind_ne hkind
  · rw [hcast]
    exact givesBack_cast _

theorem Ty.Receives.normalize (hd : d.Receives Γ c) : d.normalize = d := by
  cases hd with
  | ancestor => rfl
  | parametrized hg => rcases hg with rfl | rfl <;> rfl

theorem Ty.Receives.isUnion (hd : d.Receives Γ c) : d.isUnion = false := by
  cases hd <;> rfl

/-- Whatever rule applies, the receiver is the instance itself. -/
theorem givesBack_direct? (hd : d.Receives Γ (Γ.classOf x))
    (hdirect : Γ.direct? (.cls (Γ.classOf x)) d = some (.ok w)) : w.GivesBack Γ h x := by
  -- each rule either leaves the receiver alone or is one that gives it back
  have hdecided := hdirect
  unfold direct? at hdirect
  split at hdirect
  · cases hdirect
  split at hdirect
  · cases hdirect
    exact givesBack_of_kind_ne nofun
  split at hdirect
  · cases hdirect
    exact givesBack_of_kind_ne nofun
  split at hdirect
  · cases hdirect
    split <;> exact givesBack_of_kind_ne nofun
  split at hdirect
  · cases hdirect
    exact givesBack_of_kind_ne nofun
  split at hdirect
  · cases hdirect
    exact givesBack_unbox hd.normalize hdecided
  split at hdirect
  · cases hdirect
  split at hdirect
  · cases hdirect
    exact givesBack_aliasVerdict _ _
  split at hdirect
  · rename_i hclass
    cases hdirect
    obtain ⟨hc, ho⟩ := Bool.and_eq_true_iff.1 hclass
    cases hd with
    | ancestor hderives henum => exact givesBack_classVerdict hderives henum hc ho
    | parametrized => cases ho
  · cases hdirect
    exact givesBack_of_kind_ne nofun

/-- An instance that is converted to a receiver stays what it is, whatever the planner was asked
before. -/
theorem eq_of_applyPlan_receiver {p : Plan} (hd : d.Receives Γ (Γ.classOf x))
    (hanswer : Γ.PlanAnswer HistoryReuse (Γ.className x).normalize d.normalize (.ok p))
    (hv : Γ.applyPlan h p x = .ok v) : v = x := by
  have hclass : (Γ.className x).normalize = .cls (Γ.classOf x) := Ty.normalize_cls _
  rw [hclass, hd.normalize] at hanswer
  have hn : NormalPair (.cls (Γ.classOf x)) d := ⟨Ty.normalize_cls _, hd.normalize⟩
  obtain ⟨r, hdirect⟩ := direct?_of_not_union (Γ := Γ) (s := .cls (Γ.classOf x)) rfl hd.isUnion
  have hfresh := freshVerdict_of_direct? hn hdirect
  obtain ⟨s', d', hs', hd', hn', hlike⟩ :=
    runs_like_spelling betweenSpellings_historyReuse hanswer.2 hn rfl h x
  cases r with
  | error e =>
    have hok := isOk_eq_of_plans (fun _ _ _ _ h => h.2) hanswer.2 (plans_freshVerdict hn)
    rw [hfresh] at hok
    cases hok
  | ok w =>
    have heffect : effect (Γ.runVerdict h p.verdict x) = effect (Γ.runVerdict h w x) :=
      hlike.respelled hs' hd' (Ty.isUnion_congr hs') ((Ty.isUnion_congr hd').trans hd.isUnion)
        hn' hn w hfresh
    rw [applyPlan_of_handsOn hanswer.1] at hv
    rw [hv, eq_comm] at heffect
    exact givesBack_direct? hd hdirect v (effect_eq_ok_iff.1 heffect)

end Receiving

/-! ## Calls on the instance -/

namespace Target

/-- What a member takes besides its receiver. -/
def others (t : Target) : List Ty :=
  t.params.map (·.type) ++ if t.kind.isSetter then [t.assigned.getD .null] else []

theorem inputs_of_takesReceiver {t : Target} (ht : t.takesReceiver = true) :
    t.inputs = t.receiverType :: t.others := by
  unfold inputs others
  rw [if_pos ht, List.append_assoc]
  rfl

end Target

section Calls

variable {Γ : Program} {h : Heap} {S : Shape} {t : Target} {x : Value} {p : SignaturePlan}

/-- A signature that captured the instance as the receiver of a member, which is no cell. -/
structure SignaturePlan.OnReceiver (Γ : Program) (S : Shape) (t : Target) (x : Value)
    (p : SignaturePlan) : Prop where
  target : p.target = t
  shape : p.shape = S
  bound : p.bound = x
  nullReceiver : p.nullReceiver = false
  slots : ∃ q, p.slots = ⟨.bound, q, .value⟩ :: p.slots.tail ∧
    Γ.PlanAnswer HistoryReuse .any .any (.ok q)
  others : SlotsPlanned Γ HistoryReuse 0 S.params t.others p.slots.tail
  result : ResultPlanned Γ HistoryReuse t.result S.returns p.result

theorem SignaturePlan.Planned.onReceiver (hp : p.Planned Γ HistoryReuse h S t x)
    (hnone : x.isNone = false) (hunbound : x.isUnbound = false) (ht : t.takesReceiver = true)
    (hd : t.receiverType.Receives Γ (Γ.classOf x)) (hcell : t.receiverType.isCell = false) :
    p.OnReceiver Γ S t x := by
  cases hp with
  | free hbound => cases hunbound.symm.trans hbound
  | captured _ hinputs hc hslots hresult =>
    rw [t.inputs_of_takesReceiver ht] at hinputs
    obtain ⟨rfl, rfl⟩ := List.cons.inj hinputs
    cases hc with
    | missing hmissing => cases hnone.symm.trans hmissing
    | @converted plan q v hanswer _ hv hany =>
      rw [content_of_not_isCell hcell] at hanswer
      obtain rfl := eq_of_applyPlan_receiver hd hanswer hv
      rw [hcell, if_neg Bool.false_ne_true]
      exact ⟨rfl, rfl, rfl, rfl, ⟨q, rfl, hany⟩, hslots, hresult⟩

/-- A call of the adapter invokes the member on the instance. -/
theorem run_call_onReceiver (hp : p.Planned Γ HistoryReuse h S t x) (hon : p.OnReceiver Γ S t x)
    (hnone : x.isNone = false) (ht : t.takesReceiver = true) (rt : Runtime) {args : List Value}
    (hargs : args.length = S.arity) (w : World) :
    ((Adapter.member p).call Γ rt args).run.run w = (do
      let us ← Γ.marshalAll p.slots.tail x args
      Γ.converting p.result (← rt.invokeMember Γ t x us) : Eval Value).run.run w := by
  obtain ⟨q, hslots, hany⟩ := hon.slots
  have hreceiver : (Γ.marshal ⟨.bound, q, .value⟩ x).run.run w = (.ok x, w) := by
    show (Γ.converting q x).run.run w = _
    rw [run_converting, applyPlan_any betweenSpellings_historyReuse hany]
  have hinvoke : ∀ us, rt.invoke Γ t (x :: us) = rt.invokeMember Γ t x us := by
    intro us
    simp [Runtime.invoke, Runtime.deliver, ht, hnone]
  rw [run_call_of_planned betweenSpellings_historyReuse (.member hp)]
  unfold Adapter.deliver Adapter.conclude
  rw [hon.shape, if_pos hargs, hon.nullReceiver, if_neg Bool.false_ne_true, hon.bound, hslots,
    marshalAll_bound rfl, hon.target]
  simp only [bind_assoc, pure_bind, List.tail_cons]
  rw [run_bind_of_ok hreceiver]
  simp only [hinvoke]

end Calls

end CallAdapter
