import CallAdapter.Execution.Runtime
import CallAdapter.Proofs.Builder.Calls
import Mathlib

/-!
# Builders that keep and builders that forget

Builders over one host with the same settings answer calls by name alike, whether they keep plans
and outcomes or not, and whatever they were asked before (`caching_invisible`). This asks that the
types of the members can be keys, and that nothing is captured for a union: a planner that keeps
plans answers for every spelling of a union as it did for the first (`caching_shows_spelling`).
-/

namespace CallAdapter

open Program

section Caching

variable {Γ : Program} {rt : Runtime} {host : Host} {ctor : String} {w₀ : World}

/-- Two builders over one host with the same settings, that were not asked before, answer every
request alike: after any calls of either, the same call has alike answers, whatever each of them
keeps. And a lenient call gives the absent value where the strict one raises a fault that need not
be raised, whatever was asked before each. -/
theorem caching_invisible (hhost : host.Registered w₀) {kept plain : Builder}
    (hkept : kept.Fresh w₀ host ctor) (hplain : plain.Fresh w₀ host ctor)
    (hsettings : ∀ b ∈ [kept, plain], ∀ b' ∈ [kept, plain], b.SameSettings b')
    {before before' : List (Builder × NamedCall)}
    (hbefore : ∀ e ∈ before, e.1 ∈ [kept, plain] ∧ e.2.Within Γ rt host ctor w₀)
    (hbefore' : ∀ e ∈ before', e.1 ∈ [kept, plain] ∧ e.2.Within Γ rt host ctor w₀)
    {call : NamedCall} (hcall : call.Within Γ rt host ctor w₀) :
    (let out := (call.run Γ rt kept).run.run (afterCalls Γ rt w₀ before)
      let out' := (call.run Γ rt plain).run.run (afterCalls Γ rt w₀ before')
      AnswersAlike out.2 out'.2 out.1 out'.1) ∧
    ∀ b ∈ [kept, plain], ∀ b' ∈ [kept, plain],
      (({ call with throws := some false }.run Γ rt b).run.run
          (afterCalls Γ rt w₀ before)).1 = .ok .none ↔
        ∃ f, (({ call with throws := some true }.run Γ rt b').run.run
          (afterCalls Γ rt w₀ before')).1 = .error (.fault f) ∧ f.kind.alwaysRaised = false := by
  have hfresh : ∀ b ∈ [kept, plain], b.Fresh w₀ host ctor := by
    intro b hb
    rcases List.mem_cons.1 hb with rfl | hb
    · exact hkept
    · obtain rfl := List.mem_singleton.1 hb
      exact hplain
  have hmemKept : kept ∈ [kept, plain] := List.mem_cons_self
  have hmemPlain : plain ∈ [kept, plain] := List.mem_cons_of_mem _ List.mem_cons_self
  exact ⟨answersAlike_afterCalls hhost hfresh hmemKept hmemPlain
      (hsettings _ hmemKept _ hmemPlain) hbefore hbefore' hcall,
    fun b hb b' hb' => lenient_iff_afterCalls hhost hfresh hb hb' (hsettings b hb b' hb') hbefore
      hbefore' hcall⟩

/-! ## Members of tables -/

/-- The types of all members of the table can be keys. -/
structure MemberTable.TypesHashable (t : MemberTable) : Prop where
  procedures : ∀ e ∈ t.procedures, e.member.TypesHashable
  constructors : ∀ e ∈ t.constructors, e.member.TypesHashable
  properties : ∀ e ∈ t.properties, ∀ setter x, e.member.accessor setter = some x → x.TypesHashable
  fields : ∀ e ∈ t.fields, ∀ setter x, e.member.accessor setter = some x → x.TypesHashable

namespace MemberTable

variable {t : MemberTable} {c : Ty} {name : String} {x : Target}

theorem TypesHashable.of_offers (ht : t.TypesHashable) (hx : t.source.Offers c name x) :
    x.TypesHashable := by
  cases hx with
  | procedure hts hx =>
    obtain ⟨e, he, -, rfl⟩ := mem_select hts hx
    exact ht.procedures e he
  | property hps hp hx =>
    obtain ⟨e, he, -, rfl⟩ := mem_select hps hp
    exact ht.properties e he _ _ hx
  | field hfs hf hx =>
    obtain ⟨e, he, -, rfl⟩ := mem_select hfs hf
    exact ht.fields e he _ _ hx

theorem TypesHashable.of_constructs (ht : t.TypesHashable) (hx : t.source.Constructs c x) :
    x.TypesHashable := by
  obtain ⟨b, ts, hts, hx⟩ := hx
  obtain ⟨e, he, -, rfl⟩ := mem_select hts hx
  exact ht.constructors e he

end MemberTable

/-- A call for a container that captures nothing suits a table whose types can be keys. -/
theorem NamedCall.within_table {call : NamedCall} {id : Nat} {m : Handle}
    (hkeys : (Eval.tableAt w₀ id).TypesHashable) (hplace : call.place = .container (some m) .unbound)
    (hshape : ∀ s, Γ.shapeOf w₀.heap call.shape = .ok s → s.hashable = true)
    (hkey : (m.asContainer Γ w₀.heap).hashable = true) :
    call.Within Γ rt (.table id) ctor w₀ := by
  have hasks : ∀ s c bound, call.asks Γ rt w₀ = .ok (s, c, bound) →
      s.hashable = true ∧ c = m.asContainer Γ w₀.heap ∧ bound = .unbound := by
    intro s c bound h
    unfold asks at h
    rw [hplace] at h
    unfold asks.request at h
    cases hs : Γ.shapeOf w₀.heap call.shape with
    | error e =>
      rw [hs] at h
      cases h
    | ok s' =>
      rw [hs] at h
      cases h
      exact ⟨hshape _ hs, rfl, rfl⟩
  refine ⟨⟨fun s c bound h => ?_, fun v hv => ?_⟩, fun s c bound _ => ?_, fun s c bound h => ?_⟩
  · obtain ⟨hs, rfl, rfl⟩ := hasks s c bound h
    exact ⟨hs, hkey, (fun hclasses => nomatch hclasses), .inl rfl⟩
  · rw [hplace] at hv
    cases hv
  · exact ⟨fun t ht => hkeys.of_offers ht, fun t ht => hkeys.of_constructs ht⟩
  · obtain ⟨-, -, rfl⟩ := hasks s c bound h
    exact .inl rfl

end Caching

/-! ## A table asked by two builders -/

/-- A function of `int` that takes nothing and gives a number. -/
def constantTarget : Target where
  kind := .procedure
  name := "f"
  declaring := some (.builtin .int)
  isStatic := true
  result := .builtin .int
  impl := .callable (.code (.function 0))

def constantTable : MemberTable where
  procedures := [⟨.builtin .int, "f", constantTarget⟩]

theorem typesHashable_constantTable : constantTable.TypesHashable := by
  have hinputs : constantTarget.inputs = [] := by cbv
  refine ⟨fun e he => ?_, fun _ he => absurd he List.not_mem_nil,
    fun _ he => absurd he List.not_mem_nil, fun _ he => absurd he List.not_mem_nil⟩
  obtain rfl := List.mem_singleton.1 he
  refine ⟨fun d hd => ?_, by cbv⟩
  rw [hinputs] at hd
  cases hd

theorem registered_constantTable : constantTable.Registered := by
  refine ⟨fun e he => ?_, fun _ he => absurd he List.not_mem_nil,
    fun _ he => absurd he List.not_mem_nil⟩
  obtain rfl := List.mem_singleton.1 he
  exact MemberTable.offeredBy_of_asDeclaring (by decide) rfl

def constantCall : NamedCall where
  shape := .shape (.make [] (.builtin .int))
  place := .container (some (.value (.type (.builtin .int)))) .unbound
  name := "f"

theorem within_constantCall {rt : Runtime} {id : Nat} {ctor : String} {w : World}
    (hkeys : (Eval.tableAt w id).TypesHashable) :
    constantCall.Within .empty rt (.table id) ctor w := by
  refine NamedCall.within_table hkeys rfl (fun s hs => ?_) (by cbv)
  obtain rfl : Shape.make [] (.builtin .int) = s := Except.ok.inj hs
  cbv

/-- A builder over the classes or a table, with a planner and maybe a cache. -/
def keepingBuilder (host : Host) : Builder := ⟨{ useCache := true }, host, 0, some 0⟩

def forgettingBuilder (host : Host) : Builder := ⟨{ useCache := false }, host, 1, none⟩

/-- A planner and a cache that keep, a planner that does not, and a table. -/
def twoBuilderWorld : World :=
  { World.empty with
    planners := #[⟨true, [], []⟩, ⟨false, [], []⟩], tables := #[constantTable]
    caches := #[.empty] }

theorem fresh_keepingBuilder (host : Host) :
    (keepingBuilder host).Fresh twoBuilderWorld host constructorKeyword := by
  refine ⟨⟨rfl, rfl⟩, ⟨true, rfl⟩, fun id hid => ?_⟩
  obtain rfl : 0 = id := Option.some.inj hid
  rfl

theorem fresh_forgettingBuilder (host : Host) :
    (forgettingBuilder host).Fresh twoBuilderWorld host constructorKeyword :=
  ⟨⟨rfl, rfl⟩, ⟨false, rfl⟩, fun _ hid => nomatch hid⟩

theorem sameSettings_twoBuilders (host : Host) :
    ∀ b ∈ [keepingBuilder host, forgettingBuilder host],
      ∀ b' ∈ [keepingBuilder host, forgettingBuilder host], b.SameSettings b' := by
  intro b hb b' hb'
  simp only [List.mem_cons, List.not_mem_nil, or_false] at hb hb'
  rcases hb with rfl | rfl <;> rcases hb' with rfl | rfl <;> rfl

theorem caching_invisible_constant :
    let kept := keepingBuilder (.table 0)
    let plain := forgettingBuilder (.table 0)
    let out := (constantCall.run .empty Program.empty.runtime kept).run.run
      (afterCalls .empty Program.empty.runtime twoBuilderWorld [(kept, constantCall)])
    let out' := (constantCall.run .empty Program.empty.runtime plain).run.run twoBuilderWorld
    AnswersAlike out.2 out'.2 out.1 out'.1 := by
  have hkeys : (Eval.tableAt twoBuilderWorld 0).TypesHashable := typesHashable_constantTable
  have hhost : (Host.table 0).Registered twoBuilderWorld := by
    intro id hid
    obtain rfl := Host.table.inj hid
    exact registered_constantTable
  have hwithin : constantCall.Within .empty Program.empty.runtime (.table 0) constructorKeyword
      twoBuilderWorld := within_constantCall hkeys
  have hbefore : ∀ e ∈ [(keepingBuilder (.table 0), constantCall)],
      e.1 ∈ [keepingBuilder (.table 0), forgettingBuilder (.table 0)] ∧
        e.2.Within .empty Program.empty.runtime (.table 0) constructorKeyword twoBuilderWorld := by
    intro e he
    obtain rfl := List.mem_singleton.1 he
    exact ⟨List.mem_cons_self, hwithin⟩
  have hbefore' : ∀ e ∈ ([] : List (Builder × NamedCall)),
      e.1 ∈ [keepingBuilder (.table 0), forgettingBuilder (.table 0)] ∧
        e.2.Within .empty Program.empty.runtime (.table 0) constructorKeyword twoBuilderWorld :=
    fun _ he => absurd he List.not_mem_nil
  exact (caching_invisible hhost (fresh_keepingBuilder _) (fresh_forgettingBuilder _)
    (sameSettings_twoBuilders _) hbefore hbefore' hwithin).1

/-! ## A number captured for a union -/

/-- The value that the adapter captured. -/
def World.boundAt (w : World) : Value → Option Value
  | .object _ addr =>
    match Eval.artifactAt? w addr with
    | some (.adapter (.member p)) => some p.bound
    | _ => none
  | _ => none

theorem AnswersAlike.boundAt_eq {w w' : World} {r r' : Except Failure Value}
    (h : AnswersAlike w w' r r') : r.toOption.bind w.boundAt = r'.toOption.bind w'.boundAt := by
  have hadapter : ∀ {w : World} {v : Value} {p : SignaturePlan}, w.IsAdapter v p →
      w.boundAt v = some p.bound := by
    rintro w v p ⟨c, addr, rfl, -, hart⟩
    unfold World.boundAt
    dsimp only
    rw [hart]
  cases h with
  | adapters hv hv' _ hbound =>
    show World.boundAt _ _ = World.boundAt _ _
    rw [hadapter hv, hadapter hv', hbound]
  | absent => rfl
  | faults => rfl
  | failures => rfl

/-- The container of a call is one of the types that a program made by its subscriptions. -/
def NamedCall.WrittenBy (written : List Subscription) (call : NamedCall) : Prop :=
  ∃ t bound, call.place = .container (some (.value (.type t))) bound ∧
    some t ∈ ((written.mapM Subscriptions.subscribe).run .empty).1

/-- A cell of one of two kinds of numbers. -/
def choiceCell (m n : Builtin) : Ty :=
  .applied (.generic (.builtin .cell)) [.union false [.builtin m, .builtin n]]

/-- Two subscriptions that are kept apart: the class of cells is given one spelling of a union, and
an open cell the other. Given to the class as well, the other spelling would be answered by the
first. -/
def twoSpellings : List Subscription :=
  [⟨.head (.generic (.builtin .cell)), [.union false [.builtin .decimal, .builtin .fraction]]⟩,
    ⟨.type (.applied (.generic (.builtin .cell)) [.var (.named "T")]),
      [.union false [.builtin .fraction, .builtin .decimal]]⟩]

theorem subscribe_twoSpellings : ((twoSpellings.mapM Subscriptions.subscribe).run .empty).1 =
    [some (choiceCell .decimal .fraction), some (choiceCell .fraction .decimal)] := by
  with_unfolding_all rfl

/-- Reads the content of a cell, with a captured number in the place of the cell. -/
def contentCall (m n : Builtin) : NamedCall where
  shape := .shape (.make [] (.builtin .object))
  place := .container (some (.value (.type (choiceCell m n)))) (.int 1)
  name := "value"

theorem proper_contentCall {rt : Runtime} (m n : Builtin) :
    (contentCall m n).Proper .empty rt .classes constructorKeyword twoBuilderWorld := by
  refine ⟨fun s c bound h => ?_, fun _ h => nomatch h⟩
  cases h
  exact ⟨by cbv, by cbv, fun _ => by cbv, .inr (.inr (by cbv))⟩

theorem writtenBy_contentCall {m n : Builtin}
    (h : (m, n) ∈ [(Builtin.decimal, Builtin.fraction), (.fraction, .decimal)]) :
    (contentCall m n).WrittenBy twoSpellings := by
  refine ⟨choiceCell m n, .int 1, rfl, ?_⟩
  rw [subscribe_twoSpellings]
  simp only [List.mem_cons, Prod.mk.injEq, List.not_mem_nil, or_false] at h
  rcases h with ⟨rfl, rfl⟩ | ⟨rfl, rfl⟩
  · exact List.mem_cons_self
  · exact List.mem_cons_of_mem _ List.mem_cons_self

set_option maxRecDepth 4000 in
/-- A planner that keeps plans converts the number as it did for the first spelling of the union, to
a decimal; one that keeps nothing converts it to the first member, a fraction. Both spellings are
containers that one program can write. -/
theorem caching_shows_spelling :
    ¬∀ (Γ : Program) (rt : Runtime) (ctor : String) (w₀ : World) (kept plain : Builder),
      kept.Fresh w₀ .classes ctor → plain.Fresh w₀ .classes ctor →
      kept.SameSettings plain → ∀ (written : List Subscription) (calls : List NamedCall),
        (∀ c ∈ calls, c.Proper Γ rt .classes ctor w₀ ∧ c.WrittenBy written) →
        ∀ call : NamedCall, call.Proper Γ rt .classes ctor w₀ → call.WrittenBy written →
          let out := (call.run Γ rt kept).run.run
            (afterCalls Γ rt w₀ (calls.map fun c => (kept, c)))
          let out' := (call.run Γ rt plain).run.run
            (afterCalls Γ rt w₀ (calls.map fun c => (plain, c)))
          AnswersAlike out.2 out'.2 out.1 out'.1 := by
  intro halike
  have hcalls : ∀ c ∈ [contentCall .decimal .fraction],
      c.Proper .empty Runtime.exhausted .classes constructorKeyword twoBuilderWorld ∧
        c.WrittenBy twoSpellings := by
    intro c hc
    obtain rfl := List.mem_singleton.1 hc
    exact ⟨proper_contentCall _ _, writtenBy_contentCall List.mem_cons_self⟩
  have hbound := (halike .empty Runtime.exhausted constructorKeyword twoBuilderWorld
    (keepingBuilder .classes) (forgettingBuilder .classes) (fresh_keepingBuilder _)
    (fresh_forgettingBuilder _) rfl _ _ hcalls _ (proper_contentCall .fraction .decimal)
    (writtenBy_contentCall (List.mem_cons_of_mem _ List.mem_cons_self))).boundAt_eq
  have hkept : (let out := ((contentCall .fraction .decimal).run .empty Runtime.exhausted
        (keepingBuilder .classes)).run.run (afterCalls .empty Runtime.exhausted twoBuilderWorld
          ([contentCall .decimal .fraction].map fun c => (keepingBuilder .classes, c)))
      out.1.toOption.bind out.2.boundAt) = some (.scalar (.decimal (Decimal.ofInt 1))) := by
    with_unfolding_all rfl
  have hplain : (let out := ((contentCall .fraction .decimal).run .empty Runtime.exhausted
        (forgettingBuilder .classes)).run.run (afterCalls .empty Runtime.exhausted twoBuilderWorld
          ([contentCall .decimal .fraction].map fun c => (forgettingBuilder .classes, c)))
      out.1.toOption.bind out.2.boundAt) = some (.scalar (.fraction 1)) := by
    with_unfolding_all rfl
  rw [hkept, hplain] at hbound
  cases hbound

end CallAdapter
