import CallAdapter.Proofs.Builder.Caching
import CallAdapter.Proofs.Member.Found

/-!
# Builders that share a cache

The key of a cache names container, name, shape, options and captured value, and no host. Builders
over one host may therefore share a cache, and planners, without being noticed: what one of them
gives is a member of that host, and it answers as with a cache of its own (`sharing_invisible`).
Builders over different hosts may not: one of them gives what the other's host has
(`sharing_mixes_hosts`).
-/

namespace CallAdapter

open Program

/-- The host has the member for the container and the name of the call. -/
def NamedCall.Offered (Γ : Program) (rt : Runtime) (host : Host) (ctor : String) (w : World)
    (call : NamedCall) (t : Target) : Prop :=
  ∃ s c bound, call.asks Γ rt w = .ok (s, c, bound) ∧
    ∃ t', (host.source Γ w).Has ctor c call.name t' ∧ t.Same t'

section Sharing

variable {Γ : Program} {rt : Runtime} {host : Host} {ctor : String} {w₀ w : World}
  {builders : List Builder}

/-- The search at the start finds a member that the host has. -/
theorem has_of_searchAtStart {c : Ty} {name : String} {s : Shape} {options : SearchMask}
    {bound : Value} {r : Resolution}
    (h : searchAtStart Γ host ctor w₀ c name s options bound = .ok (.ok r)) :
    (host.source Γ w₀).Has ctor c name r.plan.target := by
  have hfinds := resolve_finds (some options) ⟨false, [], []⟩ h
  rw [hfinds.planned]
  exact hfinds.target

/-- What a call gives is the absent value, or an adapter for a member that the host has. -/
theorem Settles.offered {call : NamedCall} {config : BuildConfig} {v : Value}
    (h : Settles Γ host config w₀ call w (call.asks Γ rt w₀) (.ok v)) :
    v = .none ∨ ∃ p, w.IsAdapter v p ∧
      call.Offered Γ rt host config.constructorName w₀ p.target := by
  cases hasks : call.asks Γ rt w₀ with
  | error e =>
    rw [hasks] at h
    cases h
  | ok asked =>
    obtain ⟨s, c, bound⟩ := asked
    rw [hasks] at h
    obtain ⟨built, hv, hbuilt⟩ := h
    generalize hsearch : searchAtStart Γ host config.constructorName w₀ c call.name s
      (call.options.getD config.options) bound = found at hbuilt
    cases hbuilt with
    | adapter hadapter hp =>
      obtain rfl := Except.ok.inj hv
      exact .inr ⟨_, hadapter, s, c, bound, hasks, _, has_of_searchAtStart hsearch, hp.target⟩
    | missing => exact .inl (eq_none_of_settle_error hv)
    | failed => exact .inl (eq_none_of_settle_error hv)

/-- Builders over one host that call constructors by one name may share caches and planners: after
any calls of any of them, what one gives is the absent value or a member that the host has for the
container and the name, and it answers as a builder with the same settings would, whatever that one
keeps for itself and was asked before. -/
theorem sharing_invisible (hhost : host.Registered w₀)
    (hfresh : ∀ b ∈ builders, b.Fresh w₀ host ctor) {b alone : Builder} (hb : b ∈ builders)
    (halone : alone ∈ builders) (hsettings : b.SameSettings alone)
    {before before' : List (Builder × NamedCall)}
    (hbefore : ∀ e ∈ before, e.1 ∈ builders ∧ e.2.Within Γ rt host ctor w₀)
    (hbefore' : ∀ e ∈ before', e.1 ∈ builders ∧ e.2.Within Γ rt host ctor w₀)
    {call : NamedCall} (hcall : call.Within Γ rt host ctor w₀) :
    let out := (call.run Γ rt b).run.run (afterCalls Γ rt w₀ before)
    let out' := (call.run Γ rt alone).run.run (afterCalls Γ rt w₀ before')
    (∀ v, out.1 = .ok v → v = .none ∨ ∃ p, out.2.IsAdapter v p ∧
        call.Offered Γ rt host ctor w₀ p.target) ∧
      AnswersAlike out.2 out'.2 out.1 out'.1 := by
  refine ⟨fun v hv => ?_,
    answersAlike_afterCalls hhost hfresh hb halone hsettings hbefore hbefore' hcall⟩
  have hsettles := settles_afterCalls hhost hfresh hb hbefore hcall
  dsimp only at hsettles hv
  rw [hv] at hsettles
  rw [← (hfresh b hb).ctor]
  exact hsettles.offered

end Sharing

/-! ## Two builders and one cache -/

/-- A builder over a table with a planner of its own, and a cache. -/
def cachingBuilder (table planner cache : Nat) : Builder :=
  ⟨{ useCache := true }, .table table, planner, some cache⟩

/-- Two planners and two caches, a table with a function, and one without members. -/
def sharingWorld : World :=
  { World.empty with
    planners := #[⟨true, [], []⟩, ⟨true, [], []⟩], tables := #[constantTable, .empty]
    caches := #[.empty, .empty] }

theorem fresh_cachingBuilder (table : Nat) {planner cache : Nat} (hplanner : planner < 2)
    (hcache : cache < 2) :
    (cachingBuilder table planner cache).Fresh sharingWorld (.table table) constructorKeyword := by
  refine ⟨⟨rfl, rfl⟩, ⟨true, ?_⟩, fun id hid => ?_⟩
  · match planner, hplanner with
    | 0, _ | 1, _ => rfl
  · obtain rfl : cache = id := Option.some.inj hid
    match cache, hcache with
    | 0, _ | 1, _ => rfl

theorem typesHashable_empty : MemberTable.empty.TypesHashable :=
  ⟨fun _ he => absurd he List.not_mem_nil, fun _ he => absurd he List.not_mem_nil,
    fun _ he => absurd he List.not_mem_nil, fun _ he => absurd he List.not_mem_nil⟩

theorem within_sharingWorld {rt : Runtime} {table : Nat} (htable : table < 2) :
    constantCall.Within .empty rt (.table table) constructorKeyword sharingWorld := by
  refine within_constantCall ?_
  match table, htable with
  | 0, _ => exact typesHashable_constantTable
  | 1, _ => exact typesHashable_empty

theorem registered_sharingWorld {table : Nat} (htable : table < 2) :
    (Host.table table).Registered sharingWorld := by
  intro id hid
  obtain rfl := Host.table.inj hid
  match table, htable with
  | 0, _ => exact registered_constantTable
  | 1, _ => exact MemberTable.registered_empty

/-- A table without members has none for any name. -/
theorem not_has_empty {ctor : String} {c : Ty} {name : String} {t : Target} :
    ¬MemberTable.empty.source.Has ctor c name t := by
  rintro (ht | ⟨-, b, ts, hts, ht⟩)
  · cases ht with
    | procedure hts ht =>
      obtain ⟨e, he, -⟩ := MemberTable.mem_select hts ht
      cases he
    | property hps hp =>
      obtain ⟨e, he, -⟩ := MemberTable.mem_select hps hp
      cases he
    | field hfs hf =>
      obtain ⟨e, he, -⟩ := MemberTable.mem_select hfs hf
      cases he
  · obtain ⟨e, he, -⟩ := MemberTable.mem_select hts ht
    cases he

theorem sharing_invisible_constant :
    let first := cachingBuilder 0 0 0
    let second := cachingBuilder 0 1 0
    let alone := cachingBuilder 0 1 1
    let out := (constantCall.run .empty Program.empty.runtime second).run.run
      (afterCalls .empty Program.empty.runtime sharingWorld [(first, constantCall)])
    let out' := (constantCall.run .empty Program.empty.runtime alone).run.run sharingWorld
    (∀ v, out.1 = .ok v → v = .none ∨ ∃ p, out.2.IsAdapter v p ∧
        constantCall.Offered .empty Program.empty.runtime (.table 0) constructorKeyword sharingWorld
          p.target) ∧
      AnswersAlike out.2 out'.2 out.1 out'.1 := by
  have hhost : (Host.table 0).Registered sharingWorld := registered_sharingWorld (by decide)
  have hwithin : constantCall.Within .empty Program.empty.runtime (.table 0) constructorKeyword
      sharingWorld := within_sharingWorld (by decide)
  have hfresh : ∀ b ∈ [cachingBuilder 0 0 0, cachingBuilder 0 1 0, cachingBuilder 0 1 1],
      b.Fresh sharingWorld (.table 0) constructorKeyword := by
    intro b hb
    simp only [List.mem_cons, List.not_mem_nil, or_false] at hb
    rcases hb with rfl | rfl | rfl <;> exact fresh_cachingBuilder 0 (by decide) (by decide)
  have hbefore : ∀ e ∈ [(cachingBuilder 0 0 0, constantCall)],
      e.1 ∈ [cachingBuilder 0 0 0, cachingBuilder 0 1 0, cachingBuilder 0 1 1] ∧
        e.2.Within .empty Program.empty.runtime (.table 0) constructorKeyword sharingWorld := by
    intro e he
    obtain rfl := List.mem_singleton.1 he
    exact ⟨List.mem_cons_self, hwithin⟩
  have hbefore' : ∀ e ∈ ([] : List (Builder × NamedCall)),
      e.1 ∈ [cachingBuilder 0 0 0, cachingBuilder 0 1 0, cachingBuilder 0 1 1] ∧
        e.2.Within .empty Program.empty.runtime (.table 0) constructorKeyword sharingWorld :=
    fun _ he => absurd he List.not_mem_nil
  have hsecond : cachingBuilder 0 1 0 ∈
      [cachingBuilder 0 0 0, cachingBuilder 0 1 0, cachingBuilder 0 1 1] := by simp
  have halone : cachingBuilder 0 1 1 ∈
      [cachingBuilder 0 0 0, cachingBuilder 0 1 0, cachingBuilder 0 1 1] := by simp
  exact sharing_invisible hhost hfresh hsecond halone rfl hbefore hbefore' hwithin

/-- Asked first, the builder over the table with the function fills the cache; the other builder
then gives that function, which its own table does not have. -/
theorem sharing_mixes_hosts :
    ¬∀ (Γ : Program) (rt : Runtime) (ctor : String) (w₀ : World) (builders : List Builder),
      (∀ b ∈ builders, b.host.Registered w₀ ∧ b.Fresh w₀ b.host ctor) →
        ∀ before : List (Builder × NamedCall),
          (∀ e ∈ before, e.1 ∈ builders ∧ e.2.Within Γ rt e.1.host ctor w₀) →
            ∀ b ∈ builders, ∀ call : NamedCall, call.Within Γ rt b.host ctor w₀ →
              let out := (call.run Γ rt b).run.run (afterCalls Γ rt w₀ before)
              ∀ v, out.1 = .ok v → v = .none ∨ ∃ p, out.2.IsAdapter v p ∧
                call.Offered Γ rt b.host ctor w₀ p.target := by
  intro hoffered
  have hbuilders : ∀ b ∈ [cachingBuilder 0 0 0, cachingBuilder 1 1 0],
      b.host.Registered sharingWorld ∧ b.Fresh sharingWorld b.host constructorKeyword := by
    intro b hb
    simp only [List.mem_cons, List.not_mem_nil, or_false] at hb
    rcases hb with rfl | rfl
    · exact ⟨registered_sharingWorld (by decide), fresh_cachingBuilder 0 (by decide) (by decide)⟩
    · exact ⟨registered_sharingWorld (by decide), fresh_cachingBuilder 1 (by decide) (by decide)⟩
  have hbefore : ∀ e ∈ [(cachingBuilder 0 0 0, constantCall)],
      e.1 ∈ [cachingBuilder 0 0 0, cachingBuilder 1 1 0] ∧
        e.2.Within .empty .exhausted e.1.host constructorKeyword sharingWorld := by
    intro e he
    obtain rfl := List.mem_singleton.1 he
    exact ⟨List.mem_cons_self, within_sharingWorld (by decide)⟩
  have hgiven : ((constantCall.run .empty .exhausted (cachingBuilder 1 1 0)).run.run
      (afterCalls .empty .exhausted sharingWorld [(cachingBuilder 0 0 0, constantCall)])).1 =
      .ok (.object (.builtin .adapter) 0) := by
    with_unfolding_all rfl
  obtain hnone | ⟨p, -, s, c, bound, -, t, ht, -⟩ := hoffered .empty .exhausted constructorKeyword
    sharingWorld _ hbuilders _ hbefore (cachingBuilder 1 1 0) (by simp) constantCall
    (within_sharingWorld (by decide)) _ hgiven
  · cases hnone
  · exact not_has_empty ht

end CallAdapter
