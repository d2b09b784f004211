import CallAdapter.Program.Arguments
import Mathlib

/-!
# Binding the arguments of a call

A call that fills every parameter of a function binds each to the value meant for it
(`bind_dealt`). The values meant for parameters are *seats*; the arguments that fill them are the
values of the parameters that take positions, then the elements of the variadic one, and by name
the values of the parameters that are given by name only. Arguments are bound by counting positions
and comparing names, so this needs parameters in the order in which they can be declared, each with
a name of its own.
-/

namespace CallAdapter

/-- Whether a parameter of one kind may be declared before one of another. -/
def Passing.precedes : Passing → Passing → Bool
  | .positionalOnly, _ => true
  | .positional, k => k != .positionalOnly
  | .variadic, k | .keyword, k => k == .keyword || k == .variadicKeyword
  | .variadicKeyword, _ => false

/-- The parameters can be declared together: their kinds come in order and their names differ. -/
def Param.Declarable (ps : List Param) : Prop :=
  ps.Pairwise fun p q => p.name ≠ q.name ∧ p.passing.precedes q.passing = true

instance (ps : List Param) : Decidable (Param.Declarable ps) :=
  inferInstanceAs (Decidable (List.Pairwise _ ps))

namespace Param.Declarable

variable {p : Param} {ps : List Param}

theorem nodup (h : Declarable ps) : (ps.map (·.name)).Nodup :=
  List.pairwise_map.2 (h.imp And.left)

theorem tail (h : Declarable (p :: ps)) : Declarable ps := List.Pairwise.of_cons h

/-- After the variadic parameter come parameters that are given by name only. -/
theorem passing_of_variadic (h : Declarable (p :: ps)) (hp : p.passing = .variadic) {q : Param}
    (hq : q ∈ ps) : q.passing = .keyword ∨ q.passing = .variadicKeyword := by
  have hprecedes := (List.rel_of_pairwise_cons h hq).2
  simpa [hp, Passing.precedes] using hprecedes

end Param.Declarable

namespace Environment

/-- The parameters of a function, each with the value that it is to have in the body. -/
abbrev Seats := List (Param × Value)

variable {seats : Seats} {s : Param × Value} {q : Param × Value → Bool}

/-- The values of the parameters that take positions. -/
def taken (seats : Seats) : List Value :=
  (seats.filter fun s => s.1.takesPosition).map (·.2)

/-- The same values by the names of their parameters. -/
def byPosition (seats : Seats) : Environment :=
  (seats.filter fun s => s.1.takesPosition).map fun s => (s.1.name, s.2)

/-- The elements of the variadic parameter. -/
def extra (seats : Seats) : List Value :=
  seats.flatMap fun s =>
    match s.1.passing, s.2 with
    | .variadic, .tuple vs => vs
    | _, _ => []

/-- The values of the parameters that are given by name only, by their names. -/
def named (seats : Seats) : Environment :=
  (seats.filter fun s => s.1.passing == .keyword).map fun s => (s.1.name, s.2)

/-- What the parameters have in the body. -/
def ofSeats (seats : Seats) : Environment := seats.map fun s => (s.1.name, s.2)

theorem extra_cons_of_ne {p : Param} {v : Value} (hp : p.passing ≠ .variadic) :
    extra ((p, v) :: seats) = extra seats := by
  unfold extra
  rw [List.flatMap_cons]
  split
  · exact absurd ‹_› hp
  · rfl

theorem extra_cons_of_variadic {p : Param} {vs : List Value} (hp : p.passing = .variadic) :
    extra ((p, .tuple vs) :: seats) = vs ++ extra seats := by
  unfold extra
  rw [List.flatMap_cons, hp]

theorem get?_eq_none {env : Environment} {name : String} (h : ∀ e ∈ env, e.1 ≠ name) :
    env.get? name = none := by
  unfold get?
  rw [Option.map_eq_none_iff, List.find?_eq_none]
  exact fun e he => by simpa using h e he

/-- Among seats of different names, a name gives the value of its own seat. -/
theorem get?_filter (hnames : (seats.map (·.1.name)).Nodup) (hs : s ∈ seats) :
    get? ((seats.filter q).map fun s => (s.1.name, s.2)) s.1.name =
      if q s then some s.2 else none := by
  have hunique : ∀ r ∈ seats, r.1.name = s.1.name → r = s :=
    fun r hr hname => List.inj_on_of_nodup_map hnames hr hs hname
  split
  · rename_i hq
    unfold get?
    rw [List.find?_map, Option.map_map]
    have hfound : ((seats.filter q).find? fun r => r.1.name == s.1.name).isSome = true :=
      List.find?_isSome.2 ⟨s, List.mem_filter.2 ⟨hs, hq⟩, beq_self_eq_true _⟩
    obtain ⟨r, hr⟩ := Option.isSome_iff_exists.1 hfound
    have hname : r.1.name = s.1.name := by simpa using List.find?_some hr
    obtain rfl := hunique r (List.mem_of_mem_filter (List.mem_of_find?_eq_some hr)) hname
    exact congrArg (Option.map _) hr
  · rename_i hq
    refine get?_eq_none fun e he hname => hq ?_
    obtain ⟨r, hr, rfl⟩ := List.mem_map.1 he
    obtain ⟨hr, hqr⟩ := List.mem_filter.1 hr
    exact hunique r hr hname ▸ hqr

/-- The seats hold what their parameters can have: the variadic parameter the elements that are left
over, and the one for further names nothing. -/
structure Filled (seats : Seats) : Prop where
  names : (seats.map (·.1.name)).Nodup
  variadic : ∀ s ∈ seats, s.1.passing = .variadic → s.2 = .tuple (extra seats)
  variadicKeyword : ∀ s ∈ seats, s.1.passing = .variadicKeyword → s.2 = .dict []

theorem exists_variadic_of_extra (h : extra seats ≠ []) :
    ∃ s ∈ seats, s.1.passing = .variadic := by
  obtain ⟨v, hv⟩ := List.exists_mem_of_ne_nil _ h
  obtain ⟨s, hs, hv⟩ := List.mem_flatMap.1 hv
  refine ⟨s, hs, ?_⟩
  by_contra hpassing
  split at hv
  · exact hpassing ‹_›
  · cases hv

theorem mapM_eq_ok {α β ε : Type} {f : α → Except ε β} {g : α → β} {as : List α}
    (h : ∀ a ∈ as, f a = .ok (g a)) : as.mapM f = .ok (as.map g) := by
  induction as with
  | nil => rfl
  | cons a as ih =>
    rw [List.mapM_cons, h a List.mem_cons_self,
      ih fun b hb => h b (List.mem_cons_of_mem a hb)]
    rfl

section Dealt

variable (h : Filled seats)

include h

theorem get?_byPosition (hs : s ∈ seats) :
    (byPosition seats).get? s.1.name = if s.1.takesPosition then some s.2 else none :=
  get?_filter h.names hs

theorem get?_named (hs : s ∈ seats) :
    (named seats).get? s.1.name = if s.1.passing == .keyword then some s.2 else none :=
  get?_filter h.names hs

/-- A seat gets its value, whether by position, as what is left over, or by name. -/
theorem bindParam_dealt (hs : s ∈ seats) :
    bindParam (byPosition seats) (named seats) (extra seats) [] s.1 = .ok s.2 := by
  unfold bindParam
  dsimp only
  rw [get?_byPosition h hs, get?_named h hs]
  cases hpassing : s.1.passing with
  | positionalOnly | positional | keyword => simp [Param.takesPosition, hpassing]
  | variadic => rw [h.variadic s hs hpassing]
  | variadicKeyword => rw [h.variadicKeyword s hs hpassing, List.map_nil]

omit h in
theorem exists_of_mem_named {e : String × Value} (he : e ∈ named seats) :
    ∃ s ∈ seats, s.1.passing = .keyword ∧ e = (s.1.name, s.2) := by
  obtain ⟨s, hs, rfl⟩ := List.mem_map.1 he
  obtain ⟨hs, hkeyword⟩ := List.mem_filter.1 hs
  exact ⟨s, hs, eq_of_beq hkeyword, rfl⟩

omit h in
theorem zip_taken (more : List Value) :
    (((seats.map (·.1)).filter Param.takesPosition).map (·.name)).zip (taken seats ++ more) =
      byPosition seats := by
  unfold taken byPosition
  rw [show (seats.map (·.1)).filter Param.takesPosition =
    (seats.filter fun s => s.1.takesPosition).map (·.1) from List.filter_map]
  generalize seats.filter _ = those
  induction those with
  | nil => rfl
  | cons s those ih => simpa using ih

omit h in
theorem drop_taken (more : List Value) :
    (taken seats ++ more).drop ((seats.map (·.1)).filter Param.takesPosition).length = more := by
  refine List.drop_left' ?_
  rw [show (seats.map (·.1)).filter Param.takesPosition =
    (seats.filter fun s => s.1.takesPosition).map (·.1) from List.filter_map]
  simp [taken]

/-- The arguments for seats are bound to them. -/
theorem bind_dealt :
    bind (seats.map (·.1)) (taken seats ++ extra seats) (named seats) = .ok (ofSeats seats) := by
  have hknown : (named seats).filter (fun e => !(seats.map (·.1)).any fun p =>
      p.takesName && p.name == e.1) = [] := by
    refine List.filter_eq_nil_iff.2 fun e he => ?_
    obtain ⟨s, hs, hkeyword, rfl⟩ := exists_of_mem_named he
    simpa using ⟨s.1, ⟨s.2, hs⟩, by simp [Param.takesName, hkeyword], rfl⟩
  have honce : ((named seats).any fun e => ((seats.map (·.1)).any fun p =>
      p.takesName && p.name == e.1) && ((byPosition seats).get? e.1).isSome) = false := by
    refine List.any_eq_false.2 fun e he => ?_
    obtain ⟨s, hs, hkeyword, rfl⟩ := exists_of_mem_named he
    have hposition : s.1.takesPosition = false := by simp [Param.takesPosition, hkeyword]
    simp [get?_byPosition h hs, hposition]
  have hextra : (!(extra seats).isEmpty &&
      !(seats.map (·.1)).any fun p => p.passing == .variadic) = false := by
    by_cases hempty : extra seats = []
    · simp [hempty]
    · obtain ⟨s, hs, hvariadic⟩ := exists_variadic_of_extra hempty
      have hany : ((seats.map (·.1)).any fun p => p.passing == .variadic) = true :=
        List.any_eq_true.2 ⟨s.1, List.mem_map_of_mem hs, by simp [hvariadic]⟩
      simp [hany]
  unfold bind
  simp only [zip_taken, drop_taken, hknown, honce, hextra, List.isEmpty_nil, Bool.not_true,
    Bool.false_and, Bool.false_eq_true, if_false]
  show (seats.map (·.1)).mapM _ = _
  rw [List.mapM_map]
  exact mapM_eq_ok fun s hs => by
    show (bindParam _ _ _ _ s.1).bind _ = _
    rw [bindParam_dealt h hs]
    rfl

end Dealt

end Environment

end CallAdapter
