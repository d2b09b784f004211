import CallAdapter.Execution.Runtime
import CallAdapter.Proofs.Adapter.Wrapping
import CallAdapter.Proofs.Program.Arguments
import Mathlib

/-!
# Entering a function with inputs

A member that runs a declared function has one input for each parameter of the function that takes
one. The inputs are distributed over the call, by position and by name, and the call binds them
again; what the parameters have in the body is what they are to receive when each input goes to its
own parameter (`received?`, `bind_spread`). The receiver and what the function is bound to come
before the inputs and fill its first parameters, so invoking the member is entering the function
with all of these values in order (`run_invoke_of_runs`).
-/

namespace CallAdapter

open Environment Program

/-! ## Inputs and parameters -/

namespace Program

variable (Γ : Program)

/-- What a parameter has in the body for its input: the variadic one has the elements of it. -/
def shown? (h : Heap) (p : Param) (v : Value) : Option Value :=
  if p.passing = .variadic then (Γ.elements? h v).map .tuple else some v

/-- What the parameters have in the body of a function that gets one input for each of them in the
order of declaration. The parameter for further names gets none. -/
def received? (h : Heap) : List Param → List Value → Option (List Value)
  | [], vs => if vs.isEmpty then some [] else none
  | p :: ps, vs =>
    if p.passing = .variadicKeyword then (received? h ps vs).map (.dict [] :: ·)
    else
      match vs with
      | [] => none
      | v :: vs => (Γ.shown? h p v).bind fun u => (received? h ps vs).map (u :: ·)

end Program

section Dealing

variable {Γ : Program} {h : Heap} {p : Param} {ps : List Param} {v : Value} {vs us : List Value}
  {hints : List (String × Ty)} {m : Bindings}

theorem received?_of_variadicKeyword (hp : p.passing = .variadicKeyword) :
    Γ.received? h (p :: ps) vs = (Γ.received? h ps vs).map (.dict [] :: ·) := by
  unfold received?
  rw [if_pos hp]
  cases ps <;> rfl

theorem received?_of_input (hp : p.passing ≠ .variadicKeyword) :
    Γ.received? h (p :: ps) (v :: vs) =
      (Γ.shown? h p v).bind fun u => (Γ.received? h ps vs).map (u :: ·) := by
  rw [received?, if_neg hp]

theorem passing_of_takesPosition (hp : p.takesPosition = true) :
    p.passing = .positionalOnly ∨ p.passing = .positional := by
  simpa [Param.takesPosition] using hp

theorem received?_of_takesPosition (hp : p.takesPosition = true) :
    Γ.received? h (p :: ps) (v :: vs) = (Γ.received? h ps vs).map (v :: ·) := by
  rcases passing_of_takesPosition hp with hp | hp <;>
    rw [received?_of_input (by simp [hp]), shown?, if_neg (by simp [hp]), Option.bind_some]

/-- The first parameter has nothing where it gets no input, or what it shows of the first input. -/
theorem exists_of_received?_cons (hus : Γ.received? h (p :: ps) vs = some us) :
    ∃ u us', us = u :: us' ∧
      (p.passing = .variadicKeyword ∧ u = .dict [] ∧ Γ.received? h ps vs = some us' ∨
        p.passing ≠ .variadicKeyword ∧ ∃ v vs', vs = v :: vs' ∧ Γ.shown? h p v = some u ∧
          Γ.received? h ps vs' = some us') := by
  unfold received? at hus
  split at hus
  · rename_i hpassing
    obtain ⟨us', hus', rfl⟩ := Option.map_eq_some_iff.1 hus
    exact ⟨_, _, rfl, .inl ⟨hpassing, rfl, hus'⟩⟩
  · rename_i hpassing
    split at hus
    · cases hus
    · obtain ⟨u, hu, hus⟩ := Option.bind_eq_some_iff.1 hus
      obtain ⟨us', hus', rfl⟩ := Option.map_eq_some_iff.1 hus
      exact ⟨_, _, rfl, .inr ⟨hpassing, _, _, rfl, hu, hus'⟩⟩

theorem length_received? (hus : Γ.received? h ps vs = some us) : us.length = ps.length := by
  induction ps generalizing vs us with
  | nil =>
    unfold received? at hus
    split at hus
    · simpa using (Option.some.inj hus).symm
    · cases hus
  | cons p ps ih =>
    obtain ⟨u, us', rfl, ⟨-, -, hus'⟩ | ⟨-, v, vs', -, -, hus'⟩⟩ := exists_of_received?_cons hus <;>
      simp [ih hus']

/-- After the variadic parameter nothing is left over. -/
theorem extra_zip_of_variadic (hps : Param.Declarable (p :: ps)) (hp : p.passing = .variadic) :
    taken (ps.zip us) = [] ∧ extra (ps.zip us) = [] := by
  have hpassing : ∀ s ∈ ps.zip us, s.1.passing = .keyword ∨ s.1.passing = .variadicKeyword :=
    fun s hs => hps.passing_of_variadic hp (List.of_mem_zip hs).1
  constructor
  · unfold taken
    rw [List.map_eq_nil_iff, List.filter_eq_nil_iff]
    intro s hs
    rcases hpassing s hs with hkey | hkey <;> simp [Param.takesPosition, hkey]
  · unfold extra
    rw [List.flatMap_eq_nil_iff]
    intro s hs
    rcases hpassing s hs with hkey | hkey <;> simp [hkey]

/-- What parameters receive fills their seats. -/
theorem filled_of_received? (hps : Param.Declarable ps) (hus : Γ.received? h ps vs = some us) :
    Filled (ps.zip us) := by
  have hnames : ((ps.zip us).map (·.1.name)).Nodup := by
    rw [show (fun s : Param × Value => s.1.name) = Param.name ∘ Prod.fst from rfl,
      ← List.map_map, List.map_fst_zip (length_received? hus).ge]
    exact hps.nodup
  suffices hvalues : ∀ s ∈ ps.zip us,
      (s.1.passing = .variadic → s.2 = .tuple (extra (ps.zip us))) ∧
        (s.1.passing = .variadicKeyword → s.2 = .dict []) from
    ⟨hnames, fun s hs => (hvalues s hs).1, fun s hs => (hvalues s hs).2⟩
  clear hnames
  induction ps generalizing vs us with
  | nil => exact fun s hs => nomatch hs
  | cons p ps ih =>
    obtain ⟨u, us', rfl, hcases⟩ := exists_of_received?_cons hus
    have hrest : ∀ s ∈ ps.zip us',
        (s.1.passing = .variadic → s.2 = .tuple (extra (ps.zip us'))) ∧
          (s.1.passing = .variadicKeyword → s.2 = .dict []) := by
      rcases hcases with ⟨-, -, hus'⟩ | ⟨-, v, vs', -, -, hus'⟩ <;> exact ih hps.tail hus'
    intro s hs
    rw [List.zip_cons_cons] at hs ⊢
    -- no position comes after a parameter for further values, so what it shows is all there is
    by_cases hp : p.passing = .variadic
    · obtain ⟨v, es, hes⟩ : ∃ v es, u = .tuple es ∧ Γ.elements? h v = some es := by
        rcases hcases with ⟨hkey, -⟩ | ⟨-, v, vs', -, hu, -⟩
        · simp [hp] at hkey
        · rw [shown?, if_pos hp] at hu
          obtain ⟨es, hes, rfl⟩ := Option.map_eq_some_iff.1 hu
          exact ⟨v, es, rfl, hes⟩
      obtain ⟨rfl, -⟩ := hes
      rw [extra_cons_of_variadic hp, (extra_zip_of_variadic hps hp).2, List.append_nil]
      rcases List.mem_cons.1 hs with rfl | hs
      · exact ⟨fun _ => rfl, fun hkey => by simp [hp] at hkey⟩
      · refine ⟨fun hkey => ?_, (hrest s hs).2⟩
        rcases hps.passing_of_variadic hp (List.of_mem_zip hs).1 with h | h <;> simp [hkey] at h
    · rw [extra_cons_of_ne hp]
      rcases List.mem_cons.1 hs with rfl | hs
      · refine ⟨fun hkey => absurd hkey hp, fun hkey => ?_⟩
        rcases hcases with ⟨-, hu, -⟩ | ⟨hne, -⟩
        · exact hu
        · exact absurd hkey hne
      · exact hrest s hs

/-! ## Distributing inputs -/

/-- How a parameter is given that takes an input. -/
def Passing.inputKind : Passing → ParameterKind
  | .variadic => .variadic
  | .keyword => .keyword
  | _ => .positional

/-- The parameters of a function as their names with how they take arguments. -/
def Param.outline (ps : List Param) : ParameterList := ps.map fun p => (p.name, p.passing)

theorem parameters_of_variadicKeyword (hp : p.passing = .variadicKeyword) :
    Reflection.parameters (Param.outline (p :: ps)) hints m =
      Reflection.parameters (Param.outline ps) hints m := by
  simp [Reflection.parameters, Param.outline, hp]

theorem exists_parameters_cons (hp : p.passing ≠ .variadicKeyword) :
    ∃ t, Reflection.parameters (Param.outline (p :: ps)) hints m =
      ⟨p.name, t, p.passing.inputKind⟩ :: Reflection.parameters (Param.outline ps) hints m := by
  unfold Reflection.parameters Param.outline
  rw [List.map_cons, List.filterMap_cons]
  cases hpassing : p.passing with
  | variadicKeyword => exact absurd hpassing hp
  | _ => exact ⟨_, rfl⟩

/-- The arguments that fill seats. -/
def Program.CallArguments.ofSeats (seats : Seats) : CallArguments :=
  ⟨taken seats ++ extra seats, named seats⟩

/-- The inputs of a member are distributed over the call of its function so that each fills the
parameter it is for. -/
theorem spread_parameters (hps : Param.Declarable ps)
    (hlen : vs.length = (Reflection.parameters (Param.outline ps) hints m).length) :
    Γ.spread h (Reflection.parameters (Param.outline ps) hints m) vs =
      match Γ.received? h ps vs with
      | some us => .ok (CallArguments.ofSeats (ps.zip us))
      | none => .error .typeError := by
  induction ps generalizing vs with
  | nil =>
    obtain rfl : vs = [] := List.length_eq_zero_iff.1 hlen
    rfl
  | cons p ps ih =>
    -- a parameter for further keywords takes no input, any other takes the next one
    by_cases hkey : p.passing = .variadicKeyword
    · rw [parameters_of_variadicKeyword hkey] at hlen ⊢
      rw [ih hps.tail hlen, received?_of_variadicKeyword hkey]
      cases Γ.received? h ps vs <;>
        simp [CallArguments.ofSeats, taken, named, extra, Param.takesPosition, hkey]
    · obtain ⟨t, ht⟩ := @exists_parameters_cons p ps hints m hkey
      rw [ht] at hlen ⊢
      cases vs with
      | nil => cases hlen
      | cons v vs =>
        have hrest := ih hps.tail (Nat.succ.inj hlen)
        rw [received?_of_input hkey, spread, hrest]
        cases hp : p.passing with
        | variadicKeyword => exact absurd hp hkey
        | positionalOnly | positional | keyword =>
          simp only [shown?, hp, Passing.inputKind]
          cases Γ.received? h ps vs <;>
            simp [CallArguments.ofSeats, taken, named, extra, Param.takesPosition, hp, Bind.bind,
              Except.bind]
        | variadic =>
          simp only [shown?, hp, Passing.inputKind]
          cases Γ.elements? h v with
          | none => simp [Bind.bind, Except.bind]
          | some es =>
            cases hus : Γ.received? h ps vs with
            | none => simp [Bind.bind, Except.bind]
            | some us =>
              obtain ⟨htaken, hextra⟩ : taken (ps.zip us) = [] ∧ extra (ps.zip us) = [] :=
                extra_zip_of_variadic hps hp
              have hcons : taken ((p, .tuple es) :: ps.zip us) = taken (ps.zip us) := by
                simp [taken, Param.takesPosition, hp]
              have hnamed : named ((p, .tuple es) :: ps.zip us) = named (ps.zip us) := by
                simp [named, hp]
              simp [CallArguments.ofSeats, List.zip_cons_cons, extra_cons_of_variadic hp, hcons,
                hnamed, htaken, hextra, Bind.bind, Except.bind]

/-! ## What comes before the inputs -/

variable {fs : List Param} {firsts : List Value}

theorem received?_append (hfs : ∀ p ∈ fs, p.takesPosition = true)
    (hfirsts : firsts.length = fs.length) :
    Γ.received? h (fs ++ ps) (firsts ++ vs) = (Γ.received? h ps vs).map (firsts ++ ·) := by
  induction fs generalizing firsts with
  | nil =>
    obtain rfl := List.length_eq_zero_iff.1 hfirsts
    simp
  | cons p fs ih =>
    cases firsts with
    | nil => cases hfirsts
    | cons v firsts =>
      rw [List.cons_append, List.cons_append,
        received?_of_takesPosition (hfs p List.mem_cons_self),
        ih (fun q hq => hfs q (List.mem_cons_of_mem p hq)) (Nat.succ.inj hfirsts), Option.map_map]
      rfl

/-- Values for parameters that take positions come first among the arguments. -/
theorem ofSeats_append (hfs : ∀ p ∈ fs, p.takesPosition = true)
    (hfirsts : firsts.length = fs.length) (seats : Seats) :
    CallArguments.ofSeats (fs.zip firsts ++ seats) =
      ⟨firsts ++ (CallArguments.ofSeats seats).positional,
        (CallArguments.ofSeats seats).keywords⟩ := by
  induction fs generalizing firsts with
  | nil =>
    obtain rfl := List.length_eq_zero_iff.1 hfirsts
    rfl
  | cons p fs ih =>
    cases firsts with
    | nil => cases hfirsts
    | cons v firsts =>
      have hp := hfs p List.mem_cons_self
      have hrest := ih (fun q hq => hfs q (List.mem_cons_of_mem p hq)) (Nat.succ.inj hfirsts)
      obtain ⟨hpositional, hkeywords⟩ := CallArguments.mk.inj hrest
      have hpassing : p.passing ≠ .variadic ∧ p.passing ≠ .keyword := by
        rcases passing_of_takesPosition hp with hp | hp <;> simp [hp]
      have htaken : taken ((p, v) :: (fs.zip firsts ++ seats)) =
          v :: taken (fs.zip firsts ++ seats) := by
        simp [taken, hp]
      have hnamed : named ((p, v) :: (fs.zip firsts ++ seats)) =
          named (fs.zip firsts ++ seats) := by
        simp [named, hpassing.2]
      rw [List.zip_cons_cons, List.cons_append, CallArguments.ofSeats, htaken, hnamed,
        extra_cons_of_ne hpassing.1, List.cons_append, List.cons_append, hpositional, hkeywords]

/-- Given what comes before the inputs, each parameter of the function is bound to what it is to
receive, or an input for the variadic parameter has no elements. -/
theorem bind_spread (hparams : Param.Declarable (fs ++ ps))
    (hfs : ∀ p ∈ fs, p.takesPosition = true) (hfirsts : firsts.length = fs.length)
    (hlen : vs.length = (Reflection.parameters (Param.outline ps) hints m).length) :
    (Γ.spread h (Reflection.parameters (Param.outline ps) hints m) vs).bind (fun args =>
        Environment.bind (fs ++ ps) (firsts ++ args.positional) args.keywords) =
      match Γ.received? h (fs ++ ps) (firsts ++ vs) with
      | some us => .ok (((fs ++ ps).map (·.name)).zip us)
      | none => .error .typeError := by
  have hps : Param.Declarable ps := (List.pairwise_append.1 hparams).2.1
  rw [spread_parameters hps hlen, received?_append hfs hfirsts]
  cases hus : Γ.received? h ps vs with
  | none => rfl
  | some us =>
    have hreceived : Γ.received? h (fs ++ ps) (firsts ++ vs) = some (firsts ++ us) := by
      rw [received?_append hfs hfirsts, hus, Option.map_some]
    have hbind := bind_dealt (filled_of_received? hparams hreceived)
    obtain ⟨hpositional, hkeywords⟩ := CallArguments.mk.inj (ofSeats_append hfs hfirsts (ps.zip us))
    rw [List.map_fst_zip (length_received? hreceived).ge, List.zip_append hfirsts.symm,
      hpositional, hkeywords] at hbind
    refine hbind.trans (congrArg Except.ok ?_)
    rw [← List.zip_append hfirsts.symm, List.zip_map_left]
    rfl

end Dealing

/-! ## Entering a function -/

/-- Runs a function whose parameters receive the values, one input for each. -/
def Runtime.enter (Γ : Program) (rt : Runtime) (f : Function) (vs : List Value) : Eval Value := do
  match Γ.received? (← Eval.heap) f.params vs with
  | some us => rt.runBody Γ f ((f.params.map (·.name)).zip us)
  | none => throw .typeError

/-- The declared function that the implementation runs, with what it gets before the arguments. -/
def Implementation.runs? : Implementation → Option (Nat × List Value)
  | .callable (.code (.function id)) => some (id, [])
  | .callable (.method r (.function id)) | .callable (.method r (.classMethod id)) => some (id, [r])
  | _ => none

/-- The first parameters take positions. -/
def Function.TakesFirst (f : Function) (n : Nat) : Prop :=
  n ≤ f.params.length ∧ ∀ p ∈ f.params.take n, p.takesPosition = true

/-- The number of values that a function gets before the inputs that are parameters of the member:
what it is bound to, and the receiver. -/
def Target.before (t : Target) (lead : List Value) : Nat :=
  lead.length + if t.takesReceiver then 1 else 0

/-- The member runs a declared function, and its parameters are those of the function that are left
after what comes before them. -/
structure Target.RunsFunction (Γ : Program) (id : Nat) (f : Function) (lead : List Value)
    (t : Target) : Prop where
  declared : Γ.function? id = some f
  kind : t.kind = .procedure
  runs : t.impl.runs? = some (id, lead)
  params : ∃ hints m, t.params =
    Reflection.parameters ((Param.outline f.params).drop (t.before lead)) hints m

section Entering

variable {Γ : Program} {rt : Runtime} {id : Nat} {f : Function} {lead values : List Value}
  {t : Target} {w : World}

theorem exists_callable_of_runs? {i : Implementation} (hi : i.runs? = some (id, lead)) :
    ∃ v, i = .callable v ∧ ∀ args keywords, (Runtime.step Γ rt).call v args keywords =
      Runtime.callDeclared Γ rt id (lead ++ args) keywords := by
  unfold Implementation.runs? at hi
  split at hi
  · obtain ⟨rfl, rfl⟩ := Prod.mk.inj (Option.some.inj hi)
    exact ⟨_, rfl, fun _ _ => rfl⟩
  · obtain ⟨rfl, rfl⟩ := Prod.mk.inj (Option.some.inj hi)
    exact ⟨_, rfl, fun _ _ => rfl⟩
  · obtain ⟨rfl, rfl⟩ := Prod.mk.inj (Option.some.inj hi)
    exact ⟨_, rfl, fun _ _ => rfl⟩
  · cases hi

theorem spread_of_isPlain {h : Heap} {params : List Parameter} {vs : List Value}
    (hplain : (params.all fun p => p.kind == .positional) = true)
    (hlen : vs.length = params.length) : Γ.spread h params vs = .ok ⟨vs, []⟩ := by
  induction params generalizing vs with
  | nil =>
    obtain rfl := List.length_eq_zero_iff.1 hlen
    rfl
  | cons p params ih =>
    rw [List.all_cons, Bool.and_eq_true, beq_iff_eq] at hplain
    cases vs with
    | nil => cases hlen
    | cons v vs =>
      rw [spread, ih hplain.2 (Nat.succ.inj hlen)]
      simp [hplain.1, Bind.bind, Except.bind]

theorem lift_bind {α β γ : Type} (x : Except Failure α) (g : α → Except Failure β)
    (k : β → Eval γ) :
    (do let a ← Eval.lift x; let b ← Eval.lift (g a); k b : Eval γ) =
      (do let b ← Eval.lift (x.bind g); k b) := by
  cases x <;> rfl

/-- A procedure is called with its inputs distributed over the call. -/
theorem run_invokeMember_procedure {v receiver : Value} (hkind : t.kind = .procedure)
    (himpl : t.impl = .callable v) (hlen : values.length = t.params.length) :
    (rt.invokeMember Γ t receiver values).run.run w = (do
      let args ← Eval.lift (Γ.spread w.heap t.params values)
      rt.call v ((if t.takesReceiver then [receiver] else []) ++ args.positional)
        args.keywords : Eval Value).run.run w := by
  unfold Runtime.invokeMember
  rw [hkind, himpl]
  dsimp only
  by_cases hplain : t.isPlain = true
  · rw [if_pos hplain, spread_of_isPlain hplain hlen]
    rfl
  · rw [if_neg hplain]
    rfl

variable (ht : t.RunsFunction Γ id f lead) (hparams : Param.Declarable f.params)
  (hfirst : f.TakesFirst (t.before lead))

include ht hparams hfirst

/-- Given its inputs, the member enters the function with what comes before them. -/
theorem run_invokeMember_of_runs {receiver : Value} {receivers : List Value}
    (hreceivers : receivers = if t.takesReceiver then [receiver] else [])
    (hlen : values.length = t.params.length) :
    ((Runtime.step Γ rt).invokeMember Γ t receiver values).run.run w =
      (rt.enter Γ f (lead ++ receivers ++ values)).run.run w := by
  obtain ⟨v, himpl, hcall⟩ := @exists_callable_of_runs? Γ rt _ _ _ ht.runs
  obtain ⟨hints, m, hts⟩ := ht.params
  have hsplit : f.params = f.params.take (t.before lead) ++ f.params.drop (t.before lead) :=
    (List.take_append_drop _ _).symm
  have hbefore : (lead ++ receivers).length = (f.params.take (t.before lead)).length := by
    rw [List.length_append, List.length_take_of_le hfirst.1, hreceivers, Target.before]
    split <;> rfl
  have hoptions : (Param.outline f.params).drop (t.before lead) =
      Param.outline (f.params.drop (t.before lead)) := List.map_drop.symm
  rw [hoptions] at hts
  have hbind := @bind_spread Γ w.heap _ values hints m _ _ (hsplit ▸ hparams) hfirst.2 hbefore
    (hts ▸ hlen)
  rw [← hsplit, ← hts] at hbind
  rw [run_invokeMember_procedure ht.kind himpl hlen, ← hreceivers]
  simp only [hcall, Runtime.callDeclared, ht.declared, ← List.append_assoc]
  rw [lift_bind, hbind]
  unfold Runtime.enter
  rw [run_bind_of_ok (run_heap w)]
  cases Γ.received? w.heap f.params (lead ++ receivers ++ values) <;> rfl

/-- The member enters the function with its inputs, unless the receiver is absent. -/
theorem run_invoke_of_runs (hlen : values.length = t.slotCount) :
    ((Runtime.step Γ rt).invoke Γ t values).run.run w =
      (if t.takesReceiver && (values.head?.getD .none).isNone then throw t.nullReceiver
        else rt.enter Γ f (lead ++ values) : Eval Value).run.run w := by
  have hcount : t.slotCount = t.params.length + if t.takesReceiver then 1 else 0 := by
    unfold Target.slotCount
    rw [ht.kind]
    rfl
  unfold Runtime.invoke
  split
  · rfl
  · unfold Runtime.deliver
    by_cases htakes : t.takesReceiver = true
    · rw [if_pos htakes] at hcount ⊢
      cases values with
      | nil => simp [hcount] at hlen
      | cons r values =>
        have hrun := @run_invokeMember_of_runs Γ rt id f lead values t w ht hparams hfirst r [r]
          (if_pos htakes).symm (by simpa [hcount] using hlen)
        rwa [List.append_assoc, List.singleton_append] at hrun
    · rw [if_neg htakes] at hcount ⊢
      have hrun := @run_invokeMember_of_runs Γ rt id f lead values t w ht hparams hfirst .none []
        (if_neg htakes).symm (hlen.trans hcount)
      rwa [List.append_nil] at hrun

end Entering

end CallAdapter
