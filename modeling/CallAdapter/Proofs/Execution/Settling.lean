import CallAdapter.Proofs.Adapter.Slot
import CallAdapter.Proofs.Cache.FirstOutcomes
import CallAdapter.Proofs.Execution.Advancing

/-!
# Deferred values settle once

A deferred value is asked for its value, called, and asked whether it has been made. A run of such
uses leaves a history, in which every event says how the recipe ended when it ran. The history alone
decides every answer (`deferred_settles_once`): the recipe runs until it returns or raises a fault
for the first time, that outcome answers every later use, and the value counts as made from then on.

1. Taking the value of a settled one changes nothing, and taking that of a pending one is one run of
   the recipe (`run_force_bind_of_settled`, `run_force_bind_of_pending`).
2. What a use does with the value that it took may do anything that a program can do. That leaves a
   settled value as it is, since deferred values only advance (`World.Advances.spares`).
3. A deferred value that tracks the past answers the next use as the past says, and then tracks the
   past with that use (`DeferredUse.step`). The statement about histories follows by induction.
-/

namespace CallAdapter

open Program

/-! ## Uses -/

/-- What is asked of a deferred value, and how many calls may nest in it. -/
inductive DeferredUse
  | value (depth : Nat)
  | call (depth : Nat) (args : List Value)
  | isCreated

inductive DeferredAnswer
  | outcome (r : Except Failure Value)
  | flag (b : Bool)

/-- Takes the value, and writes down how the recipe ended if it ran. -/
def forceJournaled (Γ : Program) (rt : Runtime) (addr : Nat) :
    ExceptT Failure (StateM (World × Journal)) Value :=
  Deferred.take (fun s => Eval.deferredAt? s.1 addr) (fun d s => (s.1.setDeferred addr d, s.2))
    fun recipe => journaled (rt.follow Γ recipe)

/-- Calls the value that was taken. -/
def callTaken (rt : Runtime) (args : List Value) (v : Value) : Eval Value :=
  if v.isNone then
    throw (.exception .typeError (some
      "lazy thunk resolved to nothing; build it with throw_on_failure=True to see why"))
  else rt.call v args []

namespace DeferredUse

/-- Makes the use of the deferred value at a place. -/
def run (Γ : Program) (addr : Nat) (w : World) : DeferredUse → DeferredAnswer × World
  | value n =>
    let out := ((Γ.runtimeTo n).force Γ addr).run.run w
    (.outcome out.1, out.2)
  | call n args =>
    let out := ((Γ.runtimeTo (n + 1)).call (.object (.builtin .deferred) addr) args []).run.run w
    (.outcome out.1, out.2)
  | isCreated => (.flag (((Eval.deferredAt? w addr).map Deferred.isCreated).getD false), w)

/-- How the recipe ended when it ran for the use. A call takes the value first. -/
def ran (Γ : Program) (addr : Nat) (w : World) : DeferredUse → Journal
  | value n | call n _ => ((forceJournaled Γ (Γ.runtimeTo n) addr).run.run (w, [])).2.2
  | isCreated => []

end DeferredUse

/-! ## Histories -/

/-- A use that was made, how the recipe ended if it ran, the answer, and the worlds around it. -/
structure DeferredEvent where
  use : DeferredUse
  ran : Journal
  answer : DeferredAnswer
  before : World
  after : World

def DeferredUse.event (Γ : Program) (addr : Nat) (w : World) (use : DeferredUse) : DeferredEvent :=
  ⟨use, use.ran Γ addr w, (use.run Γ addr w).1, w, (use.run Γ addr w).2⟩

/-- The place stays, and so does the deferred value at it. -/
structure World.Spares (w w' : World) (addr : Nat) : Prop where
  size_le : w.heap.instances.size ≤ w'.heap.instances.size
  deferredAt? : Eval.deferredAt? w' addr = Eval.deferredAt? w addr

/-- Uses of the deferred value at a place, one after the other. Between them anything may happen
that leaves it alone. -/
inductive DeferredHistory (Γ : Program) (addr : Nat) : World → List DeferredEvent → Prop
  | nil {w : World} : DeferredHistory Γ addr w []
  | cons {w w' : World} {use : DeferredUse} {events : List DeferredEvent} :
    w.Spares w' addr → DeferredHistory Γ addr (use.run Γ addr w').2 events →
    DeferredHistory Γ addr w (use.event Γ addr w' :: events)

/-- How the recipe ended whenever it ran. -/
def runsIn (past : List DeferredEvent) : Journal := past.flatMap DeferredEvent.ran

/-- How the recipe ended when it returned or raised a fault for the first time. -/
def settledIn (past : List DeferredEvent) : Option Outcome := (runsIn past).findSome? Outcome.of?

/-- The recipe runs from a pending deferred value, which is marked until the recipe has ended. -/
def RunsOnce (Γ : Program) (n addr : Nat) (recipe : Recipe) (w : World) (r : Except Failure Value)
    (w' : World) : Prop :=
  ∃ (d : Deferred) (ended : World), Eval.deferredAt? w addr = some d ∧ d.progress = .pending ∧
    ((Γ.runtimeTo n).follow Γ recipe).run.run (w.setDeferred addr d.start) = (r, ended) ∧
    Eval.deferredAt? ended addr = some d.start ∧ w' = ended.setDeferred addr (d.start.finish r)

namespace DeferredEvent

/-- The event ends as the computation does from a world. -/
structure EndsAs (e : DeferredEvent) (x : Eval Value) (w : World) : Prop where
  answer : e.answer = .outcome (x.run.run w).1
  after : e.after = (x.run.run w).2

theorem EndsAs.congr {e : DeferredEvent} {x y : Eval Value} {w w' : World} (h : e.EndsAs x w)
    (hrun : x.run.run w = y.run.run w') : e.EndsAs y w' :=
  ⟨h.answer.trans (congrArg DeferredAnswer.outcome (congrArg Prod.fst hrun)),
    h.after.trans (congrArg Prod.snd hrun)⟩

/-- A use that takes the value and goes on with it. Once the recipe has returned or raised a fault,
it does not run, and the use goes on with that outcome where it is. Before that the recipe runs
once, and the use goes on with what it ended with. -/
structure AnswersTaking (Γ : Program) (addr : Nat) (recipe : Recipe) (past : List DeferredEvent)
    (e : DeferredEvent) (n : Nat) (next : Value → Eval Value) : Prop where
  settled : ∀ o, settledIn past = some o →
    e.ran = [] ∧ e.EndsAs (Eval.lift o.result >>= next) e.before
  pending : settledIn past = none → ∃ r w, e.ran = [r] ∧
    RunsOnce Γ n addr recipe e.before r w ∧ e.EndsAs (Eval.lift r >>= next) w

/-- The event answers as the past says. -/
def AnswersOf (Γ : Program) (addr : Nat) (recipe : Recipe) (past : List DeferredEvent)
    (e : DeferredEvent) : Prop :=
  match e.use with
  | .value n => e.AnswersTaking Γ addr recipe past n pure
  | .call n args => e.AnswersTaking Γ addr recipe past n (callTaken (Γ.runtimeTo n) args)
  | .isCreated => e.ran = [] ∧ e.answer = .flag (settledIn past).isSome ∧ e.after = e.before

end DeferredEvent

/-- The deferred value stands where the past has brought it: it keeps its recipe and counts the
runs, and it is settled as soon as one of them has returned or raised a fault. -/
structure Deferred.Tracks (recipe : Recipe) (past : List DeferredEvent) (d : Deferred) : Prop where
  recipe : d.recipe = recipe
  outcome : d.outcome = settledIn past
  runs : d.runs = (runsIn past).length
  idle : d.progress ≠ .running

/-- A deferred value that was just made, by a recipe or by a builder for a request. -/
inductive NewDeferred (Γ : Program) (w : World) : Recipe → Nat → World → Prop
  | recipe {recipe : Recipe} {addr : Nat} {w' : World} :
    (Eval.newArtifact (.deferred { recipe := recipe })).run.run w =
      (.ok (.object (.builtin .deferred) addr), w') →
    NewDeferred Γ w recipe addr w'
  | request {builder : Nat} {shape : Descriptor} {member : Option Handle} {p : Particulars}
      {r : Request} {prepared : World} {addr : Nat} {w' : World} :
    (Builder.prepare Γ shape member p).run.run w = (.ok r, prepared) →
    (Builder.createDeferred Γ builder shape member p).run.run w =
      (.ok (.object (.builtin .deferred) addr), w') →
    NewDeferred Γ w (.adapter builder r) addr w'

/-! ## Taking the value and going on -/

section Taking

variable {Γ : Program} {rt : Runtime} {w : World} {addr : Nat} {d : Deferred}
  {next : Value → Eval Value}

theorem run_forceJournaled_of_settled {o : Outcome} {j : Journal}
    (hd : Eval.deferredAt? w addr = some d) (hp : d.progress = .settled o) :
    (forceJournaled Γ rt addr).run.run (w, j) = (o.result, w, j) := by
  simp only [forceJournaled, Deferred.take, ExceptT.run, StateT.run, hd, hp]

theorem run_forceJournaled_of_pending {j : Journal} (hd : Eval.deferredAt? w addr = some d)
    (hp : d.progress = .pending) :
    (forceJournaled Γ rt addr).run.run (w, j) =
      let out := (rt.follow Γ d.recipe).run.run (w.setDeferred addr d.start)
      (out.1, out.2.setDeferred addr (d.start.finish out.1), j ++ [out.1]) := by
  simp only [forceJournaled, Deferred.take, journaled, ExceptT.run, StateT.run, hd, hp]

/-- The journal changes nothing: without it, the value is taken in the same way. -/
theorem run_forceJournaled (j : Journal) :
    let out := (forceJournaled Γ rt addr).run.run (w, j)
    (out.1, out.2.1) = (rt.force Γ addr).run.run w := by
  cases hd : Eval.deferredAt? w addr with
  | none =>
    rw [run_force_of_none hd]
    simp only [forceJournaled, Deferred.take, ExceptT.run, StateT.run, hd]
  | some d =>
    cases hp : d.progress with
    | settled o => rw [run_force_of_settled hd hp, run_forceJournaled_of_settled hd hp]
    | pending => rw [run_force_of_pending hd hp, run_forceJournaled_of_pending hd hp]
    | running =>
      rw [run_force_of_running hd hp]
      simp only [forceJournaled, Deferred.take, ExceptT.run, StateT.run, hd, hp]

theorem run_force_bind_of_settled {o : Outcome} (hd : Eval.deferredAt? w addr = some d)
    (hp : d.progress = .settled o) :
    (rt.force Γ addr >>= next).run.run w = (Eval.lift o.result >>= next).run.run w := by
  refine run_bind_congr ?_
  rw [run_force_of_settled hd hp, run_lift]

theorem run_force_bind_of_pending (hd : Eval.deferredAt? w addr = some d)
    (hp : d.progress = .pending) {r : Except Failure Value} {ended : World}
    (hrun : (rt.follow Γ d.recipe).run.run (w.setDeferred addr d.start) = (r, ended)) :
    (rt.force Γ addr >>= next).run.run w =
      (Eval.lift r >>= next).run.run (ended.setDeferred addr (d.start.finish r)) := by
  have hforce : (rt.force Γ addr).run.run w = _ := run_force_of_pending hd hp
  rw [hrun] at hforce
  cases r with
  | error e => rw [run_bind_of_error hforce, run_bind_of_error (run_lift _ _)]
  | ok v => rw [run_bind_of_ok hforce, run_bind_of_ok (run_lift _ _)]

/-- A call of a deferred value takes the value and calls it. -/
theorem run_call_deferred (hd : Eval.deferredAt? w addr = some d) (n : Nat) (args : List Value) :
    ((Γ.runtimeTo (n + 1)).call (.object (.builtin .deferred) addr) args []).run.run w =
      ((Γ.runtimeTo n).force Γ addr >>= callTaken (Γ.runtimeTo n) args).run.run w := by
  have hart : Eval.artifactAt? w addr = some (.deferred d) := by
    unfold Eval.deferredAt? at hd
    split at hd
    · next e he => rw [he, Option.some.inj hd]
    · cases hd
  have hget : (MonadState.get : Eval World).run.run w = (.ok w, w) := rfl
  rw [runtimeTo_succ]
  unfold Runtime.step Runtime.callValue
  dsimp only
  rw [run_bind_of_ok hget, hart]
  rfl

/-- Whatever is done with the value that was taken spares a settled deferred value. -/
theorem advancing_callTaken (hrt : rt.OnlyAdvances) (args : List Value) (v : Value) :
    Advancing (callTaken rt args v) := by
  unfold callTaken
  split
  · exact .throw _
  · exact hrt.call _ _ _

end Taking

/-! ## Settled deferred values stay -/

section Stays

variable {w w' : World} {addr : Nat} {d : Deferred}

/-- What lets deferred values advance spares a settled one. -/
theorem World.Advances.spares (h : w.Advances w') {o : Outcome}
    (haddr : addr < w.heap.instances.size) (hd : Eval.deferredAt? w addr = some d)
    (hp : d.progress = .settled o) : w.Spares w' addr := by
  refine ⟨h.size_le, (h.deferredAt? haddr hd ?_).trans hd.symm⟩
  rw [hp]
  exact Progress.noConfusion

/-- After one run of the recipe, going on leaves the deferred value as the run left it: settled, or
pending where the run has failed and nothing goes on. -/
theorem spares_of_finish {next : Value → Eval Value} (hnext : ∀ v, Advancing (next v))
    {r : Except Failure Value} (haddr : addr < w.heap.instances.size)
    (hd : Eval.deferredAt? w addr = some (d.finish r)) :
    w.Spares ((Eval.lift r >>= next).run.run w).2 addr := by
  cases ho : Outcome.of? r with
  | some o =>
    have hp : (d.finish r).progress = .settled o :=
      Deferred.outcome_eq_some_iff.1 ((Deferred.outcome_finish d r).trans ho)
    exact ((Advancing.lift r).bind hnext w).spares haddr hd hp
  | none =>
    cases r with
    | ok v => cases ho
    | error e =>
      rw [run_bind_of_error (run_lift _ _)]
      exact ⟨Nat.le_refl _, rfl⟩

end Stays

/-! ## One use -/

section Step

variable {Γ : Program} {w w' : World} {addr : Nat} {recipe : Recipe} {past : List DeferredEvent}
  {d : Deferred} {e : DeferredEvent}

theorem runsIn_concat (past : List DeferredEvent) (e : DeferredEvent) :
    runsIn (past ++ [e]) = runsIn past ++ e.ran := by
  unfold runsIn
  rw [List.flatMap_append, List.flatMap_singleton]

theorem settledIn_concat (past : List DeferredEvent) (e : DeferredEvent) :
    settledIn (past ++ [e]) = (settledIn past).or (e.ran.findSome? Outcome.of?) := by
  unfold settledIn
  rw [runsIn_concat, List.findSome?_append]

/-- A use without a run leaves the deferred value where it was. -/
theorem Deferred.Tracks.of_ran_eq_nil (h : d.Tracks recipe past) (hran : e.ran = []) :
    d.Tracks recipe (past ++ [e]) := by
  refine ⟨h.recipe, ?_, ?_, h.idle⟩
  · rw [settledIn_concat, hran, h.outcome]
    exact (Option.or_none).symm
  · rw [runsIn_concat, hran, h.runs, List.append_nil]

/-- A use with one run of the recipe, from a pending deferred value. -/
theorem Deferred.Tracks.finish (h : d.Tracks recipe past) (hp : d.progress = .pending)
    {r : Except Failure Value} (hran : e.ran = [r]) :
    (d.start.finish r).Tracks recipe (past ++ [e]) := by
  have hnone : settledIn past = none := by
    rw [← h.outcome, Deferred.outcome, hp]
  refine ⟨h.recipe, ?_, ?_, progress_finish_ne_running _ _⟩
  · rw [outcome_finish, settledIn_concat, hran, hnone, List.findSome?_singleton]
    rfl
  · rw [runsIn_concat, hran, List.length_append, ← h.runs]
    rfl

/-- The deferred value at a place of the world tracks the past. -/
structure World.TracksDeferred (w : World) (addr : Nat) (recipe : Recipe)
    (past : List DeferredEvent) : Prop where
  lt_size : addr < w.heap.instances.size
  deferred : ∃ d, Eval.deferredAt? w addr = some d ∧ d.Tracks recipe past

theorem World.TracksDeferred.spared (h : w.TracksDeferred addr recipe past)
    (hspares : w.Spares w' addr) : w'.TracksDeferred addr recipe past := by
  obtain ⟨d, hd, htracks⟩ := h.deferred
  exact ⟨Nat.lt_of_lt_of_le h.lt_size hspares.size_le, d, hspares.deferredAt?.trans hd, htracks⟩

/-- A use that takes the value and goes on with it answers as the past says, and the deferred value
tracks the past with it. -/
theorem taking_step {n : Nat} {next : Value → Eval Value} (hnext : ∀ v, Advancing (next v))
    (hw : w.TracksDeferred addr recipe past) (hbefore : e.before = w)
    (hran : e.ran = ((forceJournaled Γ (Γ.runtimeTo n) addr).run.run (w, [])).2.2)
    (hends : e.EndsAs ((Γ.runtimeTo n).force Γ addr >>= next) w) :
    e.AnswersTaking Γ addr recipe past n next ∧
      e.after.TracksDeferred addr recipe (past ++ [e]) := by
  subst hbefore
  obtain ⟨haddr, d, hd, htracks⟩ := hw
  -- once it has settled no recipe runs; while it is pending, the recipe runs and settles it
  cases hsettled : d.outcome with
  | some o =>
    have hp := Deferred.outcome_eq_some_iff.1 hsettled
    have hpast : settledIn past = some o := htracks.outcome.symm.trans hsettled
    rw [run_forceJournaled_of_settled hd hp] at hran
    have hgoes : e.EndsAs (Eval.lift o.result >>= next) e.before := by
      have hrun : ((Γ.runtimeTo n).force Γ addr >>= next).run.run e.before = _ :=
        run_force_bind_of_settled hd hp
      exact hends.congr hrun
    refine ⟨⟨fun o' ho' => ?_, fun hnone => ?_⟩, ?_⟩
    · obtain rfl := Option.some.inj (hpast.symm.trans ho')
      exact ⟨hran, hgoes⟩
    · rw [hpast] at hnone
      cases hnone
    · rw [hgoes.after]
      have hspares := ((Advancing.lift o.result).bind hnext e.before).spares haddr hd hp
      exact World.TracksDeferred.spared ⟨haddr, d, hd, htracks.of_ran_eq_nil hran⟩ hspares
  | none =>
    have hp := Deferred.progress_of_outcome_eq_none hsettled htracks.idle
    have hpast : settledIn past = none := htracks.outcome.symm.trans hsettled
    rw [run_forceJournaled_of_pending hd hp] at hran
    cases hrun : ((Γ.runtimeTo n).follow Γ d.recipe).run.run
        (e.before.setDeferred addr d.start) with
    | mk r ended =>
      rw [hrun] at hran
      have hadvances := Runtime.advancing_follow (Γ := Γ) (onlyAdvances_runtimeTo Γ n) d.recipe
        (e.before.setDeferred addr d.start)
      rw [hrun] at hadvances
      -- the recipe has not touched the deferred value, which was marked
      have hmarked : Eval.deferredAt? ended addr = some d.start :=
        hadvances.deferredAt? haddr (deferredAt?_setDeferred_self _ _ _) Progress.noConfusion
      have hgoes : e.EndsAs (Eval.lift r >>= next) (ended.setDeferred addr (d.start.finish r)) := by
        have hforce : ((Γ.runtimeTo n).force Γ addr >>= next).run.run e.before = _ :=
          run_force_bind_of_pending hd hp hrun
        exact hends.congr hforce
      refine ⟨⟨fun o ho => ?_, fun _ => ⟨r, _, hran, ?_, hgoes⟩⟩, ?_⟩
      · rw [hpast] at ho
        cases ho
      · rw [htracks.recipe] at hrun
        exact ⟨d, ended, hd, hp, hrun, hmarked, rfl⟩
      · rw [hgoes.after]
        have haddr' : addr < ended.heap.instances.size :=
          Nat.lt_of_lt_of_le haddr hadvances.size_le
        have hset := deferredAt?_setDeferred_self ended addr (d.start.finish r)
        have hspares := spares_of_finish hnext (w := ended.setDeferred addr (d.start.finish r))
          haddr' hset
        have hfinished : (ended.setDeferred addr (d.start.finish r)).TracksDeferred addr recipe
            (past ++ [e]) := ⟨haddr', _, hset, htracks.finish hp hran⟩
        exact hfinished.spared hspares

/-- A deferred value that tracks the past answers the use as the past says, and tracks the past with
it. -/
theorem DeferredUse.step (use : DeferredUse) (hw : w.TracksDeferred addr recipe past) :
    (use.event Γ addr w).AnswersOf Γ addr recipe past ∧
      (use.run Γ addr w).2.TracksDeferred addr recipe (past ++ [use.event Γ addr w]) := by
  obtain ⟨d, hd, htracks⟩ := hw.deferred
  cases use with
  | value n =>
    have hends : ((value n).event Γ addr w).EndsAs ((Γ.runtimeTo n).force Γ addr >>= pure) w := by
      rw [bind_pure]
      exact ⟨rfl, rfl⟩
    exact taking_step (fun v => .pure v) hw rfl rfl hends
  | call n args =>
    have hcall := run_call_deferred (Γ := Γ) hd n args
    have hends : ((call n args).event Γ addr w).EndsAs
        ((Γ.runtimeTo (n + 1)).call (.object (.builtin .deferred) addr) args []) w := ⟨rfl, rfl⟩
    exact taking_step (advancing_callTaken (onlyAdvances_runtimeTo Γ n) args) hw rfl rfl
      (hends.congr hcall)
  | isCreated =>
    refine ⟨⟨rfl, ?_, rfl⟩, hw.lt_size, d, hd, htracks.of_ran_eq_nil rfl⟩
    show DeferredAnswer.flag (((Eval.deferredAt? w addr).map Deferred.isCreated).getD false) = _
    rw [hd, ← htracks.outcome]
    rfl

end Step

/-! ## Runs -/

/-- A deferred value that was just placed has no past. -/
theorem tracksDeferred_place (w : World) (recipe : Recipe) :
    (w.place (.deferred ⟨recipe, .pending, 0⟩)).TracksDeferred w.heap.instances.size recipe [] := by
  refine ⟨?_, ⟨recipe, .pending, 0⟩, ?_, rfl, rfl, rfl, Progress.noConfusion⟩
  · rw [size_place]
    exact Nat.lt_succ_self _
  · unfold Eval.deferredAt?
    rw [artifactAt?_place, if_pos rfl]

theorem NewDeferred.tracks {Γ : Program} {w w' : World} {recipe : Recipe} {addr : Nat}
    (h : NewDeferred Γ w recipe addr w') : w'.TracksDeferred addr recipe [] := by
  cases h with
  | recipe hrun =>
    rw [run_newArtifact] at hrun
    cases hrun
    exact tracksDeferred_place w recipe
  | request hprepare hcreate =>
    unfold Builder.createDeferred at hcreate
    rw [run_bind_of_ok hprepare, run_newArtifact] at hcreate
    cases hcreate
    exact tracksDeferred_place _ _

theorem answersOf_of_tracksDeferred {Γ : Program} {addr : Nat} {recipe : Recipe} {w : World}
    {events past before after : List DeferredEvent} {e : DeferredEvent}
    (hw : w.TracksDeferred addr recipe past) (hhistory : DeferredHistory Γ addr w events)
    (hevents : events = before ++ e :: after) :
    e.AnswersOf Γ addr recipe (past ++ before) ∧
      e.after.TracksDeferred addr recipe (past ++ before ++ [e]) := by
  induction hhistory generalizing past before with
  | nil => simp at hevents
  | @cons w w' use events hspares _ ih =>
    obtain ⟨hanswers, hnext⟩ := use.step (Γ := Γ) (hw.spared hspares)
    cases before with
    | nil =>
      obtain ⟨rfl, -⟩ := List.cons.inj hevents
      rw [List.append_nil]
      exact ⟨hanswers, hnext⟩
    | cons first before =>
      obtain ⟨rfl, hrest⟩ := List.cons.inj hevents
      have h := ih hnext hrest
      rwa [List.append_assoc past] at h

/-- Every use of a new deferred value answers as the uses before it say, and leaves it where they
have brought it. -/
theorem deferred_settles_once {Γ : Program} {w₀ w : World} {recipe : Recipe} {addr : Nat}
    (hnew : NewDeferred Γ w₀ recipe addr w) {before after : List DeferredEvent} {e : DeferredEvent}
    (hhistory : DeferredHistory Γ addr w (before ++ e :: after)) :
    e.AnswersOf Γ addr recipe before ∧
      ∃ d, Eval.deferredAt? e.after addr = some d ∧ d.Tracks recipe (before ++ [e]) := by
  obtain ⟨hanswers, -, htracks⟩ := answersOf_of_tracksDeferred hnew.tracks hhistory rfl
  exact ⟨hanswers, htracks⟩

/-- A recipe for a new object. -/
def objectRecipe : Recipe := .expression (.call (.value (.type (.cls (.builtin .object)))) [])

/-- A world with a pending deferred object. -/
def objectWorld : World := World.empty.place (.deferred { recipe := objectRecipe })

/-- The recipe fails where no call may nest, makes an object in the second read, and does not run
for the third one, which gives the same object. -/
theorem deferred_settles_once_retried :
    let first := (DeferredUse.value 0).event .empty 0 objectWorld
    let second := (DeferredUse.value 1).event .empty 0 first.after
    let third := (DeferredUse.value 0).event .empty 0 second.after
    first.ran = [.error (.exception .recursion none)] ∧
      settledIn [first, second] = some (.value (.object (.builtin .object) 1)) ∧
      third.AnswersOf .empty 0 objectRecipe [first, second] ∧
      ∃ d, Eval.deferredAt? third.after 0 = some d ∧
        d.Tracks objectRecipe [first, second, third] := by
  intro first second third
  have hspares : ∀ w : World, w.Spares w 0 := fun w => ⟨Nat.le_refl _, rfl⟩
  have hnew : NewDeferred .empty World.empty objectRecipe 0 objectWorld :=
    .recipe (run_newArtifact _)
  have hhistory : DeferredHistory .empty 0 objectWorld ([first, second] ++ third :: []) :=
    .cons (hspares _) (.cons (hspares _) (.cons (hspares _) .nil))
  exact ⟨rfl, rfl, deferred_settles_once hnew hhistory⟩

end CallAdapter
