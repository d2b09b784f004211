import CallAdapter.Proofs.Builder.Answer
import CallAdapter.Report.Member
import Mathlib.Data.List.DropRight

/-!
# Caches as maps of first outcomes

A cache is asked for keys, for its size, for what it contains and for its counters; it may be
cleared, and its counters set back. A run of such calls leaves a history, in which every event says
which builds ran meanwhile and how they ended. All answers follow from the history alone
(`answers_as_first_outcomes`): the outcome of a key is the one of the first build for it since the
last clear that returned or raised a fault, a build runs exactly when there is no such outcome, and
the counters count requests and builds since they were last set back.

A cache that tracks the past answers the next call as the past says, and then tracks the past with
that call (`CacheCall.step`); the statement about whole runs is the induction over them.
-/

namespace CallAdapter

open BindingCache

/-- What is asked of a cache. -/
inductive CacheCall
  | request (k : CacheKey) (build : Eval Value)
  | clear
  | stats (reset : Bool)
  | size
  | contains (k : CacheKey)

inductive CacheAnswer
  | outcome (r : Except Failure Value)
  | done
  | stats (r : Report)
  | size (n : Nat)
  | flag (b : Bool)

/-- How builds ended, the latest last. -/
abbrev Journal := List (Except Failure Value)

/-- A build that also writes down how it ended. -/
def journaled (build : Eval Value) : ExceptT Failure (StateM (World × Journal)) Value := fun s =>
  let out := build.run.run s.1
  (out.1, out.2, s.2 ++ [out.1])

/-- A request to one of the caches of a world, with the journal of its build. -/
def requestJournaled (id : Nat) (k : CacheKey) (build : Eval Value) :
    ExceptT Failure (StateM (World × Journal)) Value :=
  BindingCache.request (fun s => Eval.cacheAt s.1 id) (fun c s => (s.1.setCache id c, s.2)) k
    (journaled build)

section Journaled

variable {id : Nat} {k : CacheKey} {w : World} {build : Eval Value} {j : Journal}

theorem run_requestJournaled_of_hit {o : Outcome} (h : (Eval.cacheAt w id).find? k = some o) :
    (requestJournaled id k build).run.run (w, j) =
      (o.result, w.setCache id (Eval.cacheAt w id).countHit, j) := by
  simp only [requestJournaled, BindingCache.request, ExceptT.run, StateT.run, h]

theorem run_requestJournaled_of_miss (h : (Eval.cacheAt w id).find? k = none) :
    (requestJournaled id k build).run.run (w, j) =
      let out := build.run.run (w.setCache id (Eval.cacheAt w id).countBuild)
      (out.1, out.2.setCache id ((Eval.cacheAt out.2 id).finish k out.1), j ++ [out.1]) := by
  simp only [requestJournaled, BindingCache.request, journaled, ExceptT.run, StateT.run, h]

/-- The journal changes nothing: without it, this is the request to the cache of the world. -/
theorem run_requestJournaled :
    let out := (requestJournaled id k build).run.run (w, j)
    (out.1, out.2.1) = (Eval.cached id k build).run.run w := by
  cases h : (Eval.cacheAt w id).find? k with
  | none => rw [run_cached_of_miss h, run_requestJournaled_of_miss h]
  | some o => rw [run_cached_of_hit h, run_requestJournaled_of_hit h]

end Journaled

namespace CacheCall

/-- Makes the call. -/
def run (id : Nat) (w : World) : CacheCall → CacheAnswer × World
  | request k build =>
    let out := (Eval.cached id k build).run.run w
    (.outcome out.1, out.2)
  | clear => (.done, w.setCache id (Eval.cacheAt w id).clear)
  | stats reset =>
    (.stats (Eval.cacheAt w id).stats,
      if reset then w.setCache id (Eval.cacheAt w id).resetCounters else w)
  | size => (.size (Eval.cacheAt w id).size, w)
  | contains k => (.flag ((Eval.cacheAt w id).contains k), w)

/-- How the builds ended that ran during the call. -/
def ran (id : Nat) (w : World) : CacheCall → Journal
  | request k build => ((requestJournaled id k build).run.run (w, [])).2.2
  | _ => []

/-- The build of a request does not use the cache itself: it leaves it as it was. -/
def SparesCache (id : Nat) : CacheCall → Prop
  | request _ build => ∀ w : World, (build.run.run w).2.caches[id]? = w.caches[id]?
  | _ => True

end CacheCall

/-! ## Histories -/

/-- A call that was made, how the builds ended that ran meanwhile, and the answer. -/
structure CacheEvent where
  call : CacheCall
  ran : Journal
  answer : CacheAnswer

namespace CacheEvent

/-- The builds that ran, with the key that each was for. -/
def built (e : CacheEvent) : List (CacheKey × Except Failure Value) :=
  match e.call with
  | .request k _ => e.ran.map (k, ·)
  | _ => []

def isRequest (e : CacheEvent) : Bool :=
  match e.call with
  | .request _ _ => true
  | _ => false

/-- Whether the cache drops its outcomes. -/
def clears (e : CacheEvent) : Bool :=
  match e.call with
  | .clear => true
  | _ => false

/-- Whether the cache starts to count anew. -/
def resets (e : CacheEvent) : Bool :=
  match e.call with
  | .clear => true
  | .stats reset => reset
  | _ => false

end CacheEvent

/-- The event of a call. -/
def CacheCall.event (id : Nat) (w : World) (c : CacheCall) : CacheEvent :=
  ⟨c, c.ran id w, (c.run id w).1⟩

/-- Calls one after the other. -/
def cacheHistory (id : Nat) : World → List CacheCall → List CacheEvent
  | _, [] => []
  | w, c :: calls => c.event id w :: cacheHistory id (c.run id w).2 calls

/-- What happened after the cache was last cleared. -/
def sinceClear (past : List CacheEvent) : List CacheEvent := past.rtakeWhile fun e => !e.clears

/-- What happened after the counters were last set back. -/
def sinceReset (past : List CacheEvent) : List CacheEvent := past.rtakeWhile fun e => !e.resets

/-- The builds that ran, with the key that each was for. -/
def buildsIn (past : List CacheEvent) : List (CacheKey × Except Failure Value) :=
  past.flatMap CacheEvent.built

/-- The outcome of the first build for the key since the last clear that returned or raised a
fault. -/
def firstOutcome (past : List CacheEvent) (k : CacheKey) : Option Outcome :=
  (buildsIn (sinceClear past)).findSome? fun b => if b.1.same k then Outcome.of? b.2 else none

def raisedFault : Except Failure Value → Bool
  | .error (.fault _) => true
  | _ => false

/-- The keys, each once, for which an outcome is kept. -/
structure KeptKeys (past : List CacheEvent) (keys : List CacheKey) : Prop where
  distinct : keys.Pairwise fun k l => k.same l = false
  kept : ∀ l, (firstOutcome past l).isSome = keys.any (·.same l)

/-- The counters tell what happened since they were last set back. -/
structure BindingCache.Counts (c : BindingCache) (past : List CacheEvent) : Prop where
  requests : c.hits + c.misses = (sinceReset past).countP CacheEvent.isRequest
  builds : c.builds = (buildsIn (sinceReset past)).length
  misses : c.builds = c.misses
  failures : c.failures = (buildsIn (sinceReset past)).countP fun b => raisedFault b.2

/-- A request for a key. Where an outcome is kept it answers, and no build runs. Else the build
runs once and answers, and what can be kept of it is the first outcome of the key from then on:
another exception leaves the outcomes of all keys as they were. -/
structure CacheEvent.AnswersRequest (past : List CacheEvent) (e : CacheEvent) (k : CacheKey) :
    Prop where
  kept : ∀ o, firstOutcome past k = some o → e.ran = [] ∧ e.answer = .outcome o.result
  built : firstOutcome past k = none → ∃ r, e.ran = [r] ∧ e.answer = .outcome r ∧
    ∀ l, firstOutcome (past ++ [e]) l =
      (firstOutcome past l).or (if k.same l then Outcome.of? r else none)

/-- The event answers as the past says. -/
def CacheEvent.AnswersOf (past : List CacheEvent) (e : CacheEvent) : Prop :=
  match e.call with
  | .request k _ => e.AnswersRequest past k
  | .clear => e.ran = [] ∧ e.answer = .done
  | .stats _ => e.ran = [] ∧ ∃ (c : BindingCache) (keys : List CacheKey),
      e.answer = .stats c.stats ∧ c.Counts past ∧ KeptKeys past keys ∧ c.size = keys.length
  | .size => e.ran = [] ∧ ∃ keys, KeptKeys past keys ∧ e.answer = .size keys.length
  | .contains k => e.ran = [] ∧ e.answer = .flag (firstOutcome past k).isSome

/-! ## The events since a clear or a reset -/

section Since

variable {past : List CacheEvent} {e : CacheEvent}

theorem sinceClear_concat (h : e.clears = false) :
    sinceClear (past ++ [e]) = sinceClear past ++ [e] :=
  List.rtakeWhile_concat_pos _ _ _ (by rw [h]; rfl)

theorem sinceClear_concat_of_clears (h : e.clears = true) : sinceClear (past ++ [e]) = [] :=
  List.rtakeWhile_concat_neg _ _ _ (by rw [h]; decide)

theorem sinceReset_concat (h : e.resets = false) :
    sinceReset (past ++ [e]) = sinceReset past ++ [e] :=
  List.rtakeWhile_concat_pos _ _ _ (by rw [h]; rfl)

theorem sinceReset_concat_of_resets (h : e.resets = true) : sinceReset (past ++ [e]) = [] :=
  List.rtakeWhile_concat_neg _ _ _ (by rw [h]; decide)

theorem buildsIn_concat : buildsIn (past ++ [e]) = buildsIn past ++ e.built := by
  unfold buildsIn
  rw [List.flatMap_append, List.flatMap_singleton]

end Since

/-! ## What a cache tracks -/

section Tracking

variable {past : List CacheEvent} {e : CacheEvent} {k : CacheKey} {r : Except Failure Value}
  {o : Outcome} {c : BindingCache}

/-- The outcomes that are kept of builds. -/
def keptOf (builds : List (CacheKey × Except Failure Value)) : List (CacheKey × Outcome) :=
  builds.filterMap fun b => (Outcome.of? b.2).map (b.1, ·)

theorem keptOf_append (bs bs' : List (CacheKey × Except Failure Value)) :
    keptOf (bs ++ bs') = keptOf bs ++ keptOf bs' := List.filterMap_append

theorem find?_keptOf (bs : List (CacheKey × Except Failure Value)) (k : CacheKey) :
    ((keptOf bs).find? fun e => e.1.same k).map (·.2) =
      bs.findSome? fun b => if b.1.same k then Outcome.of? b.2 else none := by
  induction bs with
  | nil => rfl
  | cons b bs ih =>
    rw [List.findSome?_cons, ← ih]
    unfold keptOf
    rw [List.filterMap_cons]
    cases Outcome.of? b.2 with
    | none => simp
    | some o =>
      dsimp only [Option.map_some]
      rw [List.find?_cons]
      cases b.1.same k <;> rfl

/-- A cache that holds the first outcomes of the past and counts its requests and builds. -/
structure CacheTracks (past : List CacheEvent) (c : BindingCache) : Prop extends c.Counts past where
  outcomes : c.outcomes = keptOf (buildsIn (sinceClear past))
  distinct : c.outcomes.Pairwise fun a b => a.1.same b.1 = false

theorem tracks_empty : CacheTracks [] .empty := ⟨⟨rfl, rfl, rfl, rfl⟩, rfl, .nil⟩

theorem CacheTracks.find? (h : CacheTracks past c) (k : CacheKey) :
    c.find? k = firstOutcome past k := by
  unfold BindingCache.find?
  rw [h.outcomes]
  exact find?_keptOf _ k

theorem CacheTracks.exists_keptKeys (h : CacheTracks past c) :
    ∃ keys, KeptKeys past keys ∧ c.size = keys.length := by
  refine ⟨c.outcomes.map (·.1), ⟨List.pairwise_map.2 h.distinct, fun l => ?_⟩, ?_⟩
  · rw [← h.find?, BindingCache.find?, Option.isSome_map, List.isSome_find?, List.any_map]
    rfl
  · exact (List.length_map _).symm

/-- What a finished build adds to a cache that keeps nothing for its key. -/
theorem finish_of_miss (h : c.find? k = none) (r : Except Failure Value) :
    c.finish k r = { c with
      outcomes := c.outcomes ++ keptOf [(k, r)]
      failures := c.failures + [(k, r)].countP fun b => raisedFault b.2 } := by
  have hcontains : ∀ n, { c with failures := n }.contains k = false := by
    intro n
    show (c.find? k).isSome = false
    rw [h]
    rfl
  match r with
  | .error (.exception kind text) =>
    show c = { c with outcomes := c.outcomes ++ [], failures := c.failures + 0 }
    rw [List.append_nil]
    rfl
  | .ok v =>
    show c.insert k (.value v) = _
    unfold BindingCache.insert
    rw [hcontains c.failures]
    rfl
  | .error (.fault f) =>
    show BindingCache.insert { c with failures := c.failures + 1 } k (.fault f) = _
    unfold BindingCache.insert
    rw [hcontains]
    rfl

/-- What is found after a build has ended. -/
theorem find?_finish (h : c.find? k = none) (l : CacheKey) :
    (c.countBuild.finish k r).find? l =
      (c.find? l).or (if k.same l then Outcome.of? r else none) := by
  have hmiss : c.countBuild.find? k = none := h
  rw [finish_of_miss hmiss]
  unfold BindingCache.find?
  show ((c.outcomes ++ keptOf [(k, r)]).find? fun e => e.1.same l).map (·.2) = _
  rw [List.find?_append, Option.map_or, find?_keptOf, List.findSome?_singleton]

/-- Keys of which nothing is kept differ from all that are kept. -/
theorem same_eq_false_of_find? (h : c.find? k = none) {a : CacheKey × Outcome}
    (ha : a ∈ c.outcomes) : a.1.same k = false := by
  have hnone := List.find?_eq_none.1 (Option.map_eq_none_iff.1 h) a ha
  exact Bool.eq_false_iff.2 hnone

/-- A build that ends after the past makes its outcome the first one of its key, if it is kept. -/
theorem CacheTracks.countBuild (h : CacheTracks past c) (hmiss : c.find? k = none)
    (build : Eval Value) (r : Except Failure Value) (answer : CacheAnswer) :
    CacheTracks (past ++ [⟨.request k build, [r], answer⟩]) (c.countBuild.finish k r) := by
  have hmiss' : c.countBuild.find? k = none := hmiss
  rw [finish_of_miss hmiss']
  refine ⟨⟨?_, ?_, ?_, ?_⟩, ?_, ?_⟩
  · rw [sinceReset_concat rfl, List.countP_append, ← h.requests]
    show c.hits + (c.misses + 1) = c.hits + c.misses + 1
    omega
  · rw [sinceReset_concat rfl, buildsIn_concat, List.length_append, ← h.builds]
    rfl
  · show c.builds + 1 = c.misses + 1
    rw [h.misses]
  · rw [sinceReset_concat rfl, buildsIn_concat, List.countP_append, ← h.failures]
    rfl
  · rw [sinceClear_concat rfl, buildsIn_concat, keptOf_append, ← h.outcomes]
    rfl
  · refine List.pairwise_append.2 ⟨h.distinct, ?_, fun a ha b hb => ?_⟩
    · show (keptOf [(k, r)]).Pairwise _
      unfold keptOf
      cases hr : Outcome.of? r with
      | none => simp [hr]
      | some o => simp [hr]
    · obtain ⟨b', hb', hb⟩ := List.mem_filterMap.1 hb
      obtain rfl := List.mem_singleton.1 hb'
      obtain ⟨o, -, rfl⟩ := Option.map_eq_some_iff.1 hb
      exact same_eq_false_of_find? hmiss ha

theorem CacheTracks.countHit (h : CacheTracks past c) (build : Eval Value) (answer : CacheAnswer) :
    CacheTracks (past ++ [⟨.request k build, [], answer⟩]) c.countHit := by
  refine ⟨⟨?_, ?_, h.misses, ?_⟩, ?_, h.distinct⟩
  · rw [sinceReset_concat rfl, List.countP_append, ← h.requests]
    show c.hits + 1 + c.misses = c.hits + c.misses + 1
    omega
  · rw [sinceReset_concat rfl, buildsIn_concat]
    exact h.builds.trans (congrArg List.length (List.append_nil _).symm)
  · rw [sinceReset_concat rfl, buildsIn_concat]
    exact h.failures.trans (congrArg _ (List.append_nil _).symm)
  · rw [sinceClear_concat rfl, buildsIn_concat]
    exact h.outcomes.trans (congrArg keptOf (List.append_nil _).symm)

/-- An event that asks for no key and changes nothing adds nothing. -/
theorem CacheTracks.idle (h : CacheTracks past c) (hbuilt : e.built = [])
    (hrequest : e.isRequest = false) (hclears : e.clears = false) (hresets : e.resets = false) :
    CacheTracks (past ++ [e]) c := by
  have hbuilds : ∀ events, buildsIn (events ++ [e]) = buildsIn events := by
    intro events
    rw [buildsIn_concat, hbuilt, List.append_nil]
  refine ⟨⟨?_, ?_, h.misses, ?_⟩, ?_, h.distinct⟩
  · rw [sinceReset_concat hresets, List.countP_append, h.requests, List.countP_singleton, hrequest]
    rfl
  · rw [sinceReset_concat hresets, hbuilds]
    exact h.builds
  · rw [sinceReset_concat hresets, hbuilds]
    exact h.failures
  · rw [sinceClear_concat hclears, hbuilds]
    exact h.outcomes

/-- Counters that are set back have counted nothing since. -/
theorem counts_resetCounters (hresets : e.resets = true) (c : BindingCache) :
    c.resetCounters.Counts (past ++ [e]) := by
  have hsince : sinceReset (past ++ [e]) = [] := sinceReset_concat_of_resets hresets
  refine ⟨?_, ?_, rfl, ?_⟩
  · rw [hsince]
    rfl
  · rw [hsince]
    rfl
  · rw [hsince]
    rfl

theorem CacheTracks.resetCounters (h : CacheTracks past c) (hbuilt : e.built = [])
    (hclears : e.clears = false) (hresets : e.resets = true) :
    CacheTracks (past ++ [e]) c.resetCounters := by
  refine ⟨counts_resetCounters hresets c, ?_, h.distinct⟩
  rw [sinceClear_concat hclears, buildsIn_concat, hbuilt, List.append_nil]
  exact h.outcomes

theorem tracks_clear (hclears : e.clears = true) (hresets : e.resets = true) :
    CacheTracks (past ++ [e]) .empty := by
  refine ⟨counts_resetCounters hresets .empty, ?_, .nil⟩
  rw [sinceClear_concat_of_clears hclears]
  rfl

end Tracking

/-! ## One call -/

section Step

variable {id : Nat} {w : World} {c : BindingCache} {k : CacheKey} {past : List CacheEvent}

/-- The cache of the world tracks the past. -/
def World.TracksCache (w : World) (id : Nat) (past : List CacheEvent) : Prop :=
  ∃ c, w.caches[id]? = some c ∧ CacheTracks past c

theorem cacheAt_of_getElem? (h : w.caches[id]? = some c) : Eval.cacheAt w id = c := by
  unfold Eval.cacheAt
  rw [h]
  rfl

theorem getElem?_setCache (h : w.caches[id]? = some c) (d : BindingCache) :
    (w.setCache id d).caches[id]? = some d := by
  obtain ⟨hid, -⟩ := Array.getElem?_eq_some_iff.1 h
  exact Array.getElem?_setIfInBounds_self_of_lt hid

theorem event_request (build : Eval Value) :
    (CacheCall.request k build).event id w =
      ⟨.request k build, ((requestJournaled id k build).run.run (w, [])).2.2,
        .outcome ((Eval.cached id k build).run.run w).1⟩ := rfl

theorem run_request (build : Eval Value) :
    ((CacheCall.request k build).run id w).2 = ((Eval.cached id k build).run.run w).2 := rfl

/-- A request whose outcome is kept runs no build. -/
theorem event_request_of_kept {o : Outcome} (hc : w.caches[id]? = some c)
    (ho : c.find? k = some o) (build : Eval Value) :
    (CacheCall.request k build).event id w = ⟨.request k build, [], .outcome o.result⟩ ∧
      ((CacheCall.request k build).run id w).2.caches[id]? = some c.countHit := by
  have hfind : (Eval.cacheAt w id).find? k = some o := by rw [cacheAt_of_getElem? hc, ho]
  rw [event_request, run_request, run_cached_of_hit hfind, run_requestJournaled_of_hit hfind,
    cacheAt_of_getElem? hc]
  exact ⟨rfl, getElem?_setCache hc _⟩

/-- A request whose outcome is not kept runs its build once and ends as it does. -/
theorem event_request_of_missing (hc : w.caches[id]? = some c) (hmiss : c.find? k = none)
    {build : Eval Value} (hspares : (CacheCall.request k build).SparesCache id) :
    ∃ r, (CacheCall.request k build).event id w = ⟨.request k build, [r], .outcome r⟩ ∧
      ((CacheCall.request k build).run id w).2.caches[id]? = some (c.countBuild.finish k r) := by
  have hcache := cacheAt_of_getElem? hc
  have hfind : (Eval.cacheAt w id).find? k = none := by rw [hcache, hmiss]
  have hbuilt := (hspares (w.setCache id c.countBuild)).trans (getElem?_setCache hc c.countBuild)
  rw [event_request, run_request, run_cached_of_miss hfind, run_requestJournaled_of_miss hfind,
    hcache]
  refine ⟨(build.run.run (w.setCache id c.countBuild)).1, rfl, ?_⟩
  dsimp only
  rw [cacheAt_of_getElem? hbuilt]
  exact getElem?_setCache hbuilt _

/-- A cache that tracks the past answers the call as the past says, and tracks the past with it. -/
theorem CacheCall.step {call : CacheCall} (hw : w.TracksCache id past)
    (hspares : call.SparesCache id) :
    (call.event id w).AnswersOf past ∧
      (call.run id w).2.TracksCache id (past ++ [call.event id w]) := by
  obtain ⟨c, hc, htracks⟩ := hw
  have hcache := cacheAt_of_getElem? hc
  cases call with
  | request k build =>
    cases hfind : c.find? k with
    | some o =>
      -- no build runs, and the past has the outcome
      obtain ⟨hevent, hnext⟩ := event_request_of_kept hc hfind build
      rw [hevent]
      refine ⟨⟨fun o' ho' => ?_, fun hnone => ?_⟩, _, hnext, htracks.countHit build _⟩
      · rw [← htracks.find?, hfind] at ho'
        obtain rfl := Option.some.inj ho'
        exact ⟨rfl, rfl⟩
      · rw [← htracks.find?, hfind] at hnone
        cases hnone
    | none =>
      -- the build runs once, and its outcome is the first one if it can be kept
      obtain ⟨r, hevent, hnext⟩ := event_request_of_missing hc hfind hspares
      have hnew := htracks.countBuild hfind build r (.outcome r)
      rw [hevent]
      refine ⟨⟨fun o ho => ?_, fun _ => ⟨r, rfl, rfl, fun l => ?_⟩⟩, _, hnext, hnew⟩
      · rw [← htracks.find?, hfind] at ho
        cases ho
      · rw [← hnew.find?, ← htracks.find?, find?_finish hfind]
  | clear =>
    refine ⟨⟨rfl, rfl⟩, .empty, ?_, tracks_clear rfl rfl⟩
    exact getElem?_setCache hc _
  | stats reset =>
    obtain ⟨keys, hkeys, hsize⟩ := htracks.exists_keptKeys
    refine ⟨⟨rfl, c, keys, ?_, htracks.toCounts, hkeys, hsize⟩, ?_⟩
    · show CacheAnswer.stats (Eval.cacheAt w id).stats = _
      rw [hcache]
    · cases reset with
      | false => exact ⟨c, hc, htracks.idle rfl rfl rfl rfl⟩
      | true =>
        refine ⟨c.resetCounters, ?_, htracks.resetCounters rfl rfl rfl⟩
        show (w.setCache id (Eval.cacheAt w id).resetCounters).caches[id]? = _
        rw [getElem?_setCache hc, hcache]
  | size =>
    obtain ⟨keys, hkeys, hsize⟩ := htracks.exists_keptKeys
    refine ⟨⟨rfl, keys, hkeys, ?_⟩, c, hc, htracks.idle rfl rfl rfl rfl⟩
    show CacheAnswer.size (Eval.cacheAt w id).size = _
    rw [hcache, hsize]
  | contains k =>
    refine ⟨⟨rfl, ?_⟩, c, hc, htracks.idle rfl rfl rfl rfl⟩
    show CacheAnswer.flag ((Eval.cacheAt w id).find? k).isSome = _
    rw [hcache, htracks.find?]

end Step

/-! ## Runs -/

theorem answersOf_of_tracks {id : Nat} (calls : List CacheCall) {w : World}
    {past before after : List CacheEvent} {e : CacheEvent} (hw : w.TracksCache id past)
    (hspares : ∀ call ∈ calls, call.SparesCache id)
    (hhistory : cacheHistory id w calls = before ++ e :: after) : e.AnswersOf (past ++ before) := by
  induction calls generalizing w past before with
  | nil => simp [cacheHistory] at hhistory
  | cons call calls ih =>
    obtain ⟨hanswers, hnext⟩ := CacheCall.step hw (hspares call List.mem_cons_self)
    unfold cacheHistory at hhistory
    cases before with
    | nil =>
      obtain ⟨rfl, -⟩ := List.cons.inj hhistory
      rw [List.append_nil]
      exact hanswers
    | cons first before =>
      obtain ⟨rfl, hrest⟩ := List.cons.inj hhistory
      have h := ih hnext (fun call hcall => hspares call (List.mem_cons_of_mem _ hcall)) hrest
      rwa [List.append_assoc] at h

/-- Every call of a run on a new cache answers as the calls before it say, as long as no build uses
the cache itself. -/
theorem answers_as_first_outcomes {id : Nat} {w : World} (hnew : w.caches[id]? = some .empty)
    {calls : List CacheCall} (hspares : ∀ call ∈ calls, call.SparesCache id)
    {before after : List CacheEvent} {e : CacheEvent}
    (hhistory : cacheHistory id w calls = before ++ e :: after) : e.AnswersOf before :=
  answersOf_of_tracks calls ⟨_, hnew, tracks_empty⟩ hspares hhistory

/-- A key that is not one of a builder. -/
def freeKey : CacheKey := .values [.scalar (.str "key")]

/-- A build that raises what no cache keeps. -/
def outOfTime : Except Failure Value := .error (.exception (.named "TimeoutError") none)

def nullShape : Except Failure Value := .error (.fault (.argumentNull "shape" "shape is missing"))

theorem same_freeKey : freeKey.same freeKey = true := by
  simp [freeKey, CacheKey.same, Value.equalAll, Value.equal, Scalar.equal]

/-- The first build is not kept, the second one is, and the third does not run. -/
theorem answers_as_first_outcomes_third :
    let request (r : Except Failure Value) := CacheCall.request freeKey (Eval.lift r)
    CacheEvent.AnswersOf
      [⟨request outOfTime, [outOfTime], .outcome outOfTime⟩,
        ⟨request nullShape, [nullShape], .outcome nullShape⟩]
      ⟨request (.ok .none), [], .outcome nullShape⟩ := by
  intro request
  let w₀ : World := { World.empty with caches := #[.empty] }
  let w₂ := ((request nullShape).run 0 ((request outOfTime).run 0 w₀).2).2
  have hspares : ∀ r, (request r).SparesCache 0 := by
    intro r w
    cases r with
    | ok v => rfl
    | error e => rfl
  have hcalls : ∀ call ∈ [request outOfTime, request nullShape, request (.ok .none)],
      call.SparesCache 0 := by
    intro call hcall
    simp only [List.mem_cons, List.not_mem_nil, or_false] at hcall
    obtain rfl | rfl | rfl := hcall
    · exact hspares _
    · exact hspares _
    · exact hspares _
  have hkept : (Eval.cacheAt w₂ 0).find? freeKey =
      some (.fault (.argumentNull "shape" "shape is missing")) := by
    show (([(freeKey, _)] : List (CacheKey × Outcome)).find? fun e => e.1.same freeKey).map _ = _
    rw [List.find?_cons_of_pos (p := fun e : CacheKey × Outcome => e.1.same freeKey) same_freeKey]
    rfl
  have hthird : (request (.ok .none)).event 0 w₂ = ⟨request (.ok .none), [], .outcome nullShape⟩ :=
    (event_request_of_kept rfl hkept _).1
  have hhistory : cacheHistory 0 w₀ [request outOfTime, request nullShape, request (.ok .none)] =
      [⟨request outOfTime, [outOfTime], .outcome outOfTime⟩,
        ⟨request nullShape, [nullShape], .outcome nullShape⟩] ++
      ⟨request (.ok .none), [], .outcome nullShape⟩ :: [] := by
    rw [← hthird]
    rfl
  exact answers_as_first_outcomes rfl hcalls hhistory

end CallAdapter
