import CallAdapter.Adapter.Basic
import CallAdapter.Builder.Config
import CallAdapter.Cache.Basic
import CallAdapter.Member.Reflection
import CallAdapter.Member.Resolution
import CallAdapter.Member.Table

/-!
# The world of a run

Everything that changes while adapters are built and called: the heap, the plans that planners
keep, member tables, caches, and the adapters themselves. Planners, tables, caches and builders go
by number; adapters and their kin are objects of the heap, so that they are values.

`Eval` is a computation in this world that may fail; what it changed before it failed stays.
-/

namespace CallAdapter

/-- Where a builder looks members up. -/
inductive Host
  | classes
  | table (id : Nat)
  deriving DecidableEq, Repr

structure Builder where
  config : BuildConfig
  host : Host
  planner : Nat
  cache : Option Nat

/-- What a request for an adapter may state besides shape and member. -/
structure Particulars where
  /-- A name to search for; without one the member is a handle. -/
  name : Option String := none
  options : Option SearchMask := none
  bound : Value := .unbound
  throwOnFailure : Option Bool := none
  /-- The container through which a handle is seen. -/
  container : Option Ty := none

/-- A request for an adapter: a handle on a member, or a container and a name in it. -/
structure Request extends Particulars where
  shape : Shape
  member : Handle

/-- How a deferred value is made. -/
inductive Recipe
  | expression (e : Expr)
  | failing (f : Failure)
  | adapter (builder : Nat) (request : Request)

/-- How far a deferred value has come. -/
inductive Progress
  | pending
  /-- The recipe runs. Whoever takes the value meanwhile waits for itself. -/
  | running
  | settled (o : Outcome)

structure Deferred where
  recipe : Recipe
  progress : Progress := .pending
  /-- How often the recipe was run. -/
  runs : Nat := 0

namespace Deferred

/-- The outcome that stays, once there is one. -/
def outcome (d : Deferred) : Option Outcome :=
  match d.progress with
  | .settled o => some o
  | .pending | .running => none

/-- Whether the value has been made, or the fault that there is instead. -/
def isCreated (d : Deferred) : Bool := d.outcome.isSome

/-- The recipe starts to run. -/
def start (d : Deferred) : Deferred := { d with progress := .running, runs := d.runs + 1 }

/-- The recipe has ended: with a value or a fault, which stays, or so that it may run again. -/
def finish (d : Deferred) (r : Except Failure Value) : Deferred :=
  { d with progress := match Outcome.of? r with
      | some o => .settled o
      | none => .pending }

/-- Takes the value. The recipe runs until it gives a value or a fault. The deferred value stands
inside a larger state, since the recipe may use it too. -/
def take {σ : Type} (get : σ → Option Deferred) (set : Deferred → σ → σ)
    (follow : Recipe → ExceptT Failure (StateM σ) Value) : ExceptT Failure (StateM σ) Value :=
  fun s =>
    match get s with
    | none => (.error .typeError, s)
    | some d =>
      match d.progress with
      | .settled o => (o.result, s)
      | .running => (.error (.exception .blocked none), s)
      | .pending =>
        let (r, s) := follow d.recipe (set d.start s)
        (r, set (d.start.finish r) s)

end Deferred

/-- What an object made by this library is. -/
inductive Artifact
  | adapter (a : Adapter)
  | invoker (i : Invoker)
  | creator (c : InstanceCreator)
  | deferred (d : Deferred)

def Artifact.className : Artifact → Builtin
  | adapter _ => .adapter
  | invoker _ => .invoker
  | creator _ => .creator
  | deferred _ => .deferred

structure World where
  heap : Heap
  planners : Array Planner
  tables : Array MemberTable
  caches : Array BindingCache
  builders : Array Builder
  /-- Artifacts by their place on the heap, the latest first. -/
  artifacts : List (Nat × Artifact)
  /-- The settings that a default builder is made from. -/
  settings : SettingTexts
  defaultBuilder : Option Nat

def World.empty : World := ⟨Heap.empty, #[], #[], #[], #[], [], {}, none⟩

abbrev Eval := ExceptT Failure (StateM World)

namespace Eval

/-- The outcome of a computation that does not change the world. -/
def lift {α : Type} (x : Except Failure α) : Eval α :=
  match x with
  | .ok a => pure a
  | .error e => throw e

def heap : Eval Heap := do pure (← get).heap

def modifyHeap (f : Heap → Heap) : Eval Unit := modify fun w => { w with heap := f w.heap }

/-- Places a new instance on the heap and refers to it. -/
def alloc (c : Cls) (i : Instance) : Eval Value := do
  let w ← get
  let (addr, h) := w.heap.alloc i
  set { w with heap := h }
  pure (.object c addr)

/-- A new list. -/
def newList (vs : List Value) : Eval Value := alloc (.builtin .list) ⟨.items vs, []⟩

/-- A new reference cell. -/
def newCell (v : Value) : Eval Value := alloc (.builtin .cell) ⟨.plain, [("value", v)]⟩

/-- Places a new artifact on the heap. -/
def newArtifact (a : Artifact) : Eval Value := do
  let v ← alloc (.builtin a.className) ⟨.plain, []⟩
  match v with
  | .object _ addr => modify fun w => { w with artifacts := (addr, a) :: w.artifacts }
  | _ => pure ()
  pure v

def artifactAt? (w : World) (addr : Nat) : Option Artifact :=
  (w.artifacts.find? fun a => a.1 == addr).map (·.2)

/-- Replaces the artifact at a place. -/
def setArtifact (addr : Nat) (a : Artifact) (w : World) : World :=
  { w with artifacts := (addr, a) :: w.artifacts.filter fun b => b.1 != addr }

def deferredAt? (w : World) (addr : Nat) : Option Deferred :=
  match artifactAt? w addr with
  | some (.deferred d) => some d
  | _ => none

def plannerAt (w : World) (id : Nat) : Planner := (w.planners[id]?).getD ⟨false, [], []⟩

/-- Runs planning with one of the planners, which keeps what it learns. -/
def planning {α : Type} (planner : Nat) (x : PlanM α) : Eval α := do
  let w ← get
  let (r, p) := x.run (plannerAt w planner)
  set { w with planners := w.planners.setIfInBounds planner p }
  lift r

def newPlanner (memoize : Bool) : Eval Nat := do
  let w ← get
  set { w with planners := w.planners.push ⟨memoize, [], []⟩ }
  pure w.planners.size

def newCache : Eval Nat := do
  let w ← get
  set { w with caches := w.caches.push .empty }
  pure w.caches.size

def newTable : Eval Nat := do
  let w ← get
  set { w with tables := w.tables.push .empty }
  pure w.tables.size

def cacheAt (w : World) (id : Nat) : BindingCache := (w.caches[id]?).getD .empty

def tableAt (w : World) (id : Nat) : MemberTable := (w.tables[id]?).getD .empty

/-- Requests a key of one of the caches. -/
def cached (cache : Nat) (k : CacheKey) (build : Eval Value) : Eval Value :=
  BindingCache.request (cacheAt · cache)
    (fun c w => { w with caches := w.caches.setIfInBounds cache c }) k build

/-- Registers a member in one of the tables. -/
def registering {α : Type} (table : Nat)
    (x : MemberTable → Except Failure (α × MemberTable)) : Eval α := do
  let w ← get
  let (a, t) ← lift (x (tableAt w table))
  set { w with tables := w.tables.setIfInBounds table t }
  pure a

end Eval

/-- How values are called and their attributes accessed. -/
structure Runtime where
  call : Value → (positional : List Value) → (keywords : List (String × Value)) → Eval Value
  getAttr : Value → (name : String) → Eval Value
  setAttr : Value → (name : String) → Value → Eval Unit

/-- The members that a host offers. -/
def Host.source (Γ : Program) (w : World) : Host → MemberSource
  | classes => Reflection.source Γ w.heap
  | table id => (Eval.tableAt w id).source

end CallAdapter
