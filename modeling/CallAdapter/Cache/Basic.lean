import CallAdapter.Shape

/-!
# Outcome caches

A cache keeps the first outcome of a build for each key: a value, or the fault that the build
ended with. A fault that is kept is raised again with equal data on every later request. Other
exceptions are not kept, and the next request builds again. Counters tell requests that were
answered from the cache from those that were not.
-/

namespace CallAdapter

/-- How a build ended, as far as it is kept. -/
inductive Outcome
  | value (v : Value)
  | fault (f : Fault)

namespace Outcome

/-- The outcome that is kept of a finished build; exceptions leave none. -/
def of? : Except Failure Value → Option Outcome
  | .ok v => some (value v)
  | .error (.fault f) => some (fault f)
  | .error (.exception _ _) => none

def isFault : Outcome → Bool
  | fault _ => true
  | value _ => false

/-- Gives the value, or raises the fault. -/
def result : Outcome → Except Failure Value
  | value v => .ok v
  | fault f => .error (.fault f)

theorem result_of_of? {r : Except Failure Value} {o : Outcome} (h : of? r = some o) :
    o.result = r := by
  unfold of? at h
  split at h <;> simp_all [result] <;> subst h <;> rfl

end Outcome

/-- What a named adapter depends on besides its builder. The bound value counts as an object. -/
structure BindingKey where
  container : Ty
  name : String
  shape : Option Shape
  options : Option SearchMask
  bound : Value

/-- Keys are given by a builder or freely. -/
inductive CacheKey
  | binding (k : BindingKey)
  | values (vs : List Value)

namespace BindingKey

def sameShape : Option Shape → Option Shape → Bool
  | none, none => true
  | some s, some t => s.same t
  | _, _ => false

def same (k l : BindingKey) : Bool :=
  k.container.same l.container && k.name == l.name && sameShape k.shape l.shape &&
    k.options == l.options && k.bound.identical l.bound

/-- Whether the parts of a key can be looked up. -/
def hashable (k : BindingKey) : Bool :=
  k.container.hashable && (k.shape.map Shape.hashable).getD true

end BindingKey

def CacheKey.same : CacheKey → CacheKey → Bool
  | binding k, binding l => k.same l
  | values vs, values ws => Value.equalAll vs ws
  | _, _ => false

structure BindingCache where
  outcomes : List (CacheKey × Outcome) := []
  hits : Nat := 0
  misses : Nat := 0
  builds : Nat := 0
  failures : Nat := 0

namespace BindingCache

def empty : BindingCache := {}

def find? (c : BindingCache) (k : CacheKey) : Option Outcome :=
  (c.outcomes.find? fun e => e.1.same k).map (·.2)

def contains (c : BindingCache) (k : CacheKey) : Bool := (c.find? k).isSome

def size (c : BindingCache) : Nat := c.outcomes.length

/-- Keeps an outcome under a key, in the place of one that is there already. -/
def insert (c : BindingCache) (k : CacheKey) (o : Outcome) : BindingCache :=
  if c.contains k then
    { c with outcomes := c.outcomes.map fun e => if e.1.same k then (e.1, o) else e }
  else { c with outcomes := c.outcomes ++ [(k, o)] }

/-- Counts a request that is answered from the cache. -/
def countHit (c : BindingCache) : BindingCache := { c with hits := c.hits + 1 }

/-- Counts a request whose build now runs. -/
def countBuild (c : BindingCache) : BindingCache :=
  { c with misses := c.misses + 1, builds := c.builds + 1 }

/-- Keeps what can be kept of a finished build. -/
def finish (c : BindingCache) (k : CacheKey) (r : Except Failure Value) : BindingCache :=
  match Outcome.of? r with
  | none => c
  | some o =>
    let c := if o.isFault then { c with failures := c.failures + 1 } else c
    c.insert k o

def resetCounters (c : BindingCache) : BindingCache :=
  { c with hits := 0, misses := 0, builds := 0, failures := 0 }

/-- Drops all outcomes and counts anew. -/
def clear (_ : BindingCache) : BindingCache := empty

def requests (c : BindingCache) : Nat := c.hits + c.misses

/-- The share of requests that were answered from the cache. -/
def hitRate (c : BindingCache) : Binary64 :=
  if c.requests = 0 then Binary64.zero
  else Binary64.ofRat ((c.hits : Rat) / (c.requests : Rat))

/-- Requests a key: a kept outcome answers it, else the build runs and its outcome is kept. The
cache stands inside a larger state, since the build may use it too. -/
def request {σ : Type} (get : σ → BindingCache) (set : BindingCache → σ → σ) (k : CacheKey)
    (build : ExceptT Failure (StateM σ) Value) : ExceptT Failure (StateM σ) Value :=
  fun s =>
    let c := get s
    match c.find? k with
    | some o => (o.result, set c.countHit s)
    | none =>
      let (r, s) := build (set c.countBuild s)
      (r, set ((get s).finish k r) s)

theorem size_empty : empty.size = 0 := rfl

theorem requests_countHit (c : BindingCache) : c.countHit.requests = c.requests + 1 := by
  simp [countHit, requests]; omega

theorem requests_countBuild (c : BindingCache) : c.countBuild.requests = c.requests + 1 := by
  simp [countBuild, requests]; omega

end BindingCache

end CallAdapter
