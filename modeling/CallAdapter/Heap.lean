import CallAdapter.Program.Basic

/-!
# The heap

What can change while a program runs: the attributes and the content of instances, and attributes
assigned to classes. References in values name a place on the heap; an instance is never removed.
-/

namespace CallAdapter

/-- What an instance holds besides attributes. -/
inductive Payload
  | plain
  /-- The plain value of an instance of a subclass of a builtin data class. -/
  | value (v : Value)
  /-- The elements of a list. -/
  | items (vs : List Value)
  deriving Inhabited

structure Instance where
  payload : Payload
  /-- The instance's own attributes, in the order in which they were first set. -/
  attrs : List (String × Value)
  deriving Inhabited

structure Heap where
  instances : Array Instance
  /-- Attributes assigned to classes after their declaration. -/
  statics : List ((ClassRef × String) × Value)

namespace Heap

def empty : Heap := ⟨#[], []⟩

def get? (h : Heap) (addr : Nat) : Option Instance := h.instances[addr]?

/-- The attributes of the instance at a place; none where there is no instance. -/
def attrsAt (h : Heap) (addr : Nat) : List (String × Value) :=
  ((h.get? addr).map (·.attrs)).getD []

def attr? (h : Heap) (addr : Nat) (name : String) : Option Value :=
  ((h.attrsAt addr).find? fun a => a.1 == name).map (·.2)

def payloadAt (h : Heap) (addr : Nat) : Payload := ((h.get? addr).map (·.payload)).getD .plain

/-- Places a new instance at the end. -/
def alloc (h : Heap) (i : Instance) : Nat × Heap :=
  (h.instances.size, { h with instances := h.instances.push i })

/-- Sets a name in an ordered list of attributes. -/
def setIn (attrs : List (String × Value)) (name : String) (v : Value) : List (String × Value) :=
  match attrs with
  | [] => [(name, v)]
  | a :: rest => if a.1 == name then (name, v) :: rest else a :: setIn rest name v

def setAttr (h : Heap) (addr : Nat) (name : String) (v : Value) : Heap :=
  { h with instances := h.instances.modify addr fun i => { i with attrs := setIn i.attrs name v } }

def setItems (h : Heap) (addr : Nat) (vs : List Value) : Heap :=
  { h with instances := h.instances.modify addr fun i => { i with payload := .items vs } }

def setStatic (h : Heap) (c : ClassRef) (name : String) (v : Value) : Heap :=
  { h with statics := ((c, name), v) :: h.statics.filter fun s => decide (s.1 ≠ (c, name)) }

/-- The current entries of a class's own namespace: declared ones keep their place. -/
def entries (Γ : Program) (h : Heap) (c : Cls) : List (String × Value) :=
  match c with
  | .builtin _ => Γ.entries c
  | .declared r =>
    (h.statics.reverse.filter fun s => decide (s.1.1 = r)).foldl
      (fun es s => setIn es s.1.2 s.2) (Γ.entries c)

/-- The first current entry of a name along the ancestors, with the class that holds it. -/
def findEntry (Γ : Program) (h : Heap) (c : Cls) (name : String) : Option (Cls × Value) :=
  (Γ.mro c).findSome? fun k => ((h.entries Γ k).find? fun e => e.1 == name).map fun e => (k, e.2)

theorem alloc_fst (h : Heap) (i : Instance) : (h.alloc i).1 = h.instances.size := rfl

theorem setIn_find? (attrs : List (String × Value)) (name : String) (v : Value) :
    ((setIn attrs name v).find? fun a => a.1 == name) = some (name, v) := by
  induction attrs with
  | nil => simp [setIn]
  | cons a rest ih => by_cases h : a.1 = name <;> simp [setIn, h, ih]

end Heap

end CallAdapter
