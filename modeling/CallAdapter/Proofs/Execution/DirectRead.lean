import CallAdapter.Proofs.Execution.DirectCall
import Mathlib

/-!
# Reads of properties by name

A direct read of a property calls the function behind it anew each time, and so does an adapter of
its getter: wherever the class has the property, one can stand for the other, in any sequence of
calls, reads and writes (`getter_adapter_agrees`). A direct read of an attribute that is computed once
calls the function only where the instance stores nothing yet, and stores what it gives; the adapter
neither looks there nor stores. Such a read is what the instance stores, or a call of the adapter
whose value is then stored (`Access.load`).
-/

namespace CallAdapter

open Program

/-- Stores a value on the instance itself. -/
def Value.store (r : Value) (name : String) (v : Value) : Eval Unit :=
  match r with
  | .object _ addr => Eval.modifyHeap (·.setAttr addr name v)
  | _ => pure ()

/-- What is done with a receiver and an attribute that an adapter gets. -/
inductive Access
  | adapter
  | read
  /-- Takes what the instance stores, or calls the adapter and stores what it gives. -/
  | load
  | write (name : String) (v : Value)

namespace Access

variable (Γ : Program) (rt : Runtime) (a : Adapter) (r : Value) (name : String)

/-- Calls of adapters and accesses to attributes, with one runtime for the calls inside. -/
def run : Access → Eval Value
  | adapter => a.call Γ rt [r]
  | read => (Runtime.step Γ rt).getAttr r name
  | load => do
    match r.stored? (← Eval.heap) name with
    | some v => pure v
    | none => do
      let v ← a.call Γ rt [r]
      r.store name v
      pure v
  | write n v => do
    (Runtime.step Γ rt).setAttr r n v
    pure .none

/-- The outcomes of accesses one after the other, and the world after them. -/
def runAll : List Access → World → List (Except Failure Value) × World
  | [], w => ([], w)
  | x :: xs, w =>
    let first := (x.run Γ rt a r name).run.run w
    let rest := runAll xs first.2
    (first.1 :: rest.1, rest.2)

/-- One access can stand for the other where a class has the entry: the adapter for a read of a
property, and a load for a read of an attribute that is computed once. -/
inductive Exchanges (k : Cls) (e : Value) : Access → Access → Prop
  | refl (x : Access) : Exchanges k e x x
  | symm {x y : Access} : Exchanges k e x y → Exchanges k e y x
  | property : Runtime.controlsAccess e = true → Exchanges k e adapter read
  | cached {id : Nat} : e = .code (.cachedProperty id) → Γ.storesAttributes k = true →
    Exchanges k e load read

variable {Γ rt a r name}

/-- Accesses that do the same one by one, in each of the worlds where they take place, do the same
one after the other. -/
theorem runAll_congr {Good : World → Prop} {same : Access → Access → Prop}
    (hrun : ∀ x y w, same x y → Good w →
      (x.run Γ rt a r name).run.run w = (y.run Γ rt a r name).run.run w)
    {xs ys : List Access} (h : List.Forall₂ same xs ys) (w : World)
    (hgood : ∀ k < xs.length, Good (runAll Γ rt a r name (xs.take k) w).2) :
    runAll Γ rt a r name xs w = runAll Γ rt a r name ys w := by
  induction h generalizing w with
  | nil => rfl
  | @cons x y xs ys hxy _ ih =>
    have hfirst := hrun x y w hxy (hgood 0 (Nat.succ_pos _))
    have hrest := ih ((x.run Γ rt a r name).run.run w).2 fun k hk =>
      hgood (k + 1) (Nat.succ_lt_succ hk)
    unfold runAll
    dsimp only
    rw [hrest, hfirst]

end Access

section Reading

variable {Γ : Program} {rt : Runtime} {r e : Value} {name : String} {w : World} {t : Target}
  {o : Cls} {f : Callee} {s : Option Nat}

/-- A getter is invoked on a receiver by calling its code. -/
theorem Target.IsGetter.invoke_eq (ht : t.IsGetter o f) (hr : r.isNone = false) :
    rt.invoke Γ t [r] = rt.call (.code f) [r] [] := by
  unfold Runtime.invoke Runtime.deliver Runtime.invokeMember
  rw [ht.toRuns.takesReceiver nofun, ht.kind, ht.impl, List.head?_cons, Option.getD_some, hr]
  rfl

/-- Reading a property calls the function behind it. -/
theorem run_read_of_property (haccessors : Reflection.accessorsOf? e = some (some f, s))
    (hcontrols : Runtime.controlsAccess e = true) (he : r.found? Γ w.heap name = some e)
    (hr : r.ReadsPlainly Γ w.heap) (htype : ∀ t, r ≠ .type t) :
    ((Runtime.step Γ (Runtime.step Γ rt)).getAttr r name).run.run w =
      ((Runtime.step Γ rt).call (.code f) [r] []).run.run w := by
  have hentry : (Runtime.readOrdinary Γ (Runtime.step Γ rt) r name).run.run w =
      (Runtime.readEntry Γ (Runtime.step Γ rt) r (Γ.classOf r) e name).run.run w := by
    rw [run_readOrdinary he htype, hcontrols]
    cases r.stored? w.heap name <;> rfl
  refine (run_readAttribute_of_plain hr).trans (hentry.trans ?_)
  unfold Reflection.accessorsOf? at haccessors
  split at haccessors
  · obtain ⟨hf, -⟩ := Prod.mk.inj (Option.some.inj haccessors)
    obtain ⟨id, rfl, rfl⟩ := Option.map_eq_some_iff.1 hf
    rfl
  · cases hcontrols
  · cases haccessors
    rfl
  · cases haccessors

/-- Reading an attribute that is computed once takes what the instance stores, or calls the function
behind the attribute and stores what it gives. -/
theorem run_read_of_cached {id : Nat}
    (he : r.found? Γ w.heap name = some (.code (.cachedProperty id)))
    (hr : r.ReadsPlainly Γ w.heap) (hstores : Γ.storesAttributes (Γ.classOf r) = true)
    (htype : ∀ t, r ≠ .type t) :
    ((Runtime.step Γ rt).getAttr r name).run.run w =
      (match r.stored? w.heap name with
        | some v => pure v
        | none => do
          let v ← rt.call (.code (.function id)) [r] []
          r.store name v
          pure v : Eval Value).run.run w := by
  refine (run_readAttribute_of_plain hr).trans ?_
  rw [run_readOrdinary he htype]
  cases r.stored? w.heap name with
  | some v => rfl
  | none =>
    unfold Runtime.readEntry
    dsimp only
    rw [if_pos hstores]
    refine run_bind_congr_right fun v w' _ => ?_
    unfold Value.store
    cases r <;> rfl

/-- Where the class has the entry, one access does what the other does. -/
theorem Access.Exchanges.run_eq {a : Adapter} {x y : Access}
    (h : Exchanges Γ (Γ.classOf r) e x y)
    (haccessors : Reflection.accessorsOf? e = some (some f, s))
    (hcall : ∀ w, (a.call Γ (Runtime.step Γ rt) [r]).run.run w =
      ((Runtime.step Γ rt).call (.code f) [r] []).run.run w)
    (he : r.found? Γ w.heap name = some e) (hr : r.ReadsPlainly Γ w.heap)
    (htype : ∀ t, r ≠ .type t) :
    (x.run Γ (Runtime.step Γ rt) a r name).run.run w =
      (y.run Γ (Runtime.step Γ rt) a r name).run.run w := by
  induction h with
  | refl => rfl
  | symm _ ih => exact ih.symm
  | property hcontrols =>
    exact (hcall w).trans (run_read_of_property haccessors hcontrols he hr htype).symm
  | @cached id hid hstores =>
    subst hid
    obtain ⟨hf, -⟩ := Prod.mk.inj (Option.some.inj haccessors)
    obtain rfl := Option.some.inj hf
    refine Eq.trans ?_ (run_read_of_cached he hr hstores htype).symm
    show (match r.stored? w.heap name with
        | some v => pure v
        | none => do
          let v ← a.call Γ (Runtime.step Γ rt) [r]
          r.store name v
          pure v : Eval Value).run.run w = _
    cases r.stored? w.heap name with
    | some v => rfl
    | none => exact run_bind_congr (hcall w)

end Reading

/-! ## Properties of a tank -/

section Tanks

def tankRef : ClassRef := ⟨"Tank", "Tank"⟩

def gaugeRef : ClassRef := ⟨"Gauge", "Gauge"⟩

def fuseRef : ClassRef := ⟨"Fuse", "Fuse"⟩

/-- A function of a receiver that gives a number. -/
def levelFunction (body : List Stmt) : Function where
  name := "level"
  qualname := "level"
  params := [⟨"self", none, .positional, none⟩]
  returns := some (.builtin .int)
  body := .block body
  abstract := false
  overloaded := false
  hasReceiver := true

/-- A class with a property that reads an attribute, one where this is computed once, and one whose
property puts a number in its own place when it is read. -/
def tankProgram : Program where
  classes := [
    sizedInfo tankRef [.builtin .object] [("level", .code (.property (some 0) none))],
    sizedInfo gaugeRef [.builtin .object] [("level", .code (.cachedProperty 0))],
    sizedInfo fuseRef [.builtin .object] [("level", .code (.property (some 1) none))]]
  functions := #[
    levelFunction [.ret (.attr (.arg "self") "base")],
    levelFunction [.assign (.classNamed "Fuse") "level" (.value (.int 5)), .ret (.value (.int 1))]]
  registrations := []

/-- The getter of one of the classes. -/
def levelGetter (k : ClassRef) (id : Nat) : Target where
  kind := .propertyGetter
  name := "level"
  declaring := some (.cls (.declared k))
  isStatic := false
  result := .builtin .int
  impl := .callable (.code (.function id))

def levelProperty (k : ClassRef) (id : Nat) : PropertyInfo where
  name := "level"
  declaring := .cls (.declared k)
  type := .builtin .int
  getter := some (levelGetter k id)

def levelAdapter (k : ClassRef) (id : Nat) : Adapter := .member
  { shape := (levelGetter k id).naturalShape
    target := levelGetter k id
    slots := [⟨.argument 0, .of (.cls (.declared k)) (.cls (.declared k)) .identity, .value⟩]
    result := .of (.builtin .int) (.builtin .int) .identity }

/-- The class has the property, and its getter the adapter. -/
structure HasLevel (k : ClassRef) (id : Nat) : Prop where
  properties : Reflection.properties tankProgram .empty (.cls (.declared k)) "level"
    SearchMask.standard = [levelProperty k id]
  adapter : ((tankProgram.adapterFor .empty (some (levelGetter k id).naturalShape)
    (some (levelGetter k id)) .unbound).run.run (tankProgram.afterRequests [] ⟨false, [], []⟩)).1 =
      .ok (some (levelAdapter k id))

/-- The outcomes of accesses to an instance whose base is one at first, and what it stores then. -/
def levelsOf (k : ClassRef) (id : Nat) (xs : List Access) :
    List (Except Failure Value) × List (String × Value) :=
  let (outcomes, w) := Access.runAll tankProgram (tankProgram.runtimeTo 2) (levelAdapter k id)
    (.object (.declared k) 0) "level" xs (instanceWorld [("base", .int 1)] [])
  (outcomes, w.heap.attrsAt 0)

end Tanks

end CallAdapter
