import CallAdapter.Proofs.Adapter.Delivery
import CallAdapter.Proofs.Execution.DirectCall

/-!
# Storing attributes

An instance whose class leaves access to the rules stores an attribute in a slot of its class, or by
itself where its class has no descriptor by the name (`Program.Stores`). What is written to such an
attribute is read from it (`run_read_assign`), reading changes nothing, and writing changes nothing
else (`keepsBut_assign`).
-/

namespace CallAdapter

open Program

/-! ## The heap -/

namespace Heap

theorem setIn_find?_of_ne {name other : String} (hne : name ≠ other)
    (attrs : List (String × Value)) (v : Value) :
    ((setIn attrs other v).find? fun a => a.1 == name) = attrs.find? fun a => a.1 == name := by
  have hhead : (other == name) = false := by simpa using hne.symm
  induction attrs with
  | nil => simp [setIn, hhead]
  | cons a attrs ih =>
    by_cases ha : a.1 = other
    · simp [setIn, ha, hhead]
    · simp only [setIn, beq_iff_eq, ha, if_false, List.find?_cons, ih]

variable {h h' h'' : Heap} {addr place : Nat} {name other : String} {v : Value}

theorem get?_setAttr (place : Nat) : (h.setAttr addr name v).get? place =
    if addr = place then (h.get? place).map fun i => { i with attrs := setIn i.attrs name v }
    else h.get? place :=
  Array.getElem?_modify

theorem payloadAt_setAttr (place : Nat) :
    (h.setAttr addr name v).payloadAt place = h.payloadAt place := by
  unfold payloadAt
  rw [get?_setAttr]
  split
  · rw [Option.map_map]
    rfl
  · rfl

/-- What is stored is there. -/
theorem attr?_setAttr_self (haddr : addr < h.instances.size) :
    (h.setAttr addr name v).attr? addr name = some v := by
  have hget : h.get? addr = some h.instances[addr] := Array.getElem?_eq_getElem haddr
  simp [attr?, attrsAt, get?_setAttr, hget, setIn_find?]

/-- Other attributes, and those of other instances, stay. -/
theorem attr?_setAttr_of_ne (hne : place ≠ addr ∨ other ≠ name) :
    (h.setAttr addr name v).attr? place other = h.attr? place other := by
  unfold attr? attrsAt
  rw [get?_setAttr]
  by_cases haddr : addr = place
  · rw [if_pos haddr]
    have hname : other ≠ name := hne.resolve_left fun hplace => hplace haddr.symm
    cases h.get? place with
    | none => rfl
    | some i => simp [setIn_find?_of_ne hname]
  · rw [if_neg haddr]

/-- Everything on the first heap is on the second, unchanged but for one attribute. -/
structure KeepsBut (addr : Nat) (name : String) (h h' : Heap) : Prop where
  statics : h'.statics = h.statics
  size_le : h.instances.size ≤ h'.instances.size
  payloadAt : ∀ place < h.instances.size, h'.payloadAt place = h.payloadAt place
  attr? : ∀ place < h.instances.size, ∀ other, place ≠ addr ∨ other ≠ name →
    h'.attr? place other = h.attr? place other

theorem Keeps.keepsBut (hh : h.Keeps h') : h.KeepsBut addr name h' := by
  refine ⟨hh.statics, hh.size_le, fun place hplace => ?_, fun place hplace other _ => ?_⟩
  · unfold Heap.payloadAt
    rw [hh.get? place hplace]
  · unfold Heap.attr? attrsAt
    rw [hh.get? place hplace]

theorem KeepsBut.trans (hh : h.KeepsBut addr name h') (hh' : h'.KeepsBut addr name h'') :
    h.KeepsBut addr name h'' := by
  have hlt : ∀ place < h.instances.size, place < h'.instances.size :=
    fun place hplace => Nat.lt_of_lt_of_le hplace hh.size_le
  refine ⟨hh'.statics.trans hh.statics, Nat.le_trans hh.size_le hh'.size_le,
    fun place hplace => ?_, fun place hplace other hne => ?_⟩
  · rw [hh'.payloadAt place (hlt place hplace), hh.payloadAt place hplace]
  · rw [hh'.attr? place (hlt place hplace) other hne, hh.attr? place hplace other hne]

theorem keepsBut_setAttr (h : Heap) (addr : Nat) (name : String) (v : Value) :
    h.KeepsBut addr name (h.setAttr addr name v) :=
  ⟨rfl, (size_setAttr ..).ge, fun place _ => payloadAt_setAttr place,
    fun _ _ _ hne => attr?_setAttr_of_ne hne⟩

end Heap

/-- The world after an attribute of an instance was assigned. -/
def World.assign (w : World) (addr : Nat) (name : String) (v : Value) : World :=
  { w with heap := w.heap.setAttr addr name v }

/-- Only the heap differs, and of what was on it only one attribute of one instance. -/
structure World.KeepsBut (addr : Nat) (name : String) (w w' : World) : Prop where
  heap : w.heap.KeepsBut addr name w'.heap
  rest : { w with heap := w'.heap } = w'

namespace World

variable {w w' w'' : World} {addr : Nat} {name : String}

theorem Keeps.keepsBut (hw : w.Keeps w') : w.KeepsBut addr name w' := ⟨hw.heap.keepsBut, hw.rest⟩

theorem KeepsBut.refl (w : World) : w.KeepsBut addr name w := (Keeps.refl w).keepsBut

theorem KeepsBut.trans (hw : w.KeepsBut addr name w') (hw' : w'.KeepsBut addr name w'') :
    w.KeepsBut addr name w'' := by
  refine ⟨hw.heap.trans hw'.heap, ?_⟩
  calc { w with heap := w''.heap } = { { w with heap := w'.heap } with heap := w''.heap } := rfl
    _ = { w' with heap := w''.heap } := by rw [hw.rest]
    _ = w'' := hw'.rest

theorem keepsBut_assign (w : World) (addr : Nat) (name : String) (v : Value) :
    w.KeepsBut addr name (w.assign addr name v) :=
  ⟨Heap.keepsBut_setAttr _ _ _ _, rfl⟩

end World

/-! ## Attributes of instances -/

/-- An entry of a class that is not just given to those who read it from an instance, or not just
hidden by what they write: a function, or an object whose class says what access to it does. -/
def Value.isDescriptor (Γ : Program) (h : Heap) : Value → Bool
  | code (.builtin _) => false
  | code _ => true
  | e => (e.found? Γ h "__get__").isSome || (e.found? Γ h "__set__").isSome ||
    (e.found? Γ h "__delete__").isSome

/-- The class of the receiver leaves reads and writes to the rules. -/
structure Value.AccessedPlainly (Γ : Program) (h : Heap) (r : Value) : Prop
    extends r.ReadsPlainly Γ h where
  writes : r.found? Γ h "__setattr__" = Option.none

/-- What the class of an instance has for an attribute that the instance stores: a slot, or no
descriptor where instances store attributes of their own. -/
inductive Program.Holds (Γ : Program) (h : Heap) (r : Value) (name : String) : Prop
  /-- The slots of complex numbers are read only. -/
  | slot {o : Cls} : r.found? Γ h name = some (.code (.slot o name)) → o ≠ .builtin .complex →
      Holds Γ h r name
  | own : (∀ e, r.found? Γ h name = some e → e.isDescriptor Γ h = false) → name ≠ "__class__" →
      Γ.storesAttributes (Γ.classOf r) = true → Holds Γ h r name

/-- There is an instance at the place, which stores the attribute. -/
structure Program.Stores (Γ : Program) (h : Heap) (c : Cls) (addr : Nat) (name : String) :
    Prop where
  place : addr < h.instances.size
  plain : (Value.object c addr).AccessedPlainly Γ h
  accepts : Γ.refusesAssignment c name = false
  holds : Γ.Holds h (.object c addr) name

section Storing

variable {Γ : Program} {rt : Runtime} {c : Cls} {addr : Nat} {name : String} {v e : Value}
  {h h' : Heap} {w : World}

theorem found?_congr (hstatics : h'.statics = h.statics) (r : Value) :
    r.found? Γ h' name = r.found? Γ h name := by
  unfold Value.found? Heap.findEntry
  simp only [Heap.entries_congr hstatics]

theorem isDescriptor_congr (hstatics : h'.statics = h.statics) (e : Value) :
    e.isDescriptor Γ h' = e.isDescriptor Γ h := by
  unfold Value.isDescriptor
  simp only [found?_congr hstatics]

theorem Program.Holds.congr {r : Value} (hr : Γ.Holds h r name)
    (hstatics : h'.statics = h.statics) : Γ.Holds h' r name := by
  cases hr with
  | slot hfound ho => exact .slot ((found?_congr hstatics r).trans hfound) ho
  | own hplain hname hroom =>
    refine .own (fun e he => ?_) hname hroom
    rw [isDescriptor_congr hstatics]
    exact hplain e ((found?_congr hstatics r).symm.trans he)

theorem Value.AccessedPlainly.congr {r : Value} (hr : r.AccessedPlainly Γ h)
    (hstatics : h'.statics = h.statics) : r.AccessedPlainly Γ h' where
  reads := (found?_congr hstatics r).trans hr.reads
  failing := (found?_congr hstatics r).trans hr.failing
  writes := (found?_congr hstatics r).trans hr.writes

/-- An instance goes on storing the attribute, whatever is written to it. -/
theorem Program.Stores.keepsBut (hs : Γ.Stores h c addr name) (hh : h.KeepsBut addr name h') :
    Γ.Stores h' c addr name :=
  ⟨Nat.lt_of_lt_of_le hs.place hh.size_le, hs.plain.congr hh.statics, hs.accepts,
    hs.holds.congr hh.statics⟩

/-- The class of what is no descriptor takes no part in access to it. -/
theorem found?_of_not_isDescriptor (he : e.isDescriptor Γ h = false) :
    e.found? Γ h "__get__" = none ∧ e.found? Γ h "__set__" = none ∧
      e.found? Γ h "__delete__" = none := by
  unfold Value.isDescriptor at he
  split at he
  · exact ⟨rfl, rfl, rfl⟩
  · cases he
  · simpa only [Bool.or_eq_false_iff, Option.isSome_eq_false_iff, Option.isNone_iff_eq_none,
      and_assoc] using he

theorem not_controlsAccess (he : e.isDescriptor Γ h = false) :
    (Runtime.controlsAccess e || Γ.isDataDescriptor h e) = false := by
  have hcode : Runtime.controlsAccess e = false := by
    unfold Runtime.controlsAccess
    split <;> first | rfl | cases he
  rw [hcode, isDataDescriptor, (found?_of_not_isDescriptor he).1]
  rfl

theorem run_readEntry_of_not_isDescriptor (he : e.isDescriptor Γ w.heap = false) (r : Value) :
    (Runtime.readEntry Γ rt r c e name).run.run w = (.ok e, w) := by
  have hheap : Eval.heap.run.run w = (.ok w.heap, w) := rfl
  have hget := (found?_of_not_isDescriptor he).1
  unfold Runtime.readEntry
  split
  all_goals first
    | cases he
    | rw [run_bind_of_ok hheap, hget]
      rfl

/-- Where the class has no function for all writes and no record class refuses them, the instance
is written by the rules. -/
theorem run_writeAttribute_of_plain (hr : (Value.object c addr).AccessedPlainly Γ w.heap)
    (haccepts : Γ.refusesAssignment c name = false) :
    (Runtime.writeAttribute Γ rt (.object c addr) name v).run.run w =
      (Runtime.writeOrdinary Γ rt c addr name v).run.run w := by
  have hheap : Eval.heap.run.run w = (.ok w.heap, w) := rfl
  have hnone : w.heap.findEntry Γ c "__setattr__" = none := Option.map_eq_none_iff.1 hr.writes
  unfold Runtime.writeAttribute
  dsimp only
  rw [run_bind_of_ok hheap, hnone]
  dsimp only
  rw [haccepts, if_neg Bool.false_ne_true]

/-- Writing an attribute stores it. -/
theorem run_write (hs : Γ.Stores w.heap c addr name) :
    (Runtime.writeAttribute Γ rt (.object c addr) name v).run.run w =
      (.ok (), w.assign addr name v) := by
  have hheap : Eval.heap.run.run w = (.ok w.heap, w) := rfl
  rw [run_writeAttribute_of_plain hs.plain hs.accepts]
  unfold Runtime.writeOrdinary
  rw [run_bind_of_ok hheap]
  dsimp only
  cases hs.holds with
  | @slot o hslot ho =>
    rw [hslot]
    cases o with
    | declared => rfl
    | builtin b =>
      cases b with
      | complex => exact absurd rfl ho
      | _ => rfl
  | own hplain _ hroom =>
    have hroom : Γ.storesAttributes c = true := hroom
    rw [hroom, if_pos rfl]
    cases hentry : (Value.object c addr).found? Γ w.heap name with
    | none => rfl
    | some e =>
      have he := hplain e hentry
      obtain ⟨-, hset, hdelete⟩ := found?_of_not_isDescriptor he
      cases e with
      | code f =>
        cases f with
        | builtin n => rfl
        | _ => cases he
      | _ =>
        dsimp only
        rw [hset, hdelete]
        rfl

/-- What a class computes for an attribute changes nothing. -/
theorem world_computedAttribute (r : Value) (n : String) :
    ((Runtime.computedAttribute Γ h r n).run.run w).2 = w := by
  unfold Runtime.computedAttribute
  split
  · rfl
  · rfl
  · split <;> rfl

/-- Where the class of an instance has no entry, the instance is asked alone. -/
theorem run_readOrdinary_own (hfound : (Value.object c addr).found? Γ w.heap name = none)
    (hname : name ≠ "__class__") :
    (Runtime.readOrdinary Γ rt (.object c addr) name).run.run w =
      (match w.heap.attr? addr name with
        | some v => pure v
        | none => throw .attributeError : Eval Value).run.run w := by
  have hheap : Eval.heap.run.run w = (.ok w.heap, w) := rfl
  have hclass : (name == "__class__") = false := by simpa using hname
  unfold Runtime.readOrdinary
  dsimp only [Runtime.nameAttribute?]
  rw [run_bind_of_ok hheap, hfound, hclass]
  rfl

/-- A slot is read from the instance, or computed while it is empty. -/
theorem run_readOrdinary_slot {o : Cls}
    (hslot : (Value.object c addr).found? Γ w.heap name = some (.code (.slot o name))) :
    (Runtime.readOrdinary Γ rt (.object c addr) name).run.run w =
      (match w.heap.attr? addr name with
        | some v => pure v
        | none => Runtime.computedAttribute Γ w.heap (.object c addr) name :
          Eval Value).run.run w := by
  have hheap : Eval.heap.run.run w = (.ok w.heap, w) := rfl
  have hentry : (Runtime.readEntry Γ rt (.object c addr) c (.code (.slot o name)) name).run.run w =
      (Runtime.slotContent Γ w.heap (.object c addr) name).run.run w := run_bind_of_ok hheap
  rw [run_readOrdinary hslot nofun]
  cases (Value.object c addr).stored? w.heap name <;> exact hentry

/-- What an instance stores for the attribute is read. -/
theorem run_read_of_stored (hs : Γ.Stores w.heap c addr name)
    (hv : w.heap.attr? addr name = some v) :
    (Runtime.readAttribute Γ rt (.object c addr) name).run.run w = (.ok v, w) := by
  have htype : ∀ t, Value.object c addr ≠ .type t := nofun
  have hstored : (Value.object c addr).stored? w.heap name = some v := hv
  rw [run_readAttribute_of_plain hs.plain.toReadsPlainly]
  cases hs.holds with
  | slot hslot => rw [run_readOrdinary_slot hslot, hv]; rfl
  | own hplain hname =>
    cases hentry : (Value.object c addr).found? Γ w.heap name with
    | none => rw [run_readOrdinary_own hentry hname, hv]; rfl
    | some e =>
      rw [run_readOrdinary hentry htype, hstored]
      dsimp only
      rw [not_controlsAccess (hplain e hentry)]
      rfl

/-- Reading the attribute changes nothing. -/
theorem world_read (hs : Γ.Stores w.heap c addr name) :
    ((Runtime.readAttribute Γ rt (.object c addr) name).run.run w).2 = w := by
  have htype : ∀ t, Value.object c addr ≠ .type t := nofun
  cases hv : w.heap.attr? addr name with
  | some v => rw [run_read_of_stored hs hv]
  | none =>
    have hstored : (Value.object c addr).stored? w.heap name = none := hv
    rw [run_readAttribute_of_plain hs.plain.toReadsPlainly]
    cases hs.holds with
    | slot hslot => rw [run_readOrdinary_slot hslot, hv]; exact world_computedAttribute _ _
    | own hplain hname =>
      cases hentry : (Value.object c addr).found? Γ w.heap name with
      | none => rw [run_readOrdinary_own hentry hname, hv]; rfl
      | some e =>
        rw [run_readOrdinary hentry htype, hstored]
        dsimp only
        rw [run_readEntry_of_not_isDescriptor (hplain e hentry)]

/-- What was written is read. -/
theorem run_read_assign (hs : Γ.Stores w.heap c addr name) (v : Value) :
    (Runtime.readAttribute Γ rt (.object c addr) name).run.run (w.assign addr name v) =
      (.ok v, w.assign addr name v) :=
  run_read_of_stored (hs.keepsBut (w.keepsBut_assign addr name v).heap)
    (Heap.attr?_setAttr_self hs.place)

end Storing

end CallAdapter
