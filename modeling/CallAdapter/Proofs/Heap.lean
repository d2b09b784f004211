import CallAdapter.Builder.Create

/-!
# Heaps that read alike

Two heaps read alike when the same attributes were assigned to classes and every place holds the
same attributes and content; a place that holds nothing reads like a plain instance without
attributes. Everything but the running of programs sees no difference between such heaps: the texts
of values, what conversions make of them, containers, and shapes.
-/

namespace CallAdapter

/-- The heaps read the same at every place and at every class. -/
structure Heap.Alike (h h' : Heap) : Prop where
  statics : h.statics = h'.statics
  payloadAt : h.payloadAt = h'.payloadAt
  attrsAt : h.attrsAt = h'.attrsAt

namespace Heap

variable {Γ : Program} {h h' h'' : Heap}

theorem Alike.refl (h : Heap) : h.Alike h := ⟨rfl, rfl, rfl⟩

theorem Alike.symm (hh : h.Alike h') : h'.Alike h :=
  ⟨hh.statics.symm, hh.payloadAt.symm, hh.attrsAt.symm⟩

theorem Alike.trans (hh : h.Alike h') (hh' : h'.Alike h'') : h.Alike h'' :=
  ⟨hh.statics.trans hh'.statics, hh.payloadAt.trans hh'.payloadAt, hh.attrsAt.trans hh'.attrsAt⟩

theorem Alike.attr? (hh : h.Alike h') : h.attr? = h'.attr? := by
  funext addr name
  unfold Heap.attr?
  rw [hh.attrsAt]

@[grind =] theorem size_setAttr (h : Heap) (addr : Nat) (name : String) (v : Value) :
    (h.setAttr addr name v).instances.size = h.instances.size :=
  Array.size_modify

@[grind =] theorem size_setItems (h : Heap) (addr : Nat) (vs : List Value) :
    (h.setItems addr vs).instances.size = h.instances.size :=
  Array.size_modify

@[grind =] theorem size_setStatic (h : Heap) (c : ClassRef) (name : String) (v : Value) :
    (h.setStatic c name v).instances.size = h.instances.size :=
  rfl

theorem entries_congr (hstatics : h.statics = h'.statics) (k : Cls) :
    h.entries Γ k = h'.entries Γ k := by
  unfold Heap.entries
  rw [hstatics]

theorem get?_alloc (h : Heap) (i : Instance) (addr : Nat) :
    (h.alloc i).2.get? addr = if addr = h.instances.size then some i else h.get? addr :=
  Array.getElem?_push

theorem attrsAt_alloc (h : Heap) (i : Instance) (addr : Nat) :
    (h.alloc i).2.attrsAt addr = if addr = h.instances.size then i.attrs else h.attrsAt addr := by
  unfold attrsAt
  rw [get?_alloc]
  split <;> rfl

theorem payloadAt_alloc (h : Heap) (i : Instance) (addr : Nat) :
    (h.alloc i).2.payloadAt addr =
      if addr = h.instances.size then i.payload else h.payloadAt addr := by
  unfold payloadAt
  rw [get?_alloc]
  split <;> rfl

/-- A new plain instance reads like the empty place that it takes. -/
theorem alike_alloc (h : Heap) : h.Alike (h.alloc ⟨.plain, []⟩).2 := by
  have hnone : h.get? h.instances.size = none := Array.getElem?_size
  refine ⟨rfl, ?_, ?_⟩
  · funext addr
    rw [payloadAt_alloc]
    split
    · rename_i haddr
      rw [haddr, payloadAt, hnone]
      rfl
    · rfl
  · funext addr
    rw [attrsAt_alloc]
    split
    · rename_i haddr
      rw [haddr, attrsAt, hnone]
      rfl
    · rfl

end Heap

namespace Program

section Reading

variable {Γ : Program} {h h' : Heap}

/-! ## Texts -/

theorem shown_congr (hh : h.Alike h') (fuel : Nat) : Γ.shown h fuel = Γ.shown h' fuel := by
  induction fuel with
  | zero => rfl
  | succ fuel ih =>
    funext v
    unfold shown
    rw [ih, hh.payloadAt, hh.attr?]

theorem valueText_congr (hh : h.Alike h') (v : Value) : Γ.valueText h v = Γ.valueText h' v :=
  congrFun (shown_congr hh 100) v

/-! ## Conversions -/

theorem plain?_congr (hpayload : h.payloadAt = h'.payloadAt) (v : Value) :
    Γ.plain? h v = Γ.plain? h' v := by
  unfold plain?
  rw [hpayload]

theorem hasAttr_congr (hh : h.Alike h') (v : Value) : Γ.hasAttr h v = Γ.hasAttr h' v := by
  unfold hasAttr
  rw [hh.attr?]

theorem isInstanceOf_heap_congr (hh : h.Alike h') (v : Value) (t : Ty) :
    Γ.isInstanceOf h v t = Γ.isInstanceOf h' v t := by
  unfold isInstanceOf isInstance
  rw [hasAttr_congr hh]

theorem convertNumber_congr (hpayload : h.payloadAt = h'.payloadAt) (rule : NumericRule) (v : Value) :
    Γ.convertNumber h rule v = Γ.convertNumber h' rule v := by
  have hrefusal : NumericRule.refusal h rule v = NumericRule.refusal h' rule v := by
    unfold NumericRule.refusal
    rw [hpayload]
  unfold convertNumber
  rw [plain?_congr hpayload, hrefusal]

theorem enumMember?_congr (hpayload : h.payloadAt = h'.payloadAt) (c : ClassRef) (v : Value) :
    Γ.enumMember? h c v = Γ.enumMember? h' c v := by
  have hplain : Γ.plain? h = Γ.plain? h' := funext (plain?_congr hpayload)
  unfold enumMember? enumMember?.search
  rw [hplain]

theorem isWritable_congr (hpayload : h.payloadAt = h'.payloadAt) (v : Value) :
    Γ.isWritable h v = Γ.isWritable h' v := by
  unfold isWritable
  rw [plain?_congr hpayload]

theorem castFailureShowing_congr (hh : h.Alike h') (v : Value) (d : Ty) (wrong : String) :
    Γ.castFailureShowing h v d wrong = Γ.castFailureShowing h' v d wrong := by
  unfold castFailureShowing
  rw [isWritable_congr hh.payloadAt, valueText_congr hh]

theorem runOperation_heap_congr (hh : h.Alike h') {U U' : Ty → Value → Except Failure Value}
    (hU : U = U') (op : Operation) (v : Value) :
    Γ.runOperation h U op v = Γ.runOperation h' U' op v := by
  subst hU
  induction op with
  | test member hit miss hithit ihmiss =>
    unfold runOperation
    rw [isInstanceOf_heap_congr hh, hithit, ihmiss]
  | _ =>
    unfold runOperation
    simp only [convertNumber_congr hh.payloadAt, enumMember?_congr hh.payloadAt,
      isInstanceOf_heap_congr hh, castFailureShowing_congr hh]

theorem unboxed_congr (hh : h.Alike h') : Γ.unboxed h = Γ.unboxed h' := by
  funext dest v
  unfold unboxed
  simp only [runOperation_heap_congr hh rfl]

/-- A plan does the same to a value on both heaps. -/
theorem applyPlan_congr (hh : h.Alike h') (p : Plan) (v : Value) :
    Γ.applyPlan h p v = Γ.applyPlan h' p v := by
  unfold applyPlan
  simp only [runOperation_heap_congr hh (unboxed_congr hh)]

/-! ## Containers and shapes -/

theorem asToken_congr (hh : h.Alike h') (fuel : Nat) : Γ.asToken h fuel = Γ.asToken h' fuel := by
  induction fuel with
  | zero =>
    funext v
    unfold asToken
    rw [valueText_congr hh]
  | succ fuel ih =>
    funext v
    unfold asToken
    rw [ih, valueText_congr hh, hh.payloadAt]

theorem asContainer_congr (hh : h.Alike h') (v : Value) :
    Γ.asContainer h v = Γ.asContainer h' v := by
  unfold asContainer
  rw [asToken_congr hh]

theorem shapeOfClass_congr (hstatics : h.statics = h'.statics) (c : Cls) :
    Γ.shapeOfClass h c = Γ.shapeOfClass h' c := by
  have hothers : Γ.otherFunctions h c = Γ.otherFunctions h' c := by
    unfold otherFunctions
    simp only [Heap.entries_congr hstatics]
  have hcall : Γ.callEntry? h c = Γ.callEntry? h' c := by
    unfold callEntry?
    simp only [Heap.entries_congr hstatics]
  unfold shapeOfClass
  rw [hothers, hcall]

theorem shapeOf_congr (hh : h.Alike h') (d : Descriptor) : Γ.shapeOf h d = Γ.shapeOf h' d := by
  cases d with
  | value v =>
    unfold shapeOf
    dsimp only
    rw [valueText_congr hh]
  | type t =>
    unfold shapeOf
    dsimp only
    simp only [shapeOfClass_congr hh.statics]
  | _ => rfl

end Reading

end Program

theorem Handle.asContainer_congr {Γ : Program} {h h' : Heap} (hh : h.Alike h') (x : Handle) :
    x.asContainer Γ h = x.asContainer Γ h' := by
  cases x with
  | value v => exact Program.asContainer_congr hh v
  | described m => cases m <;> rfl

end CallAdapter
