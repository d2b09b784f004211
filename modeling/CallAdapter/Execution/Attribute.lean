import CallAdapter.Execution.Native

/-!
# Attributes

Reading and writing the attributes of values. A read looks first for access functions and slots of
the class, then for attributes of the instance itself, then for any other entry of the class, which
is bound to the instance if it is a function. A write goes to the access function or slot of the
class, else to the instance, unless the instance is frozen or stores no attributes of its own.

A class can take over: by a function for all reads of its instances, one for the reads that fail
otherwise, and one for all writes. An entry that is an object can say itself what reading and
writing the attribute do.
-/

namespace CallAdapter

/-- The entry that access by its name finds on the class of the receiver. -/
def Value.found? (Γ : Program) (h : Heap) (r : Value) (name : String) : Option Value :=
  (h.findEntry Γ (Γ.classOf r) name).map (·.2)

/-- Whether the failure says that there is no such attribute. -/
def Failure.isAttributeError : Failure → Bool
  | exception .attributeError _ | exception (.frozenField _) _ => true
  | exception (.named n) _ => n == "AttributeError" || n == "FrozenInstanceError"
  | _ => false

namespace Program

variable (Γ : Program)

/-- Whether instances of a class store attributes besides the slots of the class. -/
def storesAttributes (c : Cls) : Bool :=
  (Γ.mro c).any fun
    | .declared d => ((Γ.info? d).map fun i => i.slots.isNone).getD false
    | .builtin b => b == .cell || b == .baseException || b == .enum

/-- Whether assigning the attribute is refused because one of the ancestors is a frozen record
class: it refuses every attribute of its own instances, and its fields on instances of
subclasses. -/
def refusesAmong (ancestors : List Cls) (c : Cls) (name : String) : Bool :=
  ancestors.any fun
    | .declared d =>
      match Γ.info? d with
      | some i =>
        i.frozen == some true && (decide (c = .declared d) || i.fields.any fun f => f.name == name)
      | none => false
    | .builtin _ => false

def refusesAssignment (c : Cls) (name : String) : Bool := Γ.refusesAmong (Γ.mro c) c name

/-- Whether the entry is an object that gives the attribute and takes assignments to it. -/
def isDataDescriptor (h : Heap) (entry : Value) : Bool :=
  (entry.found? Γ h "__get__").isSome &&
    ((entry.found? Γ h "__set__").isSome || (entry.found? Γ h "__delete__").isSome)

end Program

namespace Runtime

variable (Γ : Program) (rt : Runtime)

/-- What a builtin class computes for an attribute. -/
def computedAttribute (h : Heap) (v : Value) (name : String) : Eval Value :=
  match v, name with
  | .member _ n, "name" => pure (.str n)
  | .member c n, "value" => pure ((Γ.memberValue c n).getD .none)
  | _, _ =>
    match Γ.plain? h v, name with
    | some (.bool b), "real" | some (.bool b), "numerator" => pure (.int (if b then 1 else 0))
    | some (.bool _), "imag" => pure (.int 0)
    | some (.bool _), "denominator" => pure (.int 1)
    | some (.int n), "real" | some (.int n), "numerator" => pure (.int n)
    | some (.int _), "imag" => pure (.int 0)
    | some (.int _), "denominator" => pure (.int 1)
    | some (.float x), "real" => pure (.scalar (.float x))
    | some (.float _), "imag" => pure (.scalar (.float Binary64.zero))
    | some (.complex re _), "real" => pure (.scalar (.float re))
    | some (.complex _ im), "imag" => pure (.scalar (.float im))
    | some (.fraction q), "numerator" | some (.fraction q), "_numerator" => pure (.int q.num)
    | some (.fraction q), "denominator" | some (.fraction q), "_denominator" =>
      pure (.int q.den)
    | _, _ => throw .attributeError

/-- Whether an entry decides access to the attribute before the instance does. -/
def controlsAccess : Value → Bool
  | .code (.property _ _) | .code (.builtinProperty _ _) | .code (.slot _ _)
  | .code (.computed _ _) => true
  | _ => false

/-- The slot of an instance, once it is filled. -/
def slotContent (h : Heap) (v : Value) (name : String) : Eval Value :=
  match v with
  | .object _ addr =>
    match h.attr? addr name with
    | some w => pure w
    | none => computedAttribute Γ h v name
  | _ => computedAttribute Γ h v name

/-- Reads an attribute through the entry that the class of a value has for it. -/
def readEntry (v : Value) (c : Cls) (entry : Value) (name : String) : Eval Value := do
  match entry with
  | .code (.property (some id) _) => rt.call (.code (.function id)) [v] []
  | .code (.property none _) => throw .attributeError
  | .code (.builtinProperty _ n) | .code (.computed _ n) =>
    computedAttribute Γ (← Eval.heap) v n
  | .code (.slot _ n) => slotContent Γ (← Eval.heap) v n
  | .code (.cachedProperty id) =>
    if Γ.storesAttributes c then
      let w ← rt.call (.code (.function id)) [v] []
      match v with
      | .object _ addr => Eval.modifyHeap (·.setAttr addr name w)
      | _ => pure ()
      pure w
    else throw .typeError
  | .code (.function id) => pure (.method v (.function id))
  | .code (.staticMethod id) => pure (.code (.function id))
  | .code (.classMethod id) => pure (.method (.type (.cls c)) (.function id))
  | .code (.builtinMethod b n) => pure (.method v (.builtinMethod b n))
  | w =>
    match w.found? Γ (← Eval.heap) "__get__" with
    | some get => rt.call get [w, v, .type (.cls c)] []
    | none => pure w

/-- Calls a function by which the class of a value takes part in access to its attributes. -/
def callHook (v : Value) (hook : Value) (name : String) (args : List Value) : Eval Value := do
  rt.call (← readEntry Γ rt v (Γ.classOf v) hook name) args []

/-- Reads an attribute of a class. -/
def readClass (c : Cls) (name : String) : Eval Value := do
  let h ← Eval.heap
  match h.findEntry Γ c name with
  | some (_, .code (.staticMethod id)) => pure (.code (.function id))
  | some (_, .code (.classMethod id)) => pure (.method (.type (.cls c)) (.function id))
  | some (_, .code (.builtinMethod .int "from_bytes")) =>
    pure (.method (.type (.cls c)) (.builtinMethod .int "from_bytes"))
  | some (_, w) =>
    match w.found? Γ h "__get__" with
    | some get => rt.call get [w, .none, .type (.cls c)] []
    | none => pure w
  | none => throw .attributeError

/-- The name of a function or class as an attribute of it. -/
def nameAttribute? (v : Value) (name : String) : Option String :=
  match v, name with
  | .code (.function id), "__name__" => (Γ.function? id).map (·.name)
  | .code (.function id), "__qualname__" => (Γ.function? id).map (·.qualname)
  | .type (.cls c), "__name__" | .type (.cls c), "__qualname__" => some c.name
  | _, _ => none

/-- Reads an attribute of a value, where its class leaves that to the rules. Every value has a class
as an attribute, which a class may define otherwise for its instances. -/
def readOrdinary (v : Value) (name : String) : Eval Value := do
  match nameAttribute? Γ v name with
  | some s => pure (.str s)
  | none =>
    match v with
    | .type t =>
      if name == "__class__" then return .type (Γ.className v)
      match t.origin with
      | .cls c => readClass Γ rt c name
      | _ => throw .attributeError
    | _ =>
      let c := Γ.classOf v
      let h ← Eval.heap
      let own := match v with
        | .object _ addr => h.attr? addr name
        | _ => none
      match v.found? Γ h name, own with
      | some e, some w =>
        if controlsAccess e || Γ.isDataDescriptor h e then readEntry Γ rt v c e name else pure w
      | some e, none => readEntry Γ rt v c e name
      | none, own =>
        if name == "__class__" then return .type (Γ.className v)
        match own with
        | some w => pure w
        | none => throw .attributeError

/-- Reads an attribute of a value by the function that its class has for all reads, if there is
one. -/
def readFirst (h : Heap) (v : Value) (name : String) : Eval Value :=
  match v.found? Γ h "__getattribute__" with
  | some hook => callHook Γ rt v hook "__getattribute__" [.str name]
  | none => readOrdinary Γ rt v name

/-- Reads an attribute of a value; where there is no such attribute, by the function that its class
has for those reads. -/
def readAttribute (v : Value) (name : String) : Eval Value := do
  let h ← Eval.heap
  match v.found? Γ h "__getattr__" with
  | some hook =>
    tryCatch (readFirst Γ rt h v name) fun e =>
      if e.isAttributeError then callHook Γ rt v hook "__getattr__" [.str name] else throw e
  | none => readFirst Γ rt h v name

/-- Writes an attribute of an instance, where its class leaves that to the rules. -/
def writeOrdinary (c : Cls) (addr : Nat) (name : String) (w : Value) : Eval Unit := do
  let h ← Eval.heap
  let v := Value.object c addr
  let store := if Γ.storesAttributes c then Eval.modifyHeap (·.setAttr addr name w)
    else throw .attributeError
  -- the slots of complex numbers are read only
  match v.found? Γ h name with
  | some (.code (.property _ (some id))) => do
    let _ ← rt.call (.code (.function id)) [v, w] []
  | some (.code (.property _ none)) | some (.code (.builtinProperty _ _))
  | some (.code (.computed _ _)) | some (.code (.slot (.builtin .complex) _)) =>
    throw .attributeError
  | some (.code (.slot _ _)) => Eval.modifyHeap (·.setAttr addr name w)
  | some (.code _) | none => store
  | some e =>
    match e.found? Γ h "__set__", e.found? Γ h "__delete__" with
    | some set, _ => do
      let _ ← callHook Γ rt e set "__set__" [v, w]
    | none, some _ => throw .attributeError
    | none, none => store

/-- Writes an attribute of a value. A frozen record class refuses what is its own, and hands on the
rest to the first ancestor behind it that has a function for all writes. -/
def writeAttribute (v : Value) (name : String) (w : Value) : Eval Unit := do
  match v with
  | .type t =>
    match t.origin with
    | .cls (.declared c) =>
      if (Γ.memberValue c name).isSome then throw .attributeError
      else Eval.modifyHeap (·.setStatic c name w)
    | _ => throw .typeError
  | .object c addr =>
    match (← Eval.heap).findEntry Γ c "__setattr__" with
    | some (o, hook) =>
      if Γ.refusesAmong ((Γ.mro c).takeWhile (· ≠ o)) c name then
        throw (.exception (.frozenField name) none)
      let _ ← callHook Γ rt v hook "__setattr__" [.str name, w]
    | none =>
      if Γ.refusesAssignment c name then throw (.exception (.frozenField name) none)
      writeOrdinary Γ rt c addr name w
  | _ => throw .attributeError

end Runtime

end CallAdapter
