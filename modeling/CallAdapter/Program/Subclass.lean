import CallAdapter.Heap

/-!
# Subclasses and instances

When a class counts as a subclass of another: by its ancestors, by the operations it offers to a
structural interface, by registration, or by having the attributes of a protocol that can be
checked. A protocol that cannot be checked refuses the question, which is the outcome `none`.
-/

namespace CallAdapter

/-- The name of the method that an operation is looked up by. -/
def Builtin.Operation.method : Builtin.Operation → String
  | .size => "__len__"
  | .iterate => "__iter__"
  | .contains => "__contains__"
  | .call => "__call__"
  | .advance => "__next__"

namespace Program

variable (Γ : Program)

/-- Whether the nearest class that settles an operation provides it. -/
def offers (c : Cls) (op : Builtin.Operation) : Bool :=
  ((Γ.mro c).findSome? fun
    | .builtin b => if b.defines op then some true else none
    | k => ((Γ.entries k).find? fun e => e.1 == op.method).map fun e => !e.2.isNone).getD false

/-- Whether instances of the class can be hashed. -/
def hashes (c : Cls) : Bool :=
  ((Γ.mro c).findSome? fun
    | .builtin b => b.hashing
    | k => ((Γ.entries k).find? fun e => e.1 == "__hash__").map fun e => !e.2.isNone).getD false

/-- Whether a class satisfies a structural interface by the operations it offers. -/
def fitsStructure (c : Cls) : Builtin → Bool
  | .sized => Γ.offers c .size
  | .iterable => Γ.offers c .iterate
  | .container => Γ.offers c .contains
  | .callable => Γ.offers c .call
  | .iterator => Γ.offers c .advance && Γ.offers c .iterate
  | .collection => Γ.offers c .size && Γ.offers c .iterate && Γ.offers c .contains
  | .hashable => Γ.hashes c
  | _ => false

def isProtocol : Cls → Bool
  | .builtin _ => false
  | .declared c => ((Γ.info? c).map (·.isProtocol)).getD false

def isRuntimeProtocol : Cls → Bool
  | .builtin _ => false
  | .declared c => ((Γ.info? c).map fun i => i.isProtocol && i.isRuntime).getD false

/-- Names of the class machinery that are no attributes of a protocol. -/
def machineryNames : List String :=
  ["__abstractmethods__", "__annotations__", "__dict__", "__doc__", "__init__", "__module__",
    "__new__", "__slots__", "__subclasshook__", "__weakref__", "__class_getitem__",
    "__match_args__", "__parameters__", "__orig_bases__", "__hash__"]

/-- The attributes that a protocol asks for: what it and its declared ancestors name. -/
def protocolNames (c : Cls) : List String :=
  ((Γ.mro c).flatMap fun
    | .builtin _ => []
    | .declared d =>
      match Γ.info? d with
      | some i => i.annotations.map (·.1) ++ i.namespaceEntries.map (·.1)
      | none => []).filter fun n => !machineryNames.contains n

/-- Whether a protocol declares a function under the name. -/
def declaresFunction (c : Cls) (name : String) : Bool :=
  match Γ.findEntry c name with
  | some (_, .code (.function _)) | some (_, .code (.staticMethod _))
  | some (_, .code (.classMethod _)) => true
  | _ => false

/-- Whether every attribute of a protocol is a function, so that classes can be checked. -/
def protocolIsCallable (c : Cls) : Bool := (Γ.protocolNames c).all (Γ.declaresFunction c)

/-- Whether the nearest class that has an attribute of the name gives it a value; none when no class
has it. -/
def entryValued? (c : Cls) (name : String) : Option Bool :=
  (Γ.mro c).findSome? fun k =>
    let listed := ((Γ.entries k).find? fun e => e.1 == name).map fun e => !e.2.isNone
    match k with
    | .builtin b =>
      if [Builtin.Operation.size, .iterate, .contains, .call, .advance].any fun op =>
          op.method == name && b.defines op
      then some true
      else listed
    | .declared _ => listed

/-- Whether a class has an attribute of the name with a value, by its own or its ancestors'
entries. -/
def hasEntry (c : Cls) (name : String) : Bool := (Γ.entryValued? c name).getD false

/-- All registrations: those of builtin classes and those of the program. -/
def allRegistrations : List (Cls × Cls) :=
  let builtins : List Builtin :=
    [.int, .float, .complex, .decimal, .str, .bytes, .tuple, .list, .dict, .set, .frozenset]
  builtins.flatMap (fun b => b.registeredFor.map fun a => (.builtin a, .builtin b)) ++
    Γ.registrations

/-- Whether the class is one of the ancestors of the other, or is that class. -/
def derives (c d : Cls) : Bool := (Γ.mro c).any fun k => decide (k = d)

/-- Whether a class is an abstract interface. -/
def isAbstract (c : Cls) : Bool :=
  (Γ.mro c).any fun
    | .builtin b => b.isAbstract
    | .declared _ => false

/-- Whether a class counts as a subclass of another, following at most `fuel` registrations, which
only abstract interfaces look at. -/
def subclassWithin : (fuel : Nat) → Cls → Cls → Bool
  | fuel, c, d =>
    Γ.derives c d ||
    (match d with
      | .builtin b => Γ.fitsStructure c b
      | .declared _ =>
        Γ.isRuntimeProtocol d && (Γ.protocolNames d).all (Γ.hasEntry c)) ||
    match fuel with
    | 0 => false
    | fuel + 1 =>
      Γ.isAbstract d &&
        Γ.allRegistrations.any fun r => Γ.derives r.1 d && subclassWithin fuel c r.2

/-- Whether `c` counts as a subclass of `d`; none when `d` refuses the question. -/
def subclass? (c d : Cls) : Option Bool :=
  if Γ.isProtocol d && !(Γ.isRuntimeProtocol d && Γ.protocolIsCallable d) then none
  else some (Γ.subclassWithin Γ.allRegistrations.length c d)

def isEnumClass (c : Cls) : Bool :=
  (Γ.mro c).any fun
    | .builtin .enum => true
    | _ => false

/-- The class of a class. -/
def metaclass (c : Cls) : Builtin :=
  let has (b : Builtin) : Bool := Γ.derives c (.builtin b)
  if has .any then .anyMeta
  else if has .enum then .enumMeta
  else if has .protocol then .protocolMeta
  else if Γ.isAbstract c then .abstractMeta
  else .metaclass

/-- The class of an object that is used as a type. -/
def classOfType : Ty → Cls
  | .null => .builtin .none
  | .cls c => .builtin (Γ.metaclass c)
  | .form .list => .builtin .bareAlias
  | .form _ => .builtin .specialForm
  | .text _ => .builtin .str
  | .forward _ => .builtin .forwardReference
  | .var _ => .builtin .typeVariable
  | .params _ => .builtin .parameterVariable
  | .union false _ => .builtin .unionAlias
  | .union true _ => .builtin .pipeUnion
  | .applied (.native (.builtin .callable)) _ => .builtin .callableAlias
  | .applied (.native _) _ => .builtin .nativeAlias
  | .applied .callable _ => .builtin .callableAlias
  | .applied .annotated _ => .builtin .annotatedAlias
  | .applied .literal _ => .builtin .literalAlias
  | .applied .concatenate _ => .builtin .concatenateAlias
  | .applied _ _ => .builtin .typingAlias
  | .list _ => .builtin .list
  | .ellipsis => .builtin .ellipsis
  | .token (.scalar s) => .builtin s.classOf
  | .token (.object c _ _) => c
  | .token (.member c _ _) => .declared c
  | .token (.tuple _) => .builtin .tuple
  | .token (.list _) => .builtin .list
  | .token _ => .builtin .object

def classOfCallee : Callee → Builtin
  | .function _ => .function
  | .staticMethod _ => .staticMethod
  | .classMethod _ => .classMethod
  | .property _ _ => .property
  | .builtinProperty _ _ => .property
  | .cachedProperty _ => .cachedProperty
  | .builtin _ => .builtinFunction
  | .builtinMethod _ _ => .methodDescriptor
  | .slot _ _ => .slotDescriptor
  | .computed _ _ => .computedDescriptor

/-- The class of a value. -/
def classOf : Value → Cls
  | .none => .builtin .none
  | .unbound => .builtin .unbound
  | .scalar s => .builtin s.classOf
  | .tuple _ => .builtin .tuple
  | .set false _ => .builtin .set
  | .set true _ => .builtin .frozenset
  | .dict _ => .builtin .dict
  | .member c _ => .declared c
  | .object c _ => c
  | .type t => Γ.classOfType t
  | .code f => .builtin (classOfCallee f)
  | .method _ (.builtinMethod _ _) => .builtin .builtinFunction
  | .method _ _ => .builtin .method

/-- Whether a class has an entry for what a protocol declares as no function. The entry may be the
absent value. -/
def hasField (protocol c : Cls) (name : String) : Bool :=
  (Γ.entryValued? c name).isSome && !Γ.declaresFunction protocol name

/-- Whether a value has an attribute of a protocol, by its class or of its own. The absent value is
no function that a protocol declares. -/
def hasAttr (h : Heap) (v : Value) (protocol : Cls) (name : String) : Bool :=
  Γ.hasEntry (Γ.classOf v) name ||
  match v with
  | .object c addr =>
    match h.attr? addr name with
    | some w => !(w.isNone && Γ.declaresFunction protocol name)
    | none => Γ.hasField protocol c name
  | .type (.cls c) => Γ.hasEntry c name || Γ.hasField protocol c name
  | _ => false

/-- Whether a value is an instance of a class; none when the class refuses the question. -/
def isInstance (h : Heap) (v : Value) (d : Cls) : Option Bool :=
  let c := Γ.classOf v
  if c = d then some true
  else if d = .builtin .any || d = .builtin .protocol then none
  else if Γ.isProtocol d then
    if Γ.isRuntimeProtocol d then
      some (Γ.derives c d || (Γ.protocolNames d).all (Γ.hasAttr h v d))
    else none
  else Γ.subclass? c d

/-- Whether a value is an instance of the class behind a type; none when that is no class. -/
def isInstanceOf (h : Heap) (v : Value) (t : Ty) : Option Bool :=
  match t.origin with
  | .cls c => Γ.isInstance h v c
  | _ => none

/-- The subclass question on types, answered for classes and otherwise with "no". -/
def isSubclass (s t : Ty) : Bool :=
  s.isClass && t.isClass &&
  match s, t with
  | .cls c, .cls d => Γ.subclass? c d == some true
  | _, _ => false

def isEnum (t : Ty) : Bool := Γ.isSubclass t (.builtin .enum)

def isAbstractType : Ty → Bool
  | .cls c => Γ.isAbstract c
  | _ => false

theorem derives_self_builtin (b : Builtin) : Γ.derives (.builtin b) (.builtin b) = true := by
  simp [derives, mro_builtin, Builtin.mem_ancestry_self]

end Program

end CallAdapter
