import CallAdapter.Program.Linearization
import CallAdapter.Program.Subclass

/-!
# Declarations

Functions and classes as they are written, and what declaring them adds to a program: the linear
order of ancestors, the namespace with the wrappers of functions, the members of an enumeration,
the functions that record classes and protocols get without writing them, and the names that still
lack an implementation. Values in declarations are evaluated before.
-/

namespace CallAdapter

structure FunctionDecl where
  params : List Param
  returns : Option Ty
  body : Body

/-- What a function in a class receives first. -/
inductive MethodKind
  | ofInstance
  | static
  | ofClass
  deriving DecidableEq, Repr

/-- Options of a single field of a record class. -/
structure FieldOptions where
  default : Option Value := none
  init : Bool := true
  keywordOnly : Option Bool := none

inductive ClassEntry
  | annotated (name : String) (type : Ty) (value : Option Value) (options : Option FieldOptions)
  | attribute (name : String) (value : Value)
  | method (name : String) (kind : MethodKind) (f : FunctionDecl) (abstract overloaded : Bool)
  | property (name : String) (getter setter : Option FunctionDecl)
  | cached (name : String) (f : FunctionDecl)
  /-- A second name for an entry of the same body. -/
  | secondName (name target : String)

/-- Options of a record class. -/
structure RecordOptions where
  frozen : Bool := false
  keywordOnly : Bool := false
  slots : Bool := false

structure ClassDecl where
  ref : ClassRef
  bases : List Ty
  body : List ClassEntry
  slots : Option (List String) := none
  record : Option RecordOptions := none
  isRuntime : Bool := false
  /-- The interfaces that the class is registered for. -/
  registeredFor : List Cls := []

namespace Ty

/-- The class of a base in the list of bases; a base may also stand for nothing, where a later one
covers it. -/
def baseClass? (later all : List Ty) : Ty → Option Cls
  | applied (.generic (.builtin .generic)) _ =>
    let isGenericAlias : Ty → Bool
      | applied (.generic _) _ => true
      | _ => false
    let isProtocol : Ty → Bool
      | cls (.builtin .protocol) => true
      | _ => false
    if all.any isProtocol || later.any isGenericAlias then Option.none
    else some (.builtin .generic)
  | t =>
    match t.origin with
    | cls c => some c
    | _ => Option.none

/-- The classes of all bases. -/
def baseClasses (all : List Ty) : List Ty → List Cls
  | [] => []
  | t :: ts => (baseClass? ts all t).toList ++ baseClasses all ts

end Ty

namespace ClassDecl

/-- The direct bases; a class without any has the root class. -/
def baseClasses (d : ClassDecl) : List Cls :=
  match Ty.baseClasses d.bases d.bases with
  | [] => [.builtin .object]
  | cs => cs

/-- The type parameters that the bases bring in: all of their variables in order, or those of the
base that lists them. -/
def parameters (d : ClassDecl) : List TypeVar :=
  if d.bases.any Ty.isAlias then
    match d.bases.find? fun t =>
        match t with
        | .applied (.generic (.builtin .generic)) _ => true
        | _ => false with
    | some t => t.freeVars
    | none => Ty.distinctVars (d.bases.flatMap fun t => if t.isAlias then t.freeVars else [])
  else []

end ClassDecl

/-- What is known of a class while its body is declared. -/
structure Draft where
  functions : Array Function
  entries : List (String × Value) := []
  annotations : List (String × Ty) := []
  /-- Fields as they were written, in order. -/
  options : List (String × FieldOptions) := []

namespace Draft

def addEntry (d : Draft) (name : String) (v : Value) : Draft :=
  { d with entries := Heap.setIn d.entries name v }

def annotate (d : Draft) (name : String) (t : Ty) : Draft :=
  if d.annotations.any fun a => a.1 == name then
    { d with annotations := d.annotations.map fun a => if a.1 == name then (name, t) else a }
  else { d with annotations := d.annotations ++ [(name, t)] }

/-- Adds a function that is no entry of its own. -/
def addFunction (d : Draft) (name qualname : String) (f : FunctionDecl)
    (abstract overloaded hasReceiver : Bool) : Nat × Draft :=
  let function : Function :=
    { name := name, qualname := qualname, params := f.params, returns := f.returns
      body := f.body, abstract := abstract, overloaded := overloaded, hasReceiver := hasReceiver }
  (d.functions.size, { d with functions := d.functions.push function })

/-- Adds an entry of a class body; `owner` is the printed name of the class. -/
def add (owner : String) (d : Draft) : ClassEntry → Draft
  | .annotated name type value options =>
    let d := d.annotate name type
    let d := match options with
      | some o => { d with options := d.options ++ [(name, o)] }
      | none => d
    match value.or (options.bind (·.default)) with
    | some v => d.addEntry name v
    | none => d
  | .attribute name v => d.addEntry name v
  | .method name kind f abstract overloaded =>
    let (id, d) := d.addFunction name (owner ++ "." ++ name) f abstract overloaded
      (kind != .static)
    d.addEntry name <| .code <|
      match kind with
      | .ofInstance => .function id
      | .static => .staticMethod id
      | .ofClass => .classMethod id
  | .property name getter setter =>
    let addAccessor (d : Draft) : Option FunctionDecl → Option Nat × Draft
      | none => (none, d)
      | some f =>
        let (id, d) := d.addFunction name (owner ++ "." ++ name) f false false true
        (some id, d)
    let (g, d) := addAccessor d getter
    let (s, d) := addAccessor d setter
    d.addEntry name (.code (.property g s))
  | .cached name f =>
    let (id, d) := d.addFunction name (owner ++ "." ++ name) f false false true
    d.addEntry name (.code (.cachedProperty id))
  | .secondName name target =>
    match d.entries.find? fun e => e.1 == target with
    | some e => d.addEntry name e.2
    | none => d

end Draft

namespace Program

variable (Γ : Program)

/-- The order of ancestors from given bases. -/
def orderOf (self : Cls) (bases : List Cls) : List Cls :=
  (Linearization.linearize? self (bases.map fun b => (b, Γ.mro b))).getD
    (self :: bases.flatMap Γ.mro)

/-- Whether an entry of an enumeration's body is one of its members. -/
def isMemberEntry (e : String × Value) : Bool :=
  !e.1.startsWith "_" &&
    match e.2 with
    | .code _ | .method _ _ => false
    | _ => true

/-- The members of an enumeration and the entries that refer to them. A name for a value that has
a member already is a second name of that member. -/
def enumMembers (ref : ClassRef) (entries : List (String × Value)) :
    List (String × Value) × List (String × Value) :=
  let (members, others) := entries.partition isMemberEntry
  members.foldl (fun (found : List (String × Value) × List (String × Value)) e =>
    match found.1.find? fun m => m.2.equal e.2 with
    | some m => (found.1, found.2 ++ [(e.1, .member ref m.1)])
    | none => (found.1 ++ [e], found.2 ++ [(e.1, .member ref e.1)])) ([], others)

/-- Whether an entry is a function that declares itself abstract. -/
def isAbstractEntry (functions : Array Function) : Value → Bool
  | .code f =>
    match f with
    | .function id | .staticMethod id | .classMethod id =>
      ((functions[id]?).map (·.abstract)).getD false
    | _ => false
  | _ => false

/-- The names that the class or an ancestor leaves to subclasses. -/
def abstractNamesOf (k : Cls) : List String :=
  match k with
  | .builtin b => b.abstractMethods
  | .declared c => ((Γ.info? c).map (·.missing)).getD []

/-- Whether the nearest definition of a name among ancestors is abstract. -/
def isAbstractAbove (functions : Array Function) (ancestors : List Cls) (name : String) : Bool :=
  (ancestors.findSome? fun
    | .declared c =>
      ((Γ.info? c).bind fun i => i.namespaceEntries.find? fun e => e.1 == name).map fun e =>
        isAbstractEntry functions e.2
    | .builtin b =>
      if b.abstractMethods.contains name then some true
      else if [Builtin.Operation.size, .iterate, .contains, .call, .advance].any fun op =>
          op.method == name && b.defines op
      then some false
      else none).getD false

/-- The names of a new class that lack an implementation. -/
def missingNames (functions : Array Function) (ancestors bases : List Cls)
    (entries : List (String × Value)) : List String :=
  let own := (entries.filter fun e => isAbstractEntry functions e.2).map (·.1)
  let inherited := (bases.flatMap Γ.abstractNamesOf).filter fun n =>
    !(entries.any fun e => e.1 == n) && Γ.isAbstractAbove functions ancestors n
  own ++ inherited.eraseDups

/-- Whether an annotation marks a class attribute, which is no field. -/
def marksClassVar : Ty → Bool
  | .text s => s.startsWith "ClassVar" || s.startsWith "typing.ClassVar"
  | .form .classVar | .applied .classVar _ => true
  | _ => false

/-- Puts a field behind those there are, or in the place of the one of its name. -/
def putField (fields : List RecordField) (f : RecordField) : List RecordField :=
  if fields.any fun g => g.name == f.name then
    fields.map fun g => if g.name == f.name then f else g
  else fields ++ [f]

/-- The fields of a record class: those of its ancestors from the furthest down, then its own. -/
def recordFields (options : RecordOptions) (ancestors : List Cls) (d : Draft) :
    List RecordField :=
  let inherited := ancestors.reverse.flatMap fun
    | .declared c =>
      ((Γ.info? c).map fun i => if i.frozen.isSome then i.fields else []).getD []
    | .builtin _ => []
  let default? (name : String) : Option Value :=
    match d.entries.find? fun e => e.1 == name with
    | some e => some e.2
    | none =>
      ancestors.findSome? fun k => ((Γ.entries k).find? fun e => e.1 == name).map (·.2)
  let isSlot : Value → Bool
    | .code (.slot _ _) => true
    | _ => false
  let own := (d.annotations.filter fun a => !marksClassVar a.2).map fun a =>
    let o := ((d.options.find? fun x => x.1 == a.1).map (·.2)).getD {}
    let default := match d.options.find? fun x => x.1 == a.1 with
      | some x => x.2.default
      | none => (default? a.1).filter fun v => !isSlot v
    ({ name := a.1, type := a.2, default := default, init := o.init
       keywordOnly := o.keywordOnly.getD options.keywordOnly } : RecordField)
  (inherited ++ own).foldl putField []

/-- The initialisation function of a record class: fields by position, then those by name only. -/
def recordInit (options : RecordOptions) (fields : List RecordField) : FunctionDecl :=
  let given := fields.filter (·.init)
  let param (f : RecordField) : Param :=
    ⟨f.name, some f.type, if f.keywordOnly then .keyword else .positional, f.default⟩
  let fixed := fields.filter fun f => !f.init && options.slots
  { params := ⟨"self", none, .positional, none⟩ ::
      ((given.filter fun f => !f.keywordOnly) ++ given.filter (·.keywordOnly)).map param
    returns := some .null
    body := .storeAll (fixed.filterMap fun f => f.default.map fun v => (f.name, v)) }

/-- Adds a function under a name that the body leaves free. -/
def addUnlessThere (owner : String) (d : Draft) (name : String) (f : FunctionDecl) : Draft :=
  if d.entries.any fun e => e.1 == name then d
  else d.add owner (.method name .ofInstance f false false)

/-- The functions that a record class gets without writing them. -/
def addRecordEntries (owner : String) (options : RecordOptions) (fields : List RecordField)
    (d : Draft) : Draft :=
  let self : Param := ⟨"self", none, .positional, none⟩
  let other : Param := ⟨"other", none, .positional, none⟩
  let d := addUnlessThere owner d "__init__" (recordInit options fields)
  let d := addUnlessThere owner d "__repr__" ⟨[self], none, .describe⟩
  let d := addUnlessThere owner d "__eq__" ⟨[self, other], none, .compare (fields.map (·.name))⟩
  if options.frozen then addUnlessThere owner d "__hash__" ⟨[self], none, .block []⟩
  else if d.entries.any fun e => e.1 == "__hash__" then d
  else d.addEntry "__hash__" .none

/-- Stores attributes in slots of the class instead of its namespace. -/
def addSlots (self : Cls) (names : List String) (d : Draft) : Draft :=
  { d with entries := (d.entries.filter fun e => !names.contains e.1) ++
      names.map fun n => (n, .code (.slot self n)) }

/-- Whether some ancestor initialises instances in a way of its own. -/
def inheritsInit (ancestors : List Cls) : Bool :=
  ancestors.any fun
    | .builtin b => b == .cell || b == .list || b == .dict || b == .set || b == .baseException
    | k => (Γ.entries k).any fun e => e.1 == "__init__"

/-- The initialisation function that a protocol gives to classes without one. -/
def protocolInit : FunctionDecl :=
  ⟨[⟨"self", none, .positional, none⟩, ⟨"args", none, .variadic, none⟩,
    ⟨"kwargs", none, .variadicKeyword, none⟩], none, .inheritInit⟩

/-- Declares a function on its own. -/
def declareFunction (name : String) (f : FunctionDecl) : Nat × Program :=
  let (id, d) := ({ functions := Γ.functions } : Draft).addFunction name name f false false false
  (id, { Γ with functions := d.functions })

/-- Adds what a class gets besides its body. -/
def complete (c : ClassDecl) (ancestors : List Cls) (isProtocol : Bool)
    (fields : List RecordField) (d : Draft) : Draft :=
  let self := Cls.declared c.ref
  let owner := c.ref.qualname
  let has (name : String) : Bool := d.entries.any fun e => e.1 == name
  let d := if has "__eq__" && !has "__hash__" then d.addEntry "__hash__" .none else d
  let d := match c.slots with
    | some names => addSlots self names d
    | none => d
  let d := if isProtocol && !has "__init__" && !Γ.inheritsInit ancestors then
      let (id, d) := d.addFunction "_no_init_or_replace_init" "_no_init_or_replace_init"
        protocolInit false false true
      d.addEntry "__init__" (.code (.function id))
    else d
  match c.record with
  | none => d
  | some options =>
    let d := addRecordEntries owner options fields d
    if options.slots then
      let inherited := ancestors.flatMap fun
        | .declared k => ((Γ.info? k).bind (·.slots)).getD []
        | .builtin _ => []
      let names := (fields.map (·.name)).filter fun n => !inherited.contains n
      addSlots self names d
    else d

/-- Declares a class. -/
def declare (c : ClassDecl) : Program :=
  let self := Cls.declared c.ref
  let bases := c.baseClasses
  let order := Γ.orderOf self bases
  let ancestors := order.tail
  let isProtocol := bases.any fun b => decide (b = .builtin .protocol)
  let isEnum := ancestors.any fun b => decide (b = .builtin .enum)
  let draft := c.body.foldl (Draft.add c.ref.qualname) { functions := Γ.functions }
  let (members, entries) := if isEnum then enumMembers c.ref draft.entries
    else ([], draft.entries)
  let draft := { draft with entries := entries }
  let fields := match c.record with
    | some options => Γ.recordFields options ancestors draft
    | none => []
  let done := Γ.complete c ancestors isProtocol fields draft
  let isInterface := ancestors.any fun
    | .builtin b => b.isAbstract
    | .declared _ => false
  let isGeneric := ancestors.any fun b => decide (b = .builtin .generic)
  let slotted := c.slots.isSome || (c.record.map (·.slots)).getD false
  let info : ClassInfo :=
    { ref := c.ref
      mro := order
      bases := c.bases
      parameters := if isGeneric then some c.parameters else none
      namespaceEntries := done.entries
      annotations := done.annotations
      missing := if isInterface then Γ.missingNames done.functions ancestors bases done.entries
        else []
      isProtocol := isProtocol
      isRuntime := c.isRuntime
      frozen := c.record.map (·.frozen)
      fields := fields
      slots := if slotted then some (c.slots.getD (fields.map (·.name))) else none
      members := members }
  { classes := Γ.classes ++ [info]
    functions := done.functions
    registrations := Γ.registrations ++ c.registeredFor.map fun i => (i, self) }

end Program

end CallAdapter
