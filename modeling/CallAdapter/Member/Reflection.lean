import CallAdapter.Member.Basic
import CallAdapter.Program.Container

/-!
# Members of classes

The members that a look-up finds on a class itself. A name is looked up along the ancestors and
the nearest definition of each spelling counts, whatever it is. Functions are procedures of
instances, wrapped functions are static procedures or properties, and every other entry or
annotation is a field. Type variables are seen through the container: each annotation is shown
with the types that the container binds.
-/

namespace CallAdapter

namespace Reflection

variable (Γ : Program) (h : Heap)

/-- A definition that a look-up found: its name, the class that holds it, and the entry, which is
absent where the name is only annotated. -/
structure Found where
  name : String
  owner : Cls
  entry : Option Value

/-- The names of a class in the order of a look-up: annotated names first, then other entries. -/
def namesOf (c : Cls) : List (String × Option Value) :=
  let entries := h.entries Γ c
  let annotated := (Γ.classHints c).map (·.1)
  (annotated.map fun n => (n, (entries.find? fun e => e.1 == n).map (·.2))) ++
    (entries.filter fun e => !annotated.contains e.1).map fun e => (e.1, some e.2)

/-- The nearest definition of every spelling that matches the name. -/
def lookup (c : Ty) (name : String) (binding : SearchMask) : List Found :=
  if !c.isClass then []
  else
    match c with
    | .cls k =>
      let owners :=
        if binding.has .declaredOnly then [k]
        else (Γ.mro k).filter fun o => decide (o ≠ .builtin .object)
      let all := owners.flatMap fun o =>
        ((namesOf Γ h o).filter fun n => binding.nameMatches n.1 name).map fun n =>
          (⟨n.1, o, n.2⟩ : Found)
      nearest all
    | _ => []
where
  /-- Keeps the first definition of each spelling. -/
  nearest : List Found → List Found
    | [] => []
    | f :: fs => f :: (nearest fs).filter fun g => g.name != f.name

/-- The type that a receiver has: the container for members of its own class. -/
def receiverType (container : Ty) (c : Ty) (owner : Cls) : Ty :=
  match c with
  | .cls k => if k = owner then container else .cls owner
  | _ => .cls owner

/-- An annotation as seen through a container. -/
def seen (m : Bindings) (t : Ty) : Ty := (t.normalize.substitute m).normalize

/-- The parameters of a signature, typed by hints and seen through a container. -/
def parameters (ps : ParameterList) (hints : List (String × Ty)) (m : Bindings) :
    List Parameter :=
  ps.filterMap fun p =>
    let declared := seen m ((Program.hint? hints p.1).getD .any)
    match p.2 with
    | .variadicKeyword => none
    | .variadic =>
      some ⟨p.1, .applied (.native (.builtin .tuple)) [declared, .ellipsis], .variadic⟩
    | .keyword => some ⟨p.1, declared, .keyword⟩
    | .positionalOnly | .positional => some ⟨p.1, declared, .positional⟩

/-- The result type of a signature. -/
def resultType (s : Signature) (hints : List (String × Ty)) (m : Bindings) : Ty :=
  match Program.hint? hints "return" with
  | some t => seen m t
  | none => if s.hasResult then seen m .any else .any

/-- The hints of the function behind a callee. -/
def hintsOf (f : Callee) : List (String × Ty) :=
  match Program.Callee.function? f with
  | some id => Γ.functionHints id
  | none => []

/-- Describes an entry as a procedure, if it is one. -/
def procedure? (container c : Ty) (m : Bindings) (f : Found) : Option Target := do
  let .code callee ← f.entry | none
  let (sig, impl, isStatic, skipsFirst) ← match callee with
    | .staticMethod id => do
      some (← Γ.functionSignature id, Value.code (.function id), true, false)
    | .classMethod id => do
      -- the function is bound to the class that was searched
      some (← Γ.functionSignature id, Value.method (.type c) (.function id), true, true)
    | .function id => do some (← Γ.functionSignature id, Value.code callee, false, true)
    | .builtinMethod b n => do
      let ps ← b.methodParametersOf n
      some (⟨ps, false⟩, Value.code callee, false, true)
    | _ => none
  let hints := hintsOf Γ callee
  let ps := if skipsFirst then sig.params.drop 1 else sig.params
  some <| Target.marked
    { kind := .procedure, name := f.name
      declaring := some (receiverType container c f.owner)
      isStatic := isStatic
      params := parameters ps hints m
      result := resultType sig hints m
      isPublic := isPublicName f.name
      impl := .callable impl }

/-- The functions behind a property or a computed-once attribute. -/
def accessorsOf? : Value → Option (Option Callee × Option Nat)
  | .code (.property g s) => some (g.map Callee.function, s)
  | .code (.cachedProperty id) => some (some (.function id), none)
  | .code (.builtinProperty b n) => some (some (.builtinProperty b n), none)
  | _ => none

/-- The type that a getter gives. -/
def getterType (m : Bindings) : Option Callee → Ty
  | some (.function id) =>
    match Γ.functionSignature id with
    | some sig => resultType sig (Γ.functionHints id) m
    | none => .any
  | _ => .any

/-- The annotation of the value that a setter takes. -/
def assignedHint? (id : Nat) : Option Ty := do
  let sig ← Γ.functionSignature id
  let (n, _) ← sig.params[1]?
  Program.hint? (Γ.functionHints id) n

/-- The type that a setter takes; without an annotation it is the one that the getter gives. -/
def setterType (m : Bindings) (getter : Option Callee) (setter : Option Nat) : Ty :=
  match setter.bind (assignedHint? Γ) with
  | some t => seen m t
  | none => getterType Γ m getter

/-- Describes a property or a computed-once attribute. -/
def property? (receiver : Ty) (m : Bindings) (name : String) (isPublic : Bool) (entry : Value) :
    Option PropertyInfo :=
  (accessorsOf? entry).map fun (getter, setter) =>
    let getType := getterType Γ m getter
    let setType := setterType Γ m getter setter
    { name := name, declaring := receiver
      type := if getter.isNone && setter.isSome then setType else getType
      isStatic := false
      getter := getter.map fun g => Target.marked
        { kind := .propertyGetter, name := name, declaring := some receiver, isStatic := false
          result := getType, isPublic := isPublic, impl := .callable (.code g) }
      setter := setter.map fun id => Target.marked
        { kind := .propertySetter, name := name, declaring := some receiver, isStatic := false
          assigned := some setType, isPublic := isPublic
          impl := .callable (.code (.function id)) }
      isPublic := isPublic }

def isClassVar : Ty → Bool
  | .text s => s.startsWith "ClassVar" || s.startsWith "typing.ClassVar"
  | .form .classVar | .applied .classVar _ => true
  | _ => false

def isFinal : Ty → Bool
  | .text s => s.startsWith "Final" || s.startsWith "typing.Final"
  | .form .final | .applied .final _ => true
  | _ => false

/-- Whether instances of the class are frozen, by its own or its nearest ancestor's mark. -/
def isFrozen (c : Ty) : Bool :=
  match c with
  | .cls k =>
    ((Γ.mro k).findSome? fun
      | .declared d => (Γ.info? d).bind (·.frozen)
      | .builtin .cell => some false
      | .builtin _ => none).getD false
  | _ => false

/-- Whether an entry is something callable, a class, or access to an attribute, and so no field. -/
def isNoField : Value → Bool
  | .code _ | .method _ _ => true
  | .type t => t.isClass || (match t with | .cls _ => true | _ => false)
  | _ => false

/-- The annotation of a found name in the class that holds it. -/
def fieldHint? (f : Found) : Option Ty := Program.hint? (Γ.classHints f.owner) f.name

/-- Whether instances store the attribute themselves. -/
def isStored (f : Found) : Bool :=
  match f.entry with
  | none | some (.code (.slot _ _)) => true
  | _ => false

/-- Whether the field belongs to the class, for entries and annotations that are fields. -/
def fieldScope? (f : Found) : Option Bool :=
  match fieldHint? Γ f, isStored f with
  | some t, true => some (isClassVar t)
  | none, true => some false
  | some t, false => some (isClassVar t || isFinal t)
  | none, false => if (f.entry.map isNoField).getD true then none else some true

/-- The annotated type of a field, else the class of its value. -/
def fieldType (m : Bindings) (f : Found) : Ty :=
  match fieldHint? Γ f, f.entry with
  | some t, _ => seen m t
  | none, some v => if isStored f then .any else Γ.className v
  | none, none => .any

/-- Describes an entry or an annotation as a field, if it is one. -/
def field? (container c : Ty) (m : Bindings) (f : Found) : Option FieldInfo :=
  if f.name.startsWith "__" && f.name.endsWith "__" then none
  else
    (fieldScope? Γ f).map fun isStatic =>
      let type := fieldType Γ m f
      let holdsMember := match f.entry with
        | some (.member _ _) => true
        | _ => false
      { name := f.name
        declaring := if isStatic then .cls f.owner else receiverType container c f.owner
        type := type
        isStatic := isStatic
        readOnly := ((fieldHint? Γ f).map isFinal).getD false || (!isStatic && isFrozen Γ c) ||
          (isStatic && holdsMember)
        isPublic := isPublicName f.name
        isGeneric := !type.freeVars.isEmpty }

def procedures (container : Ty) (name : String) (binding : SearchMask) : List Target :=
  let (c, m) := Γ.split container
  ((lookup Γ h c name binding).filterMap (procedure? Γ container c m)).filter fun t =>
    binding.admits t.isStatic t.isPublic

def properties (container : Ty) (name : String) (binding : SearchMask) : List PropertyInfo :=
  let (c, m) := Γ.split container
  (lookup Γ h c name binding).filterMap fun f =>
    let isPublic := isPublicName f.name
    if binding.admits false isPublic then
      f.entry.bind fun e => property? Γ (receiverType container c f.owner) m f.name isPublic e
    else none

def fields (container : Ty) (name : String) (binding : SearchMask) : List FieldInfo :=
  let (c, m) := Γ.split container
  ((lookup Γ h c name binding).filterMap (field? Γ container c m)).filter fun f =>
    binding.admits f.isStatic f.isPublic

/-- Whether a class still lacks implementations, so that it has no instances. -/
def isIncomplete (c : Cls) : Bool :=
  match c with
  | .builtin b => !b.abstractMethods.isEmpty
  | .declared d => ((Γ.info? d).map fun i => !i.missing.isEmpty).getD false

/-- The hints for constructor parameters: class annotations from the furthest ancestor down, then
those of the creation and initialisation functions. Later hints win. -/
def constructorHints (c : Cls) : List (String × Ty) :=
  let ofClasses := (Γ.mro c).reverse.flatMap fun k =>
    (Γ.classHints k).filter fun a => !isClassVar a.2
  let ofMaker (name : String) : List (String × Ty) :=
    let hints := match Γ.nearestMaker h c name with
      | some (_, .code f) => hintsOf Γ f
      | some (.builtin .cell, _) =>
        if name == "__init__" then [("value", .var .cellContent)] else []
      | _ => []
    hints.filter fun a => match a.2 with
      | .text _ => false
      | _ => true
  (ofClasses ++ ofMaker "__new__" ++ ofMaker "__init__").reverse

def constructors (container : Ty) (binding : SearchMask) : List Target :=
  let (t, m) := Γ.split container
  if !t.isClass then []
  else
    match t with
    | .cls c =>
      if isIncomplete Γ c || !binding.admits false true then []
      else
        match Γ.classSignature h c with
        | none => []
        | some sig =>
          [Target.marked
            { kind := .constructor, name := c.name, declaring := some container
              isStatic := false
              params := parameters sig.params (constructorHints Γ h c) m
              result := container
              impl := .callable (.type t) }]
    | _ => []

/-- The name that a property goes by on its own. -/
def propertyName (entry : Callee) : String :=
  let nameOf (id : Nat) : String := ((Γ.function? id).map (·.name)).getD ""
  match entry with
  | .cachedProperty id => nameOf id
  | .property (some id) _ => nameOf id
  | .builtinProperty _ n => n
  | _ => "property"

/-- The function behind a handle that is a function of a class. -/
def isDefinedBy (id : Nat) : Option Value → Bool
  | some (.code f) => Program.Callee.function? f == some id
  | _ => false

/-- Describes a callable value on its own: a free procedure with everything it takes. -/
def describeCallable (v : Value) : Option Target := do
  let v := match v with
    | .code (.staticMethod id) => Value.code (.function id)
    | other => other
  if !Γ.isCallable v then none
  else
    let sig ← Γ.signature? h v
    let (name, shortName) : String × String := match v with
      | .code (.function id) | .method _ (.function id) | .method _ (.classMethod id) =>
        match Γ.function? id with
        | some f => (f.qualname, f.name)
        | none => ("", "")
      | .code (.builtin n) => (n, n)
      | .code (.builtinMethod b n) | .method _ (.builtinMethod b n) => (b.name ++ "." ++ n, n)
      | other => (Γ.valueText h other, "")
    let hints := match v with
      | .code f | .method _ f => hintsOf Γ f
      | other =>
        match h.findEntry Γ (Γ.classOf other) "__call__" with
        | some (_, .code f) => hintsOf Γ f
        | _ => []
    let owner : Option Ty := match v with
      | .method _ (.builtinMethod _ _) => none
      | .method (.type t) _ => some t
      | .method r _ => some (Γ.className r)
      | _ => none
    some <| Target.marked
      { kind := .procedure, name := name, declaring := owner, isStatic := true
        params := parameters sig.params hints []
        result := resultType sig hints []
        isPublic := isPublicName shortName
        impl := .callable v }

/-- What a class has by a name, bound to the class if it is a class method. -/
def classAttribute? (c : Ty) (name : String) : Option Value :=
  match c with
  | .cls k =>
    (h.findEntry Γ k name).map fun e =>
      match e.2 with
      | .code (.staticMethod id) => .code (.function id)
      | .code (.classMethod id) => .method (.type c) (.function id)
      | .code (.builtinMethod .int "from_bytes") =>
        .method (.type c) (.builtinMethod .int "from_bytes")
      | v => v
  | _ => none

/-- Describes a direct handle on a member, seen through a container where one is given. -/
def describe (handle : Handle) (container : Option Ty) : Option Member :=
  match handle with
  | .described m => some m
  | .value (.type t) =>
    match t with
    | .cls _ | .applied _ _ | .union _ _ | .form .list =>
      if (match t with | .cls _ => true | _ => t.origin?.isSome) then
        (constructors Γ h t (SearchMask.ofFlags [.instanceScope, .publicName])).head?.map .target
      else none
    | other => (describeCallable Γ h (.type other)).map .target
  | .value (.code f) =>
    match f with
    | .property _ _ | .cachedProperty _ | .builtinProperty _ _ =>
      let m := (container.map fun c => (Γ.split c).2).getD []
      let name := propertyName Γ f
      (property? Γ (container.getD .any) m name (isPublicName name) (.code f)).map .property
    | .classMethod id =>
      container.bind fun c =>
        let cls := (Γ.split c).1
        let name := ((Γ.function? id).map (·.name)).getD ""
        -- the class is asked for what it has by that name; the receiver type is the container itself
        (classAttribute? Γ h cls name).bind fun impl =>
          (procedure? Γ c cls [] ⟨name, .builtin .object, some (.code f)⟩).map fun t =>
            .target { t with declaring := some c, impl := .callable impl }
    | .function id =>
      let found := container.bind fun c =>
        let (cls, m) := Γ.split c
        let name := ((Γ.function? id).map (·.name)).getD ""
        ((lookup Γ h cls name SearchMask.empty).find? fun x => isDefinedBy id x.entry).map
          fun x => (procedure? Γ c cls m x).map Member.target
      match found with
      | some m => m
      | none => (describeCallable Γ h (.code f)).map .target
    | _ => (describeCallable Γ h (.code f)).map .target
  | .value v => (describeCallable Γ h v).map .target

/-- Whether the class of the container has nothing by the name of a class method. -/
def lacksAttribute (handle : Handle) (container : Option Ty) : Bool :=
  match handle, container with
  | .value (.code (.classMethod id)), some c =>
    (classAttribute? Γ h (Γ.split c).1 (((Γ.function? id).map (·.name)).getD "")).isNone
  | _, _ => false

/-- The members of classes as a source. -/
def source : MemberSource where
  procedures c n b := .ok (procedures Γ h c n b)
  constructors c b := .ok (constructors Γ h c b)
  properties c n b := .ok (properties Γ h c n b)
  fields c n b := .ok (fields Γ h c n b)
  describe x c := if lacksAttribute Γ h x c then .error .attributeError else .ok (describe Γ h x c)

end Reflection

end CallAdapter
