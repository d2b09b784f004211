import CallAdapter.Shape.Descriptor
import CallAdapter.World

/-!
# Builders

A builder makes adapters from requests: it looks the member up, plans the conversions, and keeps
the outcome of searches by name in its cache. A missing shape or member and an invalid descriptor
are always raised; every other fault of a build is raised or gives the absent value, as the request
or the builder says. The cache keeps outcomes before this choice is made, so the choice of one
request never shows in another.
-/

namespace CallAdapter

/-- The fault of a search without result. -/
def NotFound.fault (m : NotFound) (shape : Shape) : Fault :=
  let about := Text.quoted m.name ++ " on " ++ m.container
  let (kind, message) : FaultKind × String :=
    match m.reason with
    | .noSuchAccessor =>
      (.noSuchAccessor, about ++ " has no " ++ (if shape.returnsVoid then "setter" else "getter") ++
        " matching " ++ shape.text)
    | reason =>
      (if reason = .openGeneric then .openGeneric else .memberNotFound,
        "no " ++ about ++ " matching " ++ shape.text ++
          (if m.detail.isEmpty then "" else ": " ++ m.detail))
  ⟨kind, message, kind.reason, some m.name, some m.container, some shape.text⟩

/-- A member as a value shows it in messages. -/
def Handle.shown (Γ : Program) (h : Heap) : Handle → String
  | .value v => Γ.valueText h v
  | .described (.target t) => t.describe
  | .described (.property p) => p.name
  | .described (.field f) => f.name

namespace Program

variable (Γ : Program) (h : Heap)

/-- A value in the place of a type or a container. -/
def asToken : (fuel : Nat) → Value → Token
  | 0, v => .other (Γ.valueText h v)
  | fuel + 1, v =>
    let shown := Γ.valueText h v
    match v with
    | .scalar s => .scalar s
    | .member c name => .member c name shown
    | .code f => .code f shown
    | .tuple vs => .tuple (vs.map (asToken fuel))
    | .object (.builtin .list) addr =>
      match h.payloadAt addr with
      | .items vs => .list (vs.map (asToken fuel))
      | _ => .other shown
    | .object c addr => .object c addr shown
    | _ => .other shown

/-- A value as a container of members. -/
def asContainer (v : Value) : Ty :=
  match v with
  | .none => .null
  | .type t => t
  | .scalar (.str s) => .text s
  | v => .token (Γ.asToken h 100 v)

end Program

/-- The container that a handle stands for when a name is searched in it. -/
def Handle.asContainer (Γ : Program) (h : Heap) : Handle → Ty
  | .value v => Γ.asContainer h v
  | x => .token (.other (x.shown Γ h))

namespace Builder

variable (Γ : Program)

def memberMissing (argument : String) : Failure :=
  .fault (.argumentNull argument "member is None")

/-- Checks shape and member of a request. -/
def prepare (shape : Descriptor) (member : Option Handle) (p : Particulars) : Eval Request := do
  let shape ← Eval.lift (Γ.shapeOf (← Eval.heap) shape)
  match member with
  | some m => pure { p with shape := shape, member := m }
  | none => throw (memberMissing (if p.name.isNone then "member" else "container"))

/-- Raises the fault of a build, or gives the absent value instead. -/
def withPolicy (throws : Bool) (build : Eval Value) : Eval Value :=
  tryCatch build fun e =>
    match e with
    | .fault f => if throws || f.kind.alwaysRaised then throw e else pure .none
    | e => throw e

/-- The member behind a handle, with the accessor chosen. -/
def targetOf (b : Builder) (member : Handle) (container : Option Ty) (setter : Bool) :
    Eval Target := do
  let w ← get
  let accessor (name : String) (declaring : Ty) (a : Option Target) : Eval Target :=
    match a with
    | some t => pure t
    | none =>
      let message := Text.quoted name ++ " has no " ++ (if setter then "setter" else "getter")
      let kind := FaultKind.noSuchAccessor
      throw (.fault ⟨kind, message, kind.reason, some name, some declaring.name, none⟩)
  match ← Eval.lift ((b.host.source Γ w).describe member container) with
  | some (.target t) => pure t
  | some (.property p) => accessor p.name p.declaring (p.accessor setter)
  | some (.field f) => accessor f.name f.declaring (f.accessor setter)
  | none =>
    let shown := member.shown Γ w.heap
    let kind := FaultKind.memberNotFound
    throw (.fault ⟨kind, shown ++ " is not a member handle", kind.reason, some shown, none, none⟩)

/-- Builds an adapter for a handle. -/
def buildDirect (b : Builder) (r : Request) : Eval Value := do
  let t ← targetOf Γ b r.member r.container r.shape.returnsVoid
  let refuse (kind : FaultKind) (message : String) : Eval Value :=
    throw (.fault ⟨kind, message, kind.reason, some t.name, none, some r.shape.text⟩)
  if t.isGeneric then refuse .openGeneric (t.describe ++ " has unbound type parameters")
  else
    let h ← Eval.heap
    match ← Eval.planning b.planner (Γ.planSignature h r.shape t r.bound).run with
    | .error m => refuse .conversionImpossible m.reason
    | .ok plan => Eval.newArtifact (.adapter (.member plan))

/-- Builds an adapter for a name in a container. -/
def buildNamed (b : Builder) (container : Ty) (name : String) (shape : Shape)
    (options : SearchMask) (bound : Value) : Eval Value := do
  let w ← get
  let found ← Eval.planning b.planner
    (Γ.resolve w.heap (b.host.source Γ w) b.config.constructorName container name shape
      (some options) bound)
  match found with
  | .error m => throw (.fault (m.fault shape))
  | .ok r => Eval.newArtifact (.adapter (.member r.plan))

/-- Builds an adapter for a name, or takes it from the cache. A bound value other than the absent
one bypasses the cache. -/
def named (b : Builder) (r : Request) (name : String) : Eval Value := do
  let container := r.member.asContainer Γ (← Eval.heap)
  let options := r.options.getD b.config.options
  let build := buildNamed Γ b container name r.shape options r.bound
  match b.cache with
  | none => build
  | some cache =>
    if !r.bound.isUnbound && !r.bound.isNone then build
    else
      let key : BindingKey := ⟨container, name, some r.shape, some options, r.bound⟩
      if key.hashable then Eval.cached cache (.binding key) build else throw .typeError

/-- Answers a request. -/
def answer (b : Builder) (r : Request) : Eval Value :=
  withPolicy (r.throwOnFailure.getD b.config.throwOnFailure) <|
    match r.name with
    | none => buildDirect Γ b r
    | some name => named Γ b r name

/-- Makes an adapter. -/
def create (b : Builder) (shape : Descriptor) (member : Option Handle) (p : Particulars) :
    Eval Value := do
  answer Γ b (← prepare Γ shape member p)

/-- Makes a deferred adapter; shape and member are checked at once. -/
def createDeferred (builder : Nat) (shape : Descriptor) (member : Option Handle)
    (p : Particulars) : Eval Value := do
  let r ← prepare Γ shape member p
  Eval.newArtifact (.deferred { recipe := .adapter builder r })

/-- The parametrized class through which an instance was made, if there is one. -/
def originOf (rt : Runtime) (receiver : Value) : Eval (Option Value) :=
  tryCatch (some <$> rt.getAttr receiver "__orig_class__") fun e =>
    match e with
    | .exception .attributeError _ => pure none
    | e => throw e

/-- The container in which a name is searched for an instance: its origin, else its class. Open type
parameters are bound to any type. -/
def containerFor (origin : Option Value) (receiver : Value) : Value :=
  match origin.getD (.type (Γ.className receiver)) with
  | .type t => .type (if Γ.isOpen t then Γ.close t else t)
  | v => v

/-- Makes an adapter for a name on the class of an instance, with the instance as receiver. An
instance that was made through a parametrized class is seen through it. -/
def bind (rt : Runtime) (b : Builder) (shape : Descriptor) (receiver : Value) (name : String)
    (options : Option SearchMask) (throwOnFailure : Option Bool) : Eval Value := do
  if receiver.isNone then throw (.fault (.argumentNull "instance" "instance is None"))
  let container := containerFor Γ (← originOf rt receiver) receiver
  create Γ b shape (if container.isNone then none else some (.value container))
    { name := some name, options := options, bound := receiver, throwOnFailure := throwOnFailure }

/-- Makes an adapter for a member with one of the planners, or gives the absent value where shape and
member do not fit. -/
def compileIn (planner : Nat) (shape : Option Shape) (t : Option Target) (bound : Value) :
    Eval Value := do
  match ← Eval.planning planner (Γ.adapterFor (← Eval.heap) shape t bound) with
  | some a => Eval.newArtifact (.adapter a)
  | none => pure .none

/-- Adapts an adapter or an annotated callable value to another shape of the same arity. An
adapter of that very shape is given back. -/
def wrapIn (planner : Nat) (shape : Option Shape) (source : Value) : Eval Value := do
  match shape with
  | none => throw (.fault (.argumentNull "shape" "target shape is None"))
  | some shape =>
    if source.isNone then throw (.fault (.argumentNull "source" "source is None"))
    let w ← get
    let adapter := match source with
      | .object _ addr => Eval.artifactAt? w addr
      | _ => none
    match adapter with
    | some (.adapter inner) =>
      if inner.shape.refusesComparison shape then throw .typeError
      else if inner.shape.same shape then pure source
      else
        match ← Eval.planning planner (Γ.planLayer shape inner.shape) with
        | some l => Eval.newArtifact (.adapter (.overAdapter l source inner))
        | none => pure .none
    | _ =>
      let own ← Eval.lift (Γ.shapeOfCallable w.heap source)
      match ← Eval.planning planner (Γ.planLayer shape own) with
      | some l => Eval.newArtifact (.adapter (.overCallable l source))
      | none => pure .none

def wrap (b : Builder) (shape : Descriptor) (source : Value) : Eval Value := do
  let s ← Eval.lift (Γ.shapeOf (← Eval.heap) shape)
  wrapIn Γ b.planner (some s) source

/-- Makes a late-typed caller of a member. -/
def createInvoker (b : Builder) (member : Option Handle) (container : Option Ty) :
    Eval Value := do
  match member with
  | none => throw (memberMissing "member")
  | some m =>
    let t ← targetOf Γ b m container false
    Eval.newArtifact (.invoker (← Eval.planning b.planner (Γ.invoker t)))

/-- Makes a late-typed caller of a constructor: the given one, or the constructor of a class that
takes no arguments, or its only one. -/
def createInstanceCreator (b : Builder) (subject : Option Handle) : Eval Value := do
  match subject with
  | none => throw (.fault (.argumentNull "container" "container is None"))
  | some (.described (.target t)) => make t
  | some x =>
    let w ← get
    let container := x.asContainer Γ w.heap
    let mask := SearchMask.ofFlags [.instanceScope, .publicName, .privateName]
    let found ← Eval.lift ((b.host.source Γ w).constructors container mask)
    match found.find? fun t => t.params.isEmpty, found with
    | some t, _ | none, [t] => make t
    | none, _ =>
      let kind := FaultKind.memberNotFound
      throw (.fault ⟨kind, container.name ++ " has no parameterless constructor", kind.reason,
        some "constructor", some container.name, none⟩)
where
  make (t : Target) : Eval Value := do
    Eval.newArtifact (.creator (← Eval.planning b.planner (Γ.instanceCreator t)))

/-- Registers a new builder. What is not given is made: a planner that keeps plans and a cache
where the settings ask for one. -/
def new (host : Host) (config : BuildConfig) (cache planner : Option Nat) : Eval Nat := do
  let planner ← match planner with
    | some p => pure p
    | none => Eval.newPlanner config.useCache
  let cache ← match cache with
    | some c => pure (some c)
    | none => if config.useCache then some <$> Eval.newCache else pure none
  let w ← get
  set { w with builders := w.builders.push ⟨config, host, planner, cache⟩ }
  pure w.builders.size

/-- The default builder, made from the current settings when it is first asked for. -/
def standard : Eval Nat := do
  let w ← get
  match w.defaultBuilder with
  | some id => pure id
  | none =>
    match BuildConfig.ofTexts w.settings with
    | .error word => throw (BuildConfig.unknownOption word)
    | .ok config =>
      let id ← new .classes config none none
      modify fun w => { w with defaultBuilder := some id }
      pure id

end Builder

end CallAdapter
