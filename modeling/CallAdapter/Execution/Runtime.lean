import CallAdapter.Builder.Create
import CallAdapter.Execution.Construction

/-!
# Running programs

`Runtime.step` says what calling a value and accessing an attribute do, given a runtime for the
calls that this starts in turn. `Program.runtime` stacks as many steps as calls may nest; deeper
nesting is a recursion failure.
-/

namespace CallAdapter

namespace Runtime

/-- The runtime that refuses every operation because calls nest too deeply. -/
def exhausted : Runtime where
  call _ _ _ := throw (.exception .recursion none)
  getAttr _ _ := throw (.exception .recursion none)
  setAttr _ _ _ := throw (.exception .recursion none)

variable (Γ : Program) (rt : Runtime)

/-- Calls a declared function. -/
def callDeclared (id : Nat) (args : List Value) (keywords : Environment) : Eval Value := do
  match Γ.function? id with
  | none => throw .typeError
  | some f => rt.runBody Γ f (← Eval.lift (Environment.bind f.params args keywords))

/-- A function that stands alone in expressions outside of any body. -/
def outermost : Function where
  name := ""
  qualname := ""
  params := []
  returns := none
  body := .block []
  abstract := false
  overloaded := false
  hasReceiver := false

/-- Makes a value by a recipe. -/
def follow (r : Recipe) : Eval Value := do
  match r with
  | .expression e => rt.eval Γ outermost [] e
  | .failing f => throw f
  | .adapter builder request =>
    match (← get).builders[builder]? with
    | some b => Builder.answer Γ b request
    | none => throw .typeError

/-- Takes the value of a deferred object. -/
def force (addr : Nat) : Eval Value :=
  Deferred.take (Eval.deferredAt? · addr) (fun d => Eval.setArtifact addr (.deferred d))
    (follow Γ rt)

/-- Calls an object made by this library. -/
def callArtifact (addr : Nat) (a : Artifact) (args : List Value) : Eval Value := do
  match a with
  | .adapter a => a.call Γ rt args
  | .creator c => c.create Γ rt args
  | .invoker i =>
    match args with
    | receiver :: rest => i.invoke Γ rt receiver rest
    | [] => throw .typeError
  | .deferred _ =>
    let v ← force Γ rt addr
    if v.isNone then
      throw (.exception .typeError (some
        "lazy thunk resolved to nothing; build it with throw_on_failure=True to see why"))
    else rt.call v args []

/-- Calls a value. -/
def callValue (v : Value) (args : List Value) (keywords : Environment) : Eval Value := do
  match v with
  | .code (.function id) | .code (.staticMethod id) => callDeclared Γ rt id args keywords
  | .code (.builtin name) =>
    if keywords.isEmpty then callFunction Γ rt name args else throw .typeError
  | .code (.builtinMethod b name) =>
    match args with
    | receiver :: rest => callMethod Γ rt b name receiver rest keywords
    | [] => throw .typeError
  | .code (.builtinProperty _ name) =>
    match args, keywords with
    | [receiver], [] => computedAttribute Γ (← Eval.heap) receiver name
    | _, _ => throw .typeError
  | .method receiver (.function id) | .method receiver (.classMethod id) =>
    callDeclared Γ rt id (receiver :: args) keywords
  | .method receiver (.builtinMethod b name) => callMethod Γ rt b name receiver args keywords
  | .type t => makeFrom Γ rt t args keywords
  | .object c addr =>
    match Eval.artifactAt? (← get) addr with
    | some a => if keywords.isEmpty then callArtifact Γ rt addr a args else throw .typeError
    | none =>
      match (← Eval.heap).findEntry Γ c "__call__" with
      | some (_, .code (.function id)) => callDeclared Γ rt id (v :: args) keywords
      | some (_, .code (.staticMethod id)) => callDeclared Γ rt id args keywords
      | some (_, .code (.classMethod id)) =>
        callDeclared Γ rt id (.type (.cls c) :: args) keywords
      | _ => throw .typeError
  | _ => throw .typeError

/-- One level of calls over the runtime for the calls inside. -/
def step : Runtime where
  call := callValue Γ rt
  getAttr := readAttribute Γ rt
  setAttr := writeAttribute Γ rt

end Runtime

namespace Program

variable (Γ : Program)

/-- The runtime in which at most `depth` calls nest. -/
def runtimeTo : (depth : Nat) → Runtime
  | 0 => Runtime.exhausted
  | depth + 1 => Runtime.step Γ (runtimeTo depth)

/-- How deeply calls may nest. -/
def maxDepth : Nat := 1000

def runtime : Runtime := Γ.runtimeTo maxDepth

theorem runtimeTo_succ (n : Nat) : Γ.runtimeTo (n + 1) = Runtime.step Γ (Γ.runtimeTo n) := rfl

end Program

end CallAdapter
