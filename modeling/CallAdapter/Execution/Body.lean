import CallAdapter.Execution.Attribute

/-!
# Bodies

What functions do when they are called with bound arguments. Expressions are evaluated anew at
every call, so a list, a cell or an instance that a body writes down is a new one each time.
-/

namespace CallAdapter

namespace Program

variable (Γ : Program)

/-- The class that a name means in a body. -/
def classValue? (name : String) : Option Value :=
  match Γ.classNamed? name with
  | some c => some (.type (.cls (.declared c)))
  | none => (Notation.builtinNamed? name).map Value.ofTy

/-- The entry of a type's own namespace, without binding. -/
def rawEntry? (h : Heap) (v : Value) (name : String) : Option Value :=
  match v with
  | .type (.cls c) => ((h.entries Γ c).find? fun e => e.1 == name).map (·.2)
  | _ => none

end Program

namespace Runtime

variable (Γ : Program) (rt : Runtime)

/-- A new set of values, without repetition. -/
def newSet (vs : List Value) : Eval Value := do
  if vs.all (Γ.hashableValue Program.comparisonDepth) then
    pure (.set false (Γ.distinctValues (← Eval.heap) vs))
  else throw .typeError

/-- A new table; later entries of equal keys give the earlier ones their value. -/
def newDict (kvs : List (Value × Value)) : Eval Value := do
  let h ← Eval.heap
  let same (k l : Value) : Bool := Γ.equalIn h Program.comparisonDepth k l
  if kvs.all fun e => Γ.hashableValue Program.comparisonDepth e.1 then
    pure (.dict (kvs.foldl (fun table e =>
      if table.any fun f => same f.1 e.1 then
        table.map fun f => if same f.1 e.1 then (f.1, e.2) else f
      else table ++ [e]) []))
  else throw .typeError

mutual

/-- Evaluates an expression in the environment of a call of `f`. -/
def eval (f : Function) (env : Environment) : Expr → Eval Value
  | .value v => pure v
  | .arg name =>
    match env.get? name with
    | some v => pure v
    | none => throw (.exception (.named "NameError") none)
  | .attr e name => do rt.getAttr (← eval f env e) name
  | .add a b => do
    let v ← eval f env a
    sum Γ v (← eval f env b)
  | .list es => do Eval.newList (← evalAll f env es)
  | .tuple es => do pure (.tuple (← evalAll f env es))
  | .set es => do newSet Γ (← evalAll f env es)
  | .dict ks vs => do newDict Γ ((← evalAll f env ks).zip (← evalAll f env vs))
  | .cell e => do Eval.newCell (← eval f env e)
  | .fresh => Eval.alloc (.builtin .object) ⟨.plain, []⟩
  | .call g es => do
    let callee ← eval f env g
    rt.call callee (← evalAll f env es) []
  | .classNamed name =>
    match Γ.classValue? name with
    | some v => pure v
    | none => throw (.exception (.named "NameError") none)
  | .entry e name => do
    let v ← eval f env e
    match Γ.rawEntry? (← Eval.heap) v name with
    | some w => pure w
    | none => throw (.exception (.named "KeyError") none)
  | .echo =>
    let args := if f.hasReceiver then env.tail else env
    Eval.newList (.str f.name :: args.map (·.2))

def evalAll (f : Function) (env : Environment) : List Expr → Eval (List Value)
  | [] => pure []
  | e :: es => do
    let v ← eval f env e
    pure (v :: (← evalAll f env es))

end

/-- Runs statements until one returns or fails; a body that ends gives the absent value. -/
def runBlock (f : Function) (env : Environment) : List Stmt → Eval Value
  | [] => pure .none
  | .ret e :: _ => rt.eval Γ f env e
  | .assign target name e :: rest => do
    let v ← rt.eval Γ f env target
    rt.setAttr v name (← rt.eval Γ f env e)
    runBlock f env rest
  | .raise e :: _ => throw e

/-- Whether a value is the initialisation function that classes have from protocols. -/
def isProtocolInit : Value → Bool
  | .code (.function id) =>
    match (Γ.function? id).map (·.body) with
    | some Body.inheritInit => true
    | _ => false
  | _ => false

/-- Initialises an instance of a class that implements a protocol. The class takes over the
function that is found, or the empty initialisation where there is none. -/
def inheritInit (receiver : Value) (args : List Value) (keywords : Environment) : Eval Value := do
  match Γ.classOf receiver with
  | .declared d =>
    let c := Cls.declared d
    if Γ.isProtocol c then throw .typeError
    let h ← Eval.heap
    let found : Option Value := (Γ.mro c).findSome? fun k =>
      ((h.entries Γ k).find? fun e => e.1 == "__init__" && !isProtocolInit Γ e.2).map (·.2)
    let init := found.getD (.code (.builtinMethod .object "__init__"))
    Eval.modifyHeap (·.setStatic d "__init__" init)
    match init with
    | .code f => rt.call (.method receiver f) args keywords
    | _ => throw .typeError
  | _ => throw .typeError

/-- Runs the body of a function with bound arguments. -/
def runBody (f : Function) (env : Environment) : Eval Value := do
  let receiver := (env.head?.map (·.2)).getD .none
  match f.body with
  | .block stmts => rt.runBlock Γ f env stmts
  | .storeAll constants => do
    match receiver with
    | .object _ addr =>
      Eval.modifyHeap fun h =>
        (env.tail ++ constants).foldl (fun h e => h.setAttr addr e.1 e.2) h
    | _ => pure ()
    pure .none
  | .compare fields =>
    match env with
    | [(_, .object c a), (_, .object d b)] =>
      let h ← Eval.heap
      let all := fields.all fun n =>
        Γ.equalIn h Program.comparisonDepth ((h.attr? a n).getD .none) ((h.attr? b n).getD .none)
      pure (.bool (decide (c = d) && all))
    | _ => pure (.bool false)
  | .describe => pure (.str (Γ.valueText (← Eval.heap) receiver))
  | .inheritInit =>
    let extra := match env.get? "args" with
      | some (.tuple vs) => vs
      | _ => []
    rt.inheritInit Γ receiver extra []

end Runtime

end CallAdapter
