import CallAdapter.Execution.Body

/-!
# Making instances

What calling a class does. A class makes an instance by its own or an inherited creation function,
and initialises it if it is an instance of the class. Subclasses of plain classes hold the plain
value that their arguments make. A parametrized class marks the instance with its arguments where
the instance can store the mark.
-/

namespace CallAdapter

-- Boolean conditions are decided as in the core library, whatever other instances are in scope.
attribute [local instance (high)] instDecidableEqBool

namespace Program

variable (Γ : Program)

/-- The text that converting a value to text gives. -/
def plainText (h : Heap) (v : Value) : String :=
  match v with
  | .member c name =>
    match Γ.plain? h v with
    | some s => s.text
    | none => c.qualname ++ "." ++ name
  | _ =>
    match Γ.plain? h v with
    | some (.str s) => s
    | some (.decimal d) => d.text
    | some (.fraction q) => if q.den = 1 then toString q.num else toString q.num ++ "/" ++ toString q.den
    | _ => Γ.valueText h v

/-- The nearest plain class among the ancestors, whose values instances hold. -/
def plainBase? (c : Cls) : Option Builtin :=
  (Γ.mro c).findSome? fun
    | .builtin b =>
      if [Builtin.bool, .int, .float, .complex, .str, .bytes, .decimal, .fraction, .list, .tuple,
          .dict, .set, .frozenset].contains b
      then some b else none
    | .declared _ => none

end Program

namespace Runtime

variable (Γ : Program) (rt : Runtime)

/-- Makes a number by a conversion rule, or zero without an argument. -/
def makeNumber (rule : NumericRule) (zero : Scalar) (args : List Value) : Eval Value := do
  match args with
  | [] => pure (.scalar zero)
  | [v] => Eval.lift (Γ.convertNumber (← Eval.heap) rule v)
  | _ => throw .typeError

/-- The real and imaginary part of a number as binary numbers. -/
def complexParts (v : Value) : Eval (Binary64 × Binary64) := do
  match Γ.plain? (← Eval.heap) v with
  | some (.complex re im) => pure (re, im)
  | some (.str _) | some (.bytes _) | none => throw .typeError
  | some s =>
    match ← Eval.lift (NumericRule.toFloat.applyScalar s) with
    | .float x => pure (x, Binary64.zero)
    | _ => throw .typeError

def negated (x : Binary64) : Binary64 :=
  match x with
  | .nan => .nan
  | .infinity n => .infinity (!n)
  | .finite n m e => .finite (!n) m e

def makeComplex (args : List Value) : Eval Value := do
  match args with
  | [] => pure (.scalar (.complex Binary64.zero Binary64.zero))
  | [v] => do
    let (re, im) ← complexParts Γ v
    pure (.scalar (.complex re im))
  | [v, w] => do
    let (a, b) ← complexParts Γ v
    let (c, d) ← complexParts Γ w
    let h ← Eval.heap
    let isComplex (x : Value) : Bool := match Γ.plain? h x with
      | some (.complex _ _) => true
      | _ => false
    let re := if isComplex w then a.add (negated d) else a
    let im := if isComplex v then b.add c else c
    pure (.scalar (.complex re im))
  | _ => throw .typeError

/-- Makes a fraction from one number, or from a numerator and a denominator. -/
def makeFraction (args : List Value) : Eval Value := do
  match args with
  | [n, .none] | [n] => makeNumber Γ .toFraction (.fraction 0) [n]
  | [n, d] =>
    let h ← Eval.heap
    match (Γ.plain? h n).bind Scalar.toRat?, (Γ.plain? h d).bind Scalar.toRat? with
    | some p, some q =>
      if q = 0 then throw (.exception (.named "ZeroDivisionError") none)
      else pure (.scalar (.fraction (p / q)))
    | _, _ => throw .typeError
  | _ => makeNumber Γ .toFraction (.fraction 0) args

/-- The elements of an optional argument. -/
def elementsOf (args : List Value) : Eval (List Value) := do
  match args with
  | [] => pure []
  | [v] =>
    match Γ.elements? (← Eval.heap) v with
    | some vs => pure vs
    | none => throw .typeError
  | _ => throw .typeError

/-- The value of an argument that may be given by name. -/
def argumentOf (args : List Value) (keywords : Environment) (position : Nat) (name : String) :
    Option Value :=
  args[position]?.or (keywords.get? name)

/-- Makes a value of a builtin class. -/
def makePlain (b : Builtin) (args : List Value) (keywords : Environment) : Eval Value := do
  let argument := argumentOf args keywords
  match b with
  | .object => if args.isEmpty then Eval.alloc (.builtin .object) ⟨.plain, []⟩ else throw .typeError
  | .none => if args.isEmpty then pure .none else throw .typeError
  | .bool =>
    match args with
    | [] => pure (.bool false)
    | [v] => pure (.bool (Γ.truth (← Eval.heap) v))
    | _ => throw .typeError
  | .int => makeNumber Γ .toInt (.int 0) args
  | .float => makeNumber Γ .toFloat (.float Binary64.zero) args
  | .complex =>
    makeComplex Γ ((argument 0 "real").toList ++ (argument 1 "imag").toList)
  | .decimal =>
    match (argument 1 "context").getD .none with
    | .none => makeNumber Γ .toDecimal (.decimal Decimal.zero) (argument 0 "value").toList
    | _ => throw .typeError
  | .fraction =>
    makeFraction Γ ((argument 0 "numerator").toList ++ (argument 1 "denominator").toList)
  | .str =>
    match args with
    | [] => pure (.str "")
    | [v] => pure (.str (Γ.plainText (← Eval.heap) v))
    | _ => throw .typeError
  | .bytes =>
    match args with
    | [] => pure (.scalar (.bytes []))
    | [.scalar (.bytes bs)] => pure (.scalar (.bytes bs))
    | _ => throw .typeError
  | .list => Eval.newList (← elementsOf Γ args)
  | .tuple => pure (.tuple (← elementsOf Γ args))
  | .set => newSet Γ (← elementsOf Γ args)
  | .frozenset =>
    match ← newSet Γ (← elementsOf Γ args) with
    | .set _ vs => pure (.set true vs)
    | v => pure v
  | .dict =>
    match args with
    | [] => pure (.dict (keywords.map fun e => (.str e.1, e.2)))
    | [.dict kvs] => pure (.dict kvs)
    | _ => throw .typeError
  | .cell =>
    match argument 0 "value" with
    | some v => if args.length ≤ 1 then Eval.newCell v else throw .typeError
    | none => throw .typeError
  | .metaclass =>
    match args with
    | [v] => pure (.type (Γ.className v))
    | _ => throw .typeError
  | .exception | .baseException => Eval.alloc (.builtin b) ⟨.plain, []⟩
  | _ => throw .typeError

/-- What an instance holds besides attributes, made from the arguments. A list, a set or a table
that has an initialisation function of its own starts out empty. -/
def makePayload (c : Cls) (initialises : Bool) (args : List Value) (keywords : Environment) :
    Eval Payload := do
  match Γ.plainBase? c with
  | none => pure .plain
  | some b =>
    let isMutable := b == .list || b == .set || b == .dict
    let v ← if isMutable && initialises then makePlain Γ b [] [] else makePlain Γ b args keywords
    match v with
    | .object _ addr => pure ((← Eval.heap).payloadAt addr)
    | v => pure (.value v)

/-- Initialises an instance by the nearest initialisation function. -/
def initialise (v : Value) (c : Cls) (args : List Value) (keywords : Environment) :
    Eval Unit := do
  match Γ.nearestMaker (← Eval.heap) c "__init__", v with
  | some (.builtin .cell, _), .object _ addr =>
    match argumentOf args keywords 0 "value" with
    | some w => Eval.modifyHeap (·.setAttr addr "value" w)
    | none => throw .typeError
  | some (_, .code f), _ =>
    let r ← rt.call (.method v f) args keywords
    if r.isNone then pure () else throw .typeError
  | _, _ => pure ()

/-- Makes an instance of a declared class. -/
def makeInstance (d : ClassRef) (args : List Value) (keywords : Environment) : Eval Value := do
  let c := Cls.declared d
  let h ← Eval.heap
  if Γ.isEnumClass c then
    match args with
    | [v] =>
      match ← Eval.lift (Γ.enumMember? h d v) with
      | some w => pure w
      | none => throw (.exception .valueError none)
    | _ => throw .typeError
  else if Γ.isProtocol c || Reflection.isIncomplete Γ c then throw .typeError
  else
    match Γ.nearestMaker h c "__new__" with
    | some (_, .code f) =>
      match Program.Callee.function? f with
      | some id =>
        let v ← rt.call (.code (.function id)) (.type (.cls c) :: args) keywords
        if Γ.derives (Γ.classOf v) c then initialise Γ rt v (Γ.classOf v) args keywords
        pure v
      | none => throw .typeError
    | _ =>
      let initialises := match Γ.nearestMaker h c "__init__" with
        | some (_, .code (.builtinMethod .object _)) => false
        | some (_, .code _) | some (.builtin .cell, _) => true
        | _ => false
      let takesNone := (Γ.plainBase? c).isNone && !Γ.derives c (.builtin .baseException)
      if takesNone && !initialises && !(args.isEmpty && keywords.isEmpty) then throw .typeError
      let v ← Eval.alloc c ⟨← makePayload Γ c initialises args keywords, []⟩
      if initialises then initialise Γ rt v c args keywords
      pure v

/-- Calls a class. -/
def make (c : Cls) (args : List Value) (keywords : Environment) : Eval Value :=
  match c with
  | .builtin b => makePlain Γ b args keywords
  | .declared d => makeInstance Γ rt d args keywords

theorem make_any (args : List Value) (keywords : Environment) :
    make Γ rt (.builtin .any) args keywords = throw .typeError := rfl

/-- Marks an instance with the parametrized class that it was made through, where it can. An alias of
a builtin class also goes on after a type error. -/
def markOrigin (t : Ty) (v : Value) : Eval Unit :=
  tryCatch (writeAttribute Γ rt v "__orig_class__" (.type t)) fun e =>
    match t, e with
    | .applied (.native _) _, .exception .typeError _ => pure ()
    | _, e => if e.isAttributeError then pure () else throw e

/-- Calls a type. -/
def makeFrom (t : Ty) (args : List Value) (keywords : Environment) : Eval Value := do
  match t with
  | .cls c => make Γ rt c args keywords
  | .applied (.generic c) _ | .applied (.native c) _ =>
    let v ← make Γ rt c args keywords
    markOrigin Γ rt t v
    pure v
  | _ => throw .typeError

end Runtime

end CallAdapter
