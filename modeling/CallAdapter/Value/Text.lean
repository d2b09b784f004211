import CallAdapter.Program.Subclass

/-!
# Values in messages

The text that messages show for a value. Record instances show their fields, instances of
subclasses of plain data show the data, and other objects show their class and no address.
-/

namespace CallAdapter

namespace Program

variable (Γ : Program) (h : Heap)

def functionShown (id : Nat) : String :=
  "<function " ++ ((Γ.function? id).map (·.qualname)).getD "" ++ " at 0x>"

/-- The qualified name of a function or of the function that a wrapper holds. -/
def calleeName : Callee → Option String
  | .function id | .staticMethod id | .classMethod id => (Γ.function? id).map (·.qualname)
  | .builtin name => some name
  | .builtinMethod owner name => some (owner.name ++ "." ++ name)
  | _ => none

def calleeShown : Callee → String
  | .function id => Γ.functionShown id
  | .staticMethod id => "<staticmethod(" ++ Γ.functionShown id ++ ")>"
  | .classMethod id => "<classmethod(" ++ Γ.functionShown id ++ ")>"
  | .property _ _ | .builtinProperty _ _ => "<property object at 0x>"
  | .cachedProperty _ => "<functools.cached_property object at 0x>"
  | .builtin name => "<built-in function " ++ name ++ ">"
  | .builtinMethod owner name => "<method '" ++ name ++ "' of '" ++ owner.name ++ "' objects>"
  | .slot owner name => "<member '" ++ name ++ "' of '" ++ owner.name ++ "' objects>"
  | .computed owner name => "<attribute '" ++ name ++ "' of '" ++ owner.name ++ "' objects>"

/-- The value behind a member of an enumeration. -/
def memberValue (c : ClassRef) (name : String) : Option Value :=
  (Γ.info? c).bind fun i => (i.members.find? fun m => m.1 == name).map (·.2)

/-- The names of the fields of a record class, its own or its nearest ancestor's. -/
def recordFields? (c : Cls) : Option (List String) :=
  (Γ.mro c).findSome? fun
    | .declared d => (Γ.info? d).bind fun i =>
      if i.frozen.isSome then some (i.fields.map (·.name)) else none
    | .builtin .cell => some ["value"]
    | .builtin _ => none

def typeShown (t : Ty) : String :=
  match t with
  | .cls c =>
    if Γ.isEnumClass c && decide (c ≠ .builtin .any) then "<enum '" ++ c.name ++ "'>" else t.shown
  | _ => t.shown

/-- The text of a value, with at most `fuel` levels of nesting. -/
def shown : (fuel : Nat) → Value → String
  | 0, _ => "..."
  | fuel + 1, v =>
    let all (vs : List Value) : List String := vs.map (shown fuel)
    match v with
    | .none => "None"
    | .unbound => "UNBOUND"
    | .scalar s => s.text
    | .tuple [x] => "(" ++ shown fuel x ++ ",)"
    | .tuple vs => "(" ++ String.intercalate ", " (all vs) ++ ")"
    | .set false [] => "set()"
    | .set true [] => "frozenset()"
    | .set false vs => "\x7b" ++ String.intercalate ", " (all vs) ++ "\x7d"
    | .set true vs => "frozenset(\x7b" ++ String.intercalate ", " (all vs) ++ "\x7d)"
    | .dict kvs =>
      let one (kv : Value × Value) : String := shown fuel kv.1 ++ ": " ++ shown fuel kv.2
      "\x7b" ++ String.intercalate ", " (kvs.map one) ++ "\x7d"
    | .member c name =>
      "<" ++ c.qualname ++ "." ++ name ++ ": " ++
        shown fuel ((Γ.memberValue c name).getD .none) ++ ">"
    | .type t => Γ.typeShown t
    | .code f => Γ.calleeShown f
    | .method r (.builtinMethod _ name) =>
      "<built-in method " ++ name ++ " of " ++ (Γ.classOf r).name ++ " object at 0x>"
    | .method r f =>
      "<bound method " ++ (Γ.calleeName f).getD "" ++ " of " ++ shown fuel r ++ ">"
    | .object c addr =>
      match h.payloadAt addr with
      | .items vs => "[" ++ String.intercalate ", " (all vs) ++ "]"
      | .value w => shown fuel w
      | .plain =>
        match Γ.recordFields? c with
        | some fields =>
          let one (n : String) : String :=
            n ++ "=" ++ shown fuel ((h.attr? addr n).getD .none)
          c.name ++ "(" ++ String.intercalate ", " (fields.map one) ++ ")"
        | none => "<" ++ c.qualified ++ " object at 0x>"

/-- The text of a value in messages. -/
def valueText (v : Value) : String := Γ.shown h 100 v

/-- The name of a value's class in messages. -/
def className (v : Value) : Ty := .cls (Γ.classOf v)

end Program

end CallAdapter
