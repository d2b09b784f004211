import CallAdapter.Adapter.Invocation
import CallAdapter.Program.Arguments

/-!
# Operations on plain values

The functions and methods that exist without a program: size and absolute value, the largest of
several values, and the methods of numbers, text, lists and tables. They follow the values' own
order and equality, and refuse values of other classes with a type error.
-/

namespace CallAdapter

-- Powers are the ones of the core library, whatever other instances are in scope.
attribute [local instance (high)] instPowNat

namespace Scalar

/-- The order of two points; undefined points have none, and compare as "not less". -/
def Extended.less : Extended → Extended → Bool
  | .rational p, .rational q => decide (p < q)
  | .infinity a, .infinity b => a && !b
  | .infinity a, .rational _ => a
  | .rational _, .infinity b => !b
  | _, _ => false

/-- Whether one value stands before another; none for values without a common order. -/
def less? : Scalar → Scalar → Option Bool
  | str s, str t => some (decide (s < t))
  | bytes s, bytes t => some (decide (s.map UInt8.toNat < t.map UInt8.toNat))
  | complex _ _, _ | _, complex _ _ => none
  | a, b =>
    match a.parts, b.parts with
    | some p, some q => some (p.1.less q.1)
    | _, _ => none

/-- The number nearest to the square root of a rational. -/
def squareRoot (q : Rat) : Binary64 :=
  -- the root of the value scaled by an even power of two, with enough digits to round once
  let bits : Int := (Nat.log2 (q.num.natAbs + 1) : Int) - (Nat.log2 q.den : Int)
  let shift : Nat := (120 - bits).toNat / 2 + 2
  let scaledNum := q.num.natAbs * 4 ^ shift
  let root := Nat.sqrt (scaledNum / q.den)
  let exact := root * root * q.den = scaledNum
  let sticky := if exact then 2 * root else 2 * root + 1
  Binary64.ofRat ((sticky : Rat) / ((2 : Rat) * (2 : Rat) ^ shift))

/-- The absolute value of a number. -/
def magnitude? : Scalar → Option Scalar
  | bool b => some (int (if b then 1 else 0))
  | int n => some (int n.natAbs)
  | float x => some (float x.abs)
  | fraction q => some (fraction (if q < 0 then -q else q))
  | decimal (.finite _ c e) => some (decimal (Decimal.round false c e))
  | decimal (.infinity _) => some (decimal (.infinity false))
  | decimal d => some (decimal d)
  | complex re im =>
    match re.toRat?, im.toRat? with
    | some a, some b => some (float (squareRoot (a * a + b * b)))
    | _, _ =>
      match re, im with
      | .infinity _, _ | _, .infinity _ => some (float (.infinity false))
      | _, _ => some (float .nan)
  | str _ | bytes _ => none

/-- Whether a value counts as true. -/
def truth : Scalar → Bool
  | bool b => b
  | str s => !s.isEmpty
  | bytes bs => !bs.isEmpty
  | s => !(s.equal (int 0))

end Scalar

namespace Native

/-- Cuts text at blanks, at most `limit` times; text after the last cut keeps its blanks. -/
def splitBlank : (fuel : Nat) → (limit : Option Nat) → List Char → List String
  | 0, _, _ => []
  | fuel + 1, limit, cs =>
    match cs.dropWhile Text.isBlank with
    | [] => []
    | rest =>
      if limit = some 0 then [String.ofList rest]
      else
        let word := rest.takeWhile fun c => !Text.isBlank c
        String.ofList word ::
          splitBlank fuel (limit.map (· - 1)) (rest.dropWhile fun c => !Text.isBlank c)

/-- Cuts text at a separator, at most `limit` times. -/
def splitAt (sep : List Char) : (fuel : Nat) → (limit : Option Nat) → (word : List Char) →
    List Char → List String
  | 0, _, word, rest => [String.ofList (word.reverse ++ rest)]
  | _ + 1, _, word, [] => [String.ofList word.reverse]
  | fuel + 1, limit, word, c :: cs =>
    if limit ≠ some 0 ∧ sep.isPrefixOf (c :: cs) then
      String.ofList word.reverse ::
        splitAt sep fuel (limit.map (· - 1)) [] ((c :: cs).drop sep.length)
    else splitAt sep fuel limit (c :: word) cs

/-- Replaces at most `limit` occurrences of a text; the empty text occurs before every character
and at the end. -/
def replaceText (old new : String) (limit : Option Nat) (text : String) : String :=
  if old.isEmpty then
    let limit := limit.getD (text.length + 1)
    let inserted := text.toList.zipIdx.map fun c =>
      (if c.2 < limit then new else "") ++ String.ofList [c.1]
    String.join inserted ++ (if text.length < limit then new else "")
  else String.intercalate new (splitAt old.toList text.length limit [] text.toList)

/-- A limit on the number of cuts; a negative one is no limit. -/
def limit? : Value → Option (Option Nat)
  | .scalar s =>
    match s with
    | .bool _ | .int _ => s.toInt?.map fun n => if n < 0 then none else some n.toNat
    | _ => none
  | _ => none

/-- The integer that bytes write in base 256. -/
def intOfBytes (bs : List UInt8) (bigEndian signed : Bool) : Int :=
  let ordered := if bigEndian then bs else bs.reverse
  let n : Nat := ordered.foldl (fun n b => n * 256 + b.toNat) 0
  if signed && decide (2 ^ (8 * bs.length) ≤ 2 * n) then (n : Int) - 2 ^ (8 * bs.length) else n

end Native

namespace Program

variable (Γ : Program)

/-- Equality of two values as programs see it: plain data behind instances counts, lists compare
by their elements, and record instances of one class by their fields. -/
def equalIn (h : Heap) : (fuel : Nat) → Value → Value → Bool
  | 0, v, w => v.equal w
  | fuel + 1, v, w =>
    let all (vs ws : List Value) : Bool :=
      vs.length == ws.length && (vs.zip ws).all fun x => equalIn h fuel x.1 x.2
    match Γ.plain? h v, Γ.plain? h w with
    | some s, some t => s.equal t
    | _, _ =>
      match v, w with
      | .tuple vs, .tuple ws => all vs ws
      | .object c a, .object d b =>
        if a == b then true
        else
          match h.payloadAt a, h.payloadAt b with
          | .items vs, .items ws => all vs ws
          | .value x, .value y => equalIn h fuel x y
          | .plain, .plain =>
            match Γ.recordFields? c with
            | some fields =>
              decide (c = d) && fields.all fun n =>
                match h.attr? a n, h.attr? b n with
                | some x, some y => equalIn h fuel x y
                | _, _ => false
            | none => false
          | _, _ => false
      | _, _ => v.equal w

/-- Whether a value can be an element of a set or a key. -/
def hashableValue : (fuel : Nat) → Value → Bool
  | 0, _ => true
  | fuel + 1, v =>
    match v with
    | .scalar s => s.hashable
    | .tuple vs => vs.all (hashableValue fuel)
    | .set frozen _ => frozen
    | .dict _ => false
    | .object c _ => Γ.hashes c
    | .type t => t.hashable
    | _ => true

/-- The nesting that comparisons follow. -/
def comparisonDepth : Nat := 100

/-- Keeps the first of equal elements. -/
def distinctValues (h : Heap) : List Value → List Value
  | [] => []
  | v :: vs => v :: (distinctValues h vs).filter fun w => !Γ.equalIn h comparisonDepth v w

/-- Whether a value counts as true. -/
def truth (h : Heap) (v : Value) : Bool :=
  match Γ.plain? h v with
  | some s => s.truth
  | none =>
    match v with
    | .none | .unbound => false
    | .object _ _ | .tuple _ | .set _ _ | .dict _ =>
      match Γ.elements? h v with
      | some vs => !vs.isEmpty
      | none => true
    | _ => true

/-- Whether one value stands before another, by the plain data that they stand for. -/
def lessIn? (h : Heap) (v w : Value) : Option Bool := do
  (← Γ.plain? h v).less? (← Γ.plain? h w)

end Program

namespace Runtime

variable (Γ : Program) (rt : Runtime)

/-- The number of elements of a value. -/
def size (v : Value) : Eval Value := do
  let h ← Eval.heap
  match v with
  | .object c _ =>
    match h.findEntry Γ c "__len__" with
    | some (_, .code f) => rt.call (.method v f) [] []
    | _ => sized h
  | _ => sized h
where
  sized (h : Heap) : Eval Value :=
    match Γ.elements? h v with
    | some vs => pure (.int vs.length)
    | none => throw .typeError

/-- The largest of several values, the first of equal ones. -/
def largest (h : Heap) : List Value → Eval Value
  | [] => throw (.exception .valueError none)
  | v :: vs => vs.foldlM (fun best w =>
    match Γ.lessIn? h best w with
    | some b => pure (if b then w else best)
    | none => throw .typeError) v

/-- Calls a function of the language. -/
def callFunction (name : String) (args : List Value) : Eval Value := do
  let h ← Eval.heap
  match name, args with
  | "len", [v] => rt.size Γ v
  | "abs", [v] =>
    match (Γ.plain? h v).bind Scalar.magnitude? with
    | some s => pure (.scalar s)
    | none => throw .typeError
  | "max", [v] =>
    match Γ.elements? h v with
    | some vs => largest Γ h vs
    | none => throw .typeError
  | "max", _ :: _ :: _ => largest Γ h args
  | _, _ => throw .typeError

/-- Sorts values by their keys, keeping the order of equal keys. -/
def sortByKeys (h : Heap) (reverse : Bool) (keyed : List (Value × Value)) :
    Eval (List Value) := do
  let comparable := keyed.all fun x => keyed.all fun y => (Γ.lessIn? h x.1 y.1).isSome
  if decide (1 < keyed.length) && !comparable then throw .typeError
  let notAfter (x y : Value × Value) : Bool :=
    if reverse then Γ.lessIn? h x.1 y.1 != some true else Γ.lessIn? h y.1 x.1 != some true
  pure ((keyed.mergeSort notAfter).map (·.2))

/-- Calls a method of a list. -/
def callListMethod (name : String) (addr : Nat) (items : List Value) (args : List Value)
    (keywords : Environment) : Eval Value := do
  let h ← Eval.heap
  match name, args, keywords with
  | "append", [v], [] => do
    Eval.modifyHeap (·.setItems addr (items ++ [v]))
    pure .none
  | "count", [v], [] =>
    pure (.int (items.countP fun w => Γ.equalIn h Program.comparisonDepth w v))
  | "sort", [], _ => do
    if !keywords.all fun k => k.1 == "key" || k.1 == "reverse" then throw .typeError
    let reverse ← match keywords.get? "reverse" with
      | none => pure false
      | some v =>
        match (Γ.plain? h v).bind Scalar.toInt? with
        | some n => pure (n != 0)
        | none => throw .typeError
    let keyed ← match keywords.get? "key" with
      | none | some .none => pure (items.map fun v => (v, v))
      | some f => items.mapM fun v => do pure (← rt.call f [v] [], v)
    let sorted ← sortByKeys Γ (← Eval.heap) reverse keyed
    Eval.modifyHeap (·.setItems addr sorted)
    pure .none
  | _, _, _ => throw .typeError

/-- Calls a method of text. -/
def callTextMethod (name text : String) (args : List Value) (keywords : Environment) :
    Eval Value := do
  let named (position : Nat) (n : String) : Option Value := args[position]?.or (keywords.get? n)
  let limitAt (v : Option Value) : Eval (Option Nat) :=
    match v with
    | none => pure none
    | some v =>
      match Native.limit? v with
      | some l => pure l
      | none => throw .typeError
  match name, args with
  | "upper", [] => pure (.str (Text.upper text))
  | "count", [.scalar (.str part)] =>
    pure (.int
      (if part.isEmpty then text.length + 1
        else (Native.splitAt part.toList text.length none [] text.toList).length - 1))
  | "replace", .scalar (.str old) :: .scalar (.str new) :: rest =>
    pure (.str (Native.replaceText old new (← limitAt rest.head?) text))
  | "split", _ =>
    let limit ← limitAt (named 1 "maxsplit")
    match (named 0 "sep").getD .none with
    | .none =>
      Eval.newList ((Native.splitBlank (text.length + 1) limit text.toList).map .str)
    | .scalar (.str sep) =>
      if sep.isEmpty then throw (.exception .valueError none)
      else Eval.newList ((Native.splitAt sep.toList text.length limit [] text.toList).map .str)
    | _ => throw .typeError
  | _, _ => throw .typeError

/-- Calls a method of a builtin class on a receiver. -/
def callMethod (owner : Builtin) (name : String) (receiver : Value) (args : List Value)
    (keywords : Environment) : Eval Value := do
  let h ← Eval.heap
  match owner, name, Γ.plain? h receiver, receiver with
  | .object, "__init__", _, _ => if args.isEmpty then pure .none else throw .typeError
  | .int, "bit_length", some s, _ =>
    match s.toInt?, args with
    | some n, [] => pure (.int (if n = 0 then 0 else (Nat.log2 n.natAbs : Int) + 1))
    | _, _ => throw .typeError
  | .int, "from_bytes", _, .type _ =>
    let named (position : Nat) (n : String) : Option Value :=
      args[position]?.or (keywords.get? n)
    let signed := ((keywords.get? "signed").map (Γ.truth h)).getD false
    match named 0 "bytes", (named 1 "byteorder").getD (.str "big") with
    | some (.scalar (.bytes bs)), .scalar (.str order) =>
      if order == "big" || order == "little" then
        pure (.int (Native.intOfBytes bs (order == "big") signed))
      else throw (.exception .valueError none)
    | _, _ => throw .typeError
  | .str, _, some (.str text), _ => callTextMethod name text args keywords
  | .list, _, _, .object _ addr =>
    match h.payloadAt addr with
    | .items vs => callListMethod Γ rt name addr vs args keywords
    | _ => throw .typeError
  | .tuple, "count", _, _ =>
    match Γ.elements? h receiver, args with
    | some vs, [v] =>
      pure (.int (vs.countP fun w => Γ.equalIn h Program.comparisonDepth w v))
    | _, _ => throw .typeError
  | .dict, "get", _, .dict kvs =>
    match args with
    | k :: rest =>
      if Γ.hashableValue Program.comparisonDepth k then
        pure (((kvs.find? fun e => Γ.equalIn h Program.comparisonDepth e.1 k).map (·.2)).getD
          (rest.head?.getD .none))
      else throw .typeError
    | [] => throw .typeError
  | _, _, _, _ => throw .typeError

/-- The sum of two values: plain data by their own rules, lists and tuples one after the other. -/
def sum (v w : Value) : Eval Value := do
  let h ← Eval.heap
  match Γ.plain? h v, Γ.plain? h w with
  | some s, some t =>
    match s.add t with
    | .ok r => pure (.scalar r)
    | .error .unsupported => throw .typeError
    | .error .overflow => throw (.exception .overflow none)
    | .error .invalid => throw (.exception .invalidOperation none)
  | _, _ =>
    match v, w with
    | .tuple vs, .tuple ws => pure (.tuple (vs ++ ws))
    | .object _ a, .object _ b =>
      match h.payloadAt a, h.payloadAt b with
      | .items vs, .items ws => Eval.newList (vs ++ ws)
      | _, _ => throw .typeError
    | _, _ => throw .typeError

end Runtime

end CallAdapter
