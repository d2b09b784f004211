import CallAdapter.Conversion.Numeric

/-!
# Conversion plans

How a value declared with one type reaches a slot declared with another. A plan is decided once:
nothing to do, a widening that reuses the value untouched, an operation that runs on every value,
or no way at all. Operations are data: a small decision language over checked casts, numeric
rules and enumeration look-ups, so that plans can be compared and their runs reasoned about.
-/

namespace CallAdapter

inductive Operation
  /-- The value passes through. -/
  | keep
  | numeric (rule : NumericRule) (dest : Ty)
  /-- The member of an enumeration that has the value. -/
  | lookup (dest : ClassRef)
  /-- An enumeration without declared members, in which nothing is found. -/
  | lookupNone (dest : Ty)
  /-- The value passes through if it is an instance of the class behind the type. -/
  | cast (dest : Ty)
  /-- Plans from the value's own class when it runs. -/
  | unbox (dest : Ty)
  | constant (v : Value)
  /-- Goes on with `hit` if the value belongs to the member, else with `miss`. -/
  | test (member : Ty) (hit miss : Operation)
  /-- An absent value where one is required. -/
  | refuseNone (dest : Ty)
  /-- A value that does not convert. -/
  | refuse (dest : Ty)

inductive ConversionKind
  | identity
  | implicitWiden
  | explicitConvert
  | impossible
  deriving DecidableEq, Repr

/-- What the rules decide for two types; an explicit conversion comes with its operation. -/
inductive Verdict
  | identity
  | widen
  | convert (op : Operation)
  | impossible

/-- The decision for one value slot. Kind and operation are apart; the plans that a planner gives
keep them together (`Plan.Paired`). -/
structure Plan where
  source : Ty
  dest : Ty
  kind : ConversionKind
  operation? : Option Operation := none
  /-- The value is dropped: a result where nothing is returned. -/
  discard : Bool := false

namespace Verdict

def kind : Verdict → ConversionKind
  | identity => .identity
  | widen => .implicitWiden
  | convert _ => .explicitConvert
  | impossible => .impossible

def operation? : Verdict → Option Operation
  | convert op => some op
  | _ => none

/-- Whether the value is reused untouched. -/
def isImplicit : Verdict → Bool
  | identity | widen => true
  | _ => false

def isPossible : Verdict → Bool
  | impossible => false
  | _ => true

theorem operation?_isSome_iff (v : Verdict) :
    v.operation?.isSome = true ↔ v.kind = .explicitConvert := by
  cases v <;> simp [operation?, kind]

theorem isPossible_iff (v : Verdict) : v.isPossible = true ↔ v.kind ≠ .impossible := by
  cases v <;> simp [isPossible, kind]

end Verdict

namespace Plan

/-- The plan that a decision makes. -/
def of (source dest : Ty) (v : Verdict) (discard : Bool := false) : Plan :=
  ⟨source, dest, v.kind, v.operation?, discard⟩

def isPossible (p : Plan) : Bool := p.kind != .impossible

def isIdentity (p : Plan) : Bool := p.kind == .identity

def needsOperation (p : Plan) : Bool := p.operation?.isSome

/-- The decision that the kind of a plan tells. A conversion that lacks its operation would hand
values on. -/
def verdict (p : Plan) : Verdict :=
  match p.kind with
  | .identity => .identity
  | .implicitWiden => .widen
  | .explicitConvert => .convert (p.operation?.getD .keep)
  | .impossible => .impossible

@[simp] theorem verdict_of (s d : Ty) (v : Verdict) (discard : Bool) :
    (of s d v discard).verdict = v := by
  cases v <;> rfl

@[simp] theorem kind_verdict (p : Plan) : p.verdict.kind = p.kind := by
  cases hp : p.kind <;> simp [verdict, hp, Verdict.kind]

theorem isPossible_eq (p : Plan) : p.isPossible = p.verdict.isPossible := by
  cases hp : p.kind <;> simp [isPossible, verdict, hp, Verdict.isPossible]

@[simp] theorem isPossible_of (s d : Ty) (v : Verdict) (discard : Bool) :
    (of s d v discard).isPossible = v.isPossible := by
  rw [isPossible_eq, verdict_of]

theorem isPossible_iff (p : Plan) : p.isPossible = true ↔ p.kind ≠ .impossible := by
  simp [isPossible]

theorem kind_eq_identity_iff (p : Plan) : p.kind = .identity ↔ p.verdict = .identity := by
  cases hp : p.kind <;> simp [verdict, hp]

theorem isIdentity_iff (p : Plan) : p.isIdentity = true ↔ p.verdict = .identity := by
  rw [isIdentity, beq_iff_eq, kind_eq_identity_iff]

theorem isImplicit_verdict_iff (p : Plan) :
    p.verdict.isImplicit = true ↔ p.isPossible = true ∧ p.kind ≠ .explicitConvert := by
  cases hp : p.kind <;> simp [isPossible, verdict, hp, Verdict.isImplicit]

/-- Kind and operation go together: exactly an explicit conversion has an operation. -/
def Paired (p : Plan) : Prop := p.operation?.isSome = true ↔ p.kind = .explicitConvert

theorem Paired.operation?_verdict {p : Plan} (hp : p.Paired) :
    p.verdict.operation? = p.operation? := by
  unfold Paired at hp
  cases hop : p.operation? <;> cases hkind : p.kind <;>
    simp_all [verdict, Verdict.operation?]

theorem paired_of (s d : Ty) (v : Verdict) (discard : Bool) : (of s d v discard).Paired :=
  v.operation?_isSome_iff

/-- The plan hands on what its decision makes of a value. -/
structure HandsOn (p : Plan) : Prop where
  paired : p.Paired
  discard : p.discard = false

theorem handsOn_of (s d : Ty) (v : Verdict) : (of s d v).HandsOn := ⟨paired_of s d v false, rfl⟩

end Plan

namespace Program

variable (Γ : Program) (h : Heap)

/-- The failed cast of a value, naming its class. -/
def castFailure (v : Value) (dest : Ty) : Failure := .fault (.castFailed (Γ.className v) dest)

/-- The failed cast of a value, with a message. -/
def castFailureWith (v : Value) (dest : Ty) (message : String) : Failure :=
  .fault (.castWith (Γ.className v) dest message)

/-- The failed cast of a value, with a message that shows the value and what is wrong with it. Where
the message cannot show the value, making it is what fails. -/
def castFailureShowing (v : Value) (dest : Ty) (wrong : String) : Failure :=
  if Γ.isWritable h v then
    Γ.castFailureWith v dest (Γ.valueText h v ++ wrong ++ dest.name)
  else .exception .valueError none

/-- The member of an enumeration that equals a value. A signaling decimal cannot be compared with
numbers. -/
def enumMember? (c : ClassRef) (v : Value) : Except Failure (Option Value) :=
  match v with
  | .member d name =>
    if d = c then .ok (some (.member c name)) else search (.member d name)
  | v => search v
where
  search (v : Value) : Except Failure (Option Value) :=
    let members := ((Γ.info? c).map (·.members)).getD []
    let signals : Bool :=
      match Γ.plain? h v with
      | some s => !s.hashable && members.any fun m =>
          match m.2 with
          | .scalar t => t.parts.isSome
          | _ => false
      | none => false
    if signals then .error (.exception .invalidOperation none)
    else
      let same (w : Value) : Bool :=
        match Γ.plain? h v, Γ.plain? h w with
        | some s, some t => s.equal t
        | _, _ => v.equal w
      .ok ((members.find? fun m => same m.2).map fun m => .member c m.1)

/-- Runs an operation on a value. How an unboxing goes on is given from outside, since it plans
anew from the value's class. -/
def runOperation (unboxing : Ty → Value → Except Failure Value) :
    Operation → Value → Except Failure Value
  | .keep, v => .ok v
  | .numeric rule dest, v =>
    match Γ.convertNumber h rule v with
    | .ok w => .ok w
    | .error e =>
      if e.isArithmetic then .error (Γ.castFailureShowing h v dest " does not fit ")
      else .error e
  | .lookup c, v =>
    match Γ.enumMember? h c v with
    | .ok (some w) => .ok w
    | .ok none => .error (Γ.castFailureShowing h v (.cls (.declared c)) " is not a valid ")
    | .error e => .error e
  | .lookupNone dest, v => .error (Γ.castFailureShowing h v dest " is not a valid ")
  | .cast dest, v =>
    if Γ.isInstanceOf h v dest == some true then .ok v else .error (Γ.castFailure v dest)
  | .unbox dest, v => unboxing dest v
  | .constant w, _ => .ok w
  | .test member hit miss, v =>
    let belongs := if member.isVoid then v.isNone else Γ.isInstanceOf h v member == some true
    if belongs then runOperation unboxing hit v else runOperation unboxing miss v
  | .refuseNone dest, v =>
    .error (Γ.castFailureWith v dest ("optional value is None; " ++ dest.name ++ " required"))
  | .refuse dest, v => .error (Γ.castFailure v dest)

end Program

end CallAdapter
