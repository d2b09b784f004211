import CallAdapter.Builder.Config
import CallAdapter.Cache.Basic
import CallAdapter.Member.Resolution
import CallAdapter.Program.Container
import CallAdapter.Report.Basic

/-!
# Types, plans and members in reports

The records that describe a type, a conversion plan, a call shape, the members of a container, and
the settings and counters of builders and caches.
-/

namespace CallAdapter

namespace Report

def type (t : Ty) : Report := text t.name

def types (ts : List Ty) : Report := list (ts.map type)

def optionalType (t : Option Ty) : Report := optional (t.map Ty.name)

end Report

/-- What is known of a type as it was written and of its normal form. -/
def Program.typeReport (Γ : Program) (t : Ty) : Report :=
  let n := t.normalize
  let argument : Ty → Report
    | .list ts => .types ts
    | a => .type a
  let default : Report := match defaultValue t with
    | .scalar s => s.report
    | _ => .absent
  .record
    [("norm", .type n), ("void", .flag n.isVoid), ("top", .flag n.isTop),
      ("union", .flag t.isUnion),
      ("members", if t.isUnion then .types t.unionMembers else .absent),
      ("optional", .flag t.isOptional), ("strip", .type n.stripOptional), ("ref", .flag n.isCell),
      ("element", if n.isCell then .type n.cellElement else .absent), ("origin", .type n.origin),
      ("args", .list (n.args.map argument)), ("class", .flag n.isClass),
      ("alias", .flag n.isAlias), ("abstract", .flag (Γ.isAbstractType n)),
      ("enum", .flag (Γ.isEnum n)), ("default", default),
      ("free", .types (n.freeVars.map Ty.var)), ("open", .flag (Γ.isOpen n)),
      ("closed", .type (Γ.close n))]

/-- The class of a container and its bindings, ordered by name. -/
def Program.splitReport (Γ : Program) (t : Ty) : Report :=
  let (c, m) := Γ.split t
  let entries := (m.map fun b => ((Ty.var b.1).name, b.2.name)).mergeSort fun a b =>
    decide (a.1 < b.1) || (a.1 == b.1 && decide (a.2 ≤ b.2))
  .record [("class", .type c), ("map", .list (entries.map fun e => .texts [e.1, e.2]))]

def ConversionKind.word : ConversionKind → String
  | identity => "IDENTITY"
  | implicitWiden => "IMPLICIT_WIDEN"
  | explicitConvert => "EXPLICIT_CONVERT"
  | impossible => "IMPOSSIBLE"

def Plan.fields (p : Plan) : List (String × Report) :=
  [("plan", .text p.kind.word), ("source", .type p.source), ("dest", .type p.dest),
    ("possible", .flag p.isPossible), ("identity", .flag p.isIdentity),
    ("operation", .flag p.needsOperation), ("discard", .flag p.discard)]

/-- The costs of candidates, each a list of plans, and the place of the best one. -/
def Cost.report (candidates : List (List Plan)) : Report :=
  let costs := candidates.map Cost.of
  let best := cheapest? (fun c : Cost × Nat => c.1) costs.zipIdx
  .record
    [("costs", .list (costs.map fun c => .list [.count c.explicit, .count c.widen])),
      ("best", (best.map fun c => Report.count c.2).getD .absent)]

def Shape.report (s : Shape) : Report :=
  .record
    [("shape", .text s.text), ("params", .types s.params), ("returns", .type s.returns),
      ("arity", .count s.arity), ("void", .flag s.returnsVoid),
      ("receiver", .flags [s.hasReceiver true, s.hasReceiver false])]

def ParameterKind.word : ParameterKind → String
  | positional => "POSITIONAL"
  | variadic => "VAR_POSITIONAL"
  | keyword => "KEYWORD"

def ParameterKind.ofWord : String → ParameterKind
  | "VAR_POSITIONAL" => variadic
  | "KEYWORD" => keyword
  | _ => positional

def Parameter.report (p : Parameter) : Report :=
  .list [.text p.name, .type p.type, .text p.kind.word, .flag p.byRef, .type p.elementType]

def Target.report (t : Target) : Report :=
  .record
    [("member", .text t.describe), ("kind", .text (t.kind.word.map Char.toUpper)),
      ("name", .text t.name), ("owner", .optionalType t.declaring), ("static", .flag t.isStatic),
      ("instance", .flag (!t.isStatic)), ("takes_receiver", .flag t.takesReceiver),
      ("slots", .count t.slotCount), ("params", .list (t.params.map Parameter.report)),
      ("result", .type t.result), ("value", .optionalType t.assigned),
      ("public", .flag t.isPublic), ("generic", .flag t.isGeneric),
      ("open", .types (t.openVars.map Ty.var)), ("setter", .flag t.kind.isSetter),
      ("accessor", .flag t.kind.isAccessor)]

def PropertyInfo.report (p : PropertyInfo) : Report :=
  let accessor (t : Option Target) : Report := (t.map Target.report).getD .absent
  .record
    [("property", .text p.name), ("owner", .type p.declaring), ("type", .type p.type),
      ("static", .flag p.isStatic), ("public", .flag p.isPublic), ("getter", accessor p.getter),
      ("setter", accessor p.setter)]

def FieldInfo.report (f : FieldInfo) : Report :=
  .record
    [("field", .text f.name), ("owner", .type f.declaring), ("type", .type f.type),
      ("static", .flag f.isStatic), ("read_only", .flag f.readOnly), ("public", .flag f.isPublic),
      ("generic", .flag f.isGeneric)]

def Member.report : Member → Report
  | target t => t.report
  | property p => p.report
  | field f => f.report

def Slot.report (s : Slot) : Report :=
  let source : Int := match s.source with
    | .bound => -1
    | .argument i => i
  .list [.number source, .text s.mode.word, .text s.plan.kind.word, .type s.plan.source,
    .type s.plan.dest, .flag s.isTrivial]

/-- A signature plan without its bound value. -/
def SignaturePlan.fields (p : SignaturePlan) : List (String × Report) :=
  [("slots", .list (p.slots.map Slot.report)), ("result", .text p.result.kind.word),
    ("discard", .flag p.result.discard), ("null_receiver", .flag p.nullReceiver),
    ("plans", .count p.plans.length)]

def NotFound.report (m : NotFound) : Report :=
  .record [("not_found", .text m.reason.word), ("name", .text m.name),
    ("container", .text m.container), ("detail", .text m.detail)]

def BuildConfig.report (c : BuildConfig) : Report :=
  .record [("options", c.options.report), ("throw", .flag c.throwOnFailure),
    ("ctor", .text c.constructorName), ("cache", .flag c.useCache)]

/-- The size and the counters of a cache. -/
def BindingCache.stats (c : BindingCache) : Report :=
  .record [("size", .count c.size), ("hits", .count c.hits), ("misses", .count c.misses),
    ("builds", .count c.builds), ("failures", .count c.failures),
    ("hit_rate", (Scalar.float c.hitRate).report)]

theorem ParameterKind.ofWord_word (k : ParameterKind) : ofWord k.word = k := by
  cases k <;> rfl

end CallAdapter
