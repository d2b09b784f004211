import CallAdapter.Report.Member
import CallAdapter.Value.Text
import CallAdapter.World

/-!
# Values in reports

Values with everything that can be seen of them. Instances and cells are numbered in the order in
which reports first show them and keep their numbers; inside its own report an object is only named.
Some objects may stand for a report that was made before.
-/

namespace CallAdapter

structure Numbering where
  /-- The places of the numbered objects, the latest first. -/
  seen : List Nat := []
  /-- Objects that stand for a report. -/
  known : List (Nat × Report) := []

namespace Numbering

def known? (n : Numbering) (addr : Nat) : Option Report :=
  (n.known.find? fun e => e.1 == addr).map (·.2)

/-- The number of an object, counted from one; a new object gets the next number. -/
def numberOf (addr : Nat) : StateM Numbering Nat := fun n =>
  match n.seen.reverse.idxOf? addr with
  | some i => (i + 1, n)
  | none => (n.seen.length + 1, { n with seen := addr :: n.seen })

end Numbering

def Deferred.text (d : Deferred) : String :=
  Builtin.deferred.name ++ (if d.isCreated then "(created)" else "(pending)")

namespace Program

variable (Γ : Program) (w : World)

/-- How deeply values are reported. -/
def reportDepth : Nat := 2000

/-- Reports a value; the objects of `within` are only named. -/
def reportWithin : (fuel : Nat) → (within : List Nat) → Value → StateM Numbering Report
  | 0, _, _ => pure .absent
  | fuel + 1, within, v => do
    let all (within : List Nat) (vs : List Value) : StateM Numbering Report := do
      pure (.list (← vs.mapM (reportWithin fuel within)))
    match v with
    | .none => pure .absent
    | .unbound => pure (.marked "unbound" (.flag true))
    | .scalar s => pure s.report
    | .tuple vs => .marked "tuple" <$> all within vs
    | .set _ vs => .marked "set" <$> all within vs
    | .dict kvs => .marked "dict" <$> .list <$> kvs.mapM fun e => all within [e.1, e.2]
    | .member c n => pure (.marked "enum" (.texts [c.qualname, n]))
    | .type t => pure (.marked "type" (.type t))
    | .code f =>
      pure (.marked "fn" (.text ((Γ.calleeName f).getD (Program.classOfCallee f).name)))
    | .method _ f => pure (.marked "fn" (.optional (Γ.calleeName f)))
    | .object c addr =>
      match (← get).known? addr, Eval.artifactAt? w addr with
      | some r, _ => pure r
      | none, some (.adapter a) => do
        let bound ← reportWithin fuel within a.bound
        let source ← reportWithin fuel within a.source
        pure (.record [("thunk", .text a.shape.text), ("arity", .count a.arity),
          ("bound", bound), ("target", .optional (a.target?.map Target.describe)),
          ("source", source)])
      | none, some (.invoker i) =>
        pure (.record [("invoker", .text i.call.target.describe), ("arity", .count i.call.arity)])
      | none, some (.creator i) =>
        pure (.record
          [("instancecreator", .text i.call.target.describe), ("arity", .count i.call.arity)])
      | none, some (.deferred d) => pure (.marked "lazy" (.text d.text))
      | none, none =>
        match c, w.heap.payloadAt addr with
        | .builtin .list, .items vs => all within vs
        | .builtin .cell, _ => do
          let number := ("ref", Report.count (← Numbering.numberOf addr))
          if within.contains addr then pure (.record [number])
          else
            let content := (w.heap.attr? addr "value").getD .none
            pure (.record [number, ("value", ← reportWithin fuel (addr :: within) content)])
        | _, payload => do
          let head := [("obj", Report.text c.name),
            ("id", Report.count (← Numbering.numberOf addr))]
          if within.contains addr then pure (.record head)
          else
            let within := addr :: within
            let sorted := (w.heap.attrsAt addr).mergeSort fun a b => decide (a.1 ≤ b.1)
            let attrs ← sorted.mapM fun a => do pure (a.1, ← reportWithin fuel within a.2)
            let base ← match payload with
              | .plain => pure []
              | .value v => do pure [("base", ← reportWithin fuel within v)]
              | .items vs => do pure [("base", ← all within vs)]
            pure (.record (head ++ [("attrs", .record attrs)] ++ base))

def report (v : Value) : StateM Numbering Report := Γ.reportWithin w reportDepth [] v

def signatureReport (p : SignaturePlan) : StateM Numbering Report := do
  pure (.record (("bound", ← Γ.report w p.bound) :: p.fields))

def resolutionReport (r : Resolution) : StateM Numbering Report := do
  let bound ← Γ.report w r.bound
  pure (.record
    [("resolved", r.target.report), ("plan", ← Γ.signatureReport w r.plan), ("bound", bound)])

end Program

/-- A builder with its settings and whether it keeps plans and outcomes. -/
def Builder.report (w : World) (b : Builder) : Report :=
  .record
    [("config", b.config.report), ("cache", .flag b.cache.isSome),
      ("memoize", .flag (((w.planners[b.planner]?).map (·.memoize)).getD false))]

end CallAdapter
