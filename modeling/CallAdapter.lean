import CallAdapter.Adapter.Basic
import CallAdapter.Adapter.Invocation
import CallAdapter.Adapter.Slot
import CallAdapter.Builder.Config
import CallAdapter.Builder.Create
import CallAdapter.Cache.Basic
import CallAdapter.Class.Builtin
import CallAdapter.Conversion.Numeric
import CallAdapter.Conversion.Plan
import CallAdapter.Conversion.Planner
import CallAdapter.Execution.Attribute
import CallAdapter.Execution.Body
import CallAdapter.Execution.Construction
import CallAdapter.Execution.Native
import CallAdapter.Execution.Runtime
import CallAdapter.Fault
import CallAdapter.Heap
import CallAdapter.Member.Basic
import CallAdapter.Member.Reflection
import CallAdapter.Member.Resolution
import CallAdapter.Member.Search
import CallAdapter.Member.Table
import CallAdapter.Number.Binary64
import CallAdapter.Number.Decimal
import CallAdapter.Number.HexFloat
import CallAdapter.Number.Reading
import CallAdapter.Number.Rounding
import CallAdapter.Number.Shortest
import CallAdapter.Program.Arguments
import CallAdapter.Program.Basic
import CallAdapter.Program.Container
import CallAdapter.Program.Declaration
import CallAdapter.Program.Linearization
import CallAdapter.Program.Signature
import CallAdapter.Program.Subclass
import CallAdapter.Proofs.Adapter.Lockstep
import CallAdapter.Proofs.Adapter.MissingReceiver
import CallAdapter.Proofs.Adapter.Signature
import CallAdapter.Proofs.Adapter.Slot
import CallAdapter.Proofs.Adapter.Soundness
import CallAdapter.Proofs.Conversion.Derivation
import CallAdapter.Proofs.Conversion.Effect
import CallAdapter.Proofs.Conversion.History
import CallAdapter.Proofs.Conversion.Lockstep
import CallAdapter.Proofs.Conversion.Respelling
import CallAdapter.Proofs.Conversion.Soundness
import CallAdapter.Proofs.Member.Equality
import CallAdapter.Proofs.Run
import CallAdapter.Proofs.Type.Equality
import CallAdapter.Proofs.Type.Normal
import CallAdapter.Proofs.Type.Substitution
import CallAdapter.Report.Basic
import CallAdapter.Report.Fault
import CallAdapter.Report.Member
import CallAdapter.Report.Value
import CallAdapter.Shape
import CallAdapter.Shape.Descriptor
import CallAdapter.Text.CaseRun
import CallAdapter.Text.Fold
import CallAdapter.Text.FoldTable
import CallAdapter.Text.HiddenTable
import CallAdapter.Text.Quoted
import CallAdapter.Text.UpperTable
import CallAdapter.Type.Basic
import CallAdapter.Type.Equality
import CallAdapter.Type.Normal
import CallAdapter.Type.Notation
import CallAdapter.Type.Substitution
import CallAdapter.Type.Text
import CallAdapter.Value.Basic
import CallAdapter.Value.BuiltinEntries
import CallAdapter.Value.Scalar
import CallAdapter.Value.Text
import CallAdapter.World
import CallAdapter.Proofs.Builder.Answer
import CallAdapter.Proofs.Builder.Caching
import CallAdapter.Proofs.Builder.Sharing
import CallAdapter.Proofs.Conversion.Steady
import CallAdapter.Proofs.Adapter.Steady
import CallAdapter.Proofs.Adapter.Wrapping
import CallAdapter.Proofs.Adapter.Natural
import CallAdapter.Proofs.Builder.Routes
import CallAdapter.Proofs.Adapter.Delivery
import CallAdapter.Proofs.Adapter.Unheld
import CallAdapter.Proofs.Adapter.Reference
import CallAdapter.Proofs.Adapter.Binding
import CallAdapter.Proofs.Adapter.Application
import CallAdapter.Proofs.Program.Inheritance
import CallAdapter.Proofs.Member.Inherited
import CallAdapter.Proofs.Member.Selection
import CallAdapter.Proofs.Member.Guarded
import CallAdapter.Proofs.Builder.OpenGeneric
import CallAdapter.Proofs.Member.Lookup
import CallAdapter.Proofs.Execution.DirectCall
import CallAdapter.Proofs.Execution.DirectRead
import CallAdapter.Proofs.Cache.FirstOutcomes
import CallAdapter.Proofs.Adapter.Failure
import CallAdapter.Proofs.Builder.Functions
import CallAdapter.Proofs.Program.Passing
import CallAdapter.Proofs.Member.Filled
import CallAdapter.Proofs.Builder.GenericInstance
import CallAdapter.Proofs.Adapter.Shortcut
import CallAdapter.Proofs.Conversion.Unboxing
import CallAdapter.Proofs.Adapter.LateTyped
import CallAdapter.Proofs.Conversion.MemberPlans
import CallAdapter.Proofs.Conversion.UnionSource
import CallAdapter.Proofs.Member.Registration
import CallAdapter.Proofs.Conversion.Transitivity
import CallAdapter.Proofs.Conversion.Optional
import CallAdapter.Proofs.Adapter.Unrelated
import CallAdapter.Proofs.Conversion.CastFailure
import CallAdapter.Proofs.Conversion.Forgetting
import CallAdapter.Proofs.Adapter.Acceptance
import CallAdapter.Proofs.Member.Sole
import CallAdapter.Proofs.Member.Handle
import CallAdapter.Proofs.Builder.Handle
import CallAdapter.Proofs.Number.Quotient
import CallAdapter.Proofs.Conversion.Exact
import CallAdapter.Proofs.Adapter.FirstInput
import CallAdapter.Proofs.Member.Scope
import CallAdapter.Proofs.Member.BoundChoice
import CallAdapter.Proofs.Program.Arguments
import CallAdapter.Proofs.Execution.Entering
import CallAdapter.Proofs.Execution.Arrival
import CallAdapter.Proofs.Adapter.CapturedReceiver
import CallAdapter.Proofs.Execution.Storing
import CallAdapter.Proofs.Adapter.Spelling
import CallAdapter.Proofs.Member.Shadowing
import CallAdapter.Proofs.Member.Undisturbed
import CallAdapter.Proofs.Shape.Spellings
import CallAdapter.Proofs.Builder.FieldAdapter
import CallAdapter.Proofs.Builder.FieldUse
import CallAdapter.Proofs.Adapter.MemberOrder
import CallAdapter.Proofs.Conversion.WellFormed
import CallAdapter.Proofs.Member.AbsentBinding
import CallAdapter.Proofs.Execution.Advancing
import CallAdapter.Proofs.Execution.Settling
import CallAdapter.Proofs.Text.LetterCase
import CallAdapter.Proofs.Member.MaskText
import CallAdapter.Proofs.Type.Canonical
import CallAdapter.Conversion.Applying
import CallAdapter.Proofs.Conversion.Nesting
import CallAdapter.Proofs.Type.Subscription
