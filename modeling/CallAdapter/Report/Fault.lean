import CallAdapter.Fault
import CallAdapter.Report.Basic

/-!
# Faults in reports

Each kind of fault has a name, and a fault is a record of its fields. Faults can be put together
from a name and fields again: `Fault.set` refuses a field that the kind does not have.
-/

namespace CallAdapter

namespace FaultKind

def name : FaultKind → String
  | general => "ThunkError"
  | argumentNull _ => "ArgumentNull"
  | invalidShape => "InvalidShapeDescriptor"
  | openGeneric => "OpenGenericTarget"
  | memberNotFound => "MemberNotFound"
  | noSuchAccessor => "NoSuchAccessor"
  | conversionImpossible => "ConversionImpossible"
  | arityMismatch _ _ => "ArityMismatch"
  | accessDenied => "AccessDenied"
  | nullReceiver => "NullReceiver"
  | cast _ _ => "CastError"

/-- Every kind, without data. -/
def all : List FaultKind :=
  [general, argumentNull none, invalidShape, openGeneric, memberNotFound, noSuchAccessor,
    conversionImpossible, arityMismatch 0 0, accessDenied, nullReceiver, cast none none]

def ofName? (name : String) : Option FaultKind := all.find? fun k => k.name == name

/-- The fields that only this kind has. -/
def ownFields : FaultKind → List (String × Report)
  | argumentNull a => [("argument", .optional a)]
  | arityMismatch e g => [("expected", .number e), ("got", .number g)]
  | cast v t => [("value_type", .optional v), ("target_type", .optional t)]
  | _ => []

theorem ofName?_name_of_mem {k : FaultKind} (h : k ∈ all) : ofName? k.name = some k := by
  simp only [all, List.mem_cons, List.not_mem_nil, or_false] at h
  rcases h with h | h | h | h | h | h | h | h | h | h | h <;> subst h <;> decide

end FaultKind

namespace Fault

/-- A fault with nothing but its message. -/
def plain (kind : FaultKind) (message : String) : Fault :=
  ⟨kind, message, kind.reason, none, none, none⟩

/-- Sets a field by name; none where the kind has no such field. -/
def set (f : Fault) (name : String) (r : Report) : Option Fault :=
  match name, f.kind with
  | "message", _ => some { f with message := r.text?.getD "" }
  | "reason_code", _ => some { f with reason := r.text?.getD "" }
  | "member", _ => some { f with member := r.text? }
  | "container", _ => some { f with container := r.text? }
  | "shape", _ => some { f with shape := r.text? }
  | "argument", .argumentNull _ => some { f with kind := .argumentNull r.text? }
  | "expected", .arityMismatch _ n => some { f with kind := .arityMismatch r.toInt n }
  | "got", .arityMismatch n _ => some { f with kind := .arityMismatch n r.toInt }
  | "value_type", .cast _ t => some { f with kind := .cast r.text? t }
  | "target_type", .cast s _ => some { f with kind := .cast s r.text? }
  | _, _ => none

/-- The fields besides the message. -/
def info (f : Fault) : List (String × Report) :=
  [("reason_code", .text f.reason), ("member", .optional f.member),
    ("container", .optional f.container), ("shape", .optional f.shape)] ++ f.kind.ownFields

/-- All fields. -/
def fields (f : Fault) : List (String × Report) := ("message", .text f.message) :: f.info

/-- The names that a fault answers to: those of its kinds in order, then the general ones. -/
def kindNames (f : Fault) : List String :=
  let own := (f.kind :: f.kind.alsoCountsAs ++ [FaultKind.general]).map FaultKind.name
  own.eraseDups.mergeSort (fun a b => decide (a ≤ b)) ++ f.kind.standardKind.toList ++
    ["Exception"]

theorem set_reason (f : Fault) (s : String) :
    f.set "reason_code" (.text s) = some { f with reason := s } := rfl

end Fault

namespace ExceptionKind

def name : ExceptionKind → String
  | typeError => "TypeError"
  | valueError => "ValueError"
  | attributeError => "AttributeError"
  | overflow => "OverflowError"
  | invalidOperation => "InvalidOperation"
  | recursion => "RecursionError"
  | blocked => "Deadlock"
  | frozenField _ => "FrozenInstanceError"
  | named n => n

/-- The kind that a name stands for, where bodies can raise it by name. -/
def ofName (name : String) : ExceptionKind :=
  ([typeError, valueError, attributeError, overflow, recursion].find? fun k =>
    k.name == name).getD (named name)

theorem name_ofName (n : String) : (ofName n).name = n := by
  unfold ofName
  cases h : [typeError, valueError, attributeError, overflow, recursion].find? fun k =>
    k.name == n with
  | none => rfl
  | some k => simpa using List.find?_some h

end ExceptionKind

namespace Failure

/-- The failure of a named kind with nothing but its text. -/
def ofName (name message : String) : Failure :=
  match FaultKind.ofName? name with
  | some kind => fault (Fault.plain kind message)
  | none => exception (ExceptionKind.ofName name) (some message)

/-- The fault of a named kind with the given fields; a field that the kind does not have is a type
error. -/
def ofFields (name message : String) (fields : List (String × Report)) : Except Failure Failure :=
  match ofName name message with
  | fault f =>
    match fields.foldlM (fun f m => f.set m.1 m.2) f with
    | some f => .ok (fault f)
    | none => .error typeError
  | e => .ok e

def report : Failure → Report
  | fault f =>
    .record [("error", .text f.kind.name), ("message", .text f.message), ("info", .record f.info)]
  | exception k m =>
    .record (("error", .text k.name) :: (m.map fun m => ("message", Report.text m)).toList)

end Failure

end CallAdapter
