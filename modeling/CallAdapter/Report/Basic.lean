import CallAdapter.Member.Search
import CallAdapter.Number.HexFloat
import CallAdapter.Value.Scalar

/-!
# Reports

Structured descriptions of what the library holds: plain data, lists and records, in which types go
by their names. The modules beside this one describe faults, types, members and values.
-/

namespace CallAdapter

inductive Report
  | absent
  | flag (b : Bool)
  | number (n : Int)
  | text (s : String)
  | list (rs : List Report)
  | record (fields : List (String × Report))
  deriving Inhabited

namespace Report

def count (n : Nat) : Report := number n

def optional : Option String → Report
  | some s => text s
  | none => absent

def texts (ss : List String) : Report := list (ss.map text)

def flags (bs : List Bool) : Report := list (bs.map flag)

/-- The text of a report that is one. -/
def text? : Report → Option String
  | text s => some s
  | _ => none

/-- The number of a report, zero if it has none. -/
def toInt : Report → Int
  | number n => n
  | _ => 0

/-- A single marked value. -/
def marked (mark : String) (r : Report) : Report := record [(mark, r)]

end Report

/-- Two digits for each byte. -/
def hexOfBytes (bs : List UInt8) : String :=
  String.ofList (bs.flatMap fun b => Binary64.hexDigits 2 b.toNat)

/-- Plain data that is exact in a report: binary numbers in base 16, decimals and fractions by their
text and parts. -/
def Scalar.report : Scalar → Report
  | .bool b => .flag b
  | .int n => .number n
  | .str s => .text s
  | .float x => .marked "float" (.text x.hexText)
  | .complex re im => .marked "complex" (.texts [re.hexText, im.hexText])
  | .decimal d => .marked "dec" (.text d.text)
  | .fraction q => .marked "frac" (.list [.number q.num, .count q.den])
  | .bytes bs => .marked "bytes" (.text (hexOfBytes bs))

/-- The flags of a mask by word, and all of it as a number. -/
def SearchMask.report (m : SearchMask) : Report :=
  .record [("options", .texts (m.flags.map (·.word))), ("int", .count m.toNat)]

theorem Scalar.report_int (n : Int) : (Scalar.int n).report = .number n := rfl

end CallAdapter
