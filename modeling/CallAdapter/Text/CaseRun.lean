/-!
# Runs of characters with one case shift

A case mapping sends most letters to a letter at a fixed distance. A run describes such letters:
every character, or every second one, between two ends.
-/

namespace CallAdapter

namespace Text

/-- The characters `first, first + step, …, last`, each mapped to the one `shift` further. -/
structure CaseRun where
  first : Nat
  last : Nat
  step : Nat
  shift : Int
  deriving DecidableEq, Repr

/-- Whether the run holds the character with number `n`. -/
def CaseRun.holds (r : CaseRun) (n : Nat) : Bool :=
  decide (r.first ≤ n) && decide (n ≤ r.last) && (n - r.first) % r.step == 0

/-- Maps a character through runs and expansions; a character in neither stays as it is. -/
def mapCase (runs : List CaseRun) (expansions : List (Nat × List Nat)) (c : Char) : List Char :=
  match runs.find? (·.holds c.toNat) with
  | some r => [Char.ofNat ((c.toNat : Int) + r.shift).toNat]
  | none =>
    match expansions.find? (·.1 == c.toNat) with
    | some e => e.2.map Char.ofNat
    | none => [c]

end Text

end CallAdapter
