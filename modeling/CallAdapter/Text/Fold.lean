import CallAdapter.Text.FoldTable
import CallAdapter.Text.UpperTable

/-!
# Letter case and blanks

Names are compared without regard to case through their full case folding, and words of a list
are brought to upper case after the blanks around them are dropped.
-/

namespace CallAdapter

namespace Text

/-- The full case folding, so that `ß` and `ss` agree. -/
def fold (s : String) : String :=
  String.ofList (s.toList.flatMap (mapCase foldRuns foldExpansions))

/-- The full upper case, so that `ß` becomes `SS`. -/
def upper (s : String) : String :=
  String.ofList (s.toList.flatMap (mapCase upperRuns upperExpansions))

/-- Blanks: the space and the separators and controls that count as white space. -/
def isBlank (c : Char) : Bool :=
  let n := c.toNat
  (9 ≤ n && n ≤ 13) || (28 ≤ n && n ≤ 32) || n == 0x85 || n == 0xA0 || n == 0x1680 ||
    (0x2000 ≤ n && n ≤ 0x200A) || n == 0x2028 || n == 0x2029 || n == 0x202F || n == 0x205F ||
    n == 0x3000

/-- The text without the blanks at its two ends. -/
def strip (s : String) : String :=
  String.ofList ((s.toList.dropWhile isBlank).reverse.dropWhile isBlank).reverse

theorem upper_append (s t : String) : upper (s ++ t) = upper s ++ upper t := by
  simp [upper, String.toList_append, List.flatMap_append]

theorem fold_append (s t : String) : fold (s ++ t) = fold s ++ fold t := by
  simp [fold, String.toList_append, List.flatMap_append]

end Text

end CallAdapter
