import CallAdapter.Text.HiddenTable

/-!
# Quoted text

Text in quotes for messages: single quotes unless the text holds a single quote and no double
one, a backslash before the quote in use and before itself, and escapes for characters without
a visible form.
-/

namespace CallAdapter

namespace Text

def isHidden (c : Char) : Bool :=
  let n := c.toNat
  n < 32 || n == 127 || (128 ≤ n && hiddenRanges.any fun r => r.1 ≤ n && n ≤ r.2)

/-- The last `count` hexadecimal digits of `n`. -/
def hexPadded : (count n : Nat) → List Char
  | 0, _ => []
  | count + 1, n => hexPadded count (n / 16) ++ [(Nat.toDigits 16 (n % 16)).headD '0']

/-- The form of one character between quotes of the given kind. -/
def quoteChar (quote c : Char) : List Char :=
  if c = quote ∨ c = '\\' then ['\\', c]
  else if c = '\n' then ['\\', 'n']
  else if c = '\r' then ['\\', 'r']
  else if c = '\t' then ['\\', 't']
  else if isHidden c then
    let n := c.toNat
    if n < 0x100 then '\\' :: 'x' :: hexPadded 2 n
    else if n < 0x10000 then '\\' :: 'u' :: hexPadded 4 n
    else '\\' :: 'U' :: hexPadded 8 n
  else [c]

/-- The quote that a text is put in. -/
def quoteFor (cs : List Char) : Char :=
  if '\'' ∈ cs ∧ '"' ∉ cs then '"' else '\''

def quoted (s : String) : String :=
  let cs := s.toList
  let q := quoteFor cs
  String.ofList (q :: cs.flatMap (quoteChar q) ++ [q])

/-- Bytes in quotes after a `b`, with an escape for each byte that is no visible ASCII. -/
def quotedBytes (bytes : List UInt8) : String :=
  let cs := bytes.map fun b => Char.ofNat b.toNat
  let q := quoteFor cs
  let one (c : Char) : List Char :=
    if c.toNat < 127 then quoteChar q c else '\\' :: 'x' :: hexPadded 2 c.toNat
  String.ofList ('b' :: q :: cs.flatMap one ++ [q])

end Text

end CallAdapter
