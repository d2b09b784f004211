import CallAdapter.Text.Fold

/-!
# Search masks

What a look-up by name searches for: categories of members, scope, visibility, and how names are
compared. An empty part of a mask stands for every choice of that part; `SearchMask.split` fills
the empty parts in. Masks are written as words separated by commas or bars, and a mask reads the
same however its words are ordered, repeated, spelled in upper or lower case, or spaced.
-/

namespace CallAdapter

inductive SearchFlag
  | invokeMethod
  | createInstance
  | getField
  | setField
  | getProperty
  | setProperty
  | staticScope
  | instanceScope
  | publicName
  | privateName
  | ignoreCase
  | declaredOnly
  deriving DecidableEq, Repr

/-- A set of flags, one bit each. -/
abbrev SearchMask := BitVec 12

namespace SearchFlag

def index : SearchFlag → Nat
  | invokeMethod => 0
  | createInstance => 1
  | getField => 2
  | setField => 3
  | getProperty => 4
  | setProperty => 5
  | staticScope => 6
  | instanceScope => 7
  | publicName => 8
  | privateName => 9
  | ignoreCase => 10
  | declaredOnly => 11

/-- The word for the flag. -/
def word : SearchFlag → String
  | invokeMethod => "INVOKE_METHOD"
  | createInstance => "CREATE_INSTANCE"
  | getField => "GET_FIELD"
  | setField => "SET_FIELD"
  | getProperty => "GET_PROPERTY"
  | setProperty => "SET_PROPERTY"
  | staticScope => "STATIC"
  | instanceScope => "INSTANCE"
  | publicName => "PUBLIC"
  | privateName => "NON_PUBLIC"
  | ignoreCase => "IGNORE_CASE"
  | declaredOnly => "DECLARED_ONLY"

/-- All flags, in the order of their bits. -/
def all : List SearchFlag :=
  [invokeMethod, createInstance, getField, setField, getProperty, setProperty, staticScope,
    instanceScope, publicName, privateName, ignoreCase, declaredOnly]

def mask (f : SearchFlag) : SearchMask := BitVec.twoPow 12 f.index

theorem mem_all (f : SearchFlag) : f ∈ all := by cases f <;> decide

/-- The mask that a word stands for; the empty mask has a word too. -/
def ofWord? (w : String) : Option SearchMask :=
  if w = "NONE" then some 0
  else (all.find? fun f => f.word == w).map mask

end SearchFlag

namespace SearchMask

def empty : SearchMask := 0

def has (m : SearchMask) (f : SearchFlag) : Bool := m.getLsbD f.index

/-- Whether two masks share a flag. -/
def meets (m n : SearchMask) : Bool := m &&& n != 0

def ofFlags (fs : List SearchFlag) : SearchMask := fs.foldl (fun m f => m ||| f.mask) 0

/-- The flags of a mask, in the order of their bits. -/
def flags (m : SearchMask) : List SearchFlag := SearchFlag.all.filter m.has

/-- Every category of members. -/
def categories : SearchMask :=
  ofFlags [.invokeMethod, .createInstance, .getField, .setField, .getProperty, .setProperty]

def scopes : SearchMask := ofFlags [.staticScope, .instanceScope]

def visibilities : SearchMask := ofFlags [.publicName, .privateName]

/-- Both scopes and both visibilities. -/
def standard : SearchMask := scopes ||| visibilities

/-- Fills an empty part of a mask with everything of that part. -/
def fill (m part : SearchMask) : SearchMask := if m.meets part then m else m ||| part

/-- The categories to search, and the filter on what is found there. -/
def split (options : Option SearchMask) : SearchMask × SearchMask :=
  let m := options.getD empty
  let members := m &&& categories
  let binding := m &&& ~~~categories
  (if members = 0 then categories else members, fill (fill binding scopes) visibilities)

/-- The parts of a written mask, without the blanks around them and in upper case. -/
def words (text : String) : List String :=
  let rec parts : List Char → List (List Char)
    | [] => [[]]
    | c :: cs =>
      if c == ',' || c == '|' then [] :: parts cs
      else
        match parts cs with
        | [] => [[c]]
        | p :: ps => (c :: p) :: ps
  ((parts text.toList).map fun p => Text.upper (Text.strip (String.ofList p))).filter
    fun w => !w.isEmpty

/-- Joins the masks of words; the first unknown word is the error. -/
def ofWords : List String → Except String SearchMask
  | [] => .ok 0
  | w :: ws =>
    match SearchFlag.ofWord? w with
    | none => .error w
    | some m => (ofWords ws).map (m ||| ·)

/-- Reads a mask; the error is the first unknown word. -/
def ofText (text : String) : Except String SearchMask := ofWords (words text)

theorem ofWords_append (us vs : List String) :
    ofWords (us ++ vs) =
      match ofWords us with
      | .ok m => (ofWords vs).map (m ||| ·)
      | .error w => .error w := by
  induction us with
  | nil =>
    cases hv : ofWords vs with
    | error e => simp [ofWords, hv, Except.map]
    | ok m => simp [ofWords, hv, Except.map]
  | cons u us ih =>
    simp only [List.cons_append, ofWords]
    cases SearchFlag.ofWord? u with
    | none => rfl
    | some m =>
      simp only [ih]
      cases ofWords us with
      | error e => rfl
      | ok n =>
        cases ofWords vs with
        | error e => rfl
        | ok k => simp [Except.map, BitVec.or_assoc]

/-- A filled part is not empty. -/
theorem meets_fill (m part : SearchMask) (h : part ≠ 0) : (fill m part).meets part = true := by
  unfold fill
  split
  · assumption
  · have hp : (m ||| part) &&& part = part := by
      ext i hi
      simp only [BitVec.getElem_and, BitVec.getElem_or]
      cases m[i] <;> cases part[i] <;> rfl
    simpa [meets, hp] using h

end SearchMask

/-- Names with a leading underscore are private unless underscores enclose them twice. -/
def isPublicName (name : String) : Bool :=
  (name.startsWith "__" && name.endsWith "__") || !name.startsWith "_"

namespace SearchMask

/-- Whether a member of the given scope and visibility passes the filter. -/
def admits (binding : SearchMask) (isStatic isPublic : Bool) : Bool :=
  (if isStatic then binding.has .staticScope else binding.has .instanceScope) &&
    (if isPublic then binding.has .publicName else binding.has .privateName)

/-- Whether a candidate's name is the wanted one, under the comparison that the mask asks for. -/
def nameMatches (binding : SearchMask) (candidate wanted : String) : Bool :=
  if binding.has .ignoreCase then Text.fold candidate == Text.fold wanted
  else candidate == wanted

end SearchMask

end CallAdapter
