import CallAdapter.Type.Basic

/-!
# Type names

How types are written in messages. `Ty.shown` is the full form, in which the annotation language
prefixes its own forms with `typing.`; `Ty.name` is the short form: the bare name of a class, and
the full form without those prefixes for everything else.
-/

namespace CallAdapter

/-- The name of a class, qualified by its module unless it belongs to the language itself. -/
def Cls.qualified : Cls → String
  | .builtin b => if b.moduleName = "builtins" then b.name else b.moduleName ++ "." ++ b.name
  | .declared c => "app." ++ c.qualname

/-- The bare name of a class. -/
def Cls.name : Cls → String
  | .builtin b => b.name
  | .declared c => c.qualname

/-- How a class is shown on its own. -/
def Cls.shown : Cls → String
  | .builtin .any => "typing.Any"
  | c => "<class '" ++ c.qualified ++ "'>"

namespace Token

mutual

def shown : Token → String
  | scalar s => s.text
  | object _ _ text | member _ _ text | code _ text | other text => text
  | tuple [t] => "(" ++ shown t ++ ",)"
  | tuple ts => "(" ++ String.intercalate ", " (shownAll ts) ++ ")"
  | list ts => "[" ++ String.intercalate ", " (shownAll ts) ++ "]"

def shownAll : List Token → List String
  | [] => []
  | t :: ts => shown t :: shownAll ts

end

end Token

def Form.shown : Form → String
  | .classVar => "typing.ClassVar"
  | .final => "typing.Final"
  | .list => "typing.List"
  | .union => "typing.Union"
  | .literal => "typing.Literal"
  | .concatenate => "typing.Concatenate"

/-- The text before the bracket of an alias. -/
def Head.shown : Head → String
  | .native c | .generic c => c.qualified
  | .list => "typing.List"
  | .callable => "typing.Callable"
  | .classVar => "typing.ClassVar"
  | .final => "typing.Final"
  | .annotated => "typing.Annotated"
  | .literal => "typing.Literal"
  | .concatenate => "typing.Concatenate"

/-- Texts between brackets. -/
def bracketed (ts : List String) : String := "[" ++ String.intercalate ", " ts ++ "]"

namespace Ty

/-- The text of a union of two members one of which is absent, else of all members. -/
def unionShown (items : List (Bool × String)) : String :=
  match items with
  | [(true, _), (_, b)] => "typing.Optional[" ++ b ++ "]"
  | [(_, a), (true, _)] => "typing.Optional[" ++ a ++ "]"
  | _ => "typing.Union" ++ bracketed (items.map (·.2))

mutual

def shown : Ty → String
  | null => "None"
  | cls c => c.shown
  | form f => f.shown
  | text s => Text.quoted s
  | forward s => "ForwardRef(" ++ Text.quoted s ++ ")"
  | var v => "~" ++ v.name
  | params n => "~" ++ n
  | union false ms => unionShown (unionItems ms)
  | union true ms => String.intercalate " | " (pipeItems ms)
  | applied .annotated as => "typing.Annotated" ++ bracketed (items as ++ ["'meta'"])
  | applied (.native (.builtin .tuple)) [] => "tuple[()]"
  | applied h as => h.shown ++ bracketed (items as)
  | list ts => bracketed (items ts)
  | ellipsis => "Ellipsis"
  | token t => t.shown

/-- The text of a type between the brackets of another. -/
def item : Ty → String
  | cls c => c.qualified
  | ellipsis => "..."
  | null => "None"
  | form f => f.shown
  | text s => Text.quoted s
  | forward s => "ForwardRef(" ++ Text.quoted s ++ ")"
  | var v => "~" ++ v.name
  | params n => "~" ++ n
  | union false ms => unionShown (unionItems ms)
  | union true ms => String.intercalate " | " (pipeItems ms)
  | applied .annotated as => "typing.Annotated" ++ bracketed (items as ++ ["'meta'"])
  | applied (.native (.builtin .tuple)) [] => "tuple[()]"
  | applied h as => h.shown ++ bracketed (items as)
  | list ts => bracketed (items ts)
  | token t => t.shown

def items : List Ty → List String
  | [] => []
  | t :: ts => item t :: items ts

def unionItems : List Ty → List (Bool × String)
  | [] => []
  | t :: ts => (t.isVoid, item t) :: unionItems ts

def pipeItems : List Ty → List String
  | [] => []
  | t :: ts => (if t.isVoid then "None" else item t) :: pipeItems ts

end

/-- The name of a type in messages and shapes. Every remark is shown as `meta`. -/
def name (t : Ty) : String :=
  match t with
  | cls (.builtin .none) => "None"
  | cls (.builtin .any) => "Any"
  | cls c => if t.isClass then c.name else t.shown.replace "typing." ""
  | _ => t.shown.replace "typing." ""

theorem name_none : none.name = "None" := rfl

theorem name_any : any.name = "Any" := rfl

end Ty

end CallAdapter
