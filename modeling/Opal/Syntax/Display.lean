import Opal.Syntax.Tree

/-!
# Written types in running text

A written type as it is quoted. Sizes of arrays are left open.
-/

namespace Opal

mutual

/-- A written type as it is quoted. -/
def TypeExpr.display : TypeExpr → String
  | ⟨_,form⟩ => form.display

def TypeForm.display : TypeForm → String
  | .named name => name
  | .array element _ => "[" ++ element.display ++ ", _]"
  | .reference true target => "^mut " ++ target.display
  | .reference false target => "^" ++ target.display
  | .function params none => "def(" ++ ", ".intercalate (displayTypes params) ++ ")"
  | .function params (some ret) =>
    "def(" ++ ", ".intercalate (displayTypes params) ++ ") -> " ++ ret.display

def displayTypes : List TypeExpr → List String
  | [] => []
  | t :: ts => t.display :: displayTypes ts

end

end Opal
