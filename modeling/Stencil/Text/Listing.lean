namespace Stencil.Text

-- How structured data is listed: a name with named fields in braces, a name with one part in
-- parentheses, or parts in brackets.
def record (name : String) (fields : List (String × String)) : String :=
  name ++ " \x7b " ++ ", ".intercalate (fields.map fun (key, value) => key ++ ": " ++ value) ++
    " \x7d"

def wrapped (name : String) (part : String) : String := name ++ "(" ++ part ++ ")"

def bracketed (parts : List String) : String := "[" ++ ", ".intercalate parts ++ "]"

def optional : Option String → String
  | some part => wrapped "Some" part
  | none => "None"

end Stencil.Text
