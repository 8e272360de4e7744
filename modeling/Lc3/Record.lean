/-! # Text of named values

A value is written as the name of its constructor followed by what it holds: fields by name in
braces, or a single unnamed part in parentheses. Diagnostics of every type of the library use
these two forms.
-/

namespace Lc3.Record
set_option autoImplicit false

/-- A name with named fields, written `Name { first: 1, second: 2 }`. -/
def fields (name : String) (parts : List (String × String)) : String :=
  name ++ " \x7b " ++ ", ".intercalate (parts.map fun (field, value) => field ++ ": " ++ value)
    ++ " \x7d"

/-- A name with one unnamed part, written `Name(part)`. -/
def wrap (name part : String) : String :=
  name ++ "(" ++ part ++ ")"

def bool (b : Bool) : String :=
  if b then "true" else "false"

/-- A value that may be missing, written `Some(part)` or `None`. -/
def optional : Option String → String
  | some part => wrap "Some" part
  | none => "None"

end Lc3.Record
