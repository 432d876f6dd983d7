/-!
# Records as text

A record is shown as a name with named parts in braces.
-/

namespace M68k

namespace Text

/-- The text of a record whose parts have names and texts. -/
def record (name : String) (parts : List (String × String)) : String :=
  let inside := String.intercalate ", " (parts.map fun (part, text) => part ++ ": " ++ text)
  name ++ " \x7b " ++ inside ++ " \x7d"

/-- The text of a part that need not be there. -/
def optional {α : Type} (text : α → String) : Option α → String
  | some a => "Some(" ++ text a ++ ")"
  | none => "None"

end Text

end M68k
