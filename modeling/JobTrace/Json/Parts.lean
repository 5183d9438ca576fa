import JobTrace.Json.Value

/-!
Reading a document as the parts of a structure.

A structure with named parts is spelt as a map, or as the list of its parts in their fixed order.
In a map the members of other names are skipped: their values need no meaning, only a spelling.
A name of the structure may not be repeated.
-/

namespace JobTrace.Document

/-- The members with a given name, out of members whose keys all have a meaning.  None of the
    names may occur twice. -/
def namedParts? (names : List String) :
    List (StringLiteral × Document) → Option (List (String × Document))
  | [] => some []
  | (k, d) :: ms =>
    match k.value?, namedParts? names ms with
    | some name, some parts =>
      if ¬ names.contains name then some parts
      else if (Entries.find? name parts).isSome then none
      else some ((name, d) :: parts)
    | _, _ => none

/-- The parts of a structure.  A list may leave off the last ones. -/
def parts? (names : List String) : Document → Option (List (String × Document))
  | .map ms => namedParts? names ms
  | .list ds => if ds.length ≤ names.length then some (names.zip ds) else none
  | _ => none

def string? : Document → Option String
  | .string s => s.value?
  | _ => none

def strings? : Document → Option (List String)
  | .list ds => ds.mapM string?
  | _ => none

end JobTrace.Document
