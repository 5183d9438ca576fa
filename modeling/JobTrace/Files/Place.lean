import JobTrace.Files.Path

/-!
Places in a tree of files.

Many paths lead to one place: `a/b`, `./a//b` and `a/c/../b` may all mean the same file.  A place
is what they have in common, the bare names on the way from the root.  Which place a path leads to
depends on the tree, because each directory on the way has to be there.
-/

namespace JobTrace

/-- A place in a tree: the names on the way to it, the last one first. -/
@[ext]
structure Place where
  names : List String
deriving DecidableEq

namespace Place

def root : Place := ⟨[]⟩

def enter (l : Place) (name : String) : Place := ⟨name :: l.names⟩

/-- The place around.  Around the root there is only the root. -/
def parent (l : Place) : Place := ⟨l.names.tail⟩

/-- Names as one text, each behind a slash, in the order of the way. -/
def spell : List String → String
  | [] => ""
  | name :: names => spell names ++ "/" ++ name

def key (l : Place) : String := spell l.names

end Place

end JobTrace
