/-!
Paths.

A path is a text in which slashes separate segments.  Its components are the segments that count:
empty segments and segments `.` do not, except that a path may start at the root or, with a first
segment `.`, explicitly at the place where it is read.  The parent of a path is found by its
components, but what is left is kept as it was spelt; joining works on the spelling alone.  All
segments matter again to whoever follows a path, because each of them is taken in a directory.
-/

namespace JobTrace

/-- A path as it is spelt. -/
@[ext]
structure Path where
  text : String
deriving DecidableEq

namespace Path

/-! ### Segments -/

/-- Where a path starts. -/
inductive Start where
  /-- At the root: the path begins with a slash. -/
  | root
  /-- Explicitly at the place where it is read: the first segment is `.`. -/
  | here
  /-- With its first segment. -/
  | bare
deriving DecidableEq

def Start.text : Start → List Char
  | root => ['/']
  | here => ['.']
  | bare => []

def splitSlash : List Char → List (List Char)
  | [] => [[]]
  | c :: cs =>
    if c = '/' then [] :: splitSlash cs
    else
      match splitSlash cs with
      | [] => [[c]]
      | s :: ss => (c :: s) :: ss

def joinSlash : List (List Char) → List Char
  | [] => []
  | [s] => s
  | s :: ss => s ++ '/' :: joinSlash ss

def splitStart : List Char → Start × List Char
  | '/' :: cs => (.root, cs)
  | ['.'] => (.here, [])
  | '.' :: '/' :: cs => (.here, '/' :: cs)
  | cs => (.bare, cs)

def start (p : Path) : Start := (splitStart p.text.toList).1

/-- All segments behind the start, also those that count for nothing. -/
def segments (p : Path) : List (List Char) := splitSlash (splitStart p.text.toList).2

/-- Whether a segment counts. -/
def counts (segment : List Char) : Bool := segment ≠ [] ∧ segment ≠ ['.']

/-- The segments without those at the end that count for nothing. -/
def trimSegments (ss : List (List Char)) : List (List Char) :=
  (ss.reverse.dropWhile fun s => !counts s).reverse

def ofSegments (start : Start) (ss : List (List Char)) : Path :=
  ⟨String.ofList (start.text ++ joinSlash ss)⟩

/-- The components of a path: its start, if it has a spelling, and the segments that count. -/
def components (p : Path) : List (List Char) :=
  (match p.start with
    | .bare => []
    | s => [s.text]) ++ p.segments.filter counts

/-! ### Reading a path segment by segment -/

/-- Whether the spelling ends where only a directory can be: behind a slash, or in `.` or `..`. -/
def endsInDirectory (p : Path) : Bool :=
  match p.segments.getLast? with
  | none => true
  | some s => s = [] ∨ s = ['.'] ∨ s = ['.', '.']

/-- The segments in front of the last one that is not empty. -/
def frontSegments (p : Path) : List (List Char) :=
  ((p.segments.reverse.dropWhile List.isEmpty).drop 1).reverse

/-! ### Parents and names -/

/-- The path without its last component.  The root and the empty path have no parent. -/
def parent? (p : Path) : Option Path :=
  match (trimSegments p.segments).reverse, p.start with
  | _ :: rest, start => some (ofSegments start (trimSegments rest.reverse))
  | [], .here => some ⟨""⟩
  | [], _ => none

def fileName? (p : Path) : Option String :=
  match (trimSegments p.segments).reverse with
  | s :: _ => if s = ['.', '.'] then none else some (String.ofList s)
  | [] => none

def join (p : Path) (name : String) : Path :=
  if p.text = "" then ⟨name⟩
  else if p.text.toList.getLast? = some '/' then ⟨p.text ++ name⟩
  else ⟨p.text ++ "/" ++ name⟩

def withFileName (p : Path) (name : String) : Path :=
  match p.fileName?, p.parent? with
  | some _, some dir => dir.join name
  | _, _ => p.join name

/-- The path beside a file at which its next contents are written first. -/
def temporary (p : Path) : Path := p.withFileName (p.fileName?.getD "" ++ ".tmp")

end Path

/-! ### Where snapshots are kept -/

/-- The name of the file that keeps the states of jobs. -/
def snapshotFileName : String := "job.states.snapshot"

/-- The path of the snapshot: in the given directory, else beside the executable, else where the
    program runs.  An empty directory counts as none given. -/
def snapshotPath (directory : Option String) (executable : Option Path) : Path :=
  match directory.filter (· ≠ ""), executable.bind Path.parent? with
  | some dir, _ => (⟨dir⟩ : Path).join snapshotFileName
  | none, some dir => dir.join snapshotFileName
  | none, none => ⟨snapshotFileName⟩

end JobTrace
