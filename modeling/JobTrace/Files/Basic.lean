import JobTrace.Dict
import JobTrace.Files.Place

/-!
The files that snapshots are kept in.

Only what snapshots need is modelled: a tree of directories and files, with reading, writing and
renaming.  A path is followed segment by segment, from the root, and every segment has to be taken
in a directory that is there; so `a/..` is no short form of the place where it starts unless `a`
is a directory, and a slash at the end asks for a directory too.  Writing and renaming either do
all of their work or nothing, and say why if they do nothing.
-/

namespace JobTrace

/-- What is found at a place. -/
inductive FileNode where
  | directory
  | file (bytes : ByteArray)

instance : DecidableEq FileNode
  | .directory, .directory => isTrue rfl
  | .directory, .file _ => isFalse nofun
  | .file _, .directory => isFalse nofun
  | .file bytes, .file bytes' =>
    if h : bytes.data = bytes'.data then isTrue (congrArg FileNode.file (ByteArray.ext h))
    else isFalse fun heq => h (congrArg ByteArray.data (FileNode.file.inj heq))

/-- Why an operation on files did nothing. -/
inductive FileError where
  | notFound
  | notADirectory
  | isADirectory
  /-- A name or a whole path is too long. -/
  | tooLong
  /-- The path holds a character that no path can hold. -/
  | badCharacter
  /-- The bytes of the file spell no text. -/
  | notText
deriving DecidableEq

/-- A tree of directories and files, by the keys of their places. -/
@[ext]
structure Files where
  nodes : Dict FileNode

/-! ### Limits -/

def nameLimit : Nat := 255

def pathLimit : Nat := 4095

/-- Why a path leads nowhere in any tree. -/
def Path.fault? (p : Path) : Option FileError :=
  if p.text.contains '\x00' then some .badCharacter
  else if pathLimit < p.text.utf8ByteSize then some .tooLong
  else if p.text = "" then some .notFound
  else none

namespace Files

def empty : Files := ⟨Dict.empty⟩

instance : Inhabited Files := ⟨empty⟩

/-! ### Following paths -/

def node? (fs : Files) (l : Place) : Option FileNode :=
  if l = .root then some .directory else fs.nodes.get? l.key

@[simp] theorem node?_root (fs : Files) : fs.node? .root = some .directory := if_pos rfl

/-- Follow one segment of a path.  This needs a directory, even if the segment is empty. -/
def step (fs : Files) (l : Place) (segment : List Char) : Except FileError Place :=
  match fs.node? l with
  | none => .error .notFound
  | some (.file _) => .error .notADirectory
  | some .directory =>
    if ¬ Path.counts segment then .ok l
    else if segment = ['.', '.'] then .ok l.parent
    else if nameLimit < (String.ofList segment).utf8ByteSize then .error .tooLong
    else .ok (l.enter (String.ofList segment))

/-- Follow segments.  Nothing needs to be there at the place where they end. -/
def walk (fs : Files) (l : Place) : List (List Char) → Except FileError Place
  | [] => .ok l
  | segment :: rest =>
    match fs.step l segment with
    | .error e => .error e
    | .ok next => fs.walk next rest

theorem walk_append (fs : Files) (l : Place) (front back : List (List Char)) :
    fs.walk l (front ++ back) =
      match fs.walk l front with
      | .error e => .error e
      | .ok next => fs.walk next back := by
  induction front generalizing l with
  | nil => rfl
  | cons segment rest ih =>
    simp only [List.cons_append, walk]
    cases fs.step l segment with
    | error e => rfl
    | ok next => exact ih next

def locate (fs : Files) (p : Path) : Except FileError Place :=
  match p.fault? with
  | some e => .error e
  | none => fs.walk .root p.segments

/-- The place where a file of the given path is put.  A path that ends in a directory has none,
    even if there is no such directory. -/
def placeFor (fs : Files) (p : Path) : Except FileError Place :=
  if p.endsInDirectory then
    match p.fault?, fs.walk .root (p.frontSegments ++ [[]]) with
    | some e, _ => .error e
    | none, .error e => .error e
    | none, .ok _ => .error .isADirectory
  else fs.locate p

/-! ### Reading -/

def find? (fs : Files) (p : Path) : Option FileNode :=
  match fs.locate p with
  | .error _ => none
  | .ok l => fs.node? l

def read (fs : Files) (p : Path) : Except FileError String :=
  match fs.locate p with
  | .error e => .error e
  | .ok l =>
    match fs.node? l with
    | none => .error .notFound
    | some .directory => .error .isADirectory
    | some (.file bytes) =>
      match String.fromUTF8? bytes with
      | some s => .ok s
      | none => .error .notText

/-! ### Changing -/

def write (fs : Files) (p : Path) (bytes : ByteArray) : Except FileError Files :=
  match fs.placeFor p with
  | .error e => .error e
  | .ok l =>
    match fs.node? l with
    | some .directory => .error .isADirectory
    | _ => .ok ⟨fs.nodes.insert l.key (.file bytes)⟩

/-- Give a file another path, in place of a file that is there. -/
def rename (fs : Files) (source target : Path) : Except FileError Files :=
  match fs.locate source, fs.placeFor target with
  | .error e, _ => .error e
  | .ok _, .error e => .error e
  | .ok s, .ok t =>
    match fs.node? s, fs.node? t with
    | none, _ => .error .notFound
    | some .directory, _ => .error .isADirectory
    | some (.file _), some .directory => .error .isADirectory
    | some (.file bytes), _ => .ok ⟨(fs.nodes.erase s.key).insert t.key (.file bytes)⟩

def remove (fs : Files) (p : Path) : Except FileError Files :=
  match fs.locate p with
  | .error e => .error e
  | .ok l =>
    match fs.node? l with
    | none => .error .notFound
    | some .directory => .error .isADirectory
    | some (.file _) => .ok ⟨fs.nodes.erase l.key⟩

/-- Follow segments and make the directories that are missing. -/
def makeAlong (fs : Files) (l : Place) : List (List Char) → Except FileError Files
  | [] => .ok fs
  | segment :: rest =>
    match fs.step l segment with
    | .error e => .error e
    | .ok next =>
      match fs.node? next with
      | none => makeAlong ⟨fs.nodes.insert next.key .directory⟩ next rest
      | some .directory => fs.makeAlong next rest
      | some (.file _) => .error .notADirectory

def makeDirectory (fs : Files) (p : Path) : Except FileError Files :=
  match p.fault? with
  | some e => .error e
  | none => fs.makeAlong .root p.segments

/-! ### Listing -/

/-- The name that a key has in the directory of another key. -/
def nameIn? (directory key : String) : Option String :=
  match (directory ++ "/").toList.isPrefixOf? key.toList with
  | none => none
  | some rest => if rest.contains '/' then none else some (String.ofList rest)

/-- The names directly in a directory, in order, and what they name. -/
def entries (fs : Files) (p : Path) : Except FileError (List (String × FileNode)) :=
  match fs.locate p with
  | .error e => .error e
  | .ok l =>
    match fs.node? l with
    | none => .error .notFound
    | some (.file _) => .error .notADirectory
    | some .directory =>
      .ok (fs.nodes.entries.filterMap fun e => (nameIn? l.key e.1).map (·, e.2))

end Files

end JobTrace
