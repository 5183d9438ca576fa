import JobTrace.Files.Basic
import JobTrace.Message
import JobTrace.Tracking.Change

/-!
Snapshots: stores kept in files.

A snapshot is the contents of a store as one JSON object, keys in order.  It is written beside its
place and then renamed into it, so whoever reads the place finds a whole snapshot, the old or the
new one.  Reading is lenient about values and strict about the whole: a value that does not
convert is left out, but a text that is no object changes nothing.
-/

namespace JobTrace

/-- Why a snapshot could not be written or read. -/
inductive SnapshotError where
  | io (path : Path) (cause : FileError)
  | parse (path : Path)
  | notAnObject (path : Path)
deriving DecidableEq

namespace SnapshotError

/-- The wording of an error, where the wording is this library's own. -/
def message? : SnapshotError → Option String
  | notAnObject p => some ("snapshot " ++ p.text ++ " is not a json object")
  | _ => none

def path : SnapshotError → Path
  | io p _ => p
  | parse p => p
  | notAnObject p => p

/-- Whether there simply is no snapshot yet. -/
def isNotFound : SnapshotError → Bool
  | io _ .notFound => true
  | _ => false

end SnapshotError

/-! ### Values in snapshots -/

/-- Values that a snapshot can hold. -/
class Storable (α : Type) where
  toJson : α → Json
  ofJson? : Json → Option α
  /-- A value is found again in its JSON form. -/
  ofJson?_toJson : ∀ a, ofJson? (toJson a) = some a
  /-- The JSON form is found again in a text. -/
  plain_toJson : ∀ a, Json.Plain (toJson a)

/-- Any number is a code: a snapshot written elsewhere may hold codes as doubles. -/
instance : Storable Int64 where
  toJson n := Value.ofNumber (.int n)
  ofJson? v :=
    match v.tree with
    | .number n => some n.toInt64
    | _ => none
  ofJson?_toJson _ := rfl
  plain_toJson n := ⟨by simp [Value.ofNumber, Tree.depth, maxDepth],
    by simp [Value.ofNumber, Tree.numbers]⟩

/-- A property as text: a string as it is, any other value as its JSON text. -/
def propertyText (v : Json) : String :=
  match v.tree with
  | .string s => s
  | _ => v.text

instance : Storable (Dict String) where
  toJson := Message.textsValue
  ofJson? v := v.toDict?.map fun d => d.mapValues propertyText
  ofJson?_toJson d := by
    have htexts : (d.mapValues (Value.ofString (ν := JsonNumber))).mapValues propertyText = d := by
      refine Dict.ext_get? fun k => ?_
      rw [Dict.get?_mapValues, Dict.get?_mapValues]
      cases d.get? k <;> rfl
    rw [Message.textsValue, Value.toDict?_ofDict, Option.map_some, htexts]
  plain_toJson d := Message.plain_textsValue d

/-! ### Encoding and decoding -/

namespace Store

variable {α : Type} [Storable α]

def encode (contents : Dict α) : String := (Value.ofDict (contents.mapValues Storable.toJson)).text

def text (s : Store α) : String := encode s.contents

/-- The contents that a JSON object holds; values that do not convert are left out. -/
def contentsOfJson? (v : Json) : Option (Dict α) :=
  v.toDict?.map fun d => d.filterMapValues Storable.ofJson?

def decode (path : Path) (text : String) : Except SnapshotError (Dict α) :=
  match Json.ofText? text with
  | none => .error (.parse path)
  | some v =>
    match contentsOfJson? v with
    | none => .error (.notAnObject path)
    | some contents => .ok contents

/-- Replace the contents by those of a snapshot; the new contents count as unchanged. -/
def load (s : Store α) (path : Path) (fs : Files) : Except SnapshotError Nat × Store α :=
  match fs.read path with
  | .error cause => (.error (.io path cause), s)
  | .ok text =>
    match decode path text with
    | .error e => (.error e, s)
    | .ok contents => (.ok contents.size, ⟨contents, false⟩)

/-- The store of a snapshot, empty when it cannot be read. -/
def openAt (path : Path) (fs : Files) : Store α := (empty.load path fs).2

end Store

/-! ### Writing a snapshot -/

/-- Write a text to one path and move it from there to another. -/
def Files.saveVia (fs : Files) (beside path : Path) (text : String) :
    Except SnapshotError Unit × Files :=
  match fs.write beside text.toUTF8 with
  | .error cause => (.error (.io beside cause), fs)
  | .ok fs =>
    match fs.rename beside path with
    | .error cause => (.error (.io path cause), fs)
    | .ok fs => (.ok (), fs)

/-- Write the text of a snapshot to a path: first beside it, then in place of what is there. -/
def Files.saveSnapshot (fs : Files) (path : Path) (text : String) :
    Except SnapshotError Unit × Files :=
  fs.saveVia path.temporary path text

def Store.saveTo {α : Type} [Storable α] (s : Store α) (path : Path) (fs : Files) :
    Except SnapshotError Unit × Files :=
  fs.saveSnapshot path s.text

end JobTrace
