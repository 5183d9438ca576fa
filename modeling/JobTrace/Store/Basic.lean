import JobTrace.Dict

/-!
Stores: what is remembered about jobs between records.

A store maps job keys to values and has a flag that tells whether anything may have changed since
the flag was last cleared.  Every write and every deletion sets the flag, also a deletion that
finds nothing.
-/

namespace JobTrace

/-- A dictionary with a flag for changes. -/
@[ext]
structure Store (α : Type) where
  contents : Dict α
  dirty : Bool
deriving DecidableEq

namespace Store

variable {α : Type}

/-- The store that holds nothing and has not changed. -/
def empty : Store α := ⟨Dict.empty, false⟩

instance : Inhabited (Store α) := ⟨empty⟩

def read (s : Store α) (key : String) : Option α := s.contents.get? key

def contains (s : Store α) (key : String) : Bool := s.contents.contains key

def write (s : Store α) (key : String) (value : α) : Store α :=
  ⟨s.contents.insert key value, true⟩

def delete (s : Store α) (key : String) : Store α := ⟨s.contents.erase key, true⟩

/-- Take all changes as seen. -/
def clearDirty (s : Store α) : Store α := { s with dirty := false }

def size (s : Store α) : Nat := s.contents.size

theorem read_write (s : Store α) (key : String) (value : α) (k : String) :
    (s.write key value).read k = if key = k then some value else s.read k :=
  s.contents.get?_insert key value k

theorem read_delete (s : Store α) (key k : String) :
    (s.delete key).read k = if key = k then none else s.read k :=
  s.contents.get?_erase key k

@[simp] theorem read_clearDirty (s : Store α) (k : String) : s.clearDirty.read k = s.read k :=
  rfl

/-- Stores with the same entries and the same flag are equal. -/
theorem ext_read {s t : Store α} (h : ∀ k, s.read k = t.read k) (hd : s.dirty = t.dirty) :
    s = t :=
  Store.ext (Dict.ext_get? h) hd

end Store

end JobTrace
