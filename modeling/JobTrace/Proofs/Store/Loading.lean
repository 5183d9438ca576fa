import Mathlib
import JobTrace.Proofs.Files.Saving

/-!
# Loading what was saved

A store that loads the file of another store becomes that store, with all changes taken as seen:
nothing of what it held before is left, and nothing of the file is lost or added.  There is no
condition on the keys or the values, because the file is a JSON object whose texts spell every
character and whose numbers spell every code.
-/

namespace JobTrace

namespace Store

section

variable {α : Type} [Storable α] {fs : Files} {path : Path}

theorem load_of_read {text : String} {contents : Dict α} (s : Store α)
    (hread : fs.read path = .ok text) (hdecode : decode path text = .ok contents) :
    s.load path fs = (.ok contents.size, ⟨contents, false⟩) := by
  unfold load
  simp only [hread, hdecode]

theorem load_of_find? (saved s : Store α) (h : fs.find? path = some (.file saved.text.toUTF8)) :
    s.load path fs = (.ok saved.size, saved.clearDirty) :=
  load_of_read s (Files.read_of_find? h) (decode_encode path saved.contents)

end

/-- Whatever states or descriptions of jobs a file was made of, a store that loads it counts them,
    holds exactly them and has no changes, whatever it held and whether it had changes. -/
theorem load_lossless :
    (∀ (saved s : StateStore) (path : Path) (fs : Files),
      fs.find? path = some (.file saved.text.toUTF8) →
        s.load path fs = (.ok saved.size, saved.clearDirty)) ∧
    ∀ (saved s : PropertyStore) (path : Path) (fs : Files),
      fs.find? path = some (.file saved.text.toUTF8) →
        s.load path fs = (.ok saved.size, saved.clearDirty) :=
  ⟨fun saved s _ _ => load_of_find? saved s, fun saved s _ _ => load_of_find? saved s⟩

/-- States of jobs under keys that JSON has to escape, with the codes farthest from zero. -/
def awkwardStates : StateStore :=
  ⟨Dict.ofList [("", Int64.minValue), ("a\"b\\c", Int64.maxValue), ("\x00\x1f\n", -1), ("é", 0)],
    true⟩

/-- Descriptions of jobs that have quotes, line ends and nothing at all in them. -/
def awkwardProperties : PropertyStore :=
  ⟨Dict.ofList [("\"", Dict.ofList [("", "\\"), ("queue\n", "\"\x7f")]), ("/", Dict.empty)], true⟩

theorem load_lossless_awkward :
    ((awkwardStates.delete "é").load ⟨"s"⟩ (awkwardStates.saveTo ⟨"s"⟩ .empty).2 =
      (.ok 4, awkwardStates.clearDirty)) ∧
    (awkwardProperties.delete "/").load ⟨"s"⟩ (awkwardProperties.saveTo ⟨"s"⟩ .empty).2 =
      (.ok 2, awkwardProperties.clearDirty) := by
  have hpath : Files.empty.Writable ⟨"s"⟩ :=
    Files.writable_empty (n := "s") (by cbv)
  have htemporary : Files.empty.Writable (⟨"s"⟩ : Path).temporary :=
    Files.writable_empty (n := "s.tmp") (by cbv)
  constructor
  · exact load_lossless.1 awkwardStates _ ⟨"s"⟩ _ (Files.find?_saveSnapshot hpath htemporary _)
  · exact load_lossless.2 awkwardProperties _ ⟨"s"⟩ _ (Files.find?_saveSnapshot hpath htemporary _)

end Store

end JobTrace
