import JobTrace.Proofs.Json.Legible
import JobTrace.Proofs.Json.Members
import JobTrace.Proofs.Store.Loading

/-!
# Loading replaces everything or nothing

A file may hold anything.  It is looked at in steps, and each of them may refuse it: there may be no
text to read, the text may be no JSON, the JSON may be no object.  Whatever refuses the file, the
store stays as it was, flag included.  A file that passes all steps replaces the whole contents,
also when no value in it converts.

What converts is decided value by value, but only after repeated keys are resolved.  So a value that
does not convert still hides an earlier one of its key that would.
-/

namespace JobTrace

namespace Store

variable {α : Type} [Storable α] {s : Store α} {fs : Files} {path : Path} {text : String}

/-! ### Decoding a text -/

theorem decode_of_noJson (h : Content.ofText? text = none) :
    decode path text = (.error (.parse path) : Except SnapshotError (Dict α)) := by
  have hnone : Json.ofText? text = none := by rw [Json.ofText?, h, Option.map_none]
  unfold decode
  simp only [hnone]

theorem decode_of_noObject {content : Content} (h : Content.ofText? text = some content)
    (hother : ∀ members, content ≠ .map members) :
    decode path text = (.error (.notAnObject path) : Except SnapshotError (Dict α)) := by
  have hsome : Json.ofText? text = some (Value.ofTree content) := by
    rw [Json.ofText?, h, Option.map_some]
  have hnone : contentsOfJson? (α := α) (Value.ofTree content) = none := by
    rw [contentsOfJson?, Value.toDict?_ofTree_eq_none hother, Option.map_none]
  unfold decode
  simp only [hsome, hnone]

theorem exists_decode_of_object {members : List (String × Content)}
    (h : Content.ofText? text = some (.map members)) :
    ∃ contents : Dict α, decode path text = .ok contents ∧
      ∀ key, contents.get? key =
        (Entries.last? key members).bind fun c => Storable.ofJson? (Value.ofTree c) := by
  have hsome : Json.ofText? text = some (Value.ofTree (.map members)) := by
    rw [Json.ofText?, h, Option.map_some]
  obtain ⟨d, hd, hget⟩ := Value.exists_toDict?_ofTree_map members
  have hcontents : contentsOfJson? (α := α) (Value.ofTree (.map members)) =
      some (d.filterMapValues Storable.ofJson?) := by
    rw [contentsOfJson?, hd, Option.map_some]
  refine ⟨d.filterMapValues Storable.ofJson?, ?_, ?_⟩
  · unfold decode
    simp only [hsome, hcontents]
  · intro key
    rw [Dict.get?_filterMapValues, hget, Option.bind_map]
    rfl

/-- A code may be any number and nothing else. -/
theorem exists_code_iff (c : Content) :
    (∃ code : Int64, Storable.ofJson? (Value.ofTree c) = some code) ↔ ∃ n, c = .number n := by
  cases c with
  | number n => exact iff_of_true ⟨n.toInt64, rfl⟩ ⟨n, rfl⟩
  | _ =>
    refine iff_of_false ?_ ?_
    · rintro ⟨code, hcode⟩
      simp [Storable.ofJson?, Value.ofTree, Tree.normalize] at hcode
    · rintro ⟨n, hn⟩
      cases hn

/-! ### Loading a file -/

theorem exists_load_of_noText (s : Store α)
    (h : (fs.find? path).bind FileNode.text? = none) :
    ∃ cause, s.load path fs = (.error (.io path cause), s) := by
  cases hread : fs.read path with
  | error cause =>
    refine ⟨cause, ?_⟩
    unfold load
    simp only [hread]
  | ok text =>
    rw [Files.read_eq_ok_iff.1 hread] at h
    exact absurd h (by simp)

theorem load_of_refused (s : Store α) {e : SnapshotError} (hread : fs.read path = .ok text)
    (hdecode : decode path text = (.error e : Except SnapshotError (Dict α))) :
    s.load path fs = (.error e, s) := by
  unfold load
  simp only [hread, hdecode]

/-- What loading does with any file.  Without a text that can be read, with a text that is no JSON
    and with JSON that is no object it fails, each time with the error of that name, and the store
    is the same as before.  From an object it takes, for every key, the last value of the text if
    this converts, and nothing else; it counts the entries, and the store has no changes.  A code
    converts exactly when it is a number. -/
theorem load_all_or_nothing (s : Store α) (path : Path) (fs : Files) :
    ((fs.find? path).bind FileNode.text? = none →
      ∃ cause, s.load path fs = (.error (.io path cause), s)) ∧
    (∀ text, (fs.find? path).bind FileNode.text? = some text →
      (Content.ofText? text = none → s.load path fs = (.error (.parse path), s)) ∧
      (∀ content, Content.ofText? text = some content → (∀ members, content ≠ .map members) →
        s.load path fs = (.error (.notAnObject path), s)) ∧
      ∀ members, Content.ofText? text = some (.map members) →
        ∃ contents : Dict α, s.load path fs = (.ok contents.size, ⟨contents, false⟩) ∧
          (∀ key, contents.get? key =
            (Entries.last? key members).bind fun c => Storable.ofJson? (Value.ofTree c)) ∧
          ∀ key, contents.contains key = true → ∃ c, (key, c) ∈ members) ∧
    ∀ c : Content, (∃ code : Int64, Storable.ofJson? (Value.ofTree c) = some code) ↔
      ∃ n, c = .number n := by
  refine ⟨exists_load_of_noText s, ?_, exists_code_iff⟩
  intro text htext
  have hread : fs.read path = .ok text := Files.read_eq_ok_iff.2 htext
  refine ⟨?_, ?_, ?_⟩
  · intro hjson
    exact load_of_refused s hread (decode_of_noJson hjson)
  · intro content hcontent hother
    exact load_of_refused s hread (decode_of_noObject hcontent hother)
  · intro members hmembers
    have hdecoded : ∃ contents : Dict α, decode path text = .ok contents ∧
        ∀ key, contents.get? key =
          (Entries.last? key members).bind fun c => Storable.ofJson? (Value.ofTree c) :=
      exists_decode_of_object hmembers
    obtain ⟨contents, hdecode, hget⟩ := hdecoded
    refine ⟨contents, load_of_read s hread hdecode, hget, ?_⟩
    intro key hkey
    rw [Dict.contains, hget] at hkey
    obtain ⟨a, ha⟩ := Option.isSome_iff_exists.1 hkey
    obtain ⟨c, hlast, -⟩ := Option.bind_eq_some_iff.1 ha
    exact ⟨c, Entries.mem_of_last? hlast⟩

/-- An object in which two keys are repeated: `a` with a last value that converts to no code, `b`
    with a last value that does. -/
def repeatedKeys : Content :=
  .map [("a", .number (.int 1)), ("b", .string "2"), ("a", .null), ("b", .number (.int 2))]

def repeatedText : String := "\x7b\"a\":1,\"b\":\"2\",\"a\":null,\"b\":2\x7d"

theorem ofText?_repeatedText : Content.ofText? repeatedText = some repeatedKeys := by
  have htext : repeatedText = repeatedKeys.text := by cbv
  have hnumbers : ∀ n ∈ repeatedKeys.numbers, Spelt.ReadsAs n n := by
    intro n hn
    simp only [repeatedKeys, Tree.numbers, Tree.numbersMembers, List.append_nil, List.nil_append,
      List.cons_append, List.mem_cons, List.not_mem_nil, or_false] at hn
    obtain rfl | rfl := hn
    · exact JsonNumber.readsAs_int 1
    · exact JsonNumber.readsAs_int 2
  rw [htext]
  exact Content.ofText?_text (by decide) hnumbers

/-- Files of all kinds: bytes that are no text, a text that breaks off, a list, and an object. -/
def assortedFiles : Files :=
  ⟨Dict.ofList [("/bytes", .file ⟨#[255]⟩), ("/half", .file "[null".toUTF8),
    ("/list", .file "[null]".toUTF8), ("/object", .file repeatedText.toUTF8)]⟩

def oldStates : StateStore := empty.write "old" 7

/-- A store that loads these files. -/
theorem load_all_or_nothing_assorted :
    (∃ cause, oldStates.load ⟨"bytes"⟩ assortedFiles = (.error (.io ⟨"bytes"⟩ cause), oldStates)) ∧
    oldStates.load ⟨"half"⟩ assortedFiles = (.error (.parse ⟨"half"⟩), oldStates) ∧
    oldStates.load ⟨"list"⟩ assortedFiles = (.error (.notAnObject ⟨"list"⟩), oldStates) ∧
    ∃ contents : Dict Int64,
      oldStates.load ⟨"object"⟩ assortedFiles = (.ok contents.size, ⟨contents, false⟩) ∧
      contents.get? "a" = none ∧ contents.get? "b" = some 2 ∧ contents.get? "old" = none := by
  have hbytes : (assortedFiles.find? ⟨"bytes"⟩).bind FileNode.text? = none := by cbv
  have hhalf : (assortedFiles.find? ⟨"half"⟩).bind FileNode.text? = some "[null" := by cbv
  have hlist : (assortedFiles.find? ⟨"list"⟩).bind FileNode.text? = some "[null]" := by cbv
  have hobject : (assortedFiles.find? ⟨"object"⟩).bind FileNode.text? = some repeatedText := by cbv
  refine ⟨?_, ?_, ?_, ?_⟩
  · exact (load_all_or_nothing oldStates _ _).1 hbytes
  · have hnoJson : Content.ofText? "[null" = none := by cbv
    exact ((load_all_or_nothing oldStates _ _).2.1 _ hhalf).1 hnoJson
  · have hcontent : Content.ofText? "[null]" = some (.list [.null]) := by cbv
    apply ((load_all_or_nothing oldStates _ _).2.1 _ hlist).2.1 _ hcontent
    intro members hmap
    cases hmap
  · obtain ⟨contents, hload, hget, -⟩ :=
      ((load_all_or_nothing oldStates _ _).2.1 _ hobject).2.2 _ ofText?_repeatedText
    refine ⟨contents, hload, ?_, ?_, ?_⟩
    · rw [hget]; rfl
    · rw [hget]; rfl
    · rw [hget]; rfl

end Store

end JobTrace
