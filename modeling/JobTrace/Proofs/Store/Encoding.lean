import JobTrace.Proofs.Json.Legible
import JobTrace.Store.Snapshot

/-!
# Snapshots are decoded to what was encoded

Whatever a store holds, its snapshot decodes to exactly those contents.  The laws of `Storable`
carry the statement from one value to all of them: the values are plain, hence so is the object
that they are put into, and each of them converts back to itself.
-/

namespace JobTrace

namespace Store

variable {α : Type} [Storable α]

theorem mem_toJson_entries {contents : Dict α} {e : String × Json}
    (h : e ∈ (contents.mapValues Storable.toJson).entries) : ∃ a : α, e.2 = Storable.toJson a := by
  obtain ⟨e', -, rfl⟩ := List.mem_map.1 h
  exact ⟨e'.2, rfl⟩

theorem depth_object_le (contents : Dict α) :
    (Value.ofDict (contents.mapValues Storable.toJson)).tree.depth ≤ maxDepth := by
  refine Value.depth_ofDict_le fun e he => ?_
  obtain ⟨a, ha⟩ := mem_toJson_entries he
  rw [ha]
  exact Nat.le_of_lt_succ (Storable.plain_toJson a).depth_lt

theorem readsAs_object (contents : Dict α) :
    ∀ n ∈ (Value.ofDict (contents.mapValues Storable.toJson)).tree.numbers,
      Spelt.ReadsAs n n := by
  intro n hn
  obtain ⟨e, he, hn⟩ := Value.exists_of_mem_numbers_ofDict hn
  obtain ⟨a, ha⟩ := mem_toJson_entries he
  rw [ha] at hn
  obtain ⟨i, rfl⟩ := (Storable.plain_toJson a).int_of_mem n hn
  exact JsonNumber.readsAs_int i

/-- The text of a snapshot holds the object that it was made of, member for member. -/
theorem content_ofText?_encode (contents : Dict α) :
    Content.ofText? (encode contents) =
      some (Value.ofDict (contents.mapValues Storable.toJson)).tree :=
  Content.ofText?_text (depth_object_le contents) (readsAs_object contents)

theorem json_ofText?_encode (contents : Dict α) :
    Json.ofText? (encode contents) = some (Value.ofDict (contents.mapValues Storable.toJson)) :=
  Json.ofText?_text (depth_object_le contents) (readsAs_object contents)

theorem contentsOfJson?_ofDict (contents : Dict α) :
    contentsOfJson? (Value.ofDict (contents.mapValues Storable.toJson)) = some contents := by
  have hback : (contents.mapValues Storable.toJson).filterMapValues Storable.ofJson? =
      contents := by
    refine Dict.ext_get? fun k => ?_
    rw [Dict.get?_filterMapValues, Dict.get?_mapValues]
    cases contents.get? k with
    | none => rfl
    | some a => exact Storable.ofJson?_toJson a
  rw [contentsOfJson?, Value.toDict?_ofDict, Option.map_some, hback]

/-- A snapshot decodes to the contents that it was made of. -/
theorem decode_encode (path : Path) (contents : Dict α) :
    decode path (encode contents) = .ok contents := by
  unfold decode
  simp only [json_ofText?_encode, contentsOfJson?_ofDict]

/-! ### Opening a file -/

theorem openAt_of_read {path : Path} {fs : Files} {contents : Dict α}
    (h : fs.read path = .ok (encode contents)) :
    (openAt path fs : Store α) = ⟨contents, false⟩ := by
  unfold openAt load
  simp only [h, decode_encode]

theorem openAt_eq_of_read_eq {path : Path} {fs fs' : Files}
    (h : (fs.read path).toOption = (fs'.read path).toOption) :
    (openAt path fs : Store α) = openAt path fs' := by
  unfold openAt load
  cases hr : fs.read path with
  | error e =>
    cases hr' : fs'.read path with
    | error e' => rfl
    | ok text' => simp [hr, hr', Except.toOption] at h
  | ok text =>
    cases hr' : fs'.read path with
    | error e' => simp [hr, hr', Except.toOption] at h
    | ok text' =>
      obtain rfl : text = text' := by simpa [hr, hr', Except.toOption] using h
      rfl

end Store

end JobTrace
