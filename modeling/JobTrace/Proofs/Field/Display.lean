import JobTrace.Proofs.Json.Bounds
import JobTrace.Proofs.Number.Spelling
import JobTrace.Record.Event

/-!
# Only a string is shown as a name

Fields are compared with names through the text that they are shown as, and any value is shown as
some text.  Still, no other value is taken for a string that begins with a capital letter, as the
types of events and the states of jobs do: null is shown as nothing and a truth value as a word in
small letters, a number has no capital letter in it, and a list or a map begins with its bracket.
-/

namespace JobTrace

namespace Text

/-- The text begins with a capital letter. -/
def Capitalised (s : String) : Prop := s.toList.head?.any Char.isUpper = true

instance (s : String) : Decidable (Capitalised s) := by
  unfold Capitalised
  infer_instance

theorem not_capitalised_empty : ¬ Capitalised "" := by decide

theorem not_capitalised_of_cons {s : String} {c : Char} {cs : List Char} (h : s.toList = c :: cs)
    (hc : c.isUpper = false) : ¬ Capitalised s := by
  simp [Capitalised, h, hc]

end Text

/-- There is no capital letter in a number, not even in one with an exponent. -/
theorem Numeral.not_capitalised_text (n : Numeral) :
    ¬ Text.Capitalised (String.ofList n.text) := by
  have hsmall : ∀ c ∈ n.text, c.isUpper = false := by
    intro c hc
    have hnot := forall_mem_text (p := (!·.isUpper)) (by decide) (by decide) n c hc
    exact (Bool.not_eq_true' _).mp hnot
  cases htext : n.text with
  | nil => exact Text.not_capitalised_empty
  | cons c cs =>
    apply Text.not_capitalised_of_cons (String.toList_ofList ..)
    exact hsmall c (htext ▸ List.mem_cons_self ..)

namespace FieldValue

/-- A value that is no string is shown as nothing that begins with a capital letter. -/
theorem not_capitalised_display {v : FieldValue} (h : v.toString? = none) :
    ¬ Text.Capitalised v.display := by
  obtain ⟨t, hcanonical⟩ := v
  cases t with
  | null => exact Text.not_capitalised_empty
  | bool b =>
    cases b with
    | true => exact (by decide : ¬ Text.Capitalised "true")
    | false => exact (by decide : ¬ Text.Capitalised "false")
  | number n =>
    cases n with
    | int i => exact Numeral.not_capitalised_text (Numeral.ofInt i.toInt)
    | float x => exact Numeral.not_capitalised_text (Layout.plain.numeral x)
  | string s => exact absurd h (by simp [toString?])
  | list ts =>
    obtain ⟨cs, htext⟩ := Tree.exists_toList_text_list ts
    exact Text.not_capitalised_of_cons htext (by decide)
  | map ms =>
    obtain ⟨cs, htext⟩ := Tree.exists_toList_text_map ms
    exact Text.not_capitalised_of_cons htext (by decide)

theorem display_ofString (s : String) : display (Value.ofString s) = s := rfl

theorem toString?_eq_some_iff {v : FieldValue} {s : String} :
    v.toString? = some s ↔ v = Value.ofString s := by
  constructor
  · intro h
    obtain ⟨t, hcanonical⟩ := v
    cases t with
    | string s' =>
      obtain rfl := Option.some.inj h
      rfl
    | _ => exact absurd h (by simp [toString?])
  · rintro rfl
    rfl

/-- What is shown as a name is the string of that name. -/
theorem display_eq_iff {v : FieldValue} {name : String} (h : Text.Capitalised name) :
    v.display = name ↔ v = Value.ofString name := by
  constructor
  · intro hshown
    cases hstring : v.toString? with
    | none => exact absurd (hshown ▸ h) (not_capitalised_display hstring)
    | some s =>
      obtain rfl := toString?_eq_some_iff.1 hstring
      rw [← hshown, display_ofString]
  · rintro rfl
    exact display_ofString name

end FieldValue

/-- The field of an event is a string and not merely shown as one. -/
def Event.Says (e : Event) (field name : String) : Prop :=
  e.get? field = some (Value.ofString name)

theorem Event.textOf_eq_iff (e : Event) (field : String) {name : String}
    (h : Text.Capitalised name) : e.textOf field = name ↔ e.Says field name := by
  unfold textOf Says
  cases e.get? field with
  | none =>
    have hempty : "" ≠ name := fun heq => Text.not_capitalised_empty (heq ▸ h)
    simp [hempty]
  | some v => simp [FieldValue.display_eq_iff h]

end JobTrace
