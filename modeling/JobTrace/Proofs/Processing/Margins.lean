import JobTrace.Processing
import JobTrace.Proofs.Json.Margins
import JobTrace.Proofs.Record.Rereading
import JobTrace.Proofs.Tracking.Streams

/-!
# Blanks around a record

A raw record may come with blanks around it: ends of lines, the padding of a column, whatever the
source puts between two records.  None of it is seen.  A text is read as an event by what stands
between its blanks alone, so a parser that takes the blanks off does by itself what is done anyway,
and a parser that leaves them on is no worse.

This is no merit of the reader of JSON, which knows four blanks only and is lost at any other.  But
where that reader can do without, it is not interfered with: a text that it reads as it stands is
the event of what it reads (`Event.ofText_of_json`).
-/

namespace JobTrace

/-! ### Texts -/

namespace Event

theorem ofText_congr {s s' : String} (h : Text.trim s = Text.trim s') : ofText s = ofText s' := by
  unfold ofText
  rw [h]

/-- The event of a text that can be read with its blanks is that of what is read. -/
theorem ofText_of_json {s : String} {v : Json} (h : Json.ofText? s = some v) :
    ofText s = ofJson v := by
  unfold ofText
  rw [Json.ofText?_trim h]

end Event

/-! ### Parsers -/

namespace RecordParser

/-- Gives a record as it came. -/
def verbatim : RecordParser := ⟨fun raw _ => some raw⟩

/-- The parser changes nothing but blanks around a record. -/
def KeepsRecord (parser : RecordParser) : Prop :=
  ∀ raw fileType, ∃ text, parser.parse? raw fileType = some text ∧
    Text.trim text = Text.trim raw

theorem keepsRecord_json : json.KeepsRecord := by
  intro raw fileType
  exact ⟨Text.trim raw, rfl, Text.trim_trim raw⟩

theorem keepsRecord_verbatim : verbatim.KeepsRecord := by
  intro raw fileType
  exact ⟨raw, rfl, rfl⟩

end RecordParser

/-! ### Records -/

namespace Tracker

open RecordParser

theorem processText_congr (t : Tracker) {text text' : String}
    (h : Text.trim text = Text.trim text') (topics : List Topic) :
    t.processText text topics = t.processText text' topics := by
  unfold processText
  rw [Event.ofText_congr h]

/-- By such a parser a record is processed for what it holds between its blanks. -/
theorem process_of_keepsRecord (t : Tracker) {parser : RecordParser} (h : parser.KeepsRecord)
    {raw text : String} (htrim : Text.trim raw = Text.trim text) (fileType : FileType)
    (topics : List Topic) :
    t.process parser raw fileType topics =
      (some (t.processText text topics).1, (t.processText text topics).2) := by
  obtain ⟨parsed, hparsed, hkept⟩ := h raw fileType
  simp only [process, hparsed, t.processText_congr (hkept.trans htrim)]

/-- Blanks around a record make no difference to its messages or to what is remembered, stores and
    flags, nor does it make one whether the parser takes them off.  The text is read as the same
    event or refused for the same cause, and where JSON needs no help, the event is that of the
    JSON value. -/
theorem process_between_blanks (t : Tracker) {front back : String}
    (hfront : ∀ c ∈ front.toList, Text.isBlank c) (hback : ∀ c ∈ back.toList, Text.isBlank c)
    (raw : String) (fileType : FileType) (topics : List Topic) :
    t.process .json (front ++ raw ++ back) fileType topics = t.process .json raw fileType topics ∧
      t.process .verbatim (front ++ raw ++ back) fileType topics =
        t.process .json raw fileType topics ∧
      t.process .verbatim raw fileType topics = t.process .json raw fileType topics ∧
      Event.ofText (front ++ raw ++ back) = Event.ofText raw ∧
      ∀ v, Json.ofText? raw = some v →
        Event.ofText (front ++ raw ++ back) = Event.ofJson v := by
  have htrim : Text.trim (front ++ raw ++ back) = Text.trim raw :=
    Text.trim_surrounded hfront hback raw
  have hevent : Event.ofText (front ++ raw ++ back) = Event.ofText raw := Event.ofText_congr htrim
  have halone : t.process .json raw fileType topics =
      (some (t.processText raw topics).1, (t.processText raw topics).2) :=
    t.process_of_keepsRecord keepsRecord_json rfl fileType topics
  refine ⟨?_, ?_, ?_, hevent, ?_⟩
  · rw [halone, t.process_of_keepsRecord keepsRecord_json htrim]
  · rw [halone, t.process_of_keepsRecord keepsRecord_verbatim htrim]
  · rw [halone, t.process_of_keepsRecord keepsRecord_verbatim rfl]
  · intro v hv
    rw [hevent, Event.ofText_of_json hv]

/-- The start of a job is reported and remembered from between blanks that the reader of JSON
    would not let pass. -/
theorem process_between_blanks_foreign :
    let e := statusOf "a" "RUN"
    let front := "\u3000\x0c\n"
    let back := " \u0085\u2029"
    let topics := [Topic.plain "changes" .statusTrace]
    (∀ c ∈ front.toList, Text.isBlank c) ∧ (∀ c ∈ back.toList, Text.isBlank c) ∧
      Json.ofText? (front ++ e.text ++ back) = none ∧
      Event.ofText (front ++ e.text ++ back) = .ok e ∧
      (∃ v, Json.ofText? e.text = some v ∧
        Event.ofText (front ++ e.text ++ back) = Event.ofJson v) ∧
      empty.process .json (front ++ e.text ++ back) .event topics =
        empty.process .json e.text .event topics ∧
      empty.process .verbatim (front ++ e.text ++ back) .event topics =
        empty.process .json e.text .event topics ∧
      (empty.process .json e.text .event topics).1.map List.length = some 1 ∧
      (empty.process .json e.text .event topics).2.states.contents =
        Dict.ofList [("a_-1_-1", 2)] := by
  intro e front back topics
  have hfront : ∀ c ∈ front.toList, Text.isBlank c := List.all_eq_true.1 (by decide)
  have hback : ∀ c ∈ back.toList, Text.isBlank c := List.all_eq_true.1 (by decide)
  have hforeign : ∃ c ∈ front.toList ++ back.toList, CharRole.of c ≠ .blank :=
    ⟨'\u3000', by decide, by decide⟩
  have hread : Event.ofText e.text = .ok e :=
    Event.ofText_text (by decide +kernel) (by decide +kernel)
  have hvalue : FieldValue.ofText? e.text = some (Value.ofDict e.fields) := by
    rw [← e.trim_text]
    exact Event.ofText_eq_ok_iff.1 hread
  obtain ⟨v, hv, -⟩ := Option.map_eq_some_iff.1 hvalue
  have hprocess : empty.process .json e.text .event topics =
      (some (empty.fanOut e topics).1, (empty.fanOut e topics).2) := by
    rw [empty.process_of_keepsRecord keepsRecord_json rfl, processText, hread]
  obtain ⟨hpadded, hverbatim, -, hevent, hjson⟩ :=
    process_between_blanks empty hfront hback e.text .event topics
  refine ⟨hfront, hback, Json.ofText?_between_foreign hfront hback hforeign e.text,
    hevent.trans hread, ⟨v, hv, hjson v hv⟩, hpadded, hverbatim, ?_, ?_⟩
  · rw [hprocess]
    decide +kernel
  · rw [hprocess]
    decide +kernel

end Tracker

end JobTrace
