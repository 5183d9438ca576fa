import Mathlib
import JobTrace.Proofs.Processing.Weaving

/-!
# Added fields are part of the record

The fields that a topic adds are used in two places.  They are written over the record before the
topic sees it, and a report falls back on them for a field that it is asked for and the record
lacks.  The second place adds nothing to the first: what a topic sees has every added field
already, so the report never falls back (`askedFields_of_covers`).

Everything else reads the added fields through the record alone.  Hence a topic that adds fields is
served as the same topic without them is served with a record that has them, whichever of the type,
the status, the identity or the routing of the record they rewrite.
-/

namespace JobTrace

/-- The topic without fields of its own. -/
def Topic.bare (topic : Topic) : Topic := { topic with addFields := Dict.empty }

theorem Event.get?_extend (e : Event) (added : Dict FieldValue) (name : String) :
    (e.extend added).get? name = (added.get? name).or (e.get? name) :=
  Dict.get?_insertAll e.fields added name

/-- An event covers fields when it has a value, be it another one, for each of them. -/
def Event.Covers (e : Event) (added : Dict FieldValue) : Prop :=
  ∀ name, e.get? name = none → added.get? name = none

theorem Event.covers_extend (e : Event) (added : Dict FieldValue) :
    (e.extend added).Covers added := by
  intro name hmissing
  rw [get?_extend] at hmissing
  exact (Option.or_eq_none_iff.1 hmissing).1

namespace StateChange

variable {e : Event} {topic : Topic}

/-- Of an event that covers its fields a topic asks nothing that it would have to give itself. -/
theorem askedFields_of_covers (h : e.Covers topic.addFields) :
    askedFields e topic = askedFields e topic.bare := by
  have hvalue : askedValue? e topic = askedValue? e topic.bare := by
    funext name
    show (e.get? name).or (topic.addFields.get? name) = (e.get? name).or none
    cases hget : e.get? name with
    | none => rw [h name hget]
    | some v => rfl
  unfold askedFields
  rw [hvalue]
  rfl

theorem message_of_covers (c : StateChange) (h : e.Covers topic.addFields) :
    c.message e topic = c.message e topic.bare := by
  have hbody : c.body e topic = c.body e topic.bare :=
    congrArg c.coreFields.insertAll (askedFields_of_covers h)
  have hrouted : c.routedFields e topic = c.routedFields e topic.bare := by
    unfold routedFields
    rw [hbody]
  unfold message
  rw [hbody, hrouted]
  rfl

end StateChange

namespace Tracker

/-- A topic that adds fields is served as it would be without them, had the event these fields. -/
theorem offer_eq_offer_extend (t : Tracker) (e : Event) (topic : Topic) :
    t.offer e topic = t.offer (e.extend topic.addFields) topic.bare := by
  have hview : (e.extend topic.addFields).seenBy topic.bare = e.extend topic.addFields :=
    (e.extend topic.addFields).seenBy_of_addFields_empty rfl
  have hcovers := e.covers_extend topic.addFields
  cases hkind : topic.kind with
  | raw =>
    have hbare : topic.bare.kind = .raw := hkind
    rw [offer, offer, hkind, hbare, hview, e.seenBy_eq_extend]
    rfl
  | statusTrace =>
    have hbare : topic.bare.kind = .statusTrace := hkind
    rw [offer_of_trace t e hkind, offer_of_trace t _ hbare, hview, e.seenBy_eq_extend]
    have hmessage : (fun c : StateChange => c.message (e.extend topic.addFields) topic) =
        fun c => c.message (e.extend topic.addFields) topic.bare :=
      funext fun c => c.message_of_covers hcovers
    rw [hmessage]
  | unsupported =>
    have hbare : topic.bare.kind = .unsupported := hkind
    rw [offer, offer, hkind, hbare]

/-- A call for one topic makes one offer. -/
theorem processCall_only (t : Tracker) {call : ProcessCall} {e : Event}
    (h : call.event? = some e) (topic : Topic) :
    t.processCall (call.only topic) =
      (some (t.offer e topic).1.toList, (t.offer e topic).2) := by
  have honly : (call.only topic).event? = some e := h
  rw [process_of_event t honly, ProcessCall.topics_only, ← tracker_offer]
  simp only [answers]
  cases (t.offer e topic).1 <;> rfl

/-- Whatever is remembered and whatever the topic: a record for a topic that adds fields, and a
    record that has the added fields in place of its own for the same topic without them, have the
    same messages and leave the same behind, stores and flags. -/
theorem processCall_injected (t : Tracker) {call call' : ProcessCall} {e e' : Event}
    (topic : Topic) (h : call.event? = some e) (h' : call'.event? = some e')
    (hover : ∀ name, e'.get? name = (topic.addFields.get? name).or (e.get? name)) :
    t.processCall (call.only topic) = t.processCall (call'.only topic.bare) := by
  have hextend : e' = e.extend topic.addFields := by
    apply Event.ext
    apply Dict.ext_get?
    intro name
    exact (hover name).trans (e.get?_extend topic.addFields name).symm
  rw [processCall_only t h, processCall_only t h', hextend, ← offer_eq_offer_extend]

/-- A report topic that makes another job of every record and asks for a field of its own. -/
def relabelling : Topic :=
  { Topic.plain "changes" .statusTrace with
    includeFields := ["site"]
    addFields := Dict.ofList
      [(FieldName.cluster, Value.ofString "b"), ("site", Value.ofString "east")]
    routingKeys := [FieldName.cluster, "site"] }

/-- A record that is written as JSON, for no topic yet. -/
def recordOf (e : Event) : ProcessCall := ⟨.json, e.text, .event, []⟩

/-- The start of a job, told of the job that the topic makes of it.  The job of the record is not
    followed, the other one is. -/
theorem processCall_injected_relabelling :
    let e := statusOf "a" "RUN"
    let e' := (statusOf "b" "RUN").insert "site" (Value.ofString "east")
    (recordOf e).event? = some e ∧ (recordOf e').event? = some e' ∧
      (∀ name, e'.get? name = (relabelling.addFields.get? name).or (e.get? name)) ∧
      empty.processCall ((recordOf e).only relabelling) =
        empty.processCall ((recordOf e').only relabelling.bare) ∧
      (empty.processCall ((recordOf e).only relabelling)).1.map (List.map Message.routingKey) =
        some ["b.east"] ∧
      (empty.processCall ((recordOf e).only relabelling)).2.states.contents =
        Dict.ofList [("b_-1_-1", 2)] := by
  intro e e'
  have hread : (recordOf e).event? = some e := by cbv
  have hread' : (recordOf e').event? = some e' := by cbv
  have hover : ∀ name, e'.get? name = (relabelling.addFields.get? name).or (e.get? name) := by
    intro name
    have hextend : e' = e.extend relabelling.addFields := rfl
    rw [hextend, Event.get?_extend]
  refine ⟨hread, hread', hover, ?_, ?_, ?_⟩
  · exact processCall_injected empty relabelling hread hread' hover
  · rw [processCall_only empty hread]
    decide +kernel
  · rw [processCall_only empty hread]
    decide +kernel

end Tracker

end JobTrace
