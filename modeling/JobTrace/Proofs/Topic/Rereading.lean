import JobTrace.Proofs.Field.Trials
import JobTrace.Proofs.Record.Rereading
import JobTrace.Topic.Config

/-!
# Topics are read back

A topic is written as a map of six parts and read part by part, each in a way of its own: texts,
lists of texts, the name of a kind, and fields whose kinds are found by trial.  So the round trip is
proved for each way of reading, and what holds them together is that a map whose keys are known and
not repeated gives its members back (`namedParts?_quote`).

The fields stand two maps deep in the text, the topic and the map of its fields.  Of the levels that
a reader admits two are missing for them, and this is the one condition there is, apart from
doubles.  A topic of an unknown kind is written under a name that is no kind's.
-/

namespace JobTrace

/-! ### Parts of a structure -/

namespace Document

/-- The members of a map are its parts if their names are known and not repeated. -/
theorem namedParts?_quote {names : List String} :
    ∀ {parts : List (String × Document)}, (∀ p ∈ parts, p.1 ∈ names) →
      (parts.map (·.1)).Nodup →
      namedParts? names (parts.map fun p => (StringLiteral.quote p.1, p.2)) = some parts
  | [], _, _ => rfl
  | (name, d) :: parts, hnames, hnodup => by
    obtain ⟨hnew, hrest⟩ := List.nodup_cons.1 hnodup
    have hparts : namedParts? names (parts.map fun p => (StringLiteral.quote p.1, p.2)) =
        some parts :=
      namedParts?_quote (fun p hp => hnames p (List.mem_cons_of_mem _ hp)) hrest
    have hname : name ∈ names := hnames (name, d) (List.mem_cons_self ..)
    have hunseen : Entries.find? name parts = none := by
      apply Entries.find?_eq_none
      intro p hp heq
      exact hnew (List.mem_map.2 ⟨p, hp, heq⟩)
    simp [namedParts?, StringLiteral.value?_quote, hparts, hname, hunseen]

theorem strings?_quote (texts : List String) :
    strings? (.list (texts.map fun s => .string (StringLiteral.quote s))) = some texts := by
  show (texts.map fun s => Tree.string (StringLiteral.quote s)).mapM string? = some texts
  induction texts with
  | nil => rfl
  | cons s texts ih =>
    rw [List.map_cons, List.mapM_cons, ih, string?, StringLiteral.value?_quote]
    rfl

end Document

theorem Value.depth_ofDict_le_iff {ν : Type} {d : Dict (Value ν)} {n : Nat} :
    (ofDict d).tree.depth ≤ n + 1 ↔ ∀ e ∈ d.entries, e.2.tree.depth ≤ n := by
  constructor
  · intro h e he
    simp only [ofDict, Tree.depth] at h
    exact Tree.depthMembers_le_iff.1 (Nat.le_of_succ_le_succ h) (e.1, e.2.tree)
      (List.mem_map.2 ⟨e, he, rfl⟩)
  · exact depth_ofDict_le

/-! ### The fields that a topic adds -/

/-- What the trials find in a document is no deeper than the reader admits. -/
theorem FieldValue.depth_le_of_byTrial? {depth : Nat} {d : Document} {v : FieldValue}
    (h : (d.content? depth).bind byTrial? = some v) : v.tree.depth ≤ depth := by
  obtain ⟨c, hcontent, hv⟩ := Option.bind_eq_some_iff.1 h
  rw [byTrial?_eq_ofJson (Document.sized_of_content? hcontent)] at hv
  obtain rfl := Option.some.inj hv
  calc (ofJson (Value.ofTree c)).tree.depth
      = c.normalize.depth := Tree.depth_mapScalars id Number.ofJson c.normalize
    _ ≤ c.depth := Tree.depth_normalize_le c
    _ ≤ depth := Tree.depth_le_of_interpret? hcontent

theorem FieldValue.byTrial?_document {depth : Nat} {v : FieldValue} (hdepth : v.tree.depth ≤ depth)
    (hwhole : v.Whole) : (v.tree.document.content? depth).bind byTrial? = some v := by
  have hcontent : v.tree.document.content? depth = some (v.tree.mapScalars id Number.json) :=
    Tree.interpret?_mapScalars StringLiteral.value?_quote hdepth fun n hn => (hwhole.readsAs n hn).2
  rw [hcontent, Option.bind_some, byTrial?_eq_ofJson (Document.sized_of_content? hcontent),
    ofJson_ofTree_json]

namespace Topic

variable {t : Topic}

/-- Fields without doubles are read back exactly where the reader admits their depth. -/
theorem fieldsOfDocument?_document_iff {fields : Dict FieldValue} {depth : Nat}
    (hwhole : FieldValue.Whole (Value.ofDict fields)) :
    fieldsOfDocument? depth (Value.ofDict fields).tree.document = some fields ↔
      (Value.ofDict fields).tree.depth ≤ depth := by
  unfold fieldsOfDocument?
  constructor
  · intro h
    obtain ⟨v, hv, hfields⟩ := Option.bind_eq_some_iff.1 h
    rw [Value.ofDict_of_toDict? hfields]
    exact FieldValue.depth_le_of_byTrial? hv
  · intro hdepth
    rw [FieldValue.byTrial?_document hdepth hwhole, Option.bind_some, Value.toDict?_ofDict]

/-! ### The whole topic -/

/-- The parts of a topic as they are written. -/
def parts (t : Topic) : List (String × Document) :=
  [("topic_name", .string (StringLiteral.quote t.name)),
    ("type", .string (StringLiteral.quote t.kind.name)),
    ("include_fields", .list (t.includeFields.map fun s => .string (StringLiteral.quote s))),
    ("exclude_fields", .list (t.excludeFields.map fun s => .string (StringLiteral.quote s))),
    ("add_fields", (Value.ofDict t.addFields).tree.document),
    ("routing_keys", .list (t.routingKeys.map fun s => .string (StringLiteral.quote s)))]

theorem document_stringList (texts : List String) :
    (stringList texts : Tree String Number).document =
      .list (texts.map fun s => .string (StringLiteral.quote s)) := by
  rw [Tree.document, stringList, Tree.mapScalars]
  apply congrArg Tree.list
  induction texts with
  | nil => rfl
  | cons s texts ih => rw [List.map_cons, List.map_cons, Tree.mapItems, ih, Tree.mapScalars]

theorem document_tree (t : Topic) :
    t.tree.document = .map (t.parts.map fun p => (StringLiteral.quote p.1, p.2)) := by
  simp only [parts, ← document_stringList]
  simp only [tree, Tree.document, Tree.mapScalars, Tree.mapMembers, List.map_cons, List.map_nil]

theorem parts?_document (t : Topic) : t.tree.document.parts? partNames = some t.parts := by
  rw [document_tree]
  exact Document.namedParts?_quote (by simp [parts, partNames]) (by simp [parts])

/-- Whatever else a topic has, it is read back if the fields that it adds are. -/
theorem ofDocument?_document (t : Topic) (depth : Nat) :
    ofDocument? (depth + 1) t.tree.document =
      (fieldsOfDocument? depth (Value.ofDict t.addFields).tree.document).map
        fun fields => { t with addFields := fields } := by
  have hkind : kindOfDocument? (.string (StringLiteral.quote t.kind.name)) = some t.kind := by
    rw [kindOfDocument?, StringLiteral.value?_quote, Option.map_some, TopicKind.ofName_name]
  unfold ofDocument?
  cases hfields : fieldsOfDocument? depth (Value.ofDict t.addFields).tree.document with
  | none =>
    simp [parts?_document, parts, Entries.find?, partOr, hkind, Document.strings?_quote,
      Document.string?, StringLiteral.value?_quote, hfields]
  | some fields =>
    simp [parts?_document, parts, Entries.find?, partOr, hkind, Document.strings?_quote,
      Document.string?, StringLiteral.value?_quote, hfields]

theorem numbers_stringList (texts : List String) :
    (stringList texts : Tree String Number).numbers = [] := by
  rw [stringList, Tree.numbers]
  induction texts with
  | nil => rfl
  | cons s texts ih => rw [List.map_cons, Tree.numbersItems, ih, Tree.numbers, List.append_nil]

/-- The only numbers in the text of a topic are those of the added fields. -/
theorem numbers_tree (t : Topic) : t.tree.numbers = (Value.ofDict t.addFields).tree.numbers := by
  simp [tree, Tree.numbers, Tree.numbersMembers, numbers_stringList]

theorem document_ofText?_text (hwhole : FieldValue.Whole (Value.ofDict t.addFields)) :
    Document.ofText? t.text = some t.tree.document := by
  have hreads : ∀ n ∈ t.tree.numbers, Spelt.ReadsAs n n.json := by
    rw [numbers_tree]
    exact hwhole.readsAs
  exact Document.ofText?_text (Tree.wellFormed_document hreads)

/-- A topic that adds no doubles is read back from its text, exactly if the fields that it adds are
    at most 125 levels deep.  It may be of any kind, have any texts for its names, and repeat them
    in any order. -/
theorem ofText?_text_iff_depth_le
    (hwhole : ∀ field ∈ t.addFields.entries, field.2.Whole) :
    ofText? t.text = some t ↔ ∀ field ∈ t.addFields.entries, field.2.tree.depth ≤ 125 := by
  have hfields : FieldValue.Whole (Value.ofDict t.addFields) := by
    intro n hn
    obtain ⟨field, hfield, hn⟩ := Value.exists_of_mem_numbers_ofDict hn
    exact hwhole field hfield n hn
  have hread : ofText? t.text =
      (fieldsOfDocument? 126 (Value.ofDict t.addFields).tree.document).map
        fun fields => { t with addFields := fields } := by
    rw [ofText?, document_ofText?_text hfields, Option.bind_some]
    exact ofDocument?_document t 126
  have hadded : ofText? t.text = some t ↔
      fieldsOfDocument? 126 (Value.ofDict t.addFields).tree.document = some t.addFields := by
    rw [hread, Option.map_eq_some_iff]
    constructor
    · rintro ⟨fields, hfields, hsame⟩
      rw [hfields, ← congrArg Topic.addFields hsame]
    · intro h
      exact ⟨t.addFields, h, rfl⟩
  rw [hadded, fieldsOfDocument?_document_iff hfields, Value.depth_ofDict_le_iff]

/-- An integer in lists, one in another. -/
def nestedTree : (levels : Nat) → Tree String Number
  | 0 => .number (.int Int64.minValue)
  | levels + 1 => .list [nestedTree levels]

/-- A topic of no known kind that adds lists in lists. -/
def nestedTopic (levels : Nat) : Topic :=
  ⟨"\"\\\x01é", .unsupported, ["b", "", "b"], ["a\n"],
    Dict.ofList [("type", ⟨.null, trivial⟩), ("", Value.ofTree (nestedTree levels))], ["z", "a"]⟩

theorem ofText?_text_iff_depth_le_nested :
    (∀ field ∈ (nestedTopic 125).addFields.entries, field.2.Whole) ∧
      ofText? (nestedTopic 125).text = some (nestedTopic 125) ∧
      ofText? (nestedTopic 126).text ≠ some (nestedTopic 126) := by
  have hwhole : ∀ field ∈ (nestedTopic 125).addFields.entries, field.2.Whole := by decide +kernel
  have hdeeper : ∀ field ∈ (nestedTopic 126).addFields.entries, field.2.Whole := by decide +kernel
  refine ⟨hwhole, ?_, ?_⟩
  · exact (ofText?_text_iff_depth_le hwhole).2 (by decide +kernel)
  · rw [Ne, ofText?_text_iff_depth_le hdeeper]
    decide +kernel

end Topic

end JobTrace
