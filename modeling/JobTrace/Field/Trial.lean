import JobTrace.Field.Value

/-!
Decoding a field value by trial.

The fields that a topic adds are given without naming the kind of value, so the kinds are tried
in a fixed order, and the first one that accepts the content wins: null, truth value, integer,
double, string, list, map.  This is a second way from content to field value beside the direct
one (`FieldValue.ofJson`), and it meets repeated keys and large integers on a path of its own.
-/

namespace JobTrace

namespace FieldValue.Trial

/-- A field value whose maps need not be canonical yet. -/
abbrev Draft := Tree String Number

/-- Only null is null; empty lists and maps are not. -/
def asNull : Content → Option Draft
  | .null => some .null
  | _ => none

def asBool : Content → Option Draft
  | .bool b => some (.bool b)
  | _ => none

/-- An integer is a whole number that fits the signed range. -/
def asInt : Content → Option Draft
  | .number (.int n) => some (.number (.int n))
  | .number (.unsigned n) =>
    if n.toNat < Nat.pow 2 63 then some (.number (.int (Int64.ofInt n.toNat))) else none
  | _ => none

/-- Any number can be taken as a double. -/
def asFloat : Content → Option Draft
  | .number (.float x) => some (.number (.float x))
  | .number (.unsigned n) => some (.number (.float (Binary64.ofUInt64 n)))
  | .number (.int n) =>
    (Binary64.ofDecimal? (decide (n.toInt < 0)) n.toInt.natAbs 0).map fun x => .number (.float x)
  | _ => none

def asString : Content → Option Draft
  | .string s => some (.string s)
  | _ => none

/-- The members of a map, put one after another into an empty dictionary. -/
def collect (members : List (String × Draft)) : Draft := .map (Entries.sort members)

/-- The kinds in the order in which they are tried; the last two are given what the parts of a
    list or map were decoded to. -/
def firstKind (c : Content) (asList asMap : Option Draft) : Option Draft :=
  asNull c <|> asBool c <|> asInt c <|> asFloat c <|> asString c <|> asList <|> asMap

mutual

def draft? : Content → Option Draft
  | .list ts => firstKind (.list ts) ((draftItems? ts).map .list) none
  | .map ms => firstKind (.map ms) none ((draftMembers? ms).map collect)
  | .null => firstKind .null none none
  | .bool b => firstKind (.bool b) none none
  | .number n => firstKind (.number n) none none
  | .string s => firstKind (.string s) none none

def draftItems? : List Content → Option (List Draft)
  | [] => some []
  | t :: ts =>
    match draft? t with
    | some d => (draftItems? ts).map (d :: ·)
    | none => none

def draftMembers? : List (String × Content) → Option (List (String × Draft))
  | [] => some []
  | (k, t) :: ms =>
    match draft? t with
    | some d => (draftMembers? ms).map ((k, d) :: ·)
    | none => none

end

mutual

/-- Maps are collected in key order, so a draft is canonical. -/
theorem canonical_of_draft? : ∀ {c : Content} {d : Draft}, draft? c = some d → d.Canonical
  | .null, d, h => by
    simp [draft?, firstKind, asNull] at h
    subst h
    simp [Tree.Canonical]
  | .bool b, d, h => by
    simp [draft?, firstKind, asNull, asBool] at h
    subst h
    simp [Tree.Canonical]
  | .number n, d, h => by
    have hnum : ∃ m, d = .number m := by
      cases n with
      | int n =>
        simp [draft?, firstKind, asNull, asBool, asInt] at h
        exact ⟨_, h.symm⟩
      | float x =>
        simp [draft?, firstKind, asNull, asBool, asInt, asFloat] at h
        exact ⟨_, h.symm⟩
      | unsigned n =>
        simp only [draft?, firstKind, asNull, asBool, asInt, asFloat] at h
        split at h
        · simp at h
          exact ⟨_, h.symm⟩
        · simp at h
          exact ⟨_, h.symm⟩
    obtain ⟨m, rfl⟩ := hnum
    simp [Tree.Canonical]
  | .string s, d, h => by
    simp [draft?, firstKind, asNull, asBool, asInt, asFloat, asString] at h
    subst h
    simp [Tree.Canonical]
  | .list ts, d, h => by
    simp [draft?, firstKind, asNull, asBool, asInt, asFloat, asString] at h
    obtain ⟨ds, hds, rfl⟩ := h
    simp only [Tree.Canonical]
    exact canonicalItems_of_draftItems? hds
  | .map ms, d, h => by
    simp [draft?, firstKind, asNull, asBool, asInt, asFloat, asString] at h
    obtain ⟨ds, hds, rfl⟩ := h
    simp only [collect, Tree.Canonical, Tree.canonicalMembers_iff]
    refine ⟨Entries.ascending_sort _, fun e he => ?_⟩
    rcases Tree.mem_of_mem_insertAll he with he | he
    · exact canonical_of_draftMembers? hds e he
    · simp at he

theorem canonicalItems_of_draftItems? : ∀ {ts : List Content} {ds : List Draft},
    draftItems? ts = some ds → Tree.CanonicalItems ds
  | [], ds, h => by
    simp [draftItems?] at h
    subst h
    simp [Tree.CanonicalItems]
  | t :: ts, ds, h => by
    simp only [draftItems?] at h
    split at h
    · next d hd =>
      simp only [Option.map_eq_some_iff] at h
      obtain ⟨rest, hrest, rfl⟩ := h
      simp only [Tree.CanonicalItems]
      exact ⟨canonical_of_draft? hd, canonicalItems_of_draftItems? hrest⟩
    · simp at h

theorem canonical_of_draftMembers? : ∀ {ms : List (String × Content)}
    {ds : List (String × Draft)}, draftMembers? ms = some ds → ∀ e ∈ ds, e.2.Canonical
  | [], ds, h => by
    simp [draftMembers?] at h
    subst h
    simp
  | (k, t) :: ms, ds, h => by
    simp only [draftMembers?] at h
    split at h
    · next d hd =>
      simp only [Option.map_eq_some_iff] at h
      obtain ⟨rest, hrest, rfl⟩ := h
      intro e he
      rcases List.mem_cons.1 he with rfl | he
      · exact canonical_of_draft? hd
      · exact canonical_of_draftMembers? hrest e he
    · simp at h

end

end FieldValue.Trial

/-- The field value of a content, its kind found by trial. -/
def FieldValue.byTrial? (c : Content) : Option FieldValue :=
  match h : Trial.draft? c with
  | some d => some ⟨d, Trial.canonical_of_draft? h⟩
  | none => none

end JobTrace
