import JobTrace.Json.Document
import JobTrace.Proofs.Json.Scanning
import JobTrace.Proofs.Number.Spelling

/-!
# Documents are read back

The compact text of a well-formed document is read as that document, at any depth.

Both halves, scanning and reading, are proved for a document with an arbitrary list of tokens
behind it: that is what makes the induction go through where a document is the part of a larger
one.
-/

namespace JobTrace

namespace Document

def WellFormed (d : Document) : Prop :=
  (∀ s ∈ d.strings, ∀ u ∈ s, u.WellFormed) ∧ ∀ n ∈ d.numbers, n.WellFormed

def WellFormedItems (ds : List Document) : Prop :=
  (∀ s ∈ Tree.stringsItems ds, ∀ u ∈ s, u.WellFormed) ∧
    ∀ n ∈ Tree.numbersItems ds, n.WellFormed

def WellFormedMembers (ms : List (StringLiteral × Document)) : Prop :=
  (∀ s ∈ Tree.stringsMembers ms, ∀ u ∈ s, u.WellFormed) ∧
    ∀ n ∈ Tree.numbersMembers ms, n.WellFormed

theorem wellFormedItems_cons {d : Document} {ds : List Document} :
    WellFormedItems (d :: ds) ↔ d.WellFormed ∧ WellFormedItems ds := by
  simp only [WellFormedItems, WellFormed, Tree.stringsItems, Tree.numbersItems,
    List.forall_mem_append]
  exact and_and_and_comm

theorem wellFormedMembers_cons {k : StringLiteral} {d : Document}
    {ms : List (StringLiteral × Document)} :
    WellFormedMembers ((k, d) :: ms) ↔
      (∀ u ∈ k, u.WellFormed) ∧ d.WellFormed ∧ WellFormedMembers ms := by
  simp only [WellFormedMembers, WellFormed, Tree.stringsMembers, Tree.numbersMembers,
    List.forall_mem_append, List.cons_append, List.forall_mem_cons]
  constructor
  · rintro ⟨⟨hk, hs, hss⟩, hn, hns⟩
    exact ⟨hk, ⟨hs, hn⟩, hss, hns⟩
  · rintro ⟨hk, ⟨hs, hn⟩, hss, hns⟩
    exact ⟨⟨hk, hs, hss⟩, hn, hns⟩

/-! ### The tokens of a document can be scanned -/

theorem wordPart_of_all {cs : List Char} (h : cs.all (CharRole.of · = .wordPart) = true) :
    ∀ c ∈ cs, CharRole.of c = .wordPart :=
  fun c hc => of_decide_eq_true (List.all_eq_true.1 h c hc)

theorem wordPart_numeralText (n : Numeral) : ∀ c ∈ n.text, CharRole.of c = .wordPart :=
  fun c hc => of_decide_eq_true
    (Numeral.forall_mem_text (p := (CharRole.of · = .wordPart)) (by decide) (by decide) n c hc)

theorem numeralText_ne_nil {n : Numeral} (h : n.WellFormed) : n.text ≠ [] := by
  obtain ⟨hwhole, -⟩ := h
  intro hnil
  simp only [Numeral.text, List.append_eq_nil_iff, List.map_eq_nil_iff] at hnil
  rw [hnil.1.1.2] at hwhole
  exact absurd hwhole (by decide)

theorem noWordFirst_moreItems (ds : List Document) (p : Punctuation) (rest : List Token) :
    Token.NoWordFirst (moreItems ds ++ .mark p :: rest) := by
  cases ds <;> trivial

theorem noWordFirst_moreMembers (ms : List (StringLiteral × Document)) (p : Punctuation)
    (rest : List Token) : Token.NoWordFirst (moreMembers ms ++ .mark p :: rest) := by
  cases ms <;> trivial

mutual

theorem scannable_tokens : ∀ {d : Document}, d.WellFormed → ∀ {rest : List Token},
    Token.NoWordFirst rest → Token.Scannable rest → Token.Scannable (tokens d ++ rest)
  | .null, _, rest, hfirst, hrest => ⟨by decide, wordPart_of_all (by decide), hfirst, hrest⟩
  | .bool true, _, rest, hfirst, hrest => ⟨by decide, wordPart_of_all (by decide), hfirst, hrest⟩
  | .bool false, _, rest, hfirst, hrest => ⟨by decide, wordPart_of_all (by decide), hfirst, hrest⟩
  | .number n, h, rest, hfirst, hrest =>
    ⟨numeralText_ne_nil (h.2 n (by simp [Tree.numbers])), wordPart_numeralText n, hfirst, hrest⟩
  | .string s, h, rest, _, hrest => ⟨h.1 s (by simp [Tree.strings]), hrest⟩
  | .list [], _, rest, _, hrest => hrest
  | .list (d :: ds), h, rest, _, hrest => by
    obtain ⟨hd, hds⟩ := wellFormedItems_cons.1 h
    simp only [tokens, List.cons_append, List.append_assoc, List.nil_append]
    exact scannable_tokens hd (noWordFirst_moreItems ds _ rest) (scannable_moreItems hds hrest)
  | .map [], _, rest, _, hrest => hrest
  | .map ((k, d) :: ms), h, rest, _, hrest => by
    obtain ⟨hk, hd, hms⟩ := wellFormedMembers_cons.1 h
    simp only [tokens, List.cons_append, List.append_assoc, List.nil_append]
    exact ⟨hk, scannable_tokens hd (noWordFirst_moreMembers ms _ rest)
      (scannable_moreMembers hms hrest)⟩

theorem scannable_moreItems : ∀ {ds : List Document}, WellFormedItems ds →
    ∀ {p : Punctuation} {rest : List Token}, Token.Scannable rest →
      Token.Scannable (moreItems ds ++ .mark p :: rest)
  | [], _, _, _, hrest => hrest
  | d :: ds, h, p, rest, hrest => by
    obtain ⟨hd, hds⟩ := wellFormedItems_cons.1 h
    simp only [moreItems, List.cons_append, List.append_assoc]
    exact scannable_tokens hd (noWordFirst_moreItems ds p rest) (scannable_moreItems hds hrest)

theorem scannable_moreMembers : ∀ {ms : List (StringLiteral × Document)}, WellFormedMembers ms →
    ∀ {p : Punctuation} {rest : List Token}, Token.Scannable rest →
      Token.Scannable (moreMembers ms ++ .mark p :: rest)
  | [], _, _, _, hrest => hrest
  | (k, d) :: ms, h, p, rest, hrest => by
    obtain ⟨hk, hd, hms⟩ := wellFormedMembers_cons.1 h
    simp only [moreMembers, List.cons_append, List.append_assoc]
    exact ⟨hk, scannable_tokens hd (noWordFirst_moreMembers ms p rest)
      (scannable_moreMembers hms hrest)⟩

end

/-! ### The tokens of a document are read back -/

theorem ofWord?_numeralText {n : Numeral} (h : n.WellFormed) :
    ofWord? n.text = some (.number n) := by
  have hread := Numeral.ofText?_text h
  have hword : ∀ cs : List Char, Numeral.ofText? cs = none → n.text ≠ cs := by
    intro cs hnone heq
    rw [heq, hnone] at hread
    exact absurd hread (by simp)
  unfold ofWord?
  rw [if_neg (hword _ (by decide)), if_neg (hword _ (by decide)), if_neg (hword _ (by decide)),
    hread]
  rfl

/-- Where a list has just been opened, a value is read as where one is due. -/
theorem firstItem_tokens (d : Document) (stack : List Frame) (rest : List Token) :
    (tokens d ++ rest).foldlM Reader.step? (.firstItem stack) =
      (tokens d ++ rest).foldlM Reader.step? (.value (.list [] :: stack)) := by
  cases d with
  | list ds => cases ds <;> rfl
  | map ms =>
    cases ms with
    | nil => rfl
    | cons m ms => rfl
  | _ => rfl

mutual

theorem foldlM_tokens : ∀ {d : Document}, d.WellFormed →
    ∀ (stack : List Frame) (rest : List Token),
      (tokens d ++ rest).foldlM Reader.step? (.value stack) =
        rest.foldlM Reader.step? (deliver d stack)
  | .null, _, stack, rest => rfl
  | .bool true, _, stack, rest => rfl
  | .bool false, _, stack, rest => rfl
  | .number n, h, stack, rest => by
    simp [tokens, Reader.step?, startValue?,
      ofWord?_numeralText (h.2 n (by simp [Tree.numbers]))]
  | .string s, _, stack, rest => rfl
  | .list [], _, stack, rest => rfl
  | .list (d :: ds), h, stack, rest => by
    obtain ⟨hd, hds⟩ := wellFormedItems_cons.1 h
    have hopen : Reader.step? (.value stack) (.mark .openList) = some (.firstItem stack) := rfl
    simp only [tokens, List.cons_append, List.append_assoc, List.foldlM_cons, hopen,
      Option.bind_eq_bind, Option.bind_some]
    rw [firstItem_tokens, foldlM_tokens hd, deliver]
    exact foldlM_moreItems hds [d] stack rest
  | .map [], _, stack, rest => rfl
  | .map ((k, d) :: ms), h, stack, rest => by
    obtain ⟨-, hd, hms⟩ := wellFormedMembers_cons.1 h
    have hopen : Reader.step? (.value stack) (.mark .openMap) = some (.firstKey stack) := rfl
    have hkey : Reader.step? (.firstKey stack) (.quoted k) = some (.colon [] k stack) := rfl
    have hcolon : Reader.step? (.colon [] k stack) (.mark .colon) =
      some (.value (.map [] k :: stack)) := rfl
    simp only [tokens, List.cons_append, List.append_assoc, List.foldlM_cons, hopen, hkey,
      hcolon, Option.bind_eq_bind, Option.bind_some]
    rw [foldlM_tokens hd, deliver]
    exact foldlM_moreMembers hms [(k, d)] stack rest

theorem foldlM_moreItems : ∀ {ds : List Document}, WellFormedItems ds →
    ∀ (done : List Document) (stack : List Frame) (rest : List Token),
      (moreItems ds ++ ([Token.mark .closeList] ++ rest)).foldlM Reader.step?
          (.afterItem done stack) =
        rest.foldlM Reader.step? (deliver (.list (done.reverse ++ ds)) stack)
  | [], _, done, stack, rest => by
    rw [List.append_nil]
    rfl
  | d :: ds, h, done, stack, rest => by
    obtain ⟨hd, hds⟩ := wellFormedItems_cons.1 h
    have hcomma : Reader.step? (.afterItem done stack) (.mark .comma) =
      some (.value (.list done :: stack)) := rfl
    simp only [moreItems, List.cons_append, List.append_assoc, List.foldlM_cons, hcomma,
      Option.bind_eq_bind, Option.bind_some]
    rw [foldlM_tokens hd, deliver]
    have hmore := foldlM_moreItems hds (d :: done) stack rest
    rw [List.reverse_cons, List.append_assoc] at hmore
    exact hmore

theorem foldlM_moreMembers : ∀ {ms : List (StringLiteral × Document)}, WellFormedMembers ms →
    ∀ (done : List (StringLiteral × Document)) (stack : List Frame) (rest : List Token),
      (moreMembers ms ++ ([Token.mark .closeMap] ++ rest)).foldlM Reader.step?
          (.afterMember done stack) =
        rest.foldlM Reader.step? (deliver (.map (done.reverse ++ ms)) stack)
  | [], _, done, stack, rest => by
    rw [List.append_nil]
    rfl
  | (k, d) :: ms, h, done, stack, rest => by
    obtain ⟨-, hd, hms⟩ := wellFormedMembers_cons.1 h
    have hcomma : Reader.step? (.afterMember done stack) (.mark .comma) =
      some (.key done stack) := rfl
    have hkey : Reader.step? (.key done stack) (.quoted k) = some (.colon done k stack) := rfl
    have hcolon : Reader.step? (.colon done k stack) (.mark .colon) =
      some (.value (.map done k :: stack)) := rfl
    simp only [moreMembers, List.cons_append, List.append_assoc, List.foldlM_cons, hcomma, hkey,
      hcolon, Option.bind_eq_bind, Option.bind_some]
    rw [foldlM_tokens hd, deliver]
    have hmore := foldlM_moreMembers hms ((k, d) :: done) stack rest
    rw [List.reverse_cons, List.append_assoc] at hmore
    exact hmore

end

theorem ofTokens?_tokens {d : Document} (h : d.WellFormed) : ofTokens? (tokens d) = some d := by
  have hread := foldlM_tokens h [] []
  rw [List.append_nil] at hread
  unfold ofTokens?
  rw [hread]
  rfl

/-- A well-formed document is read back from its text. -/
theorem ofText?_text {d : Document} (h : d.WellFormed) : ofText? d.text = some d := by
  have hscan : Token.Scannable (tokens d) := by
    rw [← List.append_nil (tokens d)]
    exact scannable_tokens h trivial trivial
  unfold ofText? text
  rw [String.toList_ofList, Token.scan?_flatMap_text hscan, Option.bind_some,
    ofTokens?_tokens h]

end Document

end JobTrace
