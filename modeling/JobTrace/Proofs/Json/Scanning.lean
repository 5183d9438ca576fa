import JobTrace.Json.Token

/-!
# Tokens are scanned back

The text of a list of tokens is scanned into the same tokens, provided that the tokens are well
spelt and no word stands directly before another one: two adjacent words would be read as one.

The scanner closes a word only when it meets the character behind it.  So the induction runs
over scanners with a word still open, and the tokens behind it must not begin with a word.
-/

namespace JobTrace

namespace Token

/-- The tokens do not begin with a word. -/
def NoWordFirst : List Token → Prop
  | .word _ :: _ => False
  | _ => True

/-- Tokens that are well spelt, with something other than a word behind each word. -/
def Scannable : List Token → Prop
  | [] => True
  | .mark _ :: ts => Scannable ts
  | .quoted literal :: ts => (∀ u ∈ literal, u.WellFormed) ∧ Scannable ts
  | .word cs :: ts =>
    cs ≠ [] ∧ (∀ c ∈ cs, CharRole.of c = .wordPart) ∧ NoWordFirst ts ∧ Scannable ts

end Token

namespace Scan

/-! ### Inside of string literals -/

theorem foldlM_unitText {u : StringUnit} (h : u.WellFormed) (units : StringLiteral)
    (tokens : List Token) :
    u.text.foldlM step? ⟨.inside units, tokens⟩ = some ⟨.inside (u :: units), tokens⟩ := by
  cases u with
  | plain c =>
    obtain ⟨hcontrol, hquote, hbackslash⟩ := h
    have hlt : ¬ c.toNat < 32 := Nat.not_lt.2 hcontrol
    simp [StringUnit.text, step?, hquote, hbackslash, hlt]
  | escape e =>
    simp [StringUnit.text, step?, Escape.letter_ne_u, Escape.ofLetter?_letter]
  | code d₃ d₂ d₁ d₀ =>
    simp [StringUnit.text, step?, HexDigit.ofChar?_char]

theorem foldlM_literalText {literal : StringLiteral} (h : ∀ u ∈ literal, u.WellFormed)
    (units : StringLiteral) (tokens : List Token) :
    (literal.flatMap StringUnit.text).foldlM step? ⟨.inside units, tokens⟩ =
      some ⟨.inside (literal.reverse ++ units), tokens⟩ := by
  induction literal generalizing units with
  | nil => rfl
  | cons u literal ih =>
    rw [List.flatMap_cons, List.foldlM_append, foldlM_unitText (h u (List.mem_cons_self ..))]
    simp only [Option.bind_eq_bind, Option.bind_some]
    rw [ih fun v hv => h v (List.mem_cons_of_mem _ hv), List.reverse_cons, List.append_assoc]
    rfl

/-! ### Outside of string literals -/

theorem step?_outside_quote (word : List Char) (tokens : List Token) :
    step? ⟨.outside word, tokens⟩ '"' = some ⟨.inside [], closeWord word tokens⟩ := rfl

theorem foldlM_quoted {literal : StringLiteral} (h : ∀ u ∈ literal, u.WellFormed)
    (word : List Char) (tokens : List Token) :
    (Token.quoted literal).text.foldlM step? ⟨.outside word, tokens⟩ =
      some ⟨.outside [], .quoted literal :: closeWord word tokens⟩ := by
  simp only [Token.text, List.cons_append, List.foldlM_cons, step?_outside_quote,
    Option.bind_eq_bind, Option.bind_some, List.foldlM_append, foldlM_literalText h]
  simp [step?]

theorem foldlM_mark (p : Punctuation) (word : List Char) (tokens : List Token) :
    (Token.mark p).text.foldlM step? ⟨.outside word, tokens⟩ =
      some ⟨.outside [], .mark p :: closeWord word tokens⟩ := by
  cases p <;> rfl

theorem foldlM_word {cs : List Char} (h : ∀ c ∈ cs, CharRole.of c = .wordPart)
    (word : List Char) (tokens : List Token) :
    cs.foldlM step? ⟨.outside word, tokens⟩ = some ⟨.outside (cs.reverse ++ word), tokens⟩ := by
  induction cs generalizing word with
  | nil => rfl
  | cons c cs ih =>
    have hc : CharRole.of c = .wordPart := h c (List.mem_cons_self ..)
    rw [List.foldlM_cons]
    simp only [step?, hc, Option.bind_eq_bind, Option.bind_some]
    rw [ih fun c' hc' => h c' (List.mem_cons_of_mem _ hc'), List.reverse_cons, List.append_assoc]
    rfl

theorem closeWord_reverse {cs : List Char} (h : cs ≠ []) (tokens : List Token) :
    closeWord cs.reverse tokens = .word cs :: tokens := by
  unfold closeWord
  split
  · next hnil => exact absurd (List.reverse_eq_nil_iff.1 hnil) h
  · rw [List.reverse_reverse]

/-- What is read behind an open word is what the tokens say, once that word has been closed. -/
theorem finish?_foldlM_text {ts : List Token} (h : Token.Scannable ts) (word : List Char)
    (tokens : List Token) (hword : word = [] ∨ Token.NoWordFirst ts) :
    ((ts.flatMap Token.text).foldlM step? ⟨.outside word, tokens⟩).bind finish? =
      some ((closeWord word tokens).reverse ++ ts) := by
  induction ts generalizing word tokens with
  | nil => simp [finish?]
  | cons t ts ih =>
    rw [List.flatMap_cons, List.foldlM_append]
    cases t with
    | mark p =>
      rw [foldlM_mark]
      simp only [Option.bind_eq_bind, Option.bind_some]
      rw [ih h [] _ (Or.inl rfl)]
      simp [closeWord]
    | quoted literal =>
      obtain ⟨hunits, hts⟩ := h
      rw [foldlM_quoted hunits]
      simp only [Option.bind_eq_bind, Option.bind_some]
      rw [ih hts [] _ (Or.inl rfl)]
      simp [closeWord]
    | word cs =>
      obtain ⟨hne, hparts, hfirst, hts⟩ := h
      obtain rfl : word = [] := hword.resolve_right id
      have hcs : (Token.word cs).text = cs := rfl
      rw [hcs, foldlM_word hparts, List.append_nil]
      simp only [Option.bind_eq_bind, Option.bind_some]
      rw [ih hts _ _ (Or.inr hfirst), closeWord_reverse hne]
      simp [closeWord]

end Scan

/-- Scanning finds the tokens that a text was made of. -/
theorem Token.scan?_flatMap_text {ts : List Token} (h : Token.Scannable ts) :
    Token.scan? (ts.flatMap Token.text) = some ts :=
  Scan.finish?_foldlM_text h [] [] (Or.inl rfl)

end JobTrace
