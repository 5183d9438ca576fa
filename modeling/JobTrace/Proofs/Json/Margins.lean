import JobTrace.Json.Value
import JobTrace.Proofs.Number.Spelling
import JobTrace.Text.Blank

/-!
# Blanks around a JSON text

There are more blanks than JSON knows.  Its reader passes over its own four; every other blank is
to it a part of a word, and no word with a blank in it means anything.  So the reader finds out
about the blanks around a text: if all of them are its own, it reads the text as if it stood alone,
and if one of them is not, it reads nothing at all, whatever the text.

Hence it does no harm to take the blanks off before reading.  A text that can be read with them is
read as the same value without them (`Json.ofText?_trim`), and others become readable.

A string literal that is still open shields the characters behind it, so both arguments have to
tell apart where the scanner is.  Behind an open literal blanks change nothing, since a blank
cannot close it.
-/

namespace JobTrace

/-! ### The roles of blanks -/

namespace CharRole

theorem eq_of_blank {c : Char} (h : CharRole.of c = .blank) :
    c = ' ' ∨ c = '\t' ∨ c = '\n' ∨ c = '\r' := by
  unfold CharRole.of at h
  split at h <;> simp at h ⊢

/-- A blank that JSON does not know is to it a part of a word. -/
theorem of_isBlank {c : Char} (h : Text.isBlank c = true) :
    CharRole.of c = .blank ∨ CharRole.of c = .wordPart := by
  unfold CharRole.of
  split
  all_goals first
    | exact Or.inl rfl
    | exact Or.inr rfl
    | exact absurd h (by decide)

end CharRole

/-! ### Words with a blank in them -/

/-- A word with a blank in it. -/
def Token.Gapped : Token → Prop
  | .word cs => ∃ c ∈ cs, Text.isBlank c = true
  | _ => False

namespace Numeral

theorem not_isBlank_of_ofText? {cs : List Char} {n : Numeral} (h : ofText? cs = some n) {c : Char}
    (hc : c ∈ cs) : Text.isBlank c = false := by
  rcases mem_text_of_ofText? h hc with rfl | hc
  · decide
  · have hnot := forall_mem_text (p := (!Text.isBlank ·)) (by decide) (by decide) n c hc
    exact (Bool.not_eq_true' _).mp hnot

end Numeral

namespace Document

theorem ofWord?_eq_none_of_blank {cs : List Char} {c : Char} (hc : c ∈ cs)
    (hblank : Text.isBlank c = true) : ofWord? cs = none := by
  have hne : ∀ ds : List Char, ds.all (!Text.isBlank ·) = true → cs ≠ ds := by
    rintro ds hds rfl
    have hnot := List.all_eq_true.1 hds c hc
    rw [hblank] at hnot
    exact absurd hnot (by decide)
  rw [ofWord?, if_neg (hne nullWord (by decide)), if_neg (hne (boolWord true) (by decide)),
    if_neg (hne (boolWord false) (by decide)), Option.map_eq_none_iff]
  cases hnumeral : Numeral.ofText? cs with
  | none => rfl
  | some n =>
    rw [Numeral.not_isBlank_of_ofText? hnumeral hc] at hblank
    exact absurd hblank (by decide)

theorem step?_of_gapped {t : Token} (h : t.Gapped) (r : Reader) : r.step? t = none := by
  cases t with
  | word cs =>
    obtain ⟨c, hc, hblank⟩ := h
    have hword := ofWord?_eq_none_of_blank hc hblank
    cases r <;> simp [Reader.step?, startValue?, hword]
  | mark p => exact absurd h id
  | quoted literal => exact absurd h id

/-- No document has a word with a blank in it. -/
theorem ofTokens?_of_gapped {ts : List Token} (h : ∃ t ∈ ts, t.Gapped) : ofTokens? ts = none := by
  obtain ⟨t, ht, hgapped⟩ := h
  obtain ⟨before, behind, rfl⟩ := List.append_of_mem ht
  rw [ofTokens?, List.foldlM_append]
  cases before.foldlM Reader.step? (.value []) with
  | none => rfl
  | some r =>
    have hstep := step?_of_gapped hgapped r
    simp [hstep]

end Document

/-! ### Scanning -/

namespace Scan

/-- A scan that could end here is outside of string literals. -/
theorem exists_eq_outside {s : Scan} {ts : List Token} (h : s.finish? = some ts) :
    ∃ word tokens, s = ⟨.outside word, tokens⟩ := by
  obtain ⟨mode, tokens⟩ := s
  cases mode with
  | outside word => exact ⟨word, tokens, rfl⟩
  | inside units => exact absurd h (by simp [finish?])
  | escaped units => exact absurd h (by simp [finish?])
  | coded units digits => exact absurd h (by simp [finish?])

/-- Inside of a string literal no token is read, until a quote closes it. -/
theorem step?_literal_cases {s s' : Scan} {c : Char} (h : s.finish? = none)
    (hstep : s.step? c = some s') :
    (s'.finish? = none ∧ s'.tokens = s.tokens) ∨
      (c = '"' ∧ ∃ literal, s' = ⟨.outside [], .quoted literal :: s.tokens⟩) := by
  obtain ⟨mode, tokens⟩ := s
  cases mode with
  | outside word => exact absurd h (by simp [finish?])
  | inside units =>
    simp only [step?] at hstep
    split at hstep
    · next hquote =>
      obtain rfl := Option.some.inj hstep
      exact Or.inr ⟨hquote, units.reverse, rfl⟩
    · split at hstep
      · obtain rfl := Option.some.inj hstep
        exact Or.inl ⟨rfl, rfl⟩
      · split at hstep
        · exact absurd hstep (by simp)
        · obtain rfl := Option.some.inj hstep
          exact Or.inl ⟨rfl, rfl⟩
  | escaped units =>
    simp only [step?] at hstep
    split at hstep
    · obtain rfl := Option.some.inj hstep
      exact Or.inl ⟨rfl, rfl⟩
    · obtain ⟨e, -, rfl⟩ := Option.map_eq_some_iff.1 hstep
      exact Or.inl ⟨rfl, rfl⟩
  | coded units digits =>
    simp only [step?] at hstep
    split at hstep
    · exact absurd hstep (by simp)
    · obtain rfl := Option.some.inj hstep
      exact Or.inl ⟨rfl, rfl⟩
    · obtain rfl := Option.some.inj hstep
      exact Or.inl ⟨rfl, rfl⟩

/-- The tokens read so far, with the word that is being read. -/
def tokensSoFar (s : Scan) : List Token :=
  match s.mode with
  | .outside word => closeWord word s.tokens
  | _ => s.tokens

theorem tokensSoFar_of_literal {s : Scan} (h : s.finish? = none) : s.tokensSoFar = s.tokens := by
  obtain ⟨mode, tokens⟩ := s
  cases mode with
  | outside word => exact absurd h (by simp [finish?])
  | inside units => rfl
  | escaped units => rfl
  | coded units digits => rfl

/-- A word with a blank in it was read, or is being read. -/
def Gapped (s : Scan) : Prop := ∃ t ∈ s.tokensSoFar, t.Gapped

theorem Gapped.mono {s s' : Scan} (h : s.Gapped) (hmore : s.tokensSoFar ⊆ s'.tokensSoFar) :
    s'.Gapped := by
  obtain ⟨t, ht, hgapped⟩ := h
  exact ⟨t, hmore ht, hgapped⟩

theorem gapped_wordPart {word : List Char} {tokens : List Token}
    (h : Gapped ⟨.outside word, tokens⟩) (c : Char) : Gapped ⟨.outside (c :: word), tokens⟩ := by
  obtain ⟨t, ht, hgapped⟩ := h
  cases word with
  | nil => exact ⟨t, List.mem_cons_of_mem _ ht, hgapped⟩
  | cons d word =>
    rcases List.mem_cons.1 ht with rfl | ht
    · obtain ⟨b, hb, hblank⟩ := hgapped
      have hlonger : b ∈ (c :: d :: word).reverse := by
        rw [List.reverse_cons]
        exact List.mem_append_left [c] hb
      exact ⟨_, List.mem_cons_self .., b, hlonger, hblank⟩
    · exact ⟨t, List.mem_cons_of_mem _ ht, hgapped⟩

/-- What was read is never taken back. -/
theorem Gapped.step {s s' : Scan} {c : Char} (h : s.Gapped) (hstep : s.step? c = some s') :
    s'.Gapped := by
  cases hfinish : s.finish? with
  | none =>
    have hread := tokensSoFar_of_literal hfinish
    rcases step?_literal_cases hfinish hstep with ⟨hfinish', htokens⟩ | ⟨-, literal, rfl⟩
    · apply h.mono
      rw [hread, tokensSoFar_of_literal hfinish', htokens]
      exact List.Subset.refl _
    · apply h.mono
      rw [hread]
      exact List.subset_cons_self _ _
  | some ts =>
    obtain ⟨word, tokens, rfl⟩ := exists_eq_outside hfinish
    simp only [step?] at hstep
    split at hstep
    all_goals obtain rfl := Option.some.inj hstep
    · exact gapped_wordPart h c
    · exact h
    · exact h
    · exact h.mono (List.subset_cons_self _ _)

/-- What the rest of a text makes of a scan. -/
def document? (s : Scan) (cs : List Char) : Option Document :=
  ((cs.foldlM step? s).bind finish?).bind Document.ofTokens?

theorem document?_append (s : Scan) (cs ds : List Char) :
    s.document? (cs ++ ds) = (cs.foldlM step? s).bind (document? · ds) := by
  unfold document?
  rw [List.foldlM_append]
  cases cs.foldlM step? s <;> rfl

theorem document?_cons (s : Scan) (c : Char) (cs : List Char) :
    s.document? (c :: cs) = (s.step? c).bind (document? · cs) := by
  unfold document?
  rw [List.foldlM_cons]
  cases s.step? c <;> rfl

/-- A text in which such a word was read is no document, however it goes on. -/
theorem Gapped.document?_eq_none {s : Scan} (h : s.Gapped) (cs : List Char) :
    s.document? cs = none := by
  induction cs generalizing s with
  | nil =>
    cases hfinish : s.finish? with
    | none =>
      show s.finish?.bind Document.ofTokens? = none
      rw [hfinish, Option.bind_none]
    | some ts =>
      obtain ⟨word, tokens, rfl⟩ := exists_eq_outside hfinish
      obtain ⟨t, ht, hgapped⟩ := h
      exact Document.ofTokens?_of_gapped ⟨t, List.mem_reverse.2 ht, hgapped⟩
  | cons c cs ih =>
    rw [document?_cons]
    cases hstep : s.step? c with
    | none => rfl
    | some s' => exact ih (h.step hstep)

/-! ### Scanning blanks -/

theorem isBlank_of_own {c : Char} (h : CharRole.of c = .blank) : Text.isBlank c = true := by
  rcases CharRole.eq_of_blank h with rfl | rfl | rfl | rfl
  all_goals decide

theorem foldlM_own {cs : List Char} (h : ∀ c ∈ cs, CharRole.of c = .blank)
    (tokens : List Token) :
    cs.foldlM step? ⟨.outside [], tokens⟩ = some ⟨.outside [], tokens⟩ := by
  induction cs with
  | nil => rfl
  | cons c cs ih =>
    rw [List.foldlM_cons]
    simp only [step?, h c (List.mem_cons_self ..)]
    exact ih fun d hd => h d (List.mem_cons_of_mem c hd)

/-- Blanks outside of string literals leave the scanner there. -/
theorem exists_foldlM_blanks {cs : List Char} (h : ∀ c ∈ cs, Text.isBlank c) (word : List Char)
    (tokens : List Token) :
    ∃ word' tokens', cs.foldlM step? ⟨.outside word, tokens⟩ = some ⟨.outside word', tokens'⟩ := by
  induction cs generalizing word tokens with
  | nil => exact ⟨word, tokens, rfl⟩
  | cons c cs ih =>
    have hcs : ∀ d ∈ cs, Text.isBlank d := fun d hd => h d (List.mem_cons_of_mem c hd)
    rw [List.foldlM_cons]
    rcases CharRole.of_isBlank (h c (List.mem_cons_self ..)) with hrole | hrole
    · simp only [step?, hrole]
      exact ih hcs [] (closeWord word tokens)
    · simp only [step?, hrole]
      exact ih hcs (c :: word) tokens

/-- A blank does not close a string literal, so a literal that is open stays open. -/
theorem document?_of_literal {s : Scan} (h : s.finish? = none) {cs : List Char}
    (hcs : ∀ c ∈ cs, Text.isBlank c) : s.document? cs = none := by
  induction cs generalizing s with
  | nil =>
    show s.finish?.bind Document.ofTokens? = none
    rw [h, Option.bind_none]
  | cons c cs ih =>
    rw [document?_cons]
    cases hstep : s.step? c with
    | none => rfl
    | some s' =>
      rcases step?_literal_cases h hstep with ⟨h', -⟩ | ⟨rfl, -⟩
      · exact ih h' fun d hd => hcs d (List.mem_cons_of_mem c hd)
      · exact absurd (hcs '"' (List.mem_cons_self ..)) (by decide)

/-- The reader passes over its own blanks behind a text. -/
theorem document?_of_own (s : Scan) {cs : List Char} (h : ∀ c ∈ cs, CharRole.of c = .blank) :
    s.document? cs = s.document? [] := by
  cases hfinish : s.finish? with
  | none =>
    rw [document?_of_literal hfinish fun c hc => isBlank_of_own (h c hc),
      document?_of_literal hfinish (by simp)]
  | some ts =>
    obtain ⟨word, tokens, rfl⟩ := exists_eq_outside hfinish
    cases cs with
    | nil => rfl
    | cons c cs =>
      -- The first blank closes the word, which the end of the text would have done as well.
      rw [document?_cons]
      simp only [step?, h c (List.mem_cons_self ..), Option.bind_some]
      unfold document?
      rw [foldlM_own fun d hd => h d (List.mem_cons_of_mem c hd)]
      rfl

/-- A blank that is not its own becomes a part of a word, and then there is no way back. -/
theorem document?_of_foreign {c : Char} (hblank : Text.isBlank c = true)
    (hforeign : CharRole.of c ≠ .blank) (word : List Char) (tokens : List Token) (cs : List Char) :
    document? ⟨.outside word, tokens⟩ (c :: cs) = none := by
  have hrole : CharRole.of c = .wordPart := (CharRole.of_isBlank hblank).resolve_left hforeign
  have hgapped : Gapped ⟨.outside (c :: word), tokens⟩ :=
    ⟨_, List.mem_cons_self .., c, List.mem_reverse.2 (List.mem_cons_self ..), hblank⟩
  rw [document?_cons]
  simp only [step?, hrole, Option.bind_some]
  exact hgapped.document?_eq_none cs

theorem document?_of_foreign_blanks (s : Scan) {c : Char} {cs : List Char}
    (h : ∀ d ∈ c :: cs, Text.isBlank d) (hforeign : CharRole.of c ≠ .blank) :
    s.document? (c :: cs) = none := by
  cases hfinish : s.finish? with
  | none => exact document?_of_literal hfinish h
  | some ts =>
    obtain ⟨word, tokens, rfl⟩ := exists_eq_outside hfinish
    exact document?_of_foreign (h c (List.mem_cons_self ..)) hforeign word tokens cs

end Scan

/-! ### Reading between blanks -/

namespace Document

variable {front back : String}

theorem ofText?_eq_document? (s : String) : ofText? s = Scan.start.document? s.toList := rfl

theorem ofText?_between_own (hfront : ∀ c ∈ front.toList, CharRole.of c = .blank)
    (hback : ∀ c ∈ back.toList, CharRole.of c = .blank) (s : String) :
    ofText? (front ++ s ++ back) = ofText? s := by
  have hstart : front.toList.foldlM Scan.step? Scan.start = some Scan.start :=
    Scan.foldlM_own hfront []
  have hends : ∀ cs, Scan.start.document? cs =
      (cs.foldlM Scan.step? Scan.start).bind (Scan.document? · []) := by
    intro cs
    rw [← Scan.document?_append, List.append_nil]
  rw [ofText?_eq_document?, ofText?_eq_document?, String.toList_append, String.toList_append,
    List.append_assoc, Scan.document?_append, hstart, Option.bind_some, Scan.document?_append,
    hends s.toList]
  cases s.toList.foldlM Scan.step? Scan.start with
  | none => rfl
  | some scan => exact scan.document?_of_own hback

theorem ofText?_between_foreign (hfront : ∀ c ∈ front.toList, Text.isBlank c)
    (hback : ∀ c ∈ back.toList, Text.isBlank c)
    (hforeign : ∃ c ∈ front.toList ++ back.toList, CharRole.of c ≠ .blank) (s : String) :
    ofText? (front ++ s ++ back) = none := by
  obtain ⟨c, hc, hrole⟩ := hforeign
  rw [ofText?_eq_document?, String.toList_append, String.toList_append]
  rcases List.mem_append.1 hc with hc | hc
  · -- In front of the text the scanner cannot be in a literal, whatever comes behind the blank.
    have hblank := hfront c hc
    obtain ⟨before, behind, hsplit⟩ := List.append_of_mem hc
    have hbefore : ∀ d ∈ before, Text.isBlank d := by
      intro d hd
      exact hfront d (hsplit ▸ List.mem_append_left _ hd)
    obtain ⟨word, tokens, hscan⟩ := Scan.exists_foldlM_blanks hbefore [] []
    have hstart : before.foldlM Scan.step? Scan.start = some ⟨.outside word, tokens⟩ := hscan
    rw [hsplit, List.append_assoc, List.append_assoc, List.cons_append, Scan.document?_append,
      hstart, Option.bind_some]
    exact Scan.document?_of_foreign hblank hrole word tokens _
  · -- Behind the text it may be in one, but then nothing but blanks will come.
    obtain ⟨before, behind, hsplit⟩ := List.append_of_mem hc
    have hbehind : ∀ d ∈ c :: behind, Text.isBlank d := by
      intro d hd
      exact hback d (hsplit ▸ List.mem_append_right _ hd)
    rw [hsplit, ← List.append_assoc, Scan.document?_append]
    cases (front.toList ++ s.toList ++ before).foldlM Scan.step? Scan.start with
    | none => rfl
    | some scan => exact scan.document?_of_foreign_blanks hbehind hrole

end Document

namespace Json

variable {front back : String}

theorem ofText?_between_own (hfront : ∀ c ∈ front.toList, CharRole.of c = .blank)
    (hback : ∀ c ∈ back.toList, CharRole.of c = .blank) (s : String) :
    ofText? (front ++ s ++ back) = ofText? s := by
  unfold ofText? Content.ofText?
  rw [Document.ofText?_between_own hfront hback]

theorem ofText?_between_foreign (hfront : ∀ c ∈ front.toList, Text.isBlank c)
    (hback : ∀ c ∈ back.toList, Text.isBlank c)
    (hforeign : ∃ c ∈ front.toList ++ back.toList, CharRole.of c ≠ .blank) (s : String) :
    ofText? (front ++ s ++ back) = none := by
  unfold ofText? Content.ofText?
  rw [Document.ofText?_between_foreign hfront hback hforeign]
  rfl

/-- A text that can be read is read as the same value without the blanks around it. -/
theorem ofText?_trim {s : String} {v : Json} (h : ofText? s = some v) :
    ofText? (Text.trim s) = some v := by
  obtain ⟨front, back, hfront, hback, hs⟩ := Text.exists_eq_trim_between s
  rw [hs] at h
  by_cases hown : ∀ c ∈ front.toList ++ back.toList, CharRole.of c = .blank
  · rw [List.forall_mem_append] at hown
    rw [ofText?_between_own hown.1 hown.2] at h
    exact h
  · have hforeign : ∃ c ∈ front.toList ++ back.toList, CharRole.of c ≠ .blank := by
      simpa using hown
    rw [ofText?_between_foreign hfront hback hforeign] at h
    exact absurd h (by simp)

end Json

end JobTrace
