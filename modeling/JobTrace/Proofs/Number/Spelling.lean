import JobTrace.Field.Value

/-!
# Spellings of numbers

A numeral is made of digits, signs, a point and an exponent mark and of nothing else, and a
well-formed one is determined by its spelling.  Both facts are what lets a number stand inside a
longer text: whatever surrounds it cannot be mistaken for a part of it, and it comes out of the
text as it went in.

Reading is no more liberal than writing, but for a capital letter as the mark of an exponent
(`mem_text_of_ofText?`).
-/

namespace JobTrace

namespace Numeral

/-- The characters that numerals are made of, the digits apart. -/
def marks : List Char := ['-', '+', '.', 'e']

theorem mem_fractionText {c : Char} {ds : List Digit} (h : c ∈ fractionText ds) :
    c ∈ marks ∨ ∃ d : Digit, c = d.char := by
  cases ds with
  | nil => exact absurd h (List.not_mem_nil)
  | cons d ds =>
    simp only [fractionText, List.mem_cons, List.mem_map] at h
    rcases h with rfl | ⟨d', _, rfl⟩
    · exact Or.inl (by decide)
    · exact Or.inr ⟨d', rfl⟩

theorem mem_signText {c : Char} {sign : ExponentSign} (h : c ∈ sign.text) : c ∈ marks := by
  cases sign with
  | unsigned => exact absurd h (List.not_mem_nil)
  | plus =>
    rw [List.mem_singleton.1 h]
    decide
  | minus =>
    rw [List.mem_singleton.1 h]
    decide

theorem mem_exponentText {c : Char} {e : Option Exponent} (h : c ∈ exponentText e) :
    c ∈ marks ∨ ∃ d : Digit, c = d.char := by
  cases e with
  | none => exact absurd h (List.not_mem_nil)
  | some e =>
    simp only [exponentText, List.mem_append, List.mem_cons, List.mem_map] at h
    rcases h with (rfl | h) | ⟨d, _, rfl⟩
    · exact Or.inl (by decide)
    · exact Or.inl (mem_signText h)
    · exact Or.inr ⟨d, rfl⟩

theorem mem_text {c : Char} {n : Numeral} (h : c ∈ n.text) :
    c ∈ marks ∨ ∃ d : Digit, c = d.char := by
  simp only [text, List.mem_append] at h
  rcases h with ((h | h) | h) | h
  · left
    split at h
    · rw [List.mem_singleton.1 h]
      decide
    · exact absurd h (List.not_mem_nil)
  · right
    obtain ⟨d, _, rfl⟩ := List.mem_map.1 h
    exact ⟨d, rfl⟩
  · exact mem_fractionText h
  · exact mem_exponentText h

/-- Whatever holds of the marks and of the digits holds of every character of a numeral. -/
theorem forall_mem_text {p : Char → Bool} (hmarks : marks.all p = true)
    (hdigits : ∀ d : Digit, p d.char = true) (n : Numeral) : ∀ c ∈ n.text, p c = true := by
  intro c hc
  rcases mem_text hc with h | ⟨d, rfl⟩
  · exact List.all_eq_true.1 hmarks c h
  · exact hdigits d

theorem text_injective {m n : Numeral} (hm : m.WellFormed) (hn : n.WellFormed)
    (h : m.text = n.text) : m = n := by
  have hread : ofText? m.text = ofText? n.text := congrArg ofText? h
  rw [ofText?_text hm, ofText?_text hn] at hread
  exact Option.some.inj hread

/-! ### Numerals that were read -/

theorem eq_of_takeSign {cs rest : List Char} {negative : Bool}
    (h : takeSign cs = (negative, rest)) : cs = (if negative then ['-'] else []) ++ rest := by
  unfold takeSign at h
  split at h
  all_goals
    obtain ⟨rfl, rfl⟩ := Prod.mk.inj h
    rfl

theorem eq_of_spanDigits {cs rest : List Char} {ds : List Digit}
    (h : spanDigits cs = (ds, rest)) : cs = ds.map Digit.char ++ rest := by
  induction cs generalizing ds with
  | nil =>
    obtain ⟨rfl, rfl⟩ := Prod.mk.inj h
    rfl
  | cons c cs ih =>
    unfold spanDigits at h
    split at h
    · next d hd =>
      obtain ⟨rfl, rfl⟩ := Prod.mk.inj h
      rw [List.map_cons, List.cons_append, ← ih rfl, Digit.char_of_ofChar? hd]
    · obtain ⟨rfl, rfl⟩ := Prod.mk.inj h
      rfl

theorem fractionText_of_ne_nil {ds : List Digit} (h : ds ≠ []) :
    fractionText ds = '.' :: ds.map Digit.char := by
  cases ds with
  | nil => exact absurd rfl h
  | cons d ds => rfl

theorem eq_of_takeFraction? {cs rest : List Char} {ds : List Digit}
    (h : takeFraction? cs = some (ds, rest)) : cs = fractionText ds ++ rest := by
  unfold takeFraction? at h
  split at h
  · next cs =>
    split at h
    · exact absurd h (by simp)
    · next hne hspan =>
      obtain ⟨rfl, rfl⟩ := Prod.mk.inj (Option.some.inj h)
      rw [fractionText_of_ne_nil hne, List.cons_append, ← eq_of_spanDigits hspan]
  · obtain ⟨rfl, rfl⟩ := Prod.mk.inj (Option.some.inj h)
    rfl

theorem eq_of_takeExponentSign {cs rest : List Char} {sign : ExponentSign}
    (h : takeExponentSign cs = (sign, rest)) : cs = sign.text ++ rest := by
  unfold takeExponentSign at h
  split at h
  all_goals
    obtain ⟨rfl, rfl⟩ := Prod.mk.inj h
    rfl

theorem mem_exponentText_of_exponent? {cs : List Char} {e : Option Exponent}
    (h : exponent? cs = some e) {c : Char} (hc : c ∈ cs) : c = 'E' ∨ c ∈ exponentText e := by
  cases cs with
  | nil => exact absurd hc List.not_mem_nil
  | cons mark cs =>
    cases hsign : takeExponentSign cs with
    | mk sign afterSign =>
    rw [exponent?] at h
    simp only [hsign] at h
    split at h
    · next hmark =>
      split at h
      · exact absurd h (by simp)
      · next ds _ hspan =>
        obtain rfl := Option.some.inj h
        rw [eq_of_takeExponentSign hsign, eq_of_spanDigits hspan, List.append_nil] at hc
        rw [exponentText]
        rcases List.mem_cons.1 hc with rfl | hc
        · rcases hmark with rfl | rfl
          · exact Or.inr (List.mem_cons_self ..)
          · exact Or.inl rfl
        · exact Or.inr (List.mem_cons_of_mem _ hc)
      · exact absurd h (by simp)
    · exact absurd h (by simp)

/-- A numeral is written with the characters that it was read from, only that the mark of its
    exponent becomes a small letter. -/
theorem mem_text_of_ofText? {cs : List Char} {n : Numeral} (h : ofText? cs = some n) {c : Char}
    (hc : c ∈ cs) : c = 'E' ∨ c ∈ n.text := by
  cases hsign : takeSign cs with
  | mk negative afterSign =>
  cases hspan : spanDigits afterSign with
  | mk whole afterWhole =>
  rw [ofText?, hsign] at h
  simp only [hspan] at h
  split at h
  · obtain ⟨⟨fraction, rest⟩, hfraction, h⟩ := Option.bind_eq_some_iff.1 h
    obtain ⟨e, hexponent, h⟩ := Option.bind_eq_some_iff.1 h
    obtain rfl := Option.some.inj h
    rw [eq_of_takeSign hsign, eq_of_spanDigits hspan, eq_of_takeFraction? hfraction] at hc
    simp only [text, List.mem_append] at hc ⊢
    rcases hc with hc | hc | hc | hc
    · exact Or.inr (Or.inl (Or.inl (Or.inl hc)))
    · exact Or.inr (Or.inl (Or.inl (Or.inr hc)))
    · exact Or.inr (Or.inl (Or.inr hc))
    · rcases mem_exponentText_of_exponent? hexponent hc with hcapital | hc
      · exact Or.inl hcapital
      · exact Or.inr (Or.inr hc)
  · exact absurd h (by simp)

end Numeral

/-! ### Decimals of 64-bit integers -/

namespace Int64

theorem toList_decimal (n : Int64) : (decimal n).toList = (Numeral.ofInt n.toInt).text := by
  simp [decimal]

theorem decimal_injective {m n : Int64} (h : decimal m = decimal n) : m = n := by
  have htext : (Numeral.ofInt m.toInt).text = (Numeral.ofInt n.toInt).text := by
    rw [← toList_decimal, ← toList_decimal, h]
  have hnum : JsonNumber.numeral (.int m) = JsonNumber.numeral (.int n) :=
    Numeral.text_injective (Numeral.wellFormed_ofInt _) (Numeral.wellFormed_ofInt _) htext
  have hread : JsonNumber.ofNumeral? (JsonNumber.numeral (.int m)) =
      JsonNumber.ofNumeral? (JsonNumber.numeral (.int n)) := congrArg _ hnum
  rw [JsonNumber.ofNumeral?_numeral_int, JsonNumber.ofNumeral?_numeral_int] at hread
  exact JsonNumber.int.inj (Option.some.inj hread)

end Int64

end JobTrace
