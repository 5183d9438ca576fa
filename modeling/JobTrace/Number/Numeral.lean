import JobTrace.Number.Nearest
import JobTrace.Number.Shortest

/-!
Numerals: numbers as they are spelt.

A numeral keeps the spelling of a number apart from its value: a sign, whole digits, the digits
after the point, and an exponent.  Reading takes the strict grammar in which records are written:
at least one whole digit and no leading zero, at least one digit after a point and after an
exponent mark.  Main statement: `ofText?_text`, a well-formed numeral is read back from its own
spelling.

Doubles are spelt in one of two layouts.  The decisions that tell them apart are one `Layout`
record each.
-/

namespace JobTrace

/-- The sign in front of an exponent. -/
inductive ExponentSign where
  | unsigned
  | plus
  | minus
deriving DecidableEq

/-- The exponent part of a numeral. -/
structure Exponent where
  sign : ExponentSign
  digits : List Digit
deriving DecidableEq

/-- A number as it is spelt. -/
structure Numeral where
  negative : Bool
  /-- The digits in front of the point. -/
  whole : List Digit
  /-- The digits after the point; without any, the point is missing too. -/
  fraction : List Digit
  exponent : Option Exponent
deriving DecidableEq

def ExponentSign.text : ExponentSign → List Char
  | unsigned => []
  | plus => ['+']
  | minus => ['-']

def Exponent.value (e : Exponent) : Int :=
  match e.sign with
  | .minus => -(Digits.toNat e.digits : Int)
  | _ => Digits.toNat e.digits

namespace Numeral

/-! ### Writing -/

def fractionText : List Digit → List Char
  | [] => []
  | ds => '.' :: ds.map Digit.char

def exponentText : Option Exponent → List Char
  | none => []
  | some e => 'e' :: e.sign.text ++ e.digits.map Digit.char

def text (n : Numeral) : List Char :=
  (if n.negative then ['-'] else []) ++ n.whole.map Digit.char ++
    fractionText n.fraction ++ exponentText n.exponent

def ofInt (i : Int) : Numeral :=
  ⟨decide (i < 0), Digits.ofNat i.natAbs, [], none⟩

/-! ### Reading -/

/-- The digits at the front of a text, and what follows them. -/
def spanDigits : List Char → List Digit × List Char
  | [] => ([], [])
  | c :: cs =>
    match Digit.ofChar? c with
    | some d => let (ds, rest) := spanDigits cs; (d :: ds, rest)
    | none => ([], c :: cs)

/-- Whole digits start with a zero only when they are that zero alone. -/
def wholeOk : List Digit → Bool
  | [] => false
  | [_] => true
  | d :: _ => d ≠ 0

def takeSign : List Char → Bool × List Char
  | '-' :: cs => (true, cs)
  | cs => (false, cs)

def takeFraction? : List Char → Option (List Digit × List Char)
  | '.' :: cs =>
    match spanDigits cs with
    | ([], _) => none
    | (ds, rest) => some (ds, rest)
  | cs => some ([], cs)

def takeExponentSign : List Char → ExponentSign × List Char
  | '+' :: cs => (.plus, cs)
  | '-' :: cs => (.minus, cs)
  | cs => (.unsigned, cs)

def exponent? : List Char → Option (Option Exponent)
  | [] => some none
  | c :: cs =>
    if c = 'e' ∨ c = 'E' then
      let (sign, cs) := takeExponentSign cs
      match spanDigits cs with
      | ([], _) => none
      | (ds, []) => some (some ⟨sign, ds⟩)
      | (_, _ :: _) => none
    else none

def ofText? (cs : List Char) : Option Numeral :=
  let (negative, cs) := takeSign cs
  let (whole, cs) := spanDigits cs
  if wholeOk whole then do
    let (fraction, cs) ← takeFraction? cs
    let exponent ← exponent? cs
    return ⟨negative, whole, fraction, exponent⟩
  else none

/-! ### Values -/

def coefficient (n : Numeral) : Nat := Digits.toNat (n.whole ++ n.fraction)

def place (n : Numeral) : Int :=
  (match n.exponent with | none => 0 | some e => e.value) - n.fraction.length

/-- Whether the numeral has neither a point nor an exponent. -/
def isWhole (n : Numeral) : Bool := n.fraction = [] ∧ n.exponent = none

def toBinary64? (n : Numeral) : Option Binary64 :=
  Binary64.ofDecimal? n.negative n.coefficient n.place

/-! ### A well-formed numeral is read back -/

/-- What the grammar asks of a numeral. -/
def WellFormed (n : Numeral) : Prop :=
  wholeOk n.whole ∧ ∀ e ∈ n.exponent, e.digits ≠ []

def NoDigitFirst : List Char → Prop
  | [] => True
  | c :: _ => Digit.ofChar? c = none

theorem spanDigits_map_char_append (ds : List Digit) {rest : List Char}
    (h : NoDigitFirst rest) : spanDigits (ds.map Digit.char ++ rest) = (ds, rest) := by
  induction ds with
  | nil =>
    cases rest with
    | nil => rfl
    | cons c cs =>
      have hc : Digit.ofChar? c = none := h
      simp [spanDigits, hc]
  | cons d ds ih => simp [spanDigits, Digit.ofChar?_char, ih]

theorem char_ne_minus : ∀ d : Digit, d.char ≠ '-' := by decide

theorem char_ne_plus : ∀ d : Digit, d.char ≠ '+' := by decide

theorem takeSign_text (negative : Bool) {ds : List Digit} (hds : ds ≠ []) (rest : List Char) :
    takeSign ((if negative then ['-'] else []) ++ ds.map Digit.char ++ rest) =
      (negative, ds.map Digit.char ++ rest) := by
  cases negative with
  | true => rfl
  | false =>
    cases ds with
    | nil => exact absurd rfl hds
    | cons d ds =>
      have := char_ne_minus d
      unfold takeSign
      simp [this]

theorem exponent?_exponentText (e : Option Exponent) (h : ∀ x ∈ e, x.digits ≠ []) :
    exponent? (exponentText e) = some e := by
  cases e with
  | none => rfl
  | some x =>
    obtain ⟨sign, ds⟩ := x
    have hds : ds ≠ [] := h _ rfl
    cases ds with
    | nil => exact absurd rfl hds
    | cons d ds =>
      have hsign : takeExponentSign (sign.text ++ (d :: ds).map Digit.char) =
          (sign, (d :: ds).map Digit.char) := by
        cases sign with
        | plus => rfl
        | minus => rfl
        | unsigned =>
          have h1 := char_ne_minus d
          have h2 := char_ne_plus d
          unfold takeExponentSign
          simp [ExponentSign.text, h1, h2]
      have hspan : spanDigits ((d :: ds).map Digit.char ++ []) = (d :: ds, []) :=
        spanDigits_map_char_append (d :: ds) trivial
      rw [List.append_nil] at hspan
      simp only [exponentText, List.cons_append, exponent?, true_or, if_true, hsign, hspan]

theorem takeFraction?_fractionText (ds : List Digit) {rest : List Char}
    (h : NoDigitFirst rest) (hpoint : ∀ cs, rest ≠ '.' :: cs) :
    takeFraction? (fractionText ds ++ rest) = some (ds, rest) := by
  cases ds with
  | nil =>
    unfold takeFraction?
    split
    · next cs hcs => exact absurd hcs (hpoint cs)
    · simp [fractionText]
  | cons d ds =>
    have hspan := spanDigits_map_char_append (d :: ds) h
    simp only [fractionText, List.cons_append, takeFraction?, hspan]

/-- A well-formed numeral is read back from its spelling. -/
theorem ofText?_text {n : Numeral} (h : n.WellFormed) : ofText? n.text = some n := by
  obtain ⟨negative, whole, fraction, exponent⟩ := n
  obtain ⟨hwhole, hexp⟩ := h
  have hne : whole ≠ [] := by
    intro h0
    simp [h0, wholeOk] at hwhole
  have htailDigit : NoDigitFirst (exponentText exponent) := by
    cases exponent with
    | none => trivial
    | some e => exact (by decide : Digit.ofChar? 'e' = none)
  have htailPoint : ∀ cs, exponentText exponent ≠ '.' :: cs := by
    cases exponent <;> simp [exponentText]
  have hF := takeFraction?_fractionText fraction htailDigit htailPoint
  have hmid : NoDigitFirst (fractionText fraction ++ exponentText exponent) := by
    cases fraction with
    | nil => simpa [fractionText] using htailDigit
    | cons d ds => exact (by decide : Digit.ofChar? '.' = none)
  have hS := takeSign_text negative hne (fractionText fraction ++ exponentText exponent)
  have hW := spanDigits_map_char_append whole hmid
  rw [List.append_assoc] at hS
  have hwhole' : wholeOk whole = true := hwhole
  simp [ofText?, text, hS, hW, hwhole', hF, exponent?_exponentText exponent hexp]

theorem wellFormed_ofInt (i : Int) : (ofInt i).WellFormed := by
  refine ⟨?_, by simp [ofInt]⟩
  obtain ⟨d, ds, hds, hd⟩ := Digits.ofNat_eq_cons i.natAbs
  simp only [ofInt, hds]
  cases ds with
  | nil => rfl
  | cons d' ds =>
    have h0 : i.natAbs ≠ 0 := by
      intro h0
      rw [h0] at hds
      unfold Digits.ofNat at hds
      simp at hds
    simpa [wholeOk] using hd h0

/-! ### Doubles -/

end Numeral

/-- The decisions in which the two spellings of a double differ. -/
structure Layout where
  /-- Which of two equally near decimals is written. -/
  tie : Tie
  /-- Whether a number is written without an exponent, given the place of its first digit: 1 for
      the digit in front of the point, 0 for the one behind it. -/
  positional : Int → Bool
  /-- Whether a positional number without a fraction ends in `.0`. -/
  pointZero : Bool
  /-- Whether the negative zero keeps its sign. -/
  signedZero : Bool

/-- Doubles in JSON text: positional from 0.00001 up to below 10^16, always with a fraction. -/
def Layout.json : Layout :=
  ⟨.toEven, fun point => -4 ≤ point ∧ point ≤ 16, true, true⟩

/-- Doubles in plain text: always positional, with a fraction only where there is one. -/
def Layout.plain : Layout :=
  ⟨.up, fun _ => true, false, false⟩

namespace Layout

/-- Digits with the point behind the first `point` of them, or with zeros up to it. -/
def positionalNumeral (layout : Layout) (negative : Bool) (ds : List Digit) (point : Int) :
    Numeral :=
  if point ≤ 0 then
    ⟨negative, [0], List.replicate (-point).toNat 0 ++ ds, none⟩
  else if ds.length ≤ point then
    ⟨negative, ds ++ List.replicate (point - ds.length).toNat 0,
      if layout.pointZero then [0] else [], none⟩
  else
    ⟨negative, ds.take point.toNat, ds.drop point.toNat, none⟩

/-- Digits with the point behind the first one and a signed exponent. -/
def scientificNumeral (negative : Bool) (ds : List Digit) (point : Int) : Numeral :=
  let power := point - 1
  ⟨negative, ds.take 1, ds.drop 1,
    some ⟨if power < 0 then .minus else .plus, Digits.ofNat power.natAbs⟩⟩

def numeral (layout : Layout) (x : Binary64) : Numeral :=
  if x.isZero then
    ⟨x.negative && layout.signedZero, [0], if layout.pointZero then [0] else [], none⟩
  else
    let decimal := x.shortest layout.tie
    let ds := Digits.ofNat decimal.coefficient
    let point := ds.length + decimal.exponent
    if layout.positional point then layout.positionalNumeral x.negative ds point
    else scientificNumeral x.negative ds point

end Layout

end JobTrace
