/-!
String literals: texts as they are spelt between quotes.

A literal is a list of units, and each unit spells one character or, for a character beyond the
first 65536, one half of a surrogate pair.  Spelling and meaning are kept apart because a value
that nobody asks for is read without being decoded: its literals need to be well spelt, but they
may spell a lone half that stands for no character.

Main statement: `decode?_quote`, the literal chosen for a text means that text.
-/

namespace JobTrace

/-! ### Units -/

abbrev HexDigit := Fin 16

/-- The lower-case character of a hexadecimal digit. -/
def HexDigit.char (d : HexDigit) : Char :=
  if d.val < 10 then Char.ofNat (48 + d.val) else Char.ofNat (87 + d.val)

/-- The hexadecimal digit of a character in either case. -/
def HexDigit.ofChar? (c : Char) : Option HexDigit :=
  if h : 48 ≤ c.toNat ∧ c.toNat < 58 then some ⟨c.toNat - 48, by omega⟩
  else if h : 97 ≤ c.toNat ∧ c.toNat < 103 then some ⟨c.toNat - 87, by omega⟩
  else if h : 65 ≤ c.toNat ∧ c.toNat < 71 then some ⟨c.toNat - 55, by omega⟩
  else none

theorem HexDigit.ofChar?_char : ∀ d : HexDigit, HexDigit.ofChar? d.char = some d := by decide

/-- The characters with an escape of their own. -/
inductive Escape where
  | quote
  | backslash
  | slash
  | backspace
  | formFeed
  | lineFeed
  | carriageReturn
  | tab
deriving DecidableEq

namespace Escape

def letter : Escape → Char
  | quote => '"'
  | backslash => '\\'
  | slash => '/'
  | backspace => 'b'
  | formFeed => 'f'
  | lineFeed => 'n'
  | carriageReturn => 'r'
  | tab => 't'

def meaning : Escape → Char
  | quote => '"'
  | backslash => '\\'
  | slash => '/'
  | backspace => '\x08'
  | formFeed => '\x0c'
  | lineFeed => '\n'
  | carriageReturn => '\r'
  | tab => '\t'

def ofLetter? : Char → Option Escape
  | '"' => some quote
  | '\\' => some backslash
  | '/' => some slash
  | 'b' => some backspace
  | 'f' => some formFeed
  | 'n' => some lineFeed
  | 'r' => some carriageReturn
  | 't' => some tab
  | _ => none

/-- The escape that must stand for a character, if it has one: a slash may also stand for
    itself. -/
def ofMeaning? : Char → Option Escape
  | '"' => some quote
  | '\\' => some backslash
  | '\x08' => some backspace
  | '\x0c' => some formFeed
  | '\n' => some lineFeed
  | '\r' => some carriageReturn
  | '\t' => some tab
  | _ => none

theorem ofLetter?_letter (e : Escape) : ofLetter? e.letter = some e := by cases e <;> rfl

theorem letter_ne_u (e : Escape) : e.letter ≠ 'u' := by cases e <;> decide

theorem meaning_of_ofMeaning? {c : Char} {e : Escape} (h : ofMeaning? c = some e) :
    e.meaning = c := by
  unfold ofMeaning? at h
  split at h <;> simp at h <;> subst h <;> rfl

end Escape

/-- One unit of a string literal. -/
inductive StringUnit where
  /-- A character that stands for itself. -/
  | plain (c : Char)
  /-- A backslash and a letter. -/
  | escape (e : Escape)
  /-- A backslash, a `u` and four hexadecimal digits: a unit of sixteen bits. -/
  | code (d₃ d₂ d₁ d₀ : HexDigit)
deriving DecidableEq

abbrev StringLiteral := List StringUnit

/-- A character may stand for itself unless it ends the literal, starts an escape or is a
    control character. -/
def StringUnit.MayStandPlain (c : Char) : Prop := 32 ≤ c.toNat ∧ c ≠ '"' ∧ c ≠ '\\'

instance (c : Char) : Decidable (StringUnit.MayStandPlain c) := by
  unfold StringUnit.MayStandPlain
  infer_instance

def StringUnit.text : StringUnit → List Char
  | plain c => [c]
  | escape e => ['\\', e.letter]
  | code d₃ d₂ d₁ d₀ => ['\\', 'u', d₃.char, d₂.char, d₁.char, d₀.char]

/-- What the grammar asks of a unit. -/
def StringUnit.WellFormed : StringUnit → Prop
  | plain c => MayStandPlain c
  | escape _ | code .. => True

def codeUnit (d₃ d₂ d₁ d₀ : HexDigit) : Nat :=
  ((d₃.val * 16 + d₂.val) * 16 + d₁.val) * 16 + d₀.val

/-- First halves of surrogate pairs. -/
def IsLeading (unit : Nat) : Prop := 0xD800 ≤ unit ∧ unit < 0xDC00

/-- Second halves of surrogate pairs. -/
def IsTrailing (unit : Nat) : Prop := 0xDC00 ≤ unit ∧ unit < 0xE000

instance (unit : Nat) : Decidable (IsLeading unit) := by unfold IsLeading; infer_instance

instance (unit : Nat) : Decidable (IsTrailing unit) := by unfold IsTrailing; infer_instance

def pairChar (leading trailing : Nat) : Char :=
  Char.ofNat (0x10000 + (leading - 0xD800) * 0x400 + (trailing - 0xDC00))

namespace StringLiteral

/-! ### Meaning -/

/-- The characters that the rest of a literal stands for, after the leading half of a surrogate
    pair if one is pending.  Half a pair without its other half stands for no character. -/
def decodeAfter? : (pending : Option Nat) → StringLiteral → Option (List Char)
  | none, [] => some []
  | none, .plain c :: us => (decodeAfter? none us).map (c :: ·)
  | none, .escape e :: us => (decodeAfter? none us).map (e.meaning :: ·)
  | none, .code d₃ d₂ d₁ d₀ :: us =>
    let unit := codeUnit d₃ d₂ d₁ d₀
    if IsLeading unit then decodeAfter? (some unit) us
    else if IsTrailing unit then none
    else (decodeAfter? none us).map (Char.ofNat unit :: ·)
  | some leading, .code d₃ d₂ d₁ d₀ :: us =>
    let unit := codeUnit d₃ d₂ d₁ d₀
    if IsTrailing unit then (decodeAfter? none us).map (pairChar leading unit :: ·) else none
  | some _, _ => none

def decode? (literal : StringLiteral) : Option (List Char) := decodeAfter? none literal

def value? (literal : StringLiteral) : Option String :=
  (decode? literal).map String.ofList

/-! ### Choosing a literal -/

/-- The unit for a character: its own escape if it must be escaped and has one, its code if it
    is another control character, else the character itself. -/
def quoteChar (c : Char) : StringUnit :=
  match Escape.ofMeaning? c with
  | some e => .escape e
  | none =>
    if h : c.toNat < 32 then .code 0 0 ⟨c.toNat / 16, by omega⟩ ⟨c.toNat % 16, by omega⟩
    else .plain c

def quote (s : String) : StringLiteral := s.toList.map quoteChar

theorem wellFormed_quoteChar (c : Char) : (quoteChar c).WellFormed := by
  unfold quoteChar
  split
  · trivial
  · next hnone =>
    split
    · trivial
    · refine ⟨by omega, ?_, ?_⟩ <;>
        (intro h; subst h; simp [Escape.ofMeaning?] at hnone)

theorem decode?_quoteChar_cons (c : Char) (us : StringLiteral) :
    decode? (quoteChar c :: us) = (decode? us).map (c :: ·) := by
  unfold quoteChar
  split
  · next e he => simp [decode?, decodeAfter?, Escape.meaning_of_ofMeaning? he]
  · split
    · next h =>
      have hunit : codeUnit 0 0 ⟨c.toNat / 16, by omega⟩ ⟨c.toNat % 16, by omega⟩ = c.toNat := by
        simp only [codeUnit, Fin.val_zero]
        omega
      have hlead : ¬ IsLeading c.toNat := fun hl => by have := hl.1; omega
      have htrail : ¬ IsTrailing c.toNat := fun hl => by have := hl.1; omega
      simp only [decode?, decodeAfter?, hunit, hlead, htrail, if_false, Char.ofNat_toNat]
    · simp [decode?, decodeAfter?]

/-- The literal chosen for a text means that text. -/
theorem value?_quote (s : String) : value? (quote s) = some s := by
  have h : ∀ cs : List Char, decode? (cs.map quoteChar) = some cs := by
    intro cs
    induction cs with
    | nil => rfl
    | cons c cs ih => rw [List.map_cons, decode?_quoteChar_cons, ih]; rfl
  simp [value?, quote, h]

end StringLiteral

end JobTrace
