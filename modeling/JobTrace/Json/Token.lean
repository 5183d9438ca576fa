import JobTrace.Json.StringLiteral

/-!
Tokens of JSON text.

Scanning is one fold over the characters: a small machine that is either outside of string
literals, collecting a word, or inside one, collecting units.  A word is a longest run of
characters that are neither blank nor punctuation nor a quote; whether it is a numeral or one of
the three constants is decided where it is used, so the machine needs to know nothing of them.
-/

namespace JobTrace

/-- The punctuation marks. -/
inductive Punctuation where
  | openList
  | closeList
  | openMap
  | closeMap
  | comma
  | colon
deriving DecidableEq

def Punctuation.char : Punctuation → Char
  | openList => '['
  | closeList => ']'
  | openMap => '{'
  | closeMap => '}'
  | comma => ','
  | colon => ':'

/-- A token. -/
inductive Token where
  | mark (p : Punctuation)
  | quoted (literal : StringLiteral)
  | word (cs : List Char)
deriving DecidableEq

def Token.text : Token → List Char
  | mark p => [p.char]
  | quoted literal => '"' :: literal.flatMap StringUnit.text ++ ['"']
  | word cs => cs

/-- What a character means outside of string literals. -/
inductive CharRole where
  | blank
  | quote
  | mark (p : Punctuation)
  | wordPart
deriving DecidableEq

/-- The role of a character.  Only four characters are blank. -/
def CharRole.of : Char → CharRole
  | ' ' | '\t' | '\n' | '\r' => blank
  | '"' => quote
  | '[' => mark .openList
  | ']' => mark .closeList
  | '{' => mark .openMap
  | '}' => mark .closeMap
  | ',' => mark .comma
  | ':' => mark .colon
  | _ => wordPart

/-! ### The machine -/

/-- Where the machine is.  What is being collected has its last part in front. -/
inductive ScanMode where
  /-- Outside of string literals; the word read so far may be empty. -/
  | outside (word : List Char)
  /-- Inside a string literal. -/
  | inside (units : StringLiteral)
  /-- Behind a backslash. -/
  | escaped (units : StringLiteral)
  /-- Inside the digits of a code. -/
  | coded (units : StringLiteral) (digits : List HexDigit)

/-- The machine: where it is, and the tokens behind it, the last one in front. -/
structure Scan where
  mode : ScanMode
  tokens : List Token

namespace Scan

def start : Scan := ⟨.outside [], []⟩

/-- The tokens after a word has ended; an empty word is no token. -/
def closeWord (word : List Char) (tokens : List Token) : List Token :=
  match word with
  | [] => tokens
  | _ => .word word.reverse :: tokens

def step? (s : Scan) (c : Char) : Option Scan :=
  match s.mode with
  | .outside word =>
    match CharRole.of c with
    | .wordPart => some ⟨.outside (c :: word), s.tokens⟩
    | .blank => some ⟨.outside [], closeWord word s.tokens⟩
    | .quote => some ⟨.inside [], closeWord word s.tokens⟩
    | .mark p => some ⟨.outside [], .mark p :: closeWord word s.tokens⟩
  | .inside units =>
    if c = '"' then some ⟨.outside [], .quoted units.reverse :: s.tokens⟩
    else if c = '\\' then some ⟨.escaped units, s.tokens⟩
    else if c.toNat < 32 then none
    else some ⟨.inside (.plain c :: units), s.tokens⟩
  | .escaped units =>
    if c = 'u' then some ⟨.coded units [], s.tokens⟩
    else (Escape.ofLetter? c).map fun e => ⟨.inside (.escape e :: units), s.tokens⟩
  | .coded units digits =>
    match HexDigit.ofChar? c, digits with
    | none, _ => none
    | some d₀, [d₁, d₂, d₃] => some ⟨.inside (.code d₃ d₂ d₁ d₀ :: units), s.tokens⟩
    | some d, digits => some ⟨.coded units (d :: digits), s.tokens⟩

/-- The tokens read, unless a string literal is still open. -/
def finish? (s : Scan) : Option (List Token) :=
  match s.mode with
  | .outside word => some (closeWord word s.tokens).reverse
  | _ => none

end Scan

/-- The tokens of a text, unless a string literal in it is badly spelt. -/
def Token.scan? (cs : List Char) : Option (List Token) :=
  (cs.foldlM Scan.step? Scan.start).bind Scan.finish?

end JobTrace
