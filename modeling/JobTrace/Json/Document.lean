import JobTrace.Json.Token
import JobTrace.Json.Tree
import JobTrace.Number.Numeral

/-!
JSON documents as they are spelt.

A document is a tree whose strings are literals and whose numbers are numerals: all of a text
except its blanks.  Reading a document asks for nothing but the grammar; repeated keys, halves of
surrogate pairs, huge numbers and any depth are let through, because a reader may be allowed to
skip a value that it could not have used.

The reader is a machine with a stack of the lists and maps that are still open, driven by one
fold over the tokens, so it needs no bound on depth or length.
-/

namespace JobTrace

abbrev Document := Tree StringLiteral Numeral

namespace Document

/-! ### Writing -/

def nullWord : List Char := ['n', 'u', 'l', 'l']

def boolWord : Bool → List Char
  | true => ['t', 'r', 'u', 'e']
  | false => ['f', 'a', 'l', 's', 'e']

mutual

def tokens : Document → List Token
  | .null => [.word nullWord]
  | .bool b => [.word (boolWord b)]
  | .number n => [.word n.text]
  | .string s => [.quoted s]
  | .list [] => [.mark .openList, .mark .closeList]
  | .list (t :: ts) => .mark .openList :: tokens t ++ moreItems ts ++ [.mark .closeList]
  | .map [] => [.mark .openMap, .mark .closeMap]
  | .map ((k, t) :: ms) =>
    .mark .openMap :: .quoted k :: .mark .colon :: tokens t ++ moreMembers ms ++
      [.mark .closeMap]

def moreItems : List Document → List Token
  | [] => []
  | t :: ts => .mark .comma :: tokens t ++ moreItems ts

/-- The tokens of the members behind the first one. -/
def moreMembers : List (StringLiteral × Document) → List Token
  | [] => []
  | (k, t) :: ms =>
    .mark .comma :: .quoted k :: .mark .colon :: tokens t ++ moreMembers ms

end

/-- The compact text of a document, without any blank between tokens. -/
def text (d : Document) : String := String.ofList (d.tokens.flatMap Token.text)

/-! ### Reading -/

/-- A list or a map that is still open, with what it holds so far, the last part in front. -/
inductive Frame where
  | list (items : List Document)
  | map (members : List (StringLiteral × Document)) (key : StringLiteral)

/-- What the reader has read and what is due next. -/
inductive Reader where
  /-- A value is due. -/
  | value (stack : List Frame)
  /-- A list was opened: a value or the end is due. -/
  | firstItem (stack : List Frame)
  /-- A map was opened: a key or the end is due. -/
  | firstKey (stack : List Frame)
  /-- A key is due. -/
  | key (members : List (StringLiteral × Document)) (stack : List Frame)
  /-- A colon is due. -/
  | colon (members : List (StringLiteral × Document)) (key : StringLiteral)
      (stack : List Frame)
  /-- A list has an item: a comma or the end is due. -/
  | afterItem (items : List Document) (stack : List Frame)
  /-- A map has a member: a comma or the end is due. -/
  | afterMember (members : List (StringLiteral × Document)) (stack : List Frame)
  /-- Nothing more is due. -/
  | done (d : Document)

/-- A value is complete: it goes into what encloses it. -/
def deliver (d : Document) : List Frame → Reader
  | [] => .done d
  | .list items :: stack => .afterItem (d :: items) stack
  | .map members key :: stack => .afterMember ((key, d) :: members) stack

def ofWord? (cs : List Char) : Option Document :=
  if cs = nullWord then some .null
  else if cs = boolWord true then some (.bool true)
  else if cs = boolWord false then some (.bool false)
  else (Numeral.ofText? cs).map .number

def startValue? (stack : List Frame) : Token → Option Reader
  | .word cs => (ofWord? cs).map fun d => deliver d stack
  | .quoted s => some (deliver (.string s) stack)
  | .mark .openList => some (.firstItem stack)
  | .mark .openMap => some (.firstKey stack)
  | .mark _ => none

def Reader.step? : Reader → Token → Option Reader
  | .value stack, t => startValue? stack t
  | .firstItem stack, .mark .closeList => some (deliver (.list []) stack)
  | .firstItem stack, t => startValue? (.list [] :: stack) t
  | .firstKey stack, .mark .closeMap => some (deliver (.map []) stack)
  | .firstKey stack, .quoted k => some (.colon [] k stack)
  | .key members stack, .quoted k => some (.colon members k stack)
  | .colon members k stack, .mark .colon => some (.value (.map members k :: stack))
  | .afterItem items stack, .mark .comma => some (.value (.list items :: stack))
  | .afterItem items stack, .mark .closeList => some (deliver (.list items.reverse) stack)
  | .afterMember members stack, .mark .comma => some (.key members stack)
  | .afterMember members stack, .mark .closeMap =>
    some (deliver (.map members.reverse) stack)
  | _, _ => none

def Reader.finish? : Reader → Option Document
  | .done d => some d
  | _ => none

def ofTokens? (ts : List Token) : Option Document :=
  (ts.foldlM Reader.step? (.value [])).bind Reader.finish?

def ofText? (s : String) : Option Document :=
  (Token.scan? s.toList).bind ofTokens?

end Document

end JobTrace
