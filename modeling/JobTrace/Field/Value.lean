import JobTrace.Json.Value

/-!
Field values: what a record holds under a name.

A field value is a JSON value whose numbers are either 64-bit integers or doubles.  An integer
beyond the signed range becomes the double nearest to it.  Fields are looked at in three ways: as
an integer, as a text, and as the text that routing shows for any value.
-/

namespace JobTrace

/-- A number of a record: a 64-bit integer or a double, kept apart so that an identifier does
    not turn into a fraction. -/
inductive Number where
  | int (n : Int64)
  | float (x : Binary64)
deriving DecidableEq

def Int64.decimal (n : Int64) : String := String.ofList (Numeral.ofInt n.toInt).text

namespace Number

def numeral : Number → Numeral
  | int n => Numeral.ofInt n.toInt
  | float x => Layout.json.numeral x

instance : Spelt Number := ⟨numeral⟩

def ofJson : JsonNumber → Number
  | .int n => int n
  | .unsigned n => float (Binary64.ofUInt64 n)
  | .float x => float x

/-- The number as an integer: a double without its fraction, and beyond the range the nearest
    end of it. -/
def toInt64 : Number → Int64
  | int n => n
  | float x => x.toInt64

def display : Number → String
  | int n => Int64.decimal n
  | float x => String.ofList (Layout.plain.numeral x).text

end Number

abbrev FieldValue := Value Number

namespace FieldValue

def ofJson (v : Json) : FieldValue := v.mapNumbers Number.ofJson

def ofInt64 (n : Int64) : FieldValue := Value.ofNumber (.int n)

def ofText? (s : String) : Option FieldValue := (Json.ofText? s).map ofJson

/-- The integer that a number stands for; other values stand for none. -/
def toInt64? (v : FieldValue) : Option Int64 :=
  match v.tree with
  | .number n => some n.toInt64
  | _ => none

/-- The text that a string holds; other values hold none. -/
def toString? (v : FieldValue) : Option String :=
  match v.tree with
  | .string s => some s
  | _ => none

/-- The value as routing shows it: nothing for null, a string without quotes, a number as plain
    text, and a list or map as JSON. -/
def display (v : FieldValue) : String :=
  match v.tree with
  | .null => ""
  | .bool true => "true"
  | .bool false => "false"
  | .number n => n.display
  | .string s => s
  | .list _ | .map _ => v.text

end FieldValue

end JobTrace
