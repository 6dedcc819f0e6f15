import LiveQuery.Decimal.Layout
import LiveQuery.Json.Tree

/-!
# Writing JSON

The compact text of a tree: no blanks, members in the order of the tree, and
in strings only those characters escaped that have to be.
-/

namespace LiveQuery.Json

/-- Binary64 numbers have a point among their digits from 0.00001 on and below 10000000000000000. -/
def floatLayout : Decimal.Layout := ⟨-5, 15⟩

/-- The text of a number. -/
def Number.text : Number → String
  | .integer value _ => toString value
  | .float value => floatLayout.writeBinary64 value

/-- A character inside a string. -/
def escape (c : Char) : List Char :=
  match c with
  | '"' => ['\\', '"']
  | '\\' => ['\\', '\\']
  | '\n' => ['\\', 'n']
  | '\r' => ['\\', 'r']
  | '\t' => ['\\', 't']
  | '\x08' => ['\\', 'b']
  | '\x0c' => ['\\', 'f']
  | c =>
    if c.toNat < 32 then
      ['\\', 'u', '0', '0', Nat.digitChar (c.toNat / 16), Nat.digitChar (c.toNat % 16)]
    else [c]

def quote (s : String) : String := String.ofList ('"' :: (s.toList.flatMap escape ++ ['"']))

namespace Tree

mutual

/-- The text of a tree. A part without a value is written as null. -/
def text : Tree → String
  | .null => "null"
  | .bool b => if b then "true" else "false"
  | .number n => n.text
  | .string s => quote s
  | .bytes .. => "null"
  | .array items => "[" ++ ",".intercalate (itemTexts items) ++ "]"
  | .object members => "\x7b" ++ ",".intercalate (memberTexts members) ++ "\x7d"
  | .unusable => "null"

def itemTexts : List Tree → List String
  | [] => []
  | item :: rest => item.text :: itemTexts rest

def memberTexts : List (String × Tree) → List String
  | [] => []
  | (name, value) :: rest => (quote name ++ ":" ++ value.text) :: memberTexts rest

end

end Tree

/-- The text of a value. -/
def Value.text (v : Value) : String := v.toTree.text

def Datum.text (d : Datum) : String := d.value.text

/-- The text of named data, written as an object. -/
def Fields.text (fields : Fields) : String := (Datum.object fields).text

end LiveQuery.Json
