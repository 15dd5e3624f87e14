import WrapperGen.Json.Value
import WrapperGen.Text.Hex

namespace WrapperGen.Json

/-- A character as it stands between quotes. -/
def escaped (c : Char) : List Char :=
  match c with
  | '"' => ['\\', '"']
  | '\\' => ['\\', '\\']
  | '\x08' => ['\\', 'b']
  | '\t' => ['\\', 't']
  | '\n' => ['\\', 'n']
  | '\x0c' => ['\\', 'f']
  | '\r' => ['\\', 'r']
  | c =>
    if c.toNat < 0x20 then
      ['\\', 'u', '0', '0', hexDigit (c.toNat / 16), hexDigit (c.toNat % 16)]
    else [c]

def quoted (s : String) : List Char :=
  '"' :: (s.toList.flatMap escaped ++ ['"'])

def Number.chars (n : Number) : List Char :=
  (if n.negative then ['-'] else []) ++ Nat.toDigits 10 n.whole ++
    (if n.fraction.isEmpty then [] else '.' :: n.fraction) ++
    match n.exponent with
    | none => []
    | some e => 'e' :: (toString e).toList

namespace Value

mutual

/-- The text of a value without any space. -/
def chars : Value → List Char
  | .null => "null".toList
  | .bool b => (if b then "true" else "false").toList
  | .number n => n.chars
  | .text s => quoted s
  | .list items => '[' :: (itemChars items ++ [']'])
  | .record fields => '\x7b' :: (fieldChars fields ++ ['\x7d'])

def itemChars : List Value → List Char
  | [] => []
  | [v] => v.chars
  | v :: rest => v.chars ++ ',' :: itemChars rest

def fieldChars : List (String × Value) → List Char
  | [] => []
  | [(name, v)] => quoted name ++ ':' :: v.chars
  | (name, v) :: rest => quoted name ++ ':' :: (v.chars ++ ',' :: fieldChars rest)

end

/-- A line feed and four spaces for each level. -/
def newLine (level : Nat) : List Char :=
  '\n' :: List.replicate (4 * level) ' '

mutual

/-- The text of a value with every item and field on a line of its own, four spaces in from the
line its list or record starts on; an empty list or record has no inner line. -/
def indentedChars (level : Nat) : Value → List Char
  | .list [] => ['[', ']']
  | .list items => '[' :: (indentedItems level items ++ newLine level ++ [']'])
  | .record [] => ['\x7b', '\x7d']
  | .record fields => '\x7b' :: (indentedFields level fields ++ newLine level ++ ['\x7d'])
  | .null => "null".toList
  | .bool b => (if b then "true" else "false").toList
  | .number n => n.chars
  | .text s => quoted s

def indentedItems (level : Nat) : List Value → List Char
  | [] => []
  | [v] => newLine (level + 1) ++ v.indentedChars (level + 1)
  | v :: rest =>
    newLine (level + 1) ++ v.indentedChars (level + 1) ++ ',' :: indentedItems level rest

def indentedFields (level : Nat) : List (String × Value) → List Char
  | [] => []
  | [(name, v)] => newLine (level + 1) ++ quoted name ++ ':' :: ' ' :: v.indentedChars (level + 1)
  | (name, v) :: rest =>
    newLine (level + 1) ++ quoted name ++ ':' :: ' ' :: v.indentedChars (level + 1) ++
      ',' :: indentedFields level rest

end

def compact (v : Value) : String := String.ofList v.chars

def indented (v : Value) : String := String.ofList (v.indentedChars 0)

end Value

end WrapperGen.Json
