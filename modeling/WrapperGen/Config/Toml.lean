import WrapperGen.Config
import WrapperGen.Text.Hex

/-!
Reading a configuration from TOML. It has only keys with a text or a list of texts, so of TOML
only the lines of that form are read; tables, dotted keys and other values do not belong to it.
-/

namespace WrapperGen.Toml

/-- What a key is set to. -/
inductive Setting where
  | text (s : String)
  | list (items : List String)
  deriving DecidableEq

def isSpace (c : Char) : Bool := c == ' ' || c == '\t'

def skipSpace (text : List Char) : List Char := text.dropWhile isSpace

/-- A tab, or a character that is no control character. -/
def isPlain (c : Char) : Bool := c == '\t' || (0x20 ≤ c.toNat && c.toNat != 0x7F)

def isBareKeyChar (c : Char) : Bool := c.isAlphanum || c == '_' || c == '-'

/-- The text behind a line feed, with or without a carriage return before it. -/
def newline? : List Char → Option (List Char)
  | '\n' :: rest => some rest
  | '\r' :: '\n' :: rest => some rest
  | _ => none

/-- The text behind a comment, if there is one; the line feed is left. -/
def skipComment (text : List Char) : List Char :=
  match text with
  | '#' :: rest => rest.dropWhile isPlain
  | text => text

/-- The character of a number of hexadecimal digits, and the text behind them. -/
def hexEscape? (count : Nat) (text : List Char) : Option (Char × List Char) := do
  let digits ← (text.take count).mapM hexValue?
  if digits.length ≠ count then none
  let n := digits.foldl (fun n d => n * 16 + d) 0
  if n.isValidChar then return (Char.ofNat n, text.drop count) else none

/-- The character of an escape behind its backslash, and the text behind it. -/
def escape? : List Char → Option (Char × List Char)
  | 'b' :: rest => some ('\x08', rest)
  | 't' :: rest => some ('\t', rest)
  | 'n' :: rest => some ('\n', rest)
  | 'f' :: rest => some ('\x0c', rest)
  | 'r' :: rest => some ('\r', rest)
  | 'e' :: rest => some ('\x1b', rest)
  | '"' :: rest => some ('"', rest)
  | '\\' :: rest => some ('\\', rest)
  | 'x' :: rest => hexEscape? 2 rest
  | 'u' :: rest => hexEscape? 4 rest
  | 'U' :: rest => hexEscape? 8 rest
  | _ => none

/-- What stands up to the closing quote of its kind, with escapes if `escapes`; and the text
behind the quote. -/
def lineText? (quote : Char) (escapes : Bool) : Nat → List Char → Option (List Char × List Char)
  | 0, _ => none
  | _ + 1, [] => none
  | fuel + 1, c :: rest =>
    if c = quote then some ([], rest)
    else if escapes ∧ c = '\\' then do
      let (escaped, rest) ← escape? rest
      let (body, rest) ← lineText? quote escapes fuel rest
      return (escaped :: body, rest)
    else if isPlain c then do
      let (body, rest) ← lineText? quote escapes fuel rest
      return (c :: body, rest)
    else none

/-- The text behind any spaces and ends of lines. -/
def skipFolded : Nat → List Char → List Char
  | 0, text => text
  | fuel + 1, text =>
    match newline? (skipSpace text) with
    | some rest => skipFolded fuel rest
    | none => skipSpace text

/-- The text behind a backslash that ends a line: all blanks and line feeds are left out. -/
def foldedLine? (text : List Char) : Option (List Char) :=
  (newline? (skipSpace text)).map fun rest => skipFolded (rest.length + 1) rest

/-- What stands up to three closing quotes; one or two more quotes belong to the text. -/
def blockText? (quote : Char) (escapes : Bool) : Nat → List Char → Option (List Char × List Char)
  | 0, _ => none
  | _ + 1, [] => none
  | fuel + 1, c :: rest =>
    if c = quote then
      let count := ((c :: rest).takeWhile (· == quote)).length
      if 3 ≤ count then
        let own := min (count - 3) 2
        some (List.replicate own quote, (c :: rest).drop (own + 3))
      else do
        let (body, rest) ← blockText? quote escapes fuel rest
        return (c :: body, rest)
    else if escapes ∧ c = '\\' then
      match foldedLine? rest with
      | some rest => blockText? quote escapes fuel rest
      | none => do
        let (escaped, rest) ← escape? rest
        let (body, rest) ← blockText? quote escapes fuel rest
        return (escaped :: body, rest)
    else if isPlain c ∨ (newline? (c :: rest)).isSome then do
      let (body, rest) ← blockText? quote escapes fuel rest
      return (c :: body, rest)
    else none

/-- A text between single or double quotes, one of each kind or three. Only between double quotes
a backslash is an escape. -/
def text? (text : List Char) : Option (String × List Char) :=
  let fuel := text.length + 1
  let opened : Option (List Char × List Char) :=
    match text with
    | '"' :: '"' :: '"' :: rest => blockText? '"' true fuel ((newline? rest).getD rest)
    | '\'' :: '\'' :: '\'' :: rest => blockText? '\'' false fuel ((newline? rest).getD rest)
    | '"' :: rest => lineText? '"' true fuel rest
    | '\'' :: rest => lineText? '\'' false fuel rest
    | _ => none
  opened.map fun (body, rest) => (String.ofList body, rest)

/-- The text behind any spaces, comments and ends of lines. -/
def skipLines : Nat → List Char → List Char
  | 0, text => text
  | fuel + 1, text =>
    let text := skipComment (skipSpace text)
    match newline? text with
    | some rest => skipLines fuel rest
    | none => text

/-- The texts of a list behind its opening bracket. A comma may stand behind the last one. -/
def items? : Nat → List Char → Option (List String × List Char)
  | 0, _ => none
  | fuel + 1, text =>
    match skipLines text.length text with
    | ']' :: rest => some ([], rest)
    | text => do
      let (item, rest) ← text? text
      match skipLines rest.length rest with
      | ',' :: rest => do
        let (items, rest) ← items? fuel rest
        return (item :: items, rest)
      | ']' :: rest => return ([item], rest)
      | _ => none

def setting? (text : List Char) : Option (Setting × List Char) :=
  match text with
  | '[' :: rest => (items? (rest.length + 1) rest).map fun (items, rest) => (.list items, rest)
  | text => (text? text).map fun (s, rest) => (.text s, rest)

/-- A key, bare or quoted. -/
def key? (text : List Char) : Option (String × List Char) :=
  match text with
  | '"' :: rest =>
    (lineText? '"' true (text.length + 1) rest).map fun (body, rest) => (String.ofList body, rest)
  | '\'' :: rest =>
    (lineText? '\'' false (text.length + 1) rest).map fun (body, rest) => (String.ofList body, rest)
  | text =>
    let name := text.takeWhile isBareKeyChar
    if name.isEmpty then none else some (String.ofList name, text.dropWhile isBareKeyChar)

/-- The keys of a text with what they are set to, line by line. -/
def settings? : Nat → List Char → Option (List (String × Setting))
  | 0, _ => none
  | fuel + 1, text =>
    match skipLines text.length text with
    | [] => some []
    | text => do
      let (key, rest) ← key? text
      match skipSpace rest with
      | '=' :: rest => do
        let (setting, rest) ← setting? (skipSpace rest)
        match skipComment (skipSpace rest) with
        | [] => return [(key, setting)]
        | rest => do
          let more ← settings? fuel (← newline? rest)
          return (key, setting) :: more
      | _ => none

end WrapperGen.Toml

namespace WrapperGen.GeneratorConfig

open Toml

/-- Changes the field of a key, if there is one and the setting is of its kind. -/
def with? (c : GeneratorConfig) : String × Setting → Option GeneratorConfig
  | ("wrapper_prefix", .text s) => some { c with wrapperPrefix := s }
  | ("imports", .list items) => some { c with imports := items }
  | ("subscription_type", .text s) => some { c with subscriptionType := s }
  | ("subscribe_method", .text s) => some { c with subscribeMethod := s }
  | ("close_method", .text s) => some { c with closeMethod := s }
  | ("header", .text s) => some { c with header := s }
  | _ => none

/-- The configuration of a TOML text. A byte order mark may stand in front, and no key twice. -/
def ofToml? (text : String) : Option GeneratorConfig := do
  let chars :=
    match text.toList with
    | '\uFEFF' :: rest => rest
    | chars => chars
  let settings ← settings? (chars.length + 1) chars
  if (settings.map Prod.fst).Nodup then settings.foldlM with? standard else none

end WrapperGen.GeneratorConfig
