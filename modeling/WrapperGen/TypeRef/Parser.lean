import WrapperGen.TypeRef

namespace WrapperGen.TypeRef

/-- Why a text is not a type. -/
inductive ParseError where
  | missingName
  | malformedName
  | missingSeparator
  | trailingText
  deriving DecidableEq

def ParseError.reason : ParseError → String
  | .missingName => "expected a type name"
  | .malformedName => "malformed qualified name"
  | .missingSeparator => "expected ',' or '>'"
  | .trailingText => "unexpected trailing input"

def ParseError.message (e : ParseError) (text : String) : String :=
  "invalid type reference '" ++ text ++ "': " ++ e.reason

def isNameChar (c : Char) : Bool :=
  isLetter c || isNumeral c || c == '_' || c == '.' || c == '$'

/-- No dot at either end and no two dots in a row. -/
def isDotted : List Char → Bool
  | [] => false
  | c :: rest => c != '.' && separated (c :: rest)
where
  /-- A name follows every dot. -/
  separated : List Char → Bool
    | [] => true
    | ['.'] => false
    | '.' :: '.' :: _ => false
    | _ :: rest => separated rest

/-- Leaves out a mark of variance with the blanks behind it. -/
def skipVariance : List Char → List Char
  | 'o' :: 'u' :: 't' :: ' ' :: rest => skipBlank rest
  | 'i' :: 'n' :: ' ' :: rest => skipBlank rest
  | text => text

mutual

/-- Reads a type from the front of a text and gives the text behind it. Every bracket and every
comma takes two steps of `fuel` at most, so twice the length of the text is enough. -/
def parseType (fuel : Nat) (text : List Char) : Except ParseError (TypeRef × List Char) :=
  match fuel with
  | 0 => .error .missingName
  | fuel + 1 => do
    let text := skipBlank text
    let name := text.takeWhile isNameChar
    if name.isEmpty then .error .missingName
    if !isDotted name then .error .malformedName
    let (args, rest) ←
      match skipBlank (text.dropWhile isNameChar) with
      | '<' :: rest => parseArgs fuel rest
      | rest => .ok ([], rest)
    match skipBlank rest with
    | '?' :: rest => return (.mk (String.ofList name) args true, rest)
    | rest => return (.mk (String.ofList name) args false, rest)

/-- Reads the arguments behind an opening bracket up to the closing one. -/
def parseArgs (fuel : Nat) (text : List Char) : Except ParseError (List TypeArg × List Char) :=
  match fuel with
  | 0 => .error .missingName
  | fuel + 1 => do
    let (arg, rest) ←
      match skipBlank text with
      | '*' :: rest => .ok (.star, rest)
      | text => do
        let (t, rest) ← parseType fuel (skipVariance text)
        .ok (.type t, rest)
    match skipBlank rest with
    | ',' :: rest => do
      let (args, rest) ← parseArgs fuel rest
      return (arg :: args, rest)
    | '>' :: rest => return ([arg], rest)
    | _ => .error .missingSeparator

end

/-- Reads a text that is a type from end to end, but for blanks. -/
def parse (text : String) : Except ParseError TypeRef := do
  let (t, rest) ← parseType (2 * text.length + 2) text.toList
  if (skipBlank rest).isEmpty then return t
  .error .trailingText

end WrapperGen.TypeRef
