import WrapperGen.Json.Node
import WrapperGen.Text.Hex

namespace WrapperGen.Json

def isSpace (c : Char) : Bool :=
  c == ' ' || c == '\n' || c == '\t' || c == '\r'

def skipSpace (text : List Char) : List Char :=
  text.dropWhile isSpace

/-- The rest of the text behind `expected`. -/
def takeWord : List Char → List Char → Except Problem (List Char)
  | [], text => .ok text
  | _ :: _, [] => .error .cutShort
  | e :: expected, c :: text => if c = e then takeWord expected text else .error .malformed

/-- The number that four hexadecimal digits stand for. -/
def unit? (a b c d : Char) : Option Nat := do
  let a ← hexValue? a
  let b ← hexValue? b
  let c ← hexValue? c
  let d ← hexValue? d
  return ((a * 16 + b) * 16 + c) * 16 + d

/-- A piece of a text between quotes: a character, or a UTF-16 unit given by its number. -/
inductive Piece where
  | char (c : Char)
  | unit (n : Nat)
  deriving DecidableEq

namespace Piece

def isHigh : Piece → Bool
  | .unit n => 0xD800 ≤ n && n < 0xDC00
  | .char _ => false

/-- The text of the pieces; there is none if one half of a pair of units stands alone. -/
def join : List Piece → Option (List Char)
  | [] => some []
  | .char c :: rest => (join rest).map (c :: ·)
  | .unit n :: .unit m :: rest =>
    if n < 0xD800 ∨ 0xDFFF < n then (join (.unit m :: rest)).map (Char.ofNat n :: ·)
    else if n < 0xDC00 ∧ 0xDC00 ≤ m ∧ m ≤ 0xDFFF then
      (join rest).map (Char.ofNat (0x10000 + (n - 0xD800) * 0x400 + (m - 0xDC00)) :: ·)
    else none
  | .unit n :: rest =>
    if n < 0xD800 ∨ 0xDFFF < n then (join rest).map (Char.ofNat n :: ·) else none

/-- The pieces without a first half of a pair at their end. -/
def settled : List Piece → List Piece
  | [] => []
  | [p] => if p.isHigh then [] else [p]
  | p :: rest => p :: settled rest

end Piece

/-- Whether at least four bytes of UTF-8 are left. -/
def hasFourBytes (text : List Char) : Bool :=
  4 ≤ (String.ofList (text.take 4)).utf8ByteSize

/-- The pieces up to the closing quote and the text behind it, or what stops the reader. -/
def scanPieces : List Char → List Piece × Except Problem (List Char)
  | [] => ([], .error .cutShort)
  | '"' :: rest => ([], .ok rest)
  | ['\\'] => ([], .error .cutShort)
  | '\\' :: 'u' :: a :: b :: c :: d :: rest =>
    match unit? a b c d with
    | some n =>
      let (pieces, behind) := scanPieces rest
      (.unit n :: pieces, behind)
    | none => ([], .error .malformed)
  | '\\' :: 'u' :: rest => ([], .error (if hasFourBytes rest then .malformed else .cutShort))
  | '\\' :: c :: rest =>
    let plain : Option Char :=
      match c with
      | '"' => some '"'
      | '\\' => some '\\'
      | '/' => some '/'
      | 'b' => some '\x08'
      | 'f' => some '\x0c'
      | 'n' => some '\n'
      | 'r' => some '\r'
      | 't' => some '\t'
      | _ => none
    match plain with
    | some c =>
      let (pieces, behind) := scanPieces rest
      (.char c :: pieces, behind)
    | none => ([], .error .malformed)
  | c :: rest =>
    if c.toNat < 0x20 then ([], .error .malformed)
    else
      let (pieces, behind) := scanPieces rest
      (.char c :: pieces, behind)

/-- What stands behind an opening quote, and the text behind the closing one. -/
def scanQuoted (text : List Char) : Quoted × Option (List Char) :=
  match scanPieces text with
  | (pieces, .ok rest) =>
    match Piece.join pieces with
    | some s => (.text (String.ofList s), some rest)
    | none => (.unpaired none, some rest)
  | (pieces, .error p) =>
    if (Piece.join (Piece.settled pieces)).isSome then (.fault p, none)
    else (.unpaired (some p), none)

def digitsValue (digits : List Char) : Nat :=
  digits.foldl (fun n c => n * 10 + (c.toNat - '0'.toNat)) 0

/-- What is wrong with a number that lacks a digit: at the end of the text it is cut short. -/
def missingDigit : List Char → Node
  | [] => .cutNumber
  | _ :: _ => .fault .malformed

def scanExponent (n : Number) (text : List Char) : Node × Option (List Char) :=
  match text with
  | c :: rest =>
    if c = 'e' ∨ c = 'E' then
      let (negative, rest) : Bool × List Char :=
        match rest with
        | '-' :: rest => (true, rest)
        | '+' :: rest => (false, rest)
        | rest => (false, rest)
      let digits := rest.takeWhile Char.isDigit
      if digits.isEmpty then (missingDigit rest, none)
      else
        let size : Int := digitsValue digits
        (.number { n with exponent := some (if negative then -size else size) },
          some (rest.dropWhile Char.isDigit))
    else (.number n, some text)
  | [] => (.number n, some [])

def scanFraction (n : Number) (text : List Char) : Node × Option (List Char) :=
  match text with
  | '.' :: rest =>
    let digits := rest.takeWhile Char.isDigit
    if digits.isEmpty then (missingDigit rest, none)
    else scanExponent { n with fraction := digits } (rest.dropWhile Char.isDigit)
  | _ => scanExponent n text

/-- A number behind its sign; no digit follows a leading zero. -/
def scanNumber (negative : Bool) (text : List Char) : Node × Option (List Char) :=
  match text with
  | '0' :: rest =>
    if (rest.takeWhile Char.isDigit).isEmpty then scanFraction ⟨negative, 0, [], none⟩ rest
    else (.fault .malformed, none)
  | text =>
    let digits := text.takeWhile Char.isDigit
    if digits.isEmpty then (missingDigit text, none)
    else
      scanFraction ⟨negative, digitsValue digits, [], none⟩ (text.dropWhile Char.isDigit)

def scanWord (value : Node) (expected text : List Char) : Node × Option (List Char) :=
  match takeWord expected text with
  | .ok rest => (value, some rest)
  | .error .cutShort => (.cutWord, none)
  | .error p => (.fault p, none)

mutual

/-- Reads one value and gives the text behind it, if the reader got that far. Each bracket costs
two steps of `fuel` and each comma one, so twice the length of the text is enough. -/
def scanNode (fuel : Nat) (text : List Char) : Node × Option (List Char) :=
  match fuel with
  | 0 => (.fault .cutShort, none)
  | fuel + 1 =>
    match skipSpace text with
    | [] => (.fault .cutShort, none)
    | 'n' :: rest => scanWord .null "ull".toList rest
    | 't' :: rest => scanWord (.bool true) "rue".toList rest
    | 'f' :: rest => scanWord (.bool false) "alse".toList rest
    | '-' :: rest => scanNumber true rest
    | '"' :: rest =>
      let (q, behind) := scanQuoted rest
      (.text q, behind)
    | '[' :: rest =>
      match skipSpace rest with
      | ']' :: behind => (.list [] none, some behind)
      | [] => (.list [] (some .cutShort), none)
      | rest =>
        let (items, ending, behind) := scanItems fuel rest
        (.list items ending, behind)
    | '\x7b' :: rest =>
      match skipSpace rest with
      | '\x7d' :: behind => (.record [] none, some behind)
      | [] => (.record [] (some .cutShort), none)
      | rest =>
        let (fields, ending, behind) := scanFields fuel rest
        (.record fields ending, behind)
    | c :: rest =>
      if c.isDigit then scanNumber false (c :: rest) else (.fault .malformed, none)

/-- The items of a list up to its bracket. -/
def scanItems (fuel : Nat) (text : List Char) :
    List Node × Option Problem × Option (List Char) :=
  match fuel with
  | 0 => ([], some .cutShort, none)
  | fuel + 1 =>
    match scanNode fuel text with
    | (item, none) => ([item], none, none)
    | (item, some rest) =>
      match skipSpace rest with
      | ',' :: rest =>
        let (items, ending, behind) := scanItems fuel rest
        (item :: items, ending, behind)
      | ']' :: behind => ([item], none, some behind)
      | [] => ([item], some .cutShort, none)
      | _ => ([item], some .malformed, none)

/-- The fields of a record up to its bracket. -/
def scanFields (fuel : Nat) (text : List Char) :
    List (Key × Node) × Option Problem × Option (List Char) :=
  match fuel with
  | 0 => ([], some .cutShort, none)
  | fuel + 1 =>
    match skipSpace text with
    | [] => ([(.stray .cutShort, .fault .cutShort)], none, none)
    | '"' :: rest =>
      match scanQuoted rest with
      | (q, none) => ([(.quoted q, .fault .cutShort)], none, none)
      | (q, some rest) =>
        match skipSpace rest with
        | ':' :: rest =>
          match scanNode fuel rest with
          | (value, none) => ([(.quoted q, value)], none, none)
          | (value, some rest) =>
            match skipSpace rest with
            | ',' :: rest =>
              let (fields, ending, behind) := scanFields fuel rest
              ((.quoted q, value) :: fields, ending, behind)
            | '\x7d' :: behind => ([(.quoted q, value)], none, some behind)
            | [] => ([(.quoted q, value)], some .cutShort, none)
            | _ => ([(.quoted q, value)], some .malformed, none)
        | [] => ([(.quoted q, .fault .cutShort)], none, none)
        | _ => ([(.quoted q, .fault .malformed)], none, none)
    | _ => ([(.stray .malformed, .fault .malformed)], none, none)

end

/-- The value at the front of a text, and whether anything but space follows it. -/
def scanText (text : String) : Node × Bool :=
  let (node, rest) := scanNode (2 * text.length + 2) text.toList
  (node, rest.any fun rest => !(skipSpace rest).isEmpty)

end WrapperGen.Json
