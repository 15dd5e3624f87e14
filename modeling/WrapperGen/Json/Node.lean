import WrapperGen.Json.Range

namespace WrapperGen.Json

/-- What is found wrong first in a text that is read from front to back: it ends inside a value,
it is not JSON at that point, or the value there has not the wanted shape. -/
inductive Problem where
  | cutShort
  | malformed
  | mismatch
  deriving DecidableEq

/-- What follows an opening quote. An `unpaired` text has an escape for one half of a pair of
UTF-16 units without the other half; a reader that does not need the text can go on behind it and
stops, if at all, with the problem given. -/
inductive Quoted where
  | text (s : String)
  | unpaired (later : Option Problem)
  | fault (p : Problem)

/-- What stands in the place of a field's name. A name is always in quotes; what else may stand
there is `stray`. -/
inductive Key where
  | quoted (q : Quoted)
  | stray (p : Problem)

/-- A JSON text as far as it can be read. The reader stops for good at a `fault` and at a word or a
number that the end of the text cuts short; a list or a record ends with its bracket, or with a
problem where the bracket or a comma should stand. -/
inductive Node where
  | null
  | bool (b : Bool)
  | number (n : Number)
  | cutWord
  | cutNumber
  | text (q : Quoted)
  | list (items : List Node) (ending : Option Problem)
  | record (fields : List (Key × Node)) (ending : Option Problem)
  | fault (p : Problem)

def orElse (problem : Option Problem) : Except Problem Unit :=
  match problem with
  | none => .ok ()
  | some p => .error p

namespace Quoted

/-- The text between the quotes. -/
def read : Quoted → Except Problem String
  | .text s => .ok s
  | .unpaired _ => .error .malformed
  | .fault p => .error p

/-- Passes over a text that nobody needs. -/
def skip : Quoted → Except Problem Unit
  | .text _ => .ok ()
  | .unpaired later => orElse later
  | .fault p => .error p

end Quoted

namespace Key

def read : Key → Except Problem String
  | .quoted q => q.read
  | .stray p => .error p

def skip : Key → Except Problem Unit
  | .quoted q => q.skip
  | .stray p => .error p

end Key

namespace Node

/-- The problem of a value that is not of the wanted kind: a word, a number or a text is read to
its end first, and what is wrong in it comes before the mismatch. -/
def refusal : Node → Problem
  | .fault p => p
  | .cutWord | .cutNumber => .cutShort
  | .number n => if n.isFinite then .mismatch else .malformed
  | .text (.fault p) => p
  | .text (.unpaired _) => .malformed
  | _ => .mismatch

mutual

/-- Passes over a value that nobody needs: numbers of any size, halves of UTF-16 pairs and any
depth are fine there. -/
def skip : Node → Except Problem Unit
  | .fault p => .error p
  | .cutWord => .error .cutShort
  | .cutNumber => .error .malformed
  | .text q => q.skip
  | .list items ending => do
    skipItems items
    orElse ending
  | .record fields ending => do
    skipFields fields
    orElse ending
  | .null | .bool _ | .number _ => .ok ()

def skipItems : List Node → Except Problem Unit
  | [] => .ok ()
  | item :: rest => do
    item.skip
    skipItems rest

def skipFields : List (Key × Node) → Except Problem Unit
  | [] => .ok ()
  | (key, value) :: rest => do
    key.skip
    value.skip
    skipFields rest

end

mutual

/-- The value that a node stands for, with at most `room` brackets open at a time. -/
def value (room : Nat) : Node → Except Problem Value
  | .null => .ok .null
  | .bool b => .ok (.bool b)
  | .number n => if n.isFinite then .ok (.number n) else .error .malformed
  | .text q => .text <$> q.read
  | .list items ending => do
    if room = 0 then .error .malformed
    let values ← itemValues (room - 1) items
    orElse ending
    return .list values
  | .record fields ending => do
    if room = 0 then .error .malformed
    let values ← fieldValues (room - 1) fields
    orElse ending
    return .record values
  | .cutWord | .cutNumber => .error .cutShort
  | .fault p => .error p

def itemValues (room : Nat) : List Node → Except Problem (List Value)
  | [] => .ok []
  | item :: rest => do
    let first ← item.value room
    return first :: (← itemValues room rest)

def fieldValues (room : Nat) : List (Key × Node) → Except Problem (List (String × Value))
  | [] => .ok []
  | (key, node) :: rest => do
    let name ← key.read
    let first ← node.value room
    return (name, first) :: (← fieldValues room rest)

end

end Node

end WrapperGen.Json
