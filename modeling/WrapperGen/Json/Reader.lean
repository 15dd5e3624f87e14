import WrapperGen.Json.Scan

namespace WrapperGen.Json

/-- Reads a node in which at most so many brackets may be open at a time. -/
abbrev Reader (α : Type) := Nat → Node → Except Problem α

/-- How deep the brackets of a text may be nested. -/
def maxDepth : Nat := 127

/-- Reads the whole of a text. -/
def read {α : Type} (reader : Reader α) (text : String) : Except Problem α := do
  let (node, trailing) := scanText text
  let a ← reader maxDepth node
  if trailing then .error .malformed
  return a

def orMismatch {α : Type} : Option α → Except Problem α
  | some a => .ok a
  | none => .error .mismatch

/-- Any value at all. -/
def readValue : Reader Value := Node.value

def readText : Reader String
  | _, .text q => q.read
  | _, node => .error node.refusal

/-- A whole number below the limit, written without sign, point and exponent. -/
def readNat (limit : Nat) : Reader Nat
  | _, .number n =>
    if n = .ofNat n.whole ∧ n.whole < limit then .ok n.whole else .error (Node.number n).refusal
  | _, node => .error node.refusal

/-- `null` stands for a value that is not there. -/
def readOptional {α : Type} (reader : Reader α) : Reader (Option α)
  | _, .null => .ok none
  | room, node => some <$> reader room node

def readItems {α : Type} (item : Reader α) (room : Nat) : List Node → Except Problem (List α)
  | [] => .ok []
  | node :: rest => do
    let a ← item room node
    return a :: (← readItems item room rest)

def readList {α : Type} (item : Reader α) : Reader (List α)
  | 0, .list _ _ => .error .malformed
  | room + 1, .list nodes ending => do
    let items ← readItems item room nodes
    orElse ending
    return items
  | _, node => .error node.refusal

/-- The fields of a record that have been found, by name. -/
abbrev Row := List (String × Node)

/-- How a record is read: the fields it may have with a check of each, in their order, and how the
record is built from the fields found. -/
structure RecordReader (α : Type) where
  fields : List (String × Reader Unit)
  build : Nat → Row → Except Problem α

namespace RecordReader

variable {α β : Type}

def check (reader : Reader α) : Reader Unit := fun room node => discard (reader room node)

/-- A field that must be there. -/
def field (name : String) (reader : Reader α) : RecordReader α where
  fields := [(name, check reader)]
  build room row :=
    match row.lookup name with
    | some node => reader room node
    | none => .error .mismatch

/-- A field that may be left out. -/
def fieldOr (name : String) (reader : Reader α) (default : α) : RecordReader α where
  fields := [(name, check reader)]
  build room row :=
    match row.lookup name with
    | some node => reader room node
    | none => .ok default

instance : Applicative RecordReader where
  pure a := ⟨[], fun _ _ => .ok a⟩
  seq f a := {
    fields := f.fields ++ (a ()).fields
    build := fun room row => do
      let g ← f.build room row
      let x ← (a ()).build room row
      return g x }

/-- Checks the named fields of a record in the order of the text and collects those that belong to
it. No field of the record may stand twice; a field of another name is refused if the record is
`closed`, else passed over. -/
def collect (known : List (String × Reader Unit)) (closed : Bool) (room : Nat) (row : Row) :
    List (Key × Node) → Except Problem Row
  | [] => .ok row
  | (key, node) :: rest => do
    let name ← key.read
    match known.lookup name with
    | some check =>
      if (row.lookup name).isSome then .error .mismatch
      check room node
      collect known closed room ((name, node) :: row) rest
    | none =>
      if closed then .error .mismatch
      node.skip
      collect known closed room row rest

/-- Checks the items of a list as the fields of a record in their order. -/
def collectItems (room : Nat) (row : Row) :
    List (String × Reader Unit) → List Node → Except Problem Row
  | [], [] => .ok row
  | [], _ :: _ => .error .malformed
  | _ :: _, [] => .ok row
  | (name, check) :: known, node :: rest => do
    check room node
    collectItems room ((name, node) :: row) known rest

/-- A record is written with the names of its fields or as the list of their values. -/
def read (r : RecordReader α) (closed : Bool) : Reader α
  | 0, .record _ _ => .error .malformed
  | 0, .list _ _ => .error .malformed
  | room + 1, .record fields ending => do
    let row ← collect r.fields closed room [] fields
    orElse ending
    r.build room row
  | room + 1, .list nodes ending => do
    let row ← collectItems room [] r.fields nodes
    orElse ending
    r.build room row
  | _, node => .error node.refusal

/-- Fields of other names are passed over. -/
def openRead (r : RecordReader α) : Reader α := r.read false

/-- Fields of other names are refused. -/
def closedRead (r : RecordReader α) : Reader α := r.read true

end RecordReader

end WrapperGen.Json
