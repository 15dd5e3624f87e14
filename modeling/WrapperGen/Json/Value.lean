namespace WrapperGen.Json

/-- A number as it is written: its sign, the digits before and after the point, its exponent. -/
structure Number where
  negative : Bool
  whole : Nat
  fraction : List Char
  exponent : Option Int
  deriving DecidableEq

def Number.ofNat (n : Nat) : Number := ⟨false, n, [], none⟩

inductive Value where
  | null
  | bool (b : Bool)
  | number (n : Number)
  | text (s : String)
  | list (items : List Value)
  | record (fields : List (String × Value))

instance : Inhabited Value := ⟨.null⟩

namespace Value

def nat (n : Nat) : Value := .number (.ofNat n)

def texts (items : List String) : Value := .list (items.map .text)

def optionalText : Option String → Value
  | none => .null
  | some s => .text s

def text? : Value → Option String
  | .text s => some s
  | _ => none

/-- The value of the first field of that name. -/
def field? (name : String) : Value → Option Value
  | .record fields => fields.lookup name
  | _ => none

/-- The value of the one field of that name. -/
def onlyField? (name : String) (fields : List (String × Value)) : Option Value :=
  match fields.filter (·.1 == name) with
  | [(_, v)] => some v
  | _ => none

/-- The value of a field if it is there; no field may have its name a second time. -/
def fieldOnce? (name : String) (fields : List (String × Value)) : Option (Option Value) :=
  match fields.filter (·.1 == name) with
  | [] => some none
  | [(_, v)] => some (some v)
  | _ => none

end Value

end WrapperGen.Json
