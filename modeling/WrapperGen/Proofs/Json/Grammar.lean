import WrapperGen.Proofs.Json.Writing

namespace WrapperGen.Json

mutual

/-- The node that is read where a value is written. -/
def Value.node : Value → Node
  | .null => .null
  | .bool b => .bool b
  | .number n => .number n
  | .text s => .text (.text s)
  | .list items => .list (itemNodes items) none
  | .record fields => .record (fieldNodes fields) none

def itemNodes : List Value → List Node
  | [] => []
  | v :: rest => v.node :: itemNodes rest

def fieldNodes : List (String × Value) → List (Key × Node)
  | [] => []
  | (name, v) :: rest => (.quoted (.text name), v.node) :: fieldNodes rest

end

mutual

/-- The JSON texts of a value: any spaces may stand between the tokens, and texts and numbers may be
written in any of their ways. -/
inductive Spelled : Value → List Char → Prop
  | null : Spelled .null "null".toList
  | bool (b : Bool) : Spelled (.bool b) (if b then "true" else "false").toList
  | number {n : Number} {text : List Char} (spelled : NumberSpelled n text) :
    Spelled (.number n) text
  | text {s : String} {text : List Char} (spelled : QuotedSpelled s text) : Spelled (.text s) text
  | noItems {a : List Char} (spaces : IsSpaces a) : Spelled (.list []) ('[' :: (a ++ [']']))
  | list {items : List Value} {inner : List Char} (inside : ItemsSpelled items inner) :
    Spelled (.list items) ('[' :: inner)
  | noFields {a : List Char} (spaces : IsSpaces a) :
    Spelled (.record []) ('\x7b' :: (a ++ ['\x7d']))
  | record {fields : List (String × Value)} {inner : List Char}
    (inside : FieldsSpelled fields inner) : Spelled (.record fields) ('\x7b' :: inner)

/-- Items with the commas between them and the bracket behind them. -/
inductive ItemsSpelled : List Value → List Char → Prop
  | last {v : Value} {a text b : List Char} (before : IsSpaces a) (item : Spelled v text)
    (behind : IsSpaces b) : ItemsSpelled [v] (a ++ (text ++ (b ++ [']'])))
  | more {v : Value} {rest : List Value} {a text b inner : List Char} (before : IsSpaces a)
    (item : Spelled v text) (behind : IsSpaces b) (others : ItemsSpelled rest inner) :
    ItemsSpelled (v :: rest) (a ++ (text ++ (b ++ ',' :: inner)))

/-- Fields with the commas between them and the bracket behind them. -/
inductive FieldsSpelled : List (String × Value) → List Char → Prop
  | last {name : String} {v : Value} {a key b c text d : List Char} (before : IsSpaces a)
    (named : QuotedSpelled name key) (colon : IsSpaces b) (value : IsSpaces c)
    (field : Spelled v text) (behind : IsSpaces d) :
    FieldsSpelled [(name, v)] (a ++ (key ++ (b ++ ':' :: (c ++ (text ++ (d ++ ['\x7d']))))))
  | more {name : String} {v : Value} {rest : List (String × Value)}
    {a key b c text d inner : List Char} (before : IsSpaces a) (named : QuotedSpelled name key)
    (colon : IsSpaces b) (value : IsSpaces c) (field : Spelled v text) (behind : IsSpaces d)
    (others : FieldsSpelled rest inner) :
    FieldsSpelled ((name, v) :: rest)
      (a ++ (key ++ (b ++ ':' :: (c ++ (text ++ (d ++ ',' :: inner))))))

end

mutual

/-- Where a value is spelled, its node is written. -/
theorem Spelled.written (v : Value) {text : List Char} (h : Spelled v text) :
    Written v.node text := by
  cases v with
  | null =>
    cases h
    exact .null
  | bool b =>
    cases h
    exact .bool b
  | number n =>
    cases h with
    | number spelled => exact .number spelled
  | text s =>
    cases h with
    | text spelled => exact .text spelled.written
  | list items =>
    cases h with
    | noItems spaces => exact .noItems spaces
    | list inside => exact .list (inside.written items)
  | record fields =>
    cases h with
    | noFields spaces => exact .noFields spaces
    | record inside => exact .record (inside.written fields)

theorem ItemsSpelled.written (items : List Value) {inner : List Char}
    (h : ItemsSpelled items inner) : ItemsWritten (itemNodes items) inner := by
  cases items with
  | nil => cases h
  | cons v rest =>
    cases h with
    | last before item behind => exact .last before (item.written v) behind
    | more before item behind others =>
      exact .more before (item.written v) behind (others.written rest)

theorem FieldsSpelled.written (fields : List (String × Value)) {inner : List Char}
    (h : FieldsSpelled fields inner) : FieldsWritten (fieldNodes fields) inner := by
  cases fields with
  | nil => cases h
  | cons field rest =>
    cases h with
    | @last name v _ _ _ _ _ _ before named colon value item behind =>
      exact .last before named.written colon value (item.written v) behind
    | @more name v _ _ _ _ _ _ _ _ before named colon value item behind others =>
      exact .more before named.written colon value (item.written v) behind (others.written rest)

end

end WrapperGen.Json
