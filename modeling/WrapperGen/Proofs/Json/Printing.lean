import WrapperGen.Json.Print
import WrapperGen.Proofs.Json.Grammar

namespace WrapperGen.Json

mutual

/-- Behind the points of numbers there are digits only. -/
def Value.HasDigits : Value → Prop
  | .number n => ∀ c ∈ n.fraction, c.isDigit = true
  | .list items => ItemsHaveDigits items
  | .record fields => FieldsHaveDigits fields
  | .null | .bool _ | .text _ => True

def ItemsHaveDigits : List Value → Prop
  | [] => True
  | v :: rest => v.HasDigits ∧ ItemsHaveDigits rest

def FieldsHaveDigits : List (String × Value) → Prop
  | [] => True
  | (_, v) :: rest => v.HasDigits ∧ FieldsHaveDigits rest

end

theorem itemsHaveDigits_map {α : Type} (value : α → Value) (items : List α) :
    ItemsHaveDigits (items.map value) ↔ ∀ a ∈ items, (value a).HasDigits := by
  induction items with
  | nil => simp [ItemsHaveDigits]
  | cons a rest ih => simp [ItemsHaveDigits, ih]

theorem isSpaces_newLine (level : Nat) : IsSpaces (Value.newLine level) := by
  intro c h
  rcases List.mem_cons.mp h with rfl | h
  · rfl
  · rw [(List.mem_replicate.mp h).2]
    rfl

mutual

theorem spelled_indentedChars (v : Value) (digits : v.HasDigits) (level : Nat) :
    Spelled v (v.indentedChars level) := by
  cases v with
  | null => exact .null
  | bool b => exact .bool b
  | number n => exact .number (numberSpelled_chars digits)
  | text s => exact .text (quotedSpelled_quoted s)
  | list items =>
    have inside := itemsSpelled_indentedItems items digits level
    cases items with
    | nil => exact .noItems (a := []) nofun
    | cons v rest =>
      rw [← List.append_assoc] at inside
      exact .list (inside nofun)
  | record fields =>
    have inside := fieldsSpelled_indentedFields fields digits level
    cases fields with
    | nil => exact .noFields (a := []) nofun
    | cons field rest =>
      rw [← List.append_assoc] at inside
      exact .record (inside nofun)

theorem itemsSpelled_indentedItems (items : List Value) (digits : ItemsHaveDigits items)
    (level : Nat) (some : items ≠ []) :
    ItemsSpelled items (Value.indentedItems level items ++ (Value.newLine level ++ [']'])) := by
  cases items with
  | nil => exact absurd rfl some
  | cons v rest =>
    have item := spelled_indentedChars v digits.1 (level + 1)
    have others := itemsSpelled_indentedItems rest digits.2 level
    cases rest with
    | nil =>
      have last := ItemsSpelled.last (isSpaces_newLine (level + 1)) item (isSpaces_newLine level)
      rw [Value.indentedItems, List.append_assoc]
      exact last
    | cons w rest =>
      have more := ItemsSpelled.more (isSpaces_newLine (level + 1)) item isSpaces_nil
        (others nofun)
      rw [Value.indentedItems, List.append_assoc, List.append_assoc, List.cons_append]
      · exact more
      · nofun

theorem fieldsSpelled_indentedFields (fields : List (String × Value))
    (digits : FieldsHaveDigits fields) (level : Nat) (some : fields ≠ []) :
    FieldsSpelled fields
      (Value.indentedFields level fields ++ (Value.newLine level ++ ['\x7d'])) := by
  cases fields with
  | nil => exact absurd rfl some
  | cons field rest =>
    obtain ⟨name, v⟩ := field
    have space : IsSpaces [' '] := by simp [IsSpaces, isSpace]
    have value := spelled_indentedChars v digits.1 (level + 1)
    have others := fieldsSpelled_indentedFields rest digits.2 level
    cases rest with
    | nil =>
      have last : FieldsSpelled [(name, v)] _ := .last (isSpaces_newLine (level + 1))
        (quotedSpelled_quoted name) isSpaces_nil space value (isSpaces_newLine level)
      simpa [Value.indentedFields] using last
    | cons field rest =>
      have more : FieldsSpelled ((name, v) :: field :: rest) _ :=
        .more (isSpaces_newLine (level + 1)) (quotedSpelled_quoted name) isSpaces_nil space value
          isSpaces_nil (others nofun)
      simpa [Value.indentedFields] using more

end

mutual

theorem spelled_chars (v : Value) (digits : v.HasDigits) : Spelled v v.chars := by
  cases v with
  | null => exact .null
  | bool b => exact .bool b
  | number n => exact .number (numberSpelled_chars digits)
  | text s => exact .text (quotedSpelled_quoted s)
  | list items =>
    cases items with
    | nil => exact .noItems isSpaces_nil
    | cons v rest => exact .list (itemsSpelled_itemChars (v :: rest) digits nofun)
  | record fields =>
    cases fields with
    | nil => exact .noFields isSpaces_nil
    | cons field rest => exact .record (fieldsSpelled_fieldChars (field :: rest) digits nofun)

theorem itemsSpelled_itemChars (items : List Value) (digits : ItemsHaveDigits items)
    (some : items ≠ []) : ItemsSpelled items (Value.itemChars items ++ [']']) := by
  cases items with
  | nil => exact absurd rfl some
  | cons v rest =>
    have item := spelled_chars v digits.1
    have others := itemsSpelled_itemChars rest digits.2
    cases rest with
    | nil => exact .last isSpaces_nil item isSpaces_nil
    | cons w rest =>
      have more := ItemsSpelled.more isSpaces_nil item isSpaces_nil (others nofun)
      rw [Value.itemChars, List.append_assoc]
      · exact more
      · nofun

theorem fieldsSpelled_fieldChars (fields : List (String × Value))
    (digits : FieldsHaveDigits fields) (some : fields ≠ []) :
    FieldsSpelled fields (Value.fieldChars fields ++ ['\x7d']) := by
  cases fields with
  | nil => exact absurd rfl some
  | cons field rest =>
    obtain ⟨name, v⟩ := field
    have key := quotedSpelled_quoted name
    have value := spelled_chars v digits.1
    have others := fieldsSpelled_fieldChars rest digits.2
    cases rest with
    | nil =>
      have last : FieldsSpelled [(name, v)] _ :=
        .last isSpaces_nil key isSpaces_nil isSpaces_nil value isSpaces_nil
      simpa [Value.fieldChars] using last
    | cons field rest =>
      have more : FieldsSpelled ((name, v) :: field :: rest) _ :=
        .more isSpaces_nil key isSpaces_nil isSpaces_nil value isSpaces_nil (others nofun)
      simpa [Value.fieldChars] using more

end

theorem writtenText_compact (v : Value) (digits : v.HasDigits) : WrittenText v.node v.compact := by
  refine ⟨[], v.chars, [], isSpaces_nil, (spelled_chars v digits).written, isSpaces_nil, ?_⟩
  rw [List.nil_append, List.append_nil]
  rfl

end WrapperGen.Json
