import Mathlib.Data.List.DropRight
import WrapperGen.Proofs.Fallible
import WrapperGen.Proofs.Json.Tokens

namespace WrapperGen.Json

def IsSpaces (text : List Char) : Prop := ∀ c ∈ text, isSpace c = true

theorem isSpaces_nil : IsSpaces [] := nofun

mutual

/-- The JSON texts of a node in which nothing is wrong: any spaces may stand between the tokens,
texts and numbers may be written in any of their ways, halves of pairs may stand alone. -/
inductive Written : Node → List Char → Prop
  | null : Written .null "null".toList
  | bool (b : Bool) : Written (.bool b) (if b then "true" else "false").toList
  | number {n : Number} {text : List Char} (spelled : NumberSpelled n text) :
    Written (.number n) text
  | text {q : Quoted} {text : List Char} (written : QuotedWritten q text) : Written (.text q) text
  | noItems {a : List Char} (spaces : IsSpaces a) : Written (.list [] none) ('[' :: (a ++ [']']))
  | list {items : List Node} {inner : List Char} (inside : ItemsWritten items inner) :
    Written (.list items none) ('[' :: inner)
  | noFields {a : List Char} (spaces : IsSpaces a) :
    Written (.record [] none) ('\x7b' :: (a ++ ['\x7d']))
  | record {fields : List (Key × Node)} {inner : List Char}
    (inside : FieldsWritten fields inner) : Written (.record fields none) ('\x7b' :: inner)

/-- Items with the commas between them and the bracket behind them. -/
inductive ItemsWritten : List Node → List Char → Prop
  | last {n : Node} {a text b : List Char} (before : IsSpaces a) (item : Written n text)
    (behind : IsSpaces b) : ItemsWritten [n] (a ++ (text ++ (b ++ [']'])))
  | more {n : Node} {rest : List Node} {a text b inner : List Char} (before : IsSpaces a)
    (item : Written n text) (behind : IsSpaces b) (others : ItemsWritten rest inner) :
    ItemsWritten (n :: rest) (a ++ (text ++ (b ++ ',' :: inner)))

/-- Fields with the commas between them and the bracket behind them. -/
inductive FieldsWritten : List (Key × Node) → List Char → Prop
  | last {q : Quoted} {n : Node} {a key b c text d : List Char} (before : IsSpaces a)
    (named : QuotedWritten q key) (colon : IsSpaces b) (value : IsSpaces c)
    (field : Written n text) (behind : IsSpaces d) :
    FieldsWritten [(.quoted q, n)] (a ++ (key ++ (b ++ ':' :: (c ++ (text ++ (d ++ ['\x7d']))))))
  | more {q : Quoted} {n : Node} {rest : List (Key × Node)} {a key b c text d inner : List Char}
    (before : IsSpaces a) (named : QuotedWritten q key) (colon : IsSpaces b) (value : IsSpaces c)
    (field : Written n text) (behind : IsSpaces d) (others : FieldsWritten rest inner) :
    FieldsWritten ((.quoted q, n) :: rest)
      (a ++ (key ++ (b ++ ':' :: (c ++ (text ++ (d ++ ',' :: inner))))))

end

/-! ## Written texts are read -/

theorem skipSpace_append {a text : List Char} (spaces : IsSpaces a) :
    skipSpace (a ++ text) = skipSpace text :=
  List.dropWhile_append_of_pos spaces

theorem skipSpace_cons {c : Char} {rest : List Char} (h : isSpace c = false) :
    skipSpace (c :: rest) = c :: rest := by
  simp [skipSpace, h]

theorem skipSpace_skipSpace (text : List Char) : skipSpace (skipSpace text) = skipSpace text :=
  List.dropWhile_idempotent _ _

theorem scanNode_skipSpace (fuel : Nat) (text : List Char) :
    scanNode fuel (skipSpace text) = scanNode fuel text := by
  cases fuel with
  | zero => rfl
  | succ fuel => rw [scanNode, scanNode, skipSpace_skipSpace]

theorem scanNode_append (fuel : Nat) {a text : List Char} (spaces : IsSpaces a) :
    scanNode fuel (a ++ text) = scanNode fuel text := by
  rw [← scanNode_skipSpace, skipSpace_append spaces, scanNode_skipSpace]

theorem scanItems_skipSpace (fuel : Nat) (text : List Char) :
    scanItems fuel (skipSpace text) = scanItems fuel text := by
  cases fuel with
  | zero => rfl
  | succ fuel => rw [scanItems, scanItems, scanNode_skipSpace]

theorem scanFields_skipSpace (fuel : Nat) (text : List Char) :
    scanFields fuel (skipSpace text) = scanFields fuel text := by
  cases fuel with
  | zero => rfl
  | succ fuel => rw [scanFields, scanFields, skipSpace_skipSpace]

theorem isSpace_of_isDigit {d : Char} (digit : d.isDigit = true) : isSpace d = false := by
  simp only [isSpace, Bool.or_eq_false_iff, beq_eq_false_iff_ne]
  refine ⟨⟨⟨?_, ?_⟩, ?_⟩, ?_⟩ <;> (rintro rfl; cases digit)

theorem scanNode_number (fuel : Nat) {n : Number} {text rest : List Char}
    (spelled : NumberSpelled n text) (ends : EndsNumber rest) :
    scanNode (fuel + 1) (text ++ rest) = (.number n, some rest) := by
  obtain ⟨digits, tail⟩ := spelled
  have number := scanNumber_spelled digits tail ends
  simp only [List.append_assoc]
  cases sign : n.negative with
  | true =>
    rw [sign] at number
    rw [if_pos rfl, List.singleton_append, scanNode, skipSpace_cons rfl]
    exact number
  | false =>
    obtain ⟨d, ds, cons, digit⟩ := exists_toDigits n.whole
    rw [sign, cons, List.cons_append] at number
    rw [if_neg (by simp), List.nil_append, cons, List.cons_append, scanNode,
      skipSpace_cons (isSpace_of_isDigit digit)]
    -- No other token begins with a digit.
    split <;> simp_all

theorem QuotedWritten.start {q : Quoted} {text : List Char} (h : QuotedWritten q text) :
    ∃ behind, text = '"' :: behind := by
  obtain ⟨_, _, -, -, rfl⟩ := h
  exact ⟨_, rfl⟩

theorem Written.start {n : Node} {text : List Char} (h : Written n text) :
    ∃ c behind, text = c :: behind ∧ isSpace c = false ∧ c ≠ ']' ∧ c ≠ '\x7d' := by
  cases h with
  | null => exact ⟨_, _, rfl, by decide⟩
  | bool b => cases b <;> exact ⟨_, _, rfl, by decide⟩
  | @number n _ spelled =>
    obtain ⟨-, -⟩ := spelled
    cases n.negative with
    | true => exact ⟨'-', _, rfl, by decide⟩
    | false =>
      obtain ⟨d, ds, cons, digit⟩ := exists_toDigits n.whole
      refine ⟨d, _, by rw [cons]; rfl, isSpace_of_isDigit digit, ?_, ?_⟩ <;>
        (rintro rfl; cases digit)
  | text spelled =>
    obtain ⟨behind, rfl⟩ := spelled.start
    exact ⟨'"', _, rfl, by decide⟩
  | noItems spaces => exact ⟨'[', _, rfl, by decide⟩
  | list inside => exact ⟨'[', _, rfl, by decide⟩
  | noFields spaces => exact ⟨'\x7b', _, rfl, by decide⟩
  | record inside => exact ⟨'\x7b', _, rfl, by decide⟩

theorem endsNumber_append {b rest : List Char} (spaces : IsSpaces b) (ends : EndsNumber rest) :
    EndsNumber (b ++ rest) := by
  cases b with
  | nil => exact ends
  | cons c b =>
    intro d first
    cases first
    have space := spaces c List.mem_cons_self
    simp only [isSpace, Bool.or_eq_true, beq_iff_eq] at space
    rcases space with ((rfl | rfl) | rfl) | rfl <;> decide

theorem endsNumber_cons (c : Char) (rest : List Char)
    (mark : c.isDigit = false ∧ c ≠ '.' ∧ c ≠ 'e' ∧ c ≠ 'E') : EndsNumber (c :: rest) := by
  intro d first
  cases first
  exact mark

theorem scanNode_list (fuel : Nat) {text behind : List Char} {c : Char}
    (first : skipSpace text = c :: behind) (other : c ≠ ']') :
    scanNode (fuel + 1) ('[' :: text) =
      (.list (scanItems fuel text).1 (scanItems fuel text).2.1, (scanItems fuel text).2.2) := by
  rw [← scanItems_skipSpace fuel text, scanNode, skipSpace_cons rfl]
  simp only [first]
  split
  next close => exact absurd (List.cons.inj close).1 other
  next none => cases none
  next => rfl

theorem scanNode_record (fuel : Nat) {text behind : List Char} {c : Char}
    (first : skipSpace text = c :: behind) (other : c ≠ '\x7d') :
    scanNode (fuel + 1) ('\x7b' :: text) =
      (.record (scanFields fuel text).1 (scanFields fuel text).2.1,
        (scanFields fuel text).2.2) := by
  rw [← scanFields_skipSpace fuel text, scanNode, skipSpace_cons rfl]
  simp only [first]
  split
  next close => exact absurd (List.cons.inj close).1 other
  next none => cases none
  next => rfl

theorem ItemsWritten.start {items : List Node} {inner : List Char} (h : ItemsWritten items inner)
    (rest : List Char) :
    ∃ c behind, skipSpace (inner ++ rest) = c :: behind ∧ c ≠ ']' := by
  cases h with
  | last before item _ | more before item _ _ =>
    obtain ⟨c, behind, rfl, solid, other, -⟩ := item.start
    rw [List.append_assoc, skipSpace_append before, List.cons_append, List.cons_append,
      skipSpace_cons solid]
    exact ⟨c, _, rfl, other⟩

theorem FieldsWritten.start {fields : List (Key × Node)} {inner : List Char}
    (h : FieldsWritten fields inner) (rest : List Char) :
    ∃ behind, skipSpace (inner ++ rest) = '"' :: behind := by
  cases h with
  | last before named | more before named =>
    obtain ⟨behind, rfl⟩ := named.start
    rw [List.append_assoc, skipSpace_append before]
    exact ⟨_, skipSpace_cons rfl⟩

mutual

theorem scanNode_written (n : Node) {text : List Char} (h : Written n text) (fuel : Nat)
    (enough : 2 * text.length ≤ fuel) {rest : List Char} (ends : EndsNumber rest) :
    scanNode fuel (text ++ rest) = (n, some rest) := by
  obtain ⟨c, behind, start, -⟩ := h.start
  cases fuel with
  | zero =>
    rw [start, List.length_cons] at enough
    omega
  | succ fuel =>
    cases n with
    | null =>
      cases h
      rfl
    | bool b =>
      cases h
      cases b <;> rfl
    | number n =>
      cases h with
      | number spelled => exact scanNode_number fuel spelled ends
    | text q =>
      cases h with
      | text written =>
        obtain ⟨inner, quote, scanned⟩ := scanQuoted_written written rest
        rw [quote, scanNode, skipSpace_cons rfl]
        simp only [scanned]
    | list items ending =>
      cases h with
      | noItems spaces =>
        rw [List.cons_append, List.append_assoc, scanNode, skipSpace_cons rfl]
        simp only [skipSpace_append spaces, List.singleton_append, skipSpace_cons (c := ']') rfl]
      | list inside =>
        rw [List.length_cons] at enough
        obtain ⟨c, behind, first, other⟩ := inside.start rest
        rw [List.cons_append, scanNode_list fuel first other,
          scanItems_written items inside fuel (by omega) rest]
    | record fields ending =>
      cases h with
      | noFields spaces =>
        rw [List.cons_append, List.append_assoc, scanNode, skipSpace_cons rfl]
        simp only [skipSpace_append spaces, List.singleton_append,
          skipSpace_cons (c := '\x7d') rfl]
      | record inside =>
        rw [List.length_cons] at enough
        obtain ⟨behind, first⟩ := inside.start rest
        rw [List.cons_append, scanNode_record fuel first (by decide),
          scanFields_written fields inside fuel (by omega) rest]
    | cutWord | cutNumber | fault => cases h

theorem scanItems_written (items : List Node) {inner : List Char} (h : ItemsWritten items inner)
    (fuel : Nat) (enough : 2 * inner.length ≤ fuel) (rest : List Char) :
    scanItems fuel (inner ++ rest) = (items, none, some rest) := by
  cases items with
  | nil => cases h
  | cons n others =>
    cases h with
    | last before item behind =>
      simp only [List.length_append, List.length_cons] at enough
      obtain ⟨fuel, rfl⟩ : ∃ k, fuel = k + 1 := ⟨fuel - 1, by omega⟩
      have read := scanNode_written n item fuel (by omega)
        (endsNumber_append behind (endsNumber_cons ']' rest (by decide)))
      simp only [List.append_assoc, List.singleton_append, scanItems, scanNode_append fuel before,
        read, skipSpace_append behind, skipSpace_cons (c := ']') rfl]
    | @more _ _ _ _ _ inner before item behind inside =>
      simp only [List.length_append, List.length_cons] at enough
      obtain ⟨fuel, rfl⟩ : ∃ k, fuel = k + 1 := ⟨fuel - 1, by omega⟩
      have read := scanNode_written n item fuel (by omega)
        (endsNumber_append behind (endsNumber_cons ',' (inner ++ rest) (by decide)))
      have readOthers := scanItems_written others inside fuel (by omega) rest
      simp only [List.append_assoc, List.cons_append, scanItems, scanNode_append fuel before,
        read, skipSpace_append behind, skipSpace_cons (c := ',') rfl, readOthers]

theorem scanFields_written (fields : List (Key × Node)) {inner : List Char}
    (h : FieldsWritten fields inner) (fuel : Nat) (enough : 2 * inner.length ≤ fuel)
    (rest : List Char) :
    scanFields fuel (inner ++ rest) = (fields, none, some rest) := by
  cases fields with
  | nil => cases h
  | cons field others =>
    cases h with
    | @last q n a key b c text d before named colon value item behind =>
      simp only [List.length_append, List.length_cons] at enough
      obtain ⟨fuel, rfl⟩ : ∃ k, fuel = k + 1 := ⟨fuel - 1, by omega⟩
      have read := scanNode_written n item fuel (by omega)
        (endsNumber_append behind (endsNumber_cons '\x7d' rest (by decide)))
      obtain ⟨quotedName, quote, scanned⟩ := scanQuoted_written named
        (b ++ ':' :: (c ++ (text ++ (d ++ '\x7d' :: rest))))
      simp only [List.append_assoc, List.cons_append, List.nil_append, scanFields,
        skipSpace_append before, quote, skipSpace_cons (c := '"') rfl, scanned,
        skipSpace_append colon, skipSpace_cons (c := ':') rfl, scanNode_append fuel value, read,
        skipSpace_append behind, skipSpace_cons (c := '\x7d') rfl]
    | @more q n _ a key b c text d inner before named colon value item behind inside =>
      simp only [List.length_append, List.length_cons] at enough
      obtain ⟨fuel, rfl⟩ : ∃ k, fuel = k + 1 := ⟨fuel - 1, by omega⟩
      have read := scanNode_written n item fuel (by omega)
        (endsNumber_append behind (endsNumber_cons ',' (inner ++ rest) (by decide)))
      have readOthers := scanFields_written others inside fuel (by omega) rest
      obtain ⟨quotedName, quote, scanned⟩ := scanQuoted_written named
        (b ++ ':' :: (c ++ (text ++ (d ++ ',' :: (inner ++ rest)))))
      simp only [List.append_assoc, List.cons_append, scanFields, skipSpace_append before, quote,
        skipSpace_cons (c := '"') rfl, scanned, skipSpace_append colon,
        skipSpace_cons (c := ':') rfl, scanNode_append fuel value, read,
        skipSpace_append behind, skipSpace_cons (c := ',') rfl, readOthers]

end

/-- The texts of a node with any spaces around it. -/
def WrittenText (n : Node) (text : String) : Prop :=
  ∃ a inner b, IsSpaces a ∧ Written n inner ∧ IsSpaces b ∧ text = String.ofList (a ++ (inner ++ b))

theorem scanText_ofList (text : List Char) :
    scanText (String.ofList text) =
      ((scanNode (2 * text.length + 2) text).1,
        (scanNode (2 * text.length + 2) text).2.any fun rest => !(skipSpace rest).isEmpty) := by
  rw [scanText, String.length_ofList, String.toList_ofList]

theorem scanText_written {n : Node} {text : String} (h : WrittenText n text) :
    scanText text = (n, false) := by
  obtain ⟨a, inner, b, before, written, behind, rfl⟩ := h
  have ends : EndsNumber b := by
    have spaces := endsNumber_append behind (show EndsNumber [] from nofun)
    rwa [List.append_nil] at spaces
  have nothing : skipSpace b = [] := List.dropWhile_eq_nil_iff.mpr behind
  rw [scanText_ofList, scanNode_append _ before,
    scanNode_written n written _ (by simp only [List.length_append]; omega) ends]
  simp [nothing]

/-! ## Nothing is wrong in what is written -/

theorem orElse_eq_ok_iff {ending : Option Problem} : orElse ending = .ok () ↔ ending = none := by
  cases ending <;> simp [orElse]

theorem skip_list_eq_ok_iff {items : List Node} {ending : Option Problem} :
    (Node.list items ending).skip = .ok () ↔ (∀ n ∈ items, n.skip = .ok ()) ∧ ending = none := by
  have each : Node.skipItems items = .ok () ↔ ∀ n ∈ items, n.skip = .ok () := by
    induction items with
    | nil => simp [Node.skipItems]
    | cons n rest ih => simp [Node.skipItems, check_bind_eq_ok_iff, ih]
  rw [Node.skip, check_bind_eq_ok_iff, each, orElse_eq_ok_iff]

theorem skip_record_eq_ok_iff {fields : List (Key × Node)} {ending : Option Problem} :
    (Node.record fields ending).skip = .ok () ↔
      (∀ f ∈ fields, f.1.skip = .ok () ∧ f.2.skip = .ok ()) ∧ ending = none := by
  have each : Node.skipFields fields = .ok () ↔
      ∀ f ∈ fields, f.1.skip = .ok () ∧ f.2.skip = .ok () := by
    induction fields with
    | nil => simp [Node.skipFields]
    | cons f rest ih => simp [Node.skipFields, check_bind_eq_ok_iff, ih, and_assoc]
  rw [Node.skip, check_bind_eq_ok_iff, each, orElse_eq_ok_iff]

theorem QuotedWritten.skip {q : Quoted} {text : List Char} (h : QuotedWritten q text) :
    q.skip = .ok () := by
  obtain ⟨pieces, _, -, rfl, -⟩ := h
  unfold Quoted.ofPieces
  split <;> rfl

mutual

theorem skip_of_written (n : Node) {text : List Char} (h : Written n text) :
    n.skip = .ok () := by
  cases n with
  | null | bool | number => rfl
  | text q =>
    cases h with
    | text written => exact written.skip
  | list items ending =>
    cases h with
    | noItems => rfl
    | list inside => exact skip_list_eq_ok_iff.mpr ⟨skip_of_itemsWritten items inside, rfl⟩
  | record fields ending =>
    cases h with
    | noFields => rfl
    | record inside => exact skip_record_eq_ok_iff.mpr ⟨skip_of_fieldsWritten fields inside, rfl⟩
  | cutWord | cutNumber | fault => cases h

theorem skip_of_itemsWritten (items : List Node) {inner : List Char}
    (h : ItemsWritten items inner) : ∀ n ∈ items, n.skip = .ok () := by
  cases items with
  | nil => exact nofun
  | cons n rest =>
    cases h with
    | last _ item _ => exact List.forall_mem_cons.mpr ⟨skip_of_written n item, nofun⟩
    | more _ item _ others =>
      exact List.forall_mem_cons.mpr ⟨skip_of_written n item, skip_of_itemsWritten rest others⟩

theorem skip_of_fieldsWritten (fields : List (Key × Node)) {inner : List Char}
    (h : FieldsWritten fields inner) :
    ∀ f ∈ fields, f.1.skip = .ok () ∧ f.2.skip = .ok () := by
  cases fields with
  | nil => exact nofun
  | cons field rest =>
    cases h with
    | @last q n _ _ _ _ _ _ _ named _ _ item _ =>
      exact List.forall_mem_cons.mpr ⟨⟨named.skip, skip_of_written n item⟩, nofun⟩
    | @more q n _ _ _ _ _ _ _ _ _ named _ _ item _ others =>
      exact List.forall_mem_cons.mpr
        ⟨⟨named.skip, skip_of_written n item⟩, skip_of_fieldsWritten rest others⟩

end

theorem WrittenText.skip {n : Node} {text : String} (h : WrittenText n text) :
    n.skip = .ok () := by
  obtain ⟨_, _, _, -, written, -⟩ := h
  exact skip_of_written n written

end WrapperGen.Json
