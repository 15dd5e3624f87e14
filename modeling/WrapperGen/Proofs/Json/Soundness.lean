import WrapperGen.Proofs.Json.Writing

namespace WrapperGen.Json

/-! ## Texts between quotes -/

theorem of_scanPieces {text rest : List Char} {pieces : List Piece}
    (scanned : scanPieces text = (pieces, .ok rest)) :
    ∃ inner, PiecesWritten pieces inner ∧ text = inner ++ '"' :: rest := by
  fun_induction scanPieces text generalizing pieces with
  | case1 | case3 | case5 | case6 | case8 | case9 => cases scanned
  | case2 =>
    cases scanned
    exact ⟨[], .nil, rfl⟩
  | case4 a b c d behind n value later stop split ih =>
    cases scanned
    obtain ⟨inner, written, rfl⟩ := ih split
    exact ⟨_, .unit value written, rfl⟩
  | case7 e behind _ _ plain c short later stop split =>
    rename_i ih
    cases scanned
    obtain ⟨inner, written, rfl⟩ := ih split
    have known : (e, c) ∈ shortEscapes := by
      clear * - short
      simp only [plain] at short
      split at short <;> cases short <;> decide
    exact ⟨_, .short known written, rfl⟩
  | case10 c behind quote alone _ _ slash printable later stop split ih =>
    cases scanned
    have solid : c ≠ '\\' := by
      rintro rfl
      cases behind with
      | nil => exact alone rfl rfl
      | cons d behind => exact slash d behind rfl rfl
    obtain ⟨inner, written, rfl⟩ := ih split
    exact ⟨_, .plain quote solid printable written, rfl⟩

theorem of_scanQuoted {text rest : List Char} {q : Quoted}
    (scanned : scanQuoted text = (q, some rest)) :
    ∃ quoted, QuotedWritten q quoted ∧ '"' :: text = quoted ++ rest := by
  unfold scanQuoted at scanned
  split at scanned
  next pieces behind ended =>
    obtain ⟨inner, written, rfl⟩ := of_scanPieces ended
    have taken : q = .ofPieces pieces ∧ behind = rest := by
      unfold Quoted.ofPieces
      split at scanned <;> cases scanned <;> simp_all
    obtain ⟨named, rfl⟩ := taken
    exact ⟨_, ⟨pieces, inner, written, named, rfl⟩, by simp⟩
  next => split at scanned <;> cases scanned

/-! ## Numbers -/

theorem exists_digitChar {c : Char} (digit : c.isDigit = true) :
    ∃ k < 10, c = Nat.digitChar k ∧ c.toNat - '0'.toNat = k := by
  have bounds : 48 ≤ c.toNat ∧ c.toNat ≤ 57 := by
    simpa [Char.isDigit, UInt32.le_iff_toNat_le] using digit
  have value : (c.toNat - 48).digitChar.toNat = c.toNat := by
    rw [Nat.toNat_digitChar_of_lt_ten (by omega)]
    omega
  exact ⟨c.toNat - 48, by omega, (Char.toNat_inj.mp value).symm, rfl⟩

theorem digitsValue_append_singleton (digits : List Char) (c : Char) :
    digitsValue (digits ++ [c]) = 10 * digitsValue digits + (c.toNat - '0'.toNat) := by
  rw [digitsValue, List.foldl_append, Nat.mul_comm]
  rfl

/-- Digits are those of the number that they stand for, unless there are zeros in front. -/
theorem toDigits_digitsValue {digits : List Char} (filled : digits ≠ [])
    (each : ∀ c ∈ digits, c.isDigit = true) (first : digits.head? ≠ some '0') :
    Nat.toDigits 10 (digitsValue digits) = digits := by
  induction digits using List.reverseRecOn with
  | nil => exact absurd rfl filled
  | append_singleton digits c ih =>
    obtain ⟨front, last⟩ := List.forall_mem_append.mp each
    obtain ⟨k, small, rfl, value⟩ := exists_digitChar (last c (List.mem_singleton_self c))
    rw [digitsValue_append_singleton, value]
    by_cases empty : digits = []
    · subst empty
      have none : digitsValue [] = 0 := rfl
      rw [none, Nat.mul_zero, Nat.zero_add, List.nil_append, Nat.toDigits_of_lt_base small]
    · have start : digits.head? ≠ some '0' := by
        rwa [List.head?_append_of_ne_nil _ empty] at first
      have whole := ih empty front start
      have pos : 0 < digitsValue digits := by
        refine Nat.pos_of_ne_zero fun zero => ?_
        rw [zero, Nat.toDigits_zero] at whole
        exact start (whole ▸ rfl)
      rw [← Nat.toDigits_append_toDigits (by omega) pos small, whole,
        Nat.toDigits_of_lt_base small]

theorem isDigit_of_mem_takeWhile {text : List Char} :
    ∀ c ∈ text.takeWhile Char.isDigit, c.isDigit = true :=
  fun _ => List.mem_takeWhile_imp

theorem of_digits (build : List Char → Node) {text rest : List Char} {node : Node}
    (scanned : (if (text.takeWhile Char.isDigit).isEmpty then (missingDigit text, none)
      else (build (text.takeWhile Char.isDigit), some (text.dropWhile Char.isDigit))) =
        (node, some rest)) :
    ∃ digits, digits ≠ [] ∧ (∀ c ∈ digits, c.isDigit = true) ∧ node = build digits ∧
      text = digits ++ rest := by
  split at scanned
  next => cases scanned
  next filled =>
    cases scanned
    exact ⟨_, by simpa using filled, isDigit_of_mem_takeWhile, rfl,
      List.takeWhile_append_dropWhile.symm⟩

theorem of_scanExponent {n : Number} (plain : n.exponent = none) {text rest : List Char}
    {node : Node} (scanned : scanExponent n text = (node, some rest)) :
    ∃ e exponent, node = .number { n with exponent := e } ∧ ExponentSpelled e exponent ∧
      text = exponent ++ rest := by
  have unchanged : { n with exponent := none } = n := by rw [← plain]
  let value (negative : Bool) (digits : List Char) : Int :=
    if negative then -(digitsValue digits : Int) else digitsValue digits
  let build (negative : Bool) (digits : List Char) : Node :=
    .number { n with exponent := some (value negative digits) }
  unfold scanExponent at scanned
  split at scanned
  next c behind =>
    split at scanned
    next letter =>
      split at scanned
      next negative text signed =>
        obtain ⟨digits, filled, each, rfl, rfl⟩ := of_digits (build negative) scanned
        split at signed
        next =>
          cases signed
          exact ⟨_, _, rfl, .minus letter filled each, rfl⟩
        next =>
          cases signed
          exact ⟨_, _, rfl, .plus letter filled each, rfl⟩
        next =>
          cases signed
          exact ⟨_, _, rfl, .plain letter filled each, rfl⟩
    next =>
      cases scanned
      exact ⟨none, [], by rw [unchanged], .none, rfl⟩
  next =>
    cases scanned
    exact ⟨none, [], by rw [unchanged], .none, rfl⟩

theorem of_scanFraction {negative : Bool} {whole : Nat} {text rest : List Char} {node : Node}
    (scanned : scanFraction ⟨negative, whole, [], none⟩ text = (node, some rest)) :
    ∃ n inner, node = .number n ∧
      NumberSpelled n ((if negative then ['-'] else []) ++ (Nat.toDigits 10 whole ++ inner)) ∧
      text = inner ++ rest := by
  unfold scanFraction at scanned
  split at scanned
  next behind =>
    simp only at scanned
    split at scanned
    next => cases scanned
    next filled =>
      obtain ⟨e, exponent, rfl, spelled, split⟩ := of_scanExponent rfl scanned
      refine ⟨_, _, rfl, .intro isDigit_of_mem_takeWhile spelled, ?_⟩
      rw [fractionChars, if_neg filled, List.append_assoc, ← split, List.cons_append,
        List.takeWhile_append_dropWhile]
  next =>
    obtain ⟨e, exponent, rfl, spelled, split⟩ := of_scanExponent rfl scanned
    exact ⟨_, _, rfl, .intro (List.forall_mem_nil _) spelled, split⟩

theorem of_scanNumber {negative : Bool} {text rest : List Char} {node : Node}
    (scanned : scanNumber negative text = (node, some rest)) :
    ∃ n inner, node = .number n ∧ NumberSpelled n ((if negative then ['-'] else []) ++ inner) ∧
      text = inner ++ rest := by
  unfold scanNumber at scanned
  split at scanned
  next behind =>
    split at scanned
    next =>
      obtain ⟨n, inner, rfl, spelled, rfl⟩ := of_scanFraction scanned
      exact ⟨n, _, rfl, spelled, rfl⟩
    next => cases scanned
  next other =>
    simp only at scanned
    split at scanned
    next => cases scanned
    next filled =>
      have split : text.takeWhile Char.isDigit ++ text.dropWhile Char.isDigit = text :=
        List.takeWhile_append_dropWhile
      have first : (text.takeWhile Char.isDigit).head? ≠ some '0' := by
        intro zero
        obtain ⟨later, cons⟩ := List.head?_eq_some_iff.mp zero
        rw [cons] at split
        exact other _ split.symm
      have digits := toDigits_digitsValue (by simpa using filled) isDigit_of_mem_takeWhile first
      obtain ⟨n, inner, rfl, spelled, behind⟩ := of_scanFraction scanned
      rw [digits] at spelled
      exact ⟨n, _, rfl, spelled, by rw [List.append_assoc, ← behind, split]⟩

/-! ## Words -/

theorem of_takeWord {expected text rest : List Char} (taken : takeWord expected text = .ok rest) :
    text = expected ++ rest := by
  induction expected generalizing text with
  | nil =>
    cases taken
    rfl
  | cons e expected ih =>
    cases text with
    | nil => cases taken
    | cons c text =>
      rw [takeWord] at taken
      split at taken
      next same => rw [ih taken, same, List.cons_append]
      next => cases taken

theorem of_scanWord {value node : Node} {expected text rest : List Char}
    (scanned : scanWord value expected text = (node, some rest)) :
    node = value ∧ text = expected ++ rest := by
  unfold scanWord at scanned
  split at scanned
  next behind taken =>
    cases scanned
    exact ⟨rfl, of_takeWord taken⟩
  next => cases scanned
  next => cases scanned

/-! ## Nodes -/

theorem exists_spaces (text : List Char) : ∃ a, IsSpaces a ∧ text = a ++ skipSpace text :=
  ⟨text.takeWhile isSpace, fun _ => List.mem_takeWhile_imp,
    List.takeWhile_append_dropWhile.symm⟩

theorem isSpaces_append {a b : List Char} (ha : IsSpaces a) (hb : IsSpaces b) : IsSpaces (a ++ b) :=
  List.forall_mem_append.mpr ⟨ha, hb⟩

theorem ItemsWritten.indent {items : List Node} {a inner : List Char} (spaces : IsSpaces a)
    (h : ItemsWritten items inner) : ItemsWritten items (a ++ inner) := by
  cases h with
  | last before item behind =>
    rw [← List.append_assoc]
    exact .last (isSpaces_append spaces before) item behind
  | more before item behind others =>
    rw [← List.append_assoc]
    exact .more (isSpaces_append spaces before) item behind others

theorem FieldsWritten.indent {fields : List (Key × Node)} {a inner : List Char}
    (spaces : IsSpaces a) (h : FieldsWritten fields inner) : FieldsWritten fields (a ++ inner) := by
  cases h with
  | last before named colon value field behind =>
    rw [← List.append_assoc]
    exact .last (isSpaces_append spaces before) named colon value field behind
  | more before named colon value field behind others =>
    rw [← List.append_assoc]
    exact .more (isSpaces_append spaces before) named colon value field behind others

mutual

theorem of_scanNode (fuel : Nat) {text rest : List Char} {n : Node}
    (scanned : scanNode fuel text = (n, some rest)) :
    ∃ a inner, IsSpaces a ∧ Written n inner ∧ text = a ++ (inner ++ rest) := by
  cases fuel with
  | zero => cases scanned
  | succ fuel =>
    obtain ⟨a, spaces, front⟩ := exists_spaces text
    rw [front]
    suffices h : ∃ inner, Written n inner ∧ skipSpace text = inner ++ rest by
      obtain ⟨inner, written, split⟩ := h
      exact ⟨a, inner, spaces, written, by rw [split]⟩
    rw [scanNode] at scanned
    split at scanned
    next => cases scanned
    next behind start =>
      obtain ⟨rfl, rfl⟩ := of_scanWord scanned
      exact ⟨_, .null, start⟩
    next behind start =>
      obtain ⟨rfl, rfl⟩ := of_scanWord scanned
      exact ⟨_, .bool true, start⟩
    next behind start =>
      obtain ⟨rfl, rfl⟩ := of_scanWord scanned
      exact ⟨_, .bool false, start⟩
    next behind start =>
      obtain ⟨number, inner, rfl, spelled, rfl⟩ := of_scanNumber scanned
      exact ⟨_, .number spelled, start⟩
    next behind start =>
      obtain ⟨q, later, found⟩ : ∃ q later, scanQuoted behind = (q, later) := ⟨_, _, rfl⟩
      rw [found] at scanned
      cases scanned
      obtain ⟨inner, written, split⟩ := of_scanQuoted found
      exact ⟨_, .text written, start.trans split⟩
    next behind start =>
      obtain ⟨blank, spacesInside, inside⟩ := exists_spaces behind
      split at scanned
      next close =>
        cases scanned
        refine ⟨_, .noItems spacesInside, ?_⟩
        rw [start, inside, close]
        simp
      next => cases scanned
      next =>
        obtain ⟨items, ending, later, found⟩ : ∃ items ending later,
            scanItems fuel (skipSpace behind) = (items, ending, later) := ⟨_, _, _, rfl⟩
        rw [found] at scanned
        cases scanned
        obtain ⟨rfl, inner, written, split⟩ := of_scanItems fuel found
        refine ⟨_, .list (written.indent spacesInside), ?_⟩
        rw [start, inside, split]
        simp
    next behind start =>
      obtain ⟨blank, spacesInside, inside⟩ := exists_spaces behind
      split at scanned
      next close =>
        cases scanned
        refine ⟨_, .noFields spacesInside, ?_⟩
        rw [start, inside, close]
        simp
      next => cases scanned
      next =>
        obtain ⟨fields, ending, later, found⟩ : ∃ fields ending later,
            scanFields fuel (skipSpace behind) = (fields, ending, later) := ⟨_, _, _, rfl⟩
        rw [found] at scanned
        cases scanned
        obtain ⟨rfl, inner, written, split⟩ := of_scanFields fuel found
        refine ⟨_, .record (written.indent spacesInside), ?_⟩
        rw [start, inside, split]
        simp
    next c behind _ _ _ _ _ _ _ start =>
      split at scanned
      next =>
        obtain ⟨number, inner, rfl, spelled, split⟩ := of_scanNumber scanned
        exact ⟨_, .number spelled, start.trans split⟩
      next => cases scanned

theorem of_scanItems (fuel : Nat) {text rest : List Char} {items : List Node}
    {ending : Option Problem} (scanned : scanItems fuel text = (items, ending, some rest)) :
    ending = none ∧ ∃ inner, ItemsWritten items inner ∧ text = inner ++ rest := by
  cases fuel with
  | zero => cases scanned
  | succ fuel =>
    rw [scanItems] at scanned
    split at scanned
    next => cases scanned
    next item behind first =>
      obtain ⟨a, inner, before, written, rfl⟩ := of_scanNode fuel first
      obtain ⟨b, spaces, split⟩ := exists_spaces behind
      split at scanned
      next others comma =>
        obtain ⟨rest, ending, later, found⟩ : ∃ rest ending later,
            scanItems fuel others = (rest, ending, later) := ⟨_, _, _, rfl⟩
        rw [found] at scanned
        cases scanned
        obtain ⟨rfl, more, inside, rfl⟩ := of_scanItems fuel found
        refine ⟨rfl, _, .more before written spaces inside, ?_⟩
        rw [split, comma]
        simp
      next close =>
        cases scanned
        refine ⟨rfl, _, .last before written spaces, ?_⟩
        rw [split, close]
        simp
      next => cases scanned
      next => cases scanned

theorem of_scanFields (fuel : Nat) {text rest : List Char} {fields : List (Key × Node)}
    {ending : Option Problem} (scanned : scanFields fuel text = (fields, ending, some rest)) :
    ending = none ∧ ∃ inner, FieldsWritten fields inner ∧ text = inner ++ rest := by
  cases fuel with
  | zero => cases scanned
  | succ fuel =>
    obtain ⟨a, before, front⟩ := exists_spaces text
    rw [scanFields] at scanned
    split at scanned
    next => cases scanned
    next quotedName start =>
      split at scanned
      next => cases scanned
      next q behind key =>
        obtain ⟨name, named, key⟩ := of_scanQuoted key
        obtain ⟨b, colonSpaces, colon⟩ := exists_spaces behind
        split at scanned
        next valueText mark =>
          split at scanned
          next => cases scanned
          next value tail field =>
            obtain ⟨c, inner, valueSpaces, written, rfl⟩ := of_scanNode fuel field
            obtain ⟨d, spaces, split⟩ := exists_spaces tail
            rw [front, start, key, colon, mark, split]
            split at scanned
            next others comma =>
              obtain ⟨rest, ending, later, found⟩ : ∃ rest ending later,
                  scanFields fuel others = (rest, ending, later) := ⟨_, _, _, rfl⟩
              rw [found] at scanned
              cases scanned
              obtain ⟨rfl, more, inside, rfl⟩ := of_scanFields fuel found
              refine ⟨rfl, _, .more before named colonSpaces valueSpaces written spaces inside, ?_⟩
              rw [comma]
              simp
            next close =>
              cases scanned
              refine ⟨rfl, _, .last before named colonSpaces valueSpaces written spaces, ?_⟩
              rw [close]
              simp
            next => cases scanned
            next => cases scanned
        next => cases scanned
        next => cases scanned
    next => cases scanned

end

/-! ## Where the scan stops, something is wrong -/

theorem skip_of_scanQuoted {text : List Char} {q : Quoted} (stopped : scanQuoted text = (q, none)) :
    q.skip ≠ .ok () := by
  unfold scanQuoted at stopped
  split at stopped
  next => split at stopped <;> cases stopped
  next =>
    split at stopped <;> cases stopped
    · exact nofun
    · exact nofun

theorem skip_missingDigit (text : List Char) : (missingDigit text).skip ≠ .ok () := by
  cases text <;> exact nofun

theorem skip_of_scanExponent {n : Number} {text : List Char} {node : Node}
    (stopped : scanExponent n text = (node, none)) : node.skip ≠ .ok () := by
  unfold scanExponent at stopped
  split at stopped
  next c behind =>
    split at stopped
    next =>
      split at stopped
      next negative behind signed =>
        simp only at stopped
        split at stopped <;> cases stopped
        exact skip_missingDigit _
    next => cases stopped
  next => cases stopped

theorem skip_of_scanFraction {n : Number} {text : List Char} {node : Node}
    (stopped : scanFraction n text = (node, none)) : node.skip ≠ .ok () := by
  unfold scanFraction at stopped
  split at stopped
  next behind =>
    simp only at stopped
    split at stopped
    next =>
      cases stopped
      exact skip_missingDigit _
    next => exact skip_of_scanExponent stopped
  next => exact skip_of_scanExponent stopped

theorem skip_of_scanNumber {negative : Bool} {text : List Char} {node : Node}
    (stopped : scanNumber negative text = (node, none)) : node.skip ≠ .ok () := by
  unfold scanNumber at stopped
  split at stopped
  next behind =>
    split at stopped
    next => exact skip_of_scanFraction stopped
    next =>
      cases stopped
      exact nofun
  next =>
    simp only at stopped
    split at stopped
    next =>
      cases stopped
      exact skip_missingDigit _
    next => exact skip_of_scanFraction stopped

theorem skip_of_scanWord {value node : Node} {expected text : List Char}
    (stopped : scanWord value expected text = (node, none)) : node.skip ≠ .ok () := by
  unfold scanWord at stopped
  split at stopped <;> cases stopped
  · exact nofun
  · exact nofun

mutual

theorem skip_of_scanNode (fuel : Nat) {text : List Char} {n : Node}
    (stopped : scanNode fuel text = (n, none)) : n.skip ≠ .ok () := by
  cases fuel with
  | zero =>
    cases stopped
    exact nofun
  | succ fuel =>
    rw [scanNode] at stopped
    split at stopped
    next =>
      cases stopped
      exact nofun
    next => exact skip_of_scanWord stopped
    next => exact skip_of_scanWord stopped
    next => exact skip_of_scanWord stopped
    next => exact skip_of_scanNumber stopped
    next behind _ =>
      obtain ⟨q, later, found⟩ : ∃ q later, scanQuoted behind = (q, later) := ⟨_, _, rfl⟩
      rw [found] at stopped
      cases stopped
      exact skip_of_scanQuoted found
    next behind _ =>
      split at stopped
      next => cases stopped
      next =>
        cases stopped
        exact nofun
      next =>
        obtain ⟨items, ending, later, found⟩ : ∃ items ending later,
            scanItems fuel (skipSpace behind) = (items, ending, later) := ⟨_, _, _, rfl⟩
        rw [found] at stopped
        cases stopped
        exact skip_of_scanItems fuel found
    next behind _ =>
      split at stopped
      next => cases stopped
      next =>
        cases stopped
        exact nofun
      next =>
        obtain ⟨fields, ending, later, found⟩ : ∃ fields ending later,
            scanFields fuel (skipSpace behind) = (fields, ending, later) := ⟨_, _, _, rfl⟩
        rw [found] at stopped
        cases stopped
        exact skip_of_scanFields fuel found
    next =>
      split at stopped
      next => exact skip_of_scanNumber stopped
      next =>
        cases stopped
        exact nofun

theorem skip_of_scanItems (fuel : Nat) {text : List Char} {items : List Node}
    {ending : Option Problem} (stopped : scanItems fuel text = (items, ending, none)) :
    (Node.list items ending).skip ≠ .ok () := by
  cases fuel with
  | zero =>
    cases stopped
    exact nofun
  | succ fuel =>
    rw [Ne, skip_list_eq_ok_iff]
    rintro ⟨fine, rfl⟩
    rw [scanItems] at stopped
    split at stopped
    next item first =>
      cases stopped
      exact skip_of_scanNode fuel first (fine item List.mem_cons_self)
    next item behind first =>
      split at stopped
      next others _ =>
        obtain ⟨rest, ending, later, found⟩ : ∃ rest ending later,
            scanItems fuel others = (rest, ending, later) := ⟨_, _, _, rfl⟩
        rw [found] at stopped
        cases stopped
        have sound := fun n mem => fine n (List.mem_cons_of_mem item mem)
        exact skip_of_scanItems fuel found (skip_list_eq_ok_iff.mpr ⟨sound, rfl⟩)
      next => cases stopped
      next => cases stopped
      next => cases stopped

theorem skip_of_scanFields (fuel : Nat) {text : List Char} {fields : List (Key × Node)}
    {ending : Option Problem} (stopped : scanFields fuel text = (fields, ending, none)) :
    (Node.record fields ending).skip ≠ .ok () := by
  cases fuel with
  | zero =>
    cases stopped
    exact nofun
  | succ fuel =>
    rw [Ne, skip_record_eq_ok_iff]
    rintro ⟨fine, rfl⟩
    rw [scanFields] at stopped
    split at stopped
    next =>
      cases stopped
      cases (fine _ List.mem_cons_self).2
    next =>
      split at stopped
      next =>
        cases stopped
        cases (fine _ List.mem_cons_self).2
      next q behind _ =>
        split at stopped
        next valueText _ =>
          split at stopped
          next value field =>
            cases stopped
            exact skip_of_scanNode fuel field (fine _ List.mem_cons_self).2
          next value tail field =>
            split at stopped
            next others _ =>
              obtain ⟨rest, ending, later, found⟩ : ∃ rest ending later,
                  scanFields fuel others = (rest, ending, later) := ⟨_, _, _, rfl⟩
              rw [found] at stopped
              cases stopped
              have sound := fun f mem => fine f (List.mem_cons_of_mem _ mem)
              exact skip_of_scanFields fuel found (skip_record_eq_ok_iff.mpr ⟨sound, rfl⟩)
            next => cases stopped
            next => cases stopped
            next => cases stopped
        next =>
          cases stopped
          cases (fine _ List.mem_cons_self).2
        next =>
          cases stopped
          cases (fine _ List.mem_cons_self).2
    next =>
      cases stopped
      cases (fine _ List.mem_cons_self).2

end

/-- A text in which nothing is found wrong is a JSON text. -/
theorem of_scanText {text : String} {n : Node} (scanned : scanText text = (n, false))
    (fine : n.skip = .ok ()) : WrittenText n text := by
  obtain ⟨node, behind, found⟩ : ∃ node behind,
      scanNode (2 * text.length + 2) text.toList = (node, behind) := ⟨_, _, rfl⟩
  rw [scanText, found] at scanned
  obtain ⟨rfl, ended⟩ := Prod.mk.inj scanned
  cases behind with
  | none => exact absurd fine (skip_of_scanNode _ found)
  | some rest =>
    obtain ⟨a, inner, before, written, split⟩ := of_scanNode _ found
    have spaces : IsSpaces rest := by
      have nothing : skipSpace rest = [] := by simpa using ended
      exact List.dropWhile_eq_nil_iff.mp nothing
    exact ⟨a, inner, rest, before, written, spaces, by rw [← split, String.ofList_toList]⟩

end WrapperGen.Json
