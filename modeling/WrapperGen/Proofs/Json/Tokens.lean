import Mathlib.Data.List.TakeWhile
import WrapperGen.Json.Print
import WrapperGen.Json.Scan
import WrapperGen.Proofs.Text.Pieces

namespace WrapperGen.Json

/-! ## Texts between quotes -/

/-- The characters that stand for others behind a backslash. -/
def shortEscapes : List (Char × Char) :=
  [('"', '"'), ('\\', '\\'), ('/', '/'), ('b', '\x08'), ('f', '\x0c'), ('n', '\n'), ('r', '\r'),
    ('t', '\t')]

/-- The ways in which characters can be written between quotes: as they are, by a short escape, by
the number of a UTF-16 unit, or by those of two units. -/
inductive CharsSpelled : List Char → List Char → Prop
  | nil : CharsSpelled [] []
  | plain {c : Char} {s text : List Char} (quote : c ≠ '"') (slash : c ≠ '\\')
    (printable : ¬c.toNat < 0x20) (rest : CharsSpelled s text) : CharsSpelled (c :: s) (c :: text)
  | short {e c : Char} {s text : List Char} (known : (e, c) ∈ shortEscapes)
    (rest : CharsSpelled s text) : CharsSpelled (c :: s) ('\\' :: e :: text)
  | unit {a b c d : Char} {n : Nat} {s text : List Char} (value : unit? a b c d = some n)
    (whole : n < 0xD800 ∨ 0xDFFF < n) (rest : CharsSpelled s text) :
    CharsSpelled (Char.ofNat n :: s) ('\\' :: 'u' :: a :: b :: c :: d :: text)
  | units {a b c d a' b' c' d' : Char} {n m : Nat} {s text : List Char}
    (value : unit? a b c d = some n) (high : 0xD800 ≤ n ∧ n < 0xDC00)
    (value' : unit? a' b' c' d' = some m) (low : 0xDC00 ≤ m ∧ m ≤ 0xDFFF)
    (rest : CharsSpelled s text) :
    CharsSpelled (Char.ofNat (0x10000 + (n - 0xD800) * 0x400 + (m - 0xDC00)) :: s)
      ('\\' :: 'u' :: a :: b :: c :: d :: '\\' :: 'u' :: a' :: b' :: c' :: d' :: text)

/-- A text between quotes. -/
def QuotedSpelled (s : String) (text : List Char) : Prop :=
  ∃ inner, CharsSpelled s.toList inner ∧ text = '"' :: (inner ++ ['"'])

/-- The ways in which pieces can be written between quotes. A unit is the half of a pair or not. -/
inductive PiecesWritten : List Piece → List Char → Prop
  | nil : PiecesWritten [] []
  | plain {c : Char} {pieces : List Piece} {text : List Char} (quote : c ≠ '"') (slash : c ≠ '\\')
    (printable : ¬c.toNat < 0x20) (rest : PiecesWritten pieces text) :
    PiecesWritten (.char c :: pieces) (c :: text)
  | short {e c : Char} {pieces : List Piece} {text : List Char} (known : (e, c) ∈ shortEscapes)
    (rest : PiecesWritten pieces text) : PiecesWritten (.char c :: pieces) ('\\' :: e :: text)
  | unit {a b c d : Char} {n : Nat} {pieces : List Piece} {text : List Char}
    (value : unit? a b c d = some n) (rest : PiecesWritten pieces text) :
    PiecesWritten (.unit n :: pieces) ('\\' :: 'u' :: a :: b :: c :: d :: text)

/-- What the pieces between two quotes are taken for. -/
def Quoted.ofPieces (pieces : List Piece) : Quoted :=
  match Piece.join pieces with
  | some s => .text (String.ofList s)
  | none => .unpaired none

/-- Any pieces between quotes, whether halves of pairs stand alone or not. -/
def QuotedWritten (q : Quoted) (text : List Char) : Prop :=
  ∃ pieces inner, PiecesWritten pieces inner ∧ q = .ofPieces pieces ∧ text = '"' :: (inner ++ ['"'])

theorem Piece.join_unit {n : Nat} {pieces : List Piece} (whole : n < 0xD800 ∨ 0xDFFF < n) :
    join (.unit n :: pieces) = (join pieces).map (Char.ofNat n :: ·) := by
  cases pieces with
  | nil => simp [join, whole]
  | cons q rest =>
    cases q with
    | char d => simp [join, whole]
    | unit m => rw [join, if_pos whole]

theorem Piece.join_units {n m : Nat} {pieces : List Piece} (high : 0xD800 ≤ n ∧ n < 0xDC00)
    (low : 0xDC00 ≤ m ∧ m ≤ 0xDFFF) : join (.unit n :: .unit m :: pieces) =
      (join pieces).map (Char.ofNat (0x10000 + (n - 0xD800) * 0x400 + (m - 0xDC00)) :: ·) := by
  rw [join, if_neg (by omega), if_pos ⟨high.2, low⟩]

theorem scanPieces_plain {c : Char} {rest : List Char} (quote : c ≠ '"') (slash : c ≠ '\\')
    (printable : ¬c.toNat < 0x20) :
    scanPieces (c :: rest) = (.char c :: (scanPieces rest).1, (scanPieces rest).2) := by
  rw [scanPieces.eq_def]
  split <;> simp_all

theorem scanPieces_short {e c : Char} {rest : List Char} (known : (e, c) ∈ shortEscapes) :
    scanPieces ('\\' :: e :: rest) = (.char c :: (scanPieces rest).1, (scanPieces rest).2) := by
  simp only [shortEscapes, List.mem_cons, Prod.mk.injEq, List.not_mem_nil, or_false] at known
  rcases known with ⟨rfl, rfl⟩ | ⟨rfl, rfl⟩ | ⟨rfl, rfl⟩ | ⟨rfl, rfl⟩ | ⟨rfl, rfl⟩ | ⟨rfl, rfl⟩ |
    ⟨rfl, rfl⟩ | ⟨rfl, rfl⟩ <;> simp [scanPieces]

theorem scanPieces_unit {a b c d : Char} {n : Nat} {rest : List Char}
    (value : unit? a b c d = some n) : scanPieces ('\\' :: 'u' :: a :: b :: c :: d :: rest) =
      (.unit n :: (scanPieces rest).1, (scanPieces rest).2) := by
  rw [scanPieces, value]

theorem scanPieces_written {pieces : List Piece} {text : List Char} (h : PiecesWritten pieces text)
    (rest : List Char) : scanPieces (text ++ '"' :: rest) = (pieces, .ok rest) := by
  induction h with
  | nil => rw [List.nil_append, scanPieces]
  | plain quote slash printable _ ih =>
    rw [List.cons_append, scanPieces_plain quote slash printable, ih]
  | short known _ ih => rw [List.cons_append, List.cons_append, scanPieces_short known, ih]
  | unit value _ ih => simp only [List.cons_append, scanPieces_unit value, ih]

/-- However something is written between quotes, it comes back from there. -/
theorem scanQuoted_written {q : Quoted} {text : List Char} (h : QuotedWritten q text)
    (rest : List Char) :
    ∃ inner, text ++ rest = '"' :: inner ∧ scanQuoted inner = (q, some rest) := by
  obtain ⟨pieces, inner, written, rfl, rfl⟩ := h
  refine ⟨inner ++ '"' :: rest, by simp, ?_⟩
  unfold scanQuoted Quoted.ofPieces
  rw [scanPieces_written written]
  cases joined : Piece.join pieces <;> simp [joined]

theorem CharsSpelled.exists_pieces {s text : List Char} (h : CharsSpelled s text) :
    ∃ pieces, Piece.join pieces = some s ∧ PiecesWritten pieces text := by
  induction h with
  | nil => exact ⟨[], rfl, .nil⟩
  | @plain c _ _ quote slash printable _ ih =>
    obtain ⟨pieces, joined, written⟩ := ih
    exact ⟨.char c :: pieces, by rw [Piece.join, joined]; rfl,
      .plain quote slash printable written⟩
  | @short _ c _ _ known _ ih =>
    obtain ⟨pieces, joined, written⟩ := ih
    exact ⟨.char c :: pieces, by rw [Piece.join, joined]; rfl, .short known written⟩
  | @unit _ _ _ _ n _ _ value whole _ ih =>
    obtain ⟨pieces, joined, written⟩ := ih
    exact ⟨.unit n :: pieces, by rw [Piece.join_unit whole, joined]; rfl, .unit value written⟩
  | @units _ _ _ _ _ _ _ _ n m _ _ value high value' low _ ih =>
    obtain ⟨pieces, joined, written⟩ := ih
    exact ⟨.unit n :: .unit m :: pieces, by rw [Piece.join_units high low, joined]; rfl,
      .unit value (.unit value' written)⟩

theorem QuotedSpelled.written {s : String} {text : List Char} (h : QuotedSpelled s text) :
    QuotedWritten (.text s) text := by
  obtain ⟨inner, spelled, rfl⟩ := h
  obtain ⟨pieces, joined, written⟩ := spelled.exists_pieces
  exact ⟨pieces, inner, written, by simp [Quoted.ofPieces, joined], rfl⟩

/-! ### Texts as they are printed -/

theorem hexValue?_hexDigit : ∀ n < 16, hexValue? (hexDigit n) = some n := by decide

theorem unit?_control {c : Char} (control : c.toNat < 0x20) :
    unit? '0' '0' (hexDigit (c.toNat / 16)) (hexDigit (c.toNat % 16)) = some c.toNat := by
  have high := hexValue?_hexDigit (c.toNat / 16) (by omega)
  have low := hexValue?_hexDigit (c.toNat % 16) (by omega)
  have zero : hexValue? '0' = some 0 := rfl
  simp only [unit?, zero, high, low, Option.bind_eq_bind, Option.bind_some, Option.pure_def]
  congr 1
  omega

theorem charsSpelled_escaped (c : Char) {s text : List Char} (rest : CharsSpelled s text) :
    CharsSpelled (c :: s) (escaped c ++ text) := by
  unfold escaped
  split
  case h_8 quote slash _ _ _ _ _ =>
    split
    next control =>
      have spelled := CharsSpelled.unit (unit?_control control) (.inl (by omega)) rest
      rwa [Char.ofNat_toNat] at spelled
    next printable => exact .plain quote slash printable rest
  -- The seven characters with a short escape of their own.
  all_goals exact .short (by simp [shortEscapes]) rest

theorem quotedSpelled_quoted (s : String) : QuotedSpelled s (quoted s) := by
  refine ⟨s.toList.flatMap escaped, ?_, rfl⟩
  induction s.toList with
  | nil => exact .nil
  | cons c s ih => exact charsSpelled_escaped c ih

/-! ## Numbers -/

theorem digitsValue_toDigits (n : Nat) : digitsValue (Nat.toDigits 10 n) = n := by
  have value : ∀ digits, digitsValue digits = Nat.ofDigitChars 10 digits 0 := by
    simp [digitsValue, Nat.ofDigitChars_eq_foldl, Nat.mul_comm]
  rw [value, Nat.ofDigitChars_ten_toDigits]

theorem isDigit_of_mem_toDigits {n : Nat} : ∀ c ∈ Nat.toDigits 10 n, c.isDigit = true :=
  fun _ h => Nat.isDigit_of_mem_toDigits (by omega) (by omega) h

theorem exists_toDigits (n : Nat) :
    ∃ d ds, Nat.toDigits 10 n = d :: ds ∧ d.isDigit = true := by
  obtain ⟨d, ds, cons⟩ := List.exists_cons_of_ne_nil (Nat.toDigits_ne_nil (n := n) (b := 10))
  exact ⟨d, ds, cons, isDigit_of_mem_toDigits d (cons ▸ List.mem_cons_self)⟩

theorem head?_toDigits {n : Nat} (pos : 0 < n) : (Nat.toDigits 10 n).head? ≠ some '0' := by
  induction n using Nat.strongRecOn with
  | ind n ih =>
    rw [Nat.toDigits_eq_if (by omega)]
    split
    next => simpa using Nat.ne_of_gt pos
    next =>
      have first := ih (n / 10) (by omega) (by omega)
      obtain ⟨d, ds, cons, -⟩ := exists_toDigits (n / 10)
      simpa [cons] using first

/-- A run of digits does not go on in the text. -/
def EndsDigits (rest : List Char) : Prop := ∀ c ∈ rest.head?, c.isDigit = false

/-- A number does not go on in the text. -/
def EndsNumber (rest : List Char) : Prop :=
  ∀ c ∈ rest.head?, c.isDigit = false ∧ c ≠ '.' ∧ c ≠ 'e' ∧ c ≠ 'E'

theorem EndsNumber.endsDigits {rest : List Char} (ends : EndsNumber rest) : EndsDigits rest :=
  fun c h => (ends c h).1

def fractionChars (digits : List Char) : List Char :=
  if digits.isEmpty then [] else '.' :: digits

/-- The ways to write an exponent: with a small or a big letter, a plus sign or none, and any zeros
before the other digits. -/
inductive ExponentSpelled : Option Int → List Char → Prop
  | none : ExponentSpelled none []
  | plain {mark : Char} {digits : List Char} (letter : mark = 'e' ∨ mark = 'E')
    (filled : digits ≠ []) (each : ∀ c ∈ digits, c.isDigit = true) :
    ExponentSpelled (some (digitsValue digits)) (mark :: digits)
  | plus {mark : Char} {digits : List Char} (letter : mark = 'e' ∨ mark = 'E')
    (filled : digits ≠ []) (each : ∀ c ∈ digits, c.isDigit = true) :
    ExponentSpelled (some (digitsValue digits)) (mark :: '+' :: digits)
  | minus {mark : Char} {digits : List Char} (letter : mark = 'e' ∨ mark = 'E')
    (filled : digits ≠ []) (each : ∀ c ∈ digits, c.isDigit = true) :
    ExponentSpelled (some (-digitsValue digits)) (mark :: '-' :: digits)

/-- The ways to write a number. There is one for all of it but the exponent. -/
inductive NumberSpelled (n : Number) : List Char → Prop
  | intro {exponent : List Char} (digits : ∀ c ∈ n.fraction, c.isDigit = true)
    (tail : ExponentSpelled n.exponent exponent) :
    NumberSpelled n ((if n.negative then ['-'] else []) ++
      (Nat.toDigits 10 n.whole ++ (fractionChars n.fraction ++ exponent)))

theorem toList_toString (e : Int) :
    (toString e).toList = (if e < 0 then ['-'] else []) ++ Nat.toDigits 10 e.natAbs := by
  cases e with
  | ofNat k => simp [Int.repr]
  | negSucc k => simp [Int.repr, Int.negSucc_lt_zero]

def exponentChars : Option Int → List Char
  | none => []
  | some e => 'e' :: (toString e).toList

theorem exponentSpelled_exponentChars (exponent : Option Int) :
    ExponentSpelled exponent (exponentChars exponent) := by
  cases exponent with
  | none => exact .none
  | some e =>
    have filled : Nat.toDigits 10 e.natAbs ≠ [] := Nat.toDigits_ne_nil
    have value := digitsValue_toDigits e.natAbs
    rw [exponentChars, toList_toString]
    by_cases sign : e < 0
    · have minus := ExponentSpelled.minus (.inl rfl) filled isDigit_of_mem_toDigits
      have whole : -(e.natAbs : Int) = e := by omega
      rw [value, whole] at minus
      rwa [if_pos sign]
    · have plain := ExponentSpelled.plain (.inl rfl) filled isDigit_of_mem_toDigits
      have whole : (e.natAbs : Int) = e := by omega
      rw [value, whole] at plain
      rwa [if_neg sign]

theorem numberSpelled_chars {n : Number} (digits : ∀ c ∈ n.fraction, c.isDigit = true) :
    NumberSpelled n n.chars := by
  have spelled := NumberSpelled.intro digits (exponentSpelled_exponentChars n.exponent)
  rw [← List.append_assoc, ← List.append_assoc] at spelled
  exact spelled

section

variable {n : Number} {exponent rest : List Char}

theorem scanExponent_spelled (spelled : ExponentSpelled n.exponent exponent)
    (ends : EndsNumber rest) :
    scanExponent ⟨n.negative, n.whole, n.fraction, none⟩ (exponent ++ rest) =
      (.number n, some rest) := by
  obtain ⟨negative, whole, fraction, e⟩ := n
  cases spelled with
  | none =>
    cases rest with
    | nil => rfl
    | cons c rest =>
      have other := ends c rfl
      simp [scanExponent, other]
  | @plain mark digits letter filled each =>
    obtain ⟨d, ds, rfl⟩ := List.exists_cons_of_ne_nil filled
    have taken := takeWhile_run each ends.endsDigits
    have dropped := dropWhile_run each ends.endsDigits
    have first := each d List.mem_cons_self
    simp only [List.cons_append, scanExponent, letter, ↓reduceIte] at taken dropped ⊢
    split
    next behind minus =>
      rw [(List.cons.inj minus).1] at first
      cases first
    next behind plus =>
      rw [(List.cons.inj plus).1] at first
      cases first
    next =>
      rw [taken, dropped]
      rfl
  | @plus mark digits letter filled each =>
    have taken := takeWhile_run each ends.endsDigits
    have dropped := dropWhile_run each ends.endsDigits
    simp [scanExponent, letter, taken, dropped, filled]
  | @minus mark digits letter filled each =>
    have taken := takeWhile_run each ends.endsDigits
    have dropped := dropWhile_run each ends.endsDigits
    simp [scanExponent, letter, taken, dropped, filled]

theorem endsDigits_exponent {e : Option Int} (spelled : ExponentSpelled e exponent)
    (ends : EndsNumber rest) : EndsDigits (exponent ++ rest) := by
  cases spelled with
  | none => exact ends.endsDigits
  | plain letter | plus letter | minus letter =>
    intro c first
    cases first
    rcases letter with rfl | rfl <;> rfl

theorem head?_exponent_ne_dot {e : Option Int} (spelled : ExponentSpelled e exponent)
    (ends : EndsNumber rest) : ∀ behind, exponent ++ rest ≠ '.' :: behind := by
  rintro behind dot
  cases spelled with
  | none =>
    rw [List.nil_append] at dot
    subst dot
    exact (ends '.' rfl).2.1 rfl
  | plain letter | plus letter | minus letter =>
    have mark := (List.cons.inj dot).1
    rcases letter with rfl | rfl <;> cases mark

theorem scanFraction_spelled (digits : ∀ c ∈ n.fraction, c.isDigit = true)
    (spelled : ExponentSpelled n.exponent exponent) (ends : EndsNumber rest) :
    scanFraction ⟨n.negative, n.whole, [], none⟩
        (fractionChars n.fraction ++ (exponent ++ rest)) = (.number n, some rest) := by
  have tail := scanExponent_spelled spelled ends
  cases fraction : n.fraction with
  | nil =>
    rw [fraction] at tail
    rw [fractionChars, List.isEmpty_nil, if_pos rfl, List.nil_append, scanFraction]
    · exact tail
    · exact head?_exponent_ne_dot spelled ends
  | cons d ds =>
    have behind := endsDigits_exponent spelled ends
    rw [fraction] at tail digits
    rw [fractionChars, List.isEmpty_cons, if_neg (by simp), List.cons_append, scanFraction]
    rw [takeWhile_run digits behind, dropWhile_run digits behind]
    exact tail

theorem endsDigits_fractionChars (spelled : ExponentSpelled n.exponent exponent)
    (ends : EndsNumber rest) : EndsDigits (fractionChars n.fraction ++ (exponent ++ rest)) := by
  cases n.fraction with
  | nil =>
    rw [fractionChars, List.isEmpty_nil, if_pos rfl, List.nil_append]
    exact endsDigits_exponent spelled ends
  | cons d ds => simp [EndsDigits, fractionChars]

/-- A number is read back behind its sign. -/
theorem scanNumber_spelled (digits : ∀ c ∈ n.fraction, c.isDigit = true)
    (spelled : ExponentSpelled n.exponent exponent) (ends : EndsNumber rest) :
    scanNumber n.negative (Nat.toDigits 10 n.whole ++
        (fractionChars n.fraction ++ (exponent ++ rest))) = (.number n, some rest) := by
  have behind := endsDigits_fractionChars spelled ends
  have fraction := scanFraction_spelled digits spelled ends
  unfold scanNumber
  rcases Nat.eq_zero_or_pos n.whole with zero | pos
  · have none : ∀ c ∈ ([] : List Char), c.isDigit = true := nofun
    have alone := takeWhile_run none behind
    rw [List.nil_append] at alone
    rw [zero] at fraction
    rw [zero, Nat.toDigits_zero, List.singleton_append]
    simp only [alone, List.isEmpty_nil, ↓reduceIte]
    exact fraction
  · obtain ⟨d, ds, cons, -⟩ := exists_toDigits n.whole
    split
    next behind zero =>
      rw [cons] at zero
      have first := head?_toDigits pos
      rw [cons, List.head?_cons, (List.cons.inj zero).1] at first
      exact absurd rfl first
    next =>
      simp only [takeWhile_run isDigit_of_mem_toDigits behind,
        dropWhile_run isDigit_of_mem_toDigits behind, digitsValue_toDigits]
      rw [if_neg (by simp [Nat.toDigits_ne_nil])]
      exact fraction

end

end WrapperGen.Json
