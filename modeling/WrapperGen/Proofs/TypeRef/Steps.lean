import WrapperGen.Proofs.Fallible
import WrapperGen.Proofs.TypeRef.Names

namespace WrapperGen.TypeRef

/-! ## Marks of variance -/

/-- The words that mark variance, with the space behind them. -/
def varianceMarks : List (List Char) := [['o', 'u', 't', ' '], ['i', 'n', ' ']]

/-- Behind its blanks the text starts with a mark of variance. -/
def OpensWithVariance (text : List Char) : Prop := ∃ mark ∈ varianceMarks, mark <+: skipBlank text

instance : DecidablePred OpensWithVariance := fun text =>
  inferInstanceAs (Decidable (∃ mark ∈ varianceMarks, mark <+: skipBlank text))

theorem exists_word_of_mark {mark : List Char} (variance : mark ∈ varianceMarks) :
    ∃ c word, mark = c :: word ++ [' '] ∧ ∀ d ∈ c :: word, isNameChar d = true := by
  simp only [varianceMarks, List.mem_cons, List.not_mem_nil, or_false] at variance
  rcases variance with rfl | rfl
  · exact ⟨'o', ['u', 't'], rfl, List.all_eq_true.mp (by decide)⟩
  · exact ⟨'i', ['n'], rfl, List.all_eq_true.mp (by decide)⟩

theorem skipVariance_mark {mark : List Char} (variance : mark ∈ varianceMarks)
    (rest : List Char) : skipVariance (mark ++ rest) = skipBlank rest := by
  simp only [varianceMarks, List.mem_cons, List.not_mem_nil, or_false] at variance
  rcases variance with rfl | rfl <;> rfl

theorem OpensWithVariance.name {text : List Char} (opens : OpensWithVariance text) :
    OpensWithName text := by
  obtain ⟨mark, variance, more, front⟩ := opens
  obtain ⟨c, word, rfl, letters⟩ := exists_word_of_mark variance
  exact ⟨c, _, front.symm, letters c List.mem_cons_self⟩

theorem opensWithVariance_mark {a mark : List Char} (before : IsBlanks a)
    (variance : mark ∈ varianceMarks) (rest : List Char) :
    skipBlank (a ++ (mark ++ rest)) = mark ++ rest ∧ OpensWithVariance (a ++ (mark ++ rest)) := by
  have solid : skipBlank (mark ++ rest) = mark ++ rest := by
    obtain ⟨c, word, rfl, letters⟩ := exists_word_of_mark variance
    exact skipBlank_of_not_isBlank (not_isBlank_of_isNameChar (letters c List.mem_cons_self))
  rw [← skipBlank_append before] at solid
  exact ⟨solid, mark, variance, rest, solid.symm⟩

theorem OpensWithVariance.append {text : List Char} (opens : OpensWithVariance text)
    (rest : List Char) : OpensWithVariance (text ++ rest) := by
  have some := opens.name.ne_nil
  obtain ⟨mark, variance, front⟩ := opens
  refine ⟨mark, variance, ?_⟩
  rw [skipBlank_append_of_ne_nil some]
  exact front.trans (List.prefix_append _ _)

/-- A mark of variance ends before anything with which no name goes on. -/
theorem opensWithVariance_append {text rest : List Char} (some : skipBlank text ≠ [])
    (ends : EndsName rest) : OpensWithVariance (text ++ rest) ↔ OpensWithVariance text := by
  refine ⟨fun ⟨mark, variance, front⟩ => ⟨mark, variance, ?_⟩, fun opens => opens.append rest⟩
  rw [skipBlank_append_of_ne_nil some] at front
  obtain shorter | ⟨more, longer⟩ :=
    List.prefix_or_prefix_of_prefix front (List.prefix_append _ _)
  · exact shorter
  · rw [← longer, List.prefix_append_right_inj] at front
    cases more with
    | nil => exact ⟨[], by rw [← longer, List.append_nil, List.append_nil]⟩
    | cons d more =>
      -- The mark would go on with the first character behind the text, which is in no mark.
      obtain ⟨behind, rfl⟩ := front
      have inside : d ∈ mark := longer ▸ List.mem_append_right _ List.mem_cons_self
      obtain ⟨c, word, rfl, letters⟩ := exists_word_of_mark variance
      obtain ⟨letter, blank⟩ := ends d rfl
      obtain here | space := List.mem_append.mp inside
      · rw [letters d here] at letter
        cases letter
      · obtain rfl := List.mem_singleton.mp space
        exact absurd blank (by decide)

/-- A mark of variance is left out as if it were a name. -/
theorem skipVariance_of_opens {text : List Char} (opens : OpensWithVariance text) :
    skipVariance (skipBlank text) = skipBlank ((skipBlank text).dropWhile isNameChar) := by
  obtain ⟨mark, variance, more, front⟩ := opens
  rw [← front, skipVariance_mark variance]
  obtain ⟨c, word, rfl, letters⟩ := exists_word_of_mark variance
  have blank : ∀ d ∈ ([' '] ++ more).head?, isNameChar d = false := by
    rintro d ⟨⟩
    decide
  rw [List.append_assoc, dropWhile_run letters blank]
  rfl

theorem skipVariance_of_not_opens {text : List Char}
    (unmarked : ¬OpensWithVariance text) : skipVariance (skipBlank text) = skipBlank text := by
  unfold skipVariance
  split
  next rest out => exact absurd ⟨_, List.mem_cons_self, rest, out.symm⟩ unmarked
  next rest into =>
    exact absurd ⟨_, List.mem_cons_of_mem _ List.mem_cons_self, rest, into.symm⟩ unmarked
  next => rfl

/-! ## The mark for null -/

def nullMark (nullable : Bool) : List Char := if nullable then ['?'] else []

/-- The type of a name and its arguments, with the mark for null if the text starts with it. -/
def takeMark (name : String) (args : List TypeArg) : List Char → TypeRef × List Char
  | '?' :: rest => (mk name args true, rest)
  | rest => (mk name args false, rest)

theorem ok_takeMark (name : String) (args : List TypeArg) (text : List Char) :
    (match text with
      | '?' :: rest => (.ok (mk name args true, rest) : Except ParseError _)
      | rest => .ok (mk name args false, rest)) = .ok (takeMark name args text) := by
  unfold takeMark
  split <;> rfl

theorem takeMark_of_not_mark (name : String) (args : List TypeArg) {text : List Char}
    (unmarked : ∀ rest, text ≠ '?' :: rest) :
    takeMark name args text = (mk name args false, text) := by
  unfold takeMark
  split
  next rest => exact absurd rfl (unmarked rest)
  next => rfl

theorem of_takeMark {name : String} {args : List TypeArg} {text rest : List Char} {t : TypeRef}
    (h : takeMark name args text = (t, rest)) :
    ∃ nullable, t = mk name args nullable ∧ text = nullMark nullable ++ rest := by
  unfold takeMark at h
  split at h
  next =>
    cases h
    exact ⟨true, rfl, rfl⟩
  next =>
    cases h
    exact ⟨false, rfl, rfl⟩

/-! ## The parser step by step -/

/-- Goes on behind the first of some arguments. -/
def parseMore (fuel : Nat) (arg : TypeArg) (text : List Char) :
    Except ParseError (List TypeArg × List Char) :=
  match skipBlank text with
  | ',' :: rest => do
    let (args, rest) ← parseArgs fuel rest
    return (arg :: args, rest)
  | '>' :: rest => return ([arg], rest)
  | _ => .error .missingSeparator

theorem parseMore_close (fuel : Nat) (arg : TypeArg) (rest : List Char) :
    parseMore fuel arg ('>' :: rest) = .ok ([arg], rest) := rfl

theorem parseMore_comma {fuel : Nat} (arg : TypeArg) {args : List TypeArg} {text rest : List Char}
    (others : parseArgs fuel text = .ok (args, rest)) :
    parseMore fuel arg (',' :: text) = .ok (arg :: args, rest) := by
  show (do let (args, rest) ← parseArgs fuel text; return (arg :: args, rest)) = _
  rw [others]
  rfl

theorem parseMore_error (fuel : Nat) (arg : TypeArg) {text : List Char}
    (noComma : ∀ rest, skipBlank text ≠ ',' :: rest)
    (noClose : ∀ rest, skipBlank text ≠ '>' :: rest) :
    parseMore fuel arg text = .error .missingSeparator := by
  unfold parseMore
  split
  next rest comma => exact absurd comma (noComma rest)
  next rest close => exact absurd close (noClose rest)
  next => rfl

/-- Reads arguments if a bracket opens them. -/
def parseOpened (fuel : Nat) : List Char → Except ParseError (List TypeArg × List Char)
  | '<' :: rest => parseArgs fuel rest
  | rest => .ok ([], rest)

/-- Reads the first of some arguments, from its first character that is no blank. -/
def parseFirst (fuel : Nat) : List Char → Except ParseError (TypeArg × List Char)
  | '*' :: rest => .ok (.star, rest)
  | text => do
    let (t, rest) ← parseType fuel (skipVariance text)
    .ok (.type t, rest)

theorem parseOpened_of_not_open (fuel : Nat) {text : List Char}
    (notOpen : ∀ inner, text ≠ '<' :: inner) : parseOpened fuel text = .ok ([], text) := by
  unfold parseOpened
  split
  next inner => exact absurd rfl (notOpen inner)
  next => rfl

theorem parseFirst_of_not_star (fuel : Nat) {text : List Char}
    (notStar : ∀ rest, text ≠ '*' :: rest) :
    parseFirst fuel text =
      parseType fuel (skipVariance text) >>= fun (t, rest) => .ok (.type t, rest) := by
  unfold parseFirst
  split
  next rest => exact absurd rfl (notStar rest)
  next => rfl

theorem parseType_succ (fuel : Nat) (text : List Char) :
    parseType (fuel + 1) text =
      let name := (skipBlank text).takeWhile isNameChar
      if name.isEmpty then .error .missingName
      else if !isDotted name then .error .malformedName
      else parseOpened fuel (skipBlank ((skipBlank text).dropWhile isNameChar)) >>=
        fun (args, rest) => .ok (takeMark (String.ofList name) args (skipBlank rest)) := by
  rw [parseType]
  simp only []
  split
  next => rfl
  next =>
    split
    next => rfl
    next =>
      generalize skipBlank ((skipBlank text).dropWhile isNameChar) = behind
      by_cases opened : ∃ inner, behind = '<' :: inner
      · obtain ⟨inner, rfl⟩ := opened
        exact bind_congr fun x => ok_takeMark _ x.1 (skipBlank x.2)
      · have closed := not_exists.mp opened
        rw [parseOpened_of_not_open fuel closed]
        split
        next inner => exact absurd rfl (closed inner)
        next => exact ok_takeMark _ [] (skipBlank behind)

theorem parseArgs_succ (fuel : Nat) (text : List Char) :
    parseArgs (fuel + 1) text =
      parseFirst fuel (skipBlank text) >>= fun (arg, rest) => parseMore fuel arg rest := by
  rw [parseArgs]
  generalize skipBlank text = solid
  by_cases star : ∃ rest, solid = '*' :: rest
  · obtain ⟨rest, rfl⟩ := star
    rfl
  · have noStar := not_exists.mp star
    rw [parseFirst_of_not_star fuel noStar]
    split
    next rest => exact absurd rfl (noStar rest)
    next => cases parseType fuel (skipVariance solid) <;> rfl

theorem parseType_name {fuel : Nat} {a behind : List Char} {name : String} (before : IsBlanks a)
    (named : IsName name) (ends : ∀ c ∈ behind.head?, isNameChar c = false) :
    parseType (fuel + 1) (a ++ (name.toList ++ behind)) =
      parseOpened fuel (skipBlank behind) >>=
        fun (args, rest) => .ok (takeMark name args (skipBlank rest)) := by
  obtain ⟨c, letters, text, letter⟩ := named.exists_cons
  have solid : skipBlank (a ++ (name.toList ++ behind)) = name.toList ++ behind := by
    rw [skipBlank_append before, text]
    exact skipBlank_of_not_isBlank (not_isBlank_of_isNameChar letter)
  have some : name.toList.isEmpty = false := by
    rw [text]
    rfl
  rw [parseType_succ, solid, takeWhile_run named.chars ends, dropWhile_run named.chars ends]
  simp only [some, named.dotted, String.ofList_toList, Bool.not_true, Bool.false_eq_true,
    ↓reduceIte]

theorem parseFirst_of_name (fuel : Nat) {text : List Char}
    (opens : OpensWithName text) :
    parseFirst fuel (skipBlank text) =
      parseType fuel (skipVariance (skipBlank text)) >>= fun (t, rest) => .ok (.type t, rest) :=
  parseFirst_of_not_star fuel (opens.ne_cons (by decide))

theorem parseType_skipBlank (fuel : Nat) (text : List Char) :
    parseType fuel (skipBlank text) = parseType fuel text := by
  cases fuel with
  | zero => rfl
  | succ fuel => rw [parseType_succ, parseType_succ, skipBlank_skipBlank]

theorem parseMore_congr (fuel : Nat) (arg : TypeArg) {text text' : List Char}
    (same : skipBlank text = skipBlank text') :
    parseMore fuel arg text = parseMore fuel arg text' := by
  rw [parseMore, parseMore, same]

/-! ## What a step of the parser has done -/

/-- A type that is read has the longest name at the front, then the arguments behind a bracket, if
there is one, and the mark for null. -/
theorem of_parseType {fuel : Nat} {text rest : List Char} {t : TypeRef}
    (h : parseType (fuel + 1) text = .ok (t, rest)) :
    let name := String.ofList ((skipBlank text).takeWhile isNameChar)
    let behind := skipBlank ((skipBlank text).dropWhile isNameChar)
    IsName name ∧
      ((∃ inner args after, behind = '<' :: inner ∧ parseArgs fuel inner = .ok (args, after) ∧
          takeMark name args (skipBlank after) = (t, rest)) ∨
        takeMark name [] (skipBlank behind) = (t, rest)) := by
  intro name behind
  rw [parseType] at h
  simp only [] at h
  split at h
  next => cases h
  next =>
    split at h
    next => cases h
    next dotted =>
      have named : IsName name := by
        refine ⟨fun c mem => ?_, ?_⟩
        · rw [String.toList_ofList] at mem
          exact List.mem_takeWhile_imp mem
        · rw [String.toList_ofList]
          simpa using dotted
      refine ⟨named, ?_⟩
      split at h
      next inner opened =>
        obtain ⟨⟨args, after⟩, inside, h⟩ := bind_eq_ok_iff.mp h
        have mark := (ok_takeMark name args (skipBlank after)).symm.trans h
        exact .inl ⟨inner, args, after, opened, inside, Except.ok.inj mark⟩
      next =>
        have mark := (ok_takeMark name [] (skipBlank behind)).symm.trans h
        exact .inr (Except.ok.inj mark)

theorem of_parseMore {fuel : Nat} {arg : TypeArg} {after rest : List Char} {args : List TypeArg}
    (h : parseMore fuel arg after = .ok (args, rest)) :
    (∃ later others, skipBlank after = ',' :: later ∧ parseArgs fuel later = .ok (others, rest) ∧
        args = arg :: others) ∨
      skipBlank after = '>' :: rest ∧ args = [arg] := by
  unfold parseMore at h
  split at h
  next later comma =>
    obtain ⟨⟨others, behind⟩, inside, h⟩ := bind_eq_ok_iff.mp h
    cases h
    exact .inl ⟨later, others, comma, inside, rfl⟩
  next close =>
    cases h
    exact .inr ⟨close, rfl⟩
  next => cases h

/-- The first of some arguments that are read is a star, or a type behind a mark of variance. -/
theorem of_parseArgs {fuel : Nat} {text rest : List Char} {args : List TypeArg}
    (h : parseArgs (fuel + 1) text = .ok (args, rest)) :
    ∃ arg after, parseMore fuel arg after = .ok (args, rest) ∧
      (arg = .star ∧ skipBlank text = '*' :: after ∨
        ∃ t, arg = .type t ∧ parseType fuel (skipVariance (skipBlank text)) = .ok (t, after)) := by
  rw [parseArgs] at h
  split at h
  next after star => exact ⟨.star, after, h, .inl ⟨rfl, star⟩⟩
  next =>
    obtain ⟨⟨t, after⟩, read, h⟩ := bind_eq_ok_iff.mp h
    exact ⟨.type t, after, h, .inr ⟨t, rfl, read⟩⟩

/-- Only a text that starts with a name is read as a type. -/
theorem opensWithName_of_parseType {fuel : Nat} {text rest : List Char} {t : TypeRef}
    (h : parseType fuel text = .ok (t, rest)) : OpensWithName text := by
  cases fuel with
  | zero => cases h
  | succ fuel =>
    obtain ⟨c, letters, name, letter⟩ := (of_parseType h).1.exists_cons
    rw [String.toList_ofList] at name
    refine ⟨c, letters ++ (skipBlank text).dropWhile isNameChar, ?_, letter⟩
    rw [← List.cons_append, ← name, List.takeWhile_append_dropWhile]

end WrapperGen.TypeRef
