import WrapperGen.Proofs.TypeRef.Steps

namespace WrapperGen.TypeRef

mutual

/-- The texts of a type: a whole run of name characters that is a name with dots, the arguments
between brackets if there are any, and the mark for null, with blanks in front of each. -/
inductive Written : TypeRef → List Char → Prop
  | mk {name : String} {args : List TypeArg} {nullable : Bool} {a b inner c : List Char}
    (before : IsBlanks a) (named : IsDottedName name)
    (whole : ∀ d ∈ (b ++ (inner ++ (c ++ nullMark nullable))).head?, isNameChar d = false)
    (behind : IsBlanks b) (inside : ArgsWritten args inner) (after : IsBlanks c) :
    Written (.mk name args nullable)
      (a ++ (name.toList ++ (b ++ (inner ++ (c ++ nullMark nullable)))))

/-- No arguments and no brackets, or some arguments between brackets. -/
inductive ArgsWritten : List TypeArg → List Char → Prop
  | none : ArgsWritten [] []
  | some {args : List TypeArg} {inner : List Char} (items : ItemsWritten args inner) :
    ArgsWritten args ('<' :: inner)

/-- Arguments with the commas between them and the bracket behind them. -/
inductive ItemsWritten : List TypeArg → List Char → Prop
  | last {arg : TypeArg} {text : List Char} (item : ItemWritten arg text) :
    ItemsWritten [arg] (text ++ ['>'])
  | more {arg : TypeArg} {rest : List TypeArg} {text inner : List Char}
    (item : ItemWritten arg text) (others : ItemsWritten rest inner) :
    ItemsWritten (arg :: rest) (text ++ ',' :: inner)

/-- A star, or a type behind a mark of variance, or a type if the text does not start with such a
mark, with blanks on both sides. -/
inductive ItemWritten : TypeArg → List Char → Prop
  | star {a b : List Char} (before : IsBlanks a) (behind : IsBlanks b) :
    ItemWritten .star (a ++ '*' :: b)
  | marked {t : TypeRef} {a mark b text c : List Char} (before : IsBlanks a)
    (variance : mark ∈ varianceMarks) (between : IsBlanks b) (type : Written t text)
    (behind : IsBlanks c) : ItemWritten (.type t) (a ++ (mark ++ (b ++ (text ++ c))))
  | plain {t : TypeRef} {a text b : List Char} (before : IsBlanks a) (type : Written t text)
    (behind : IsBlanks b) (unmarked : ¬OpensWithVariance (a ++ (text ++ b))) :
    ItemWritten (.type t) (a ++ (text ++ b))

end

/-! ## What is written is read -/

/-- No name goes on in the text, whether blanks come first or not. -/
theorem EndsType.not_isNameChar {rest : List Char} (ends : EndsType (skipBlank rest)) :
    ∀ c ∈ rest.head?, isNameChar c = false := by
  cases rest with
  | nil => nofun
  | cons c rest =>
    intro d first
    cases first
    by_cases blank : isBlank c = true
    · exact not_isNameChar_of_isBlank blank
    · rw [skipBlank_of_not_isBlank (Bool.not_eq_true _ ▸ blank)] at ends
      exact (ends.name c rfl).1

theorem Written.opensWithName {t : TypeRef} {text : List Char} (h : Written t text) :
    OpensWithName text := by
  cases h with
  | mk before named =>
    obtain ⟨c, letters, name, letter⟩ := (isName_iff.mpr named).exists_cons
    rw [opensWithName_append_iff before, name]
    exact ⟨c, _, skipBlank_of_not_isBlank (not_isBlank_of_isNameChar letter), letter⟩

theorem exists_takeMark (name : String) (args : List TypeArg) (nullable : Bool)
    {c rest : List Char} (after : IsBlanks c) (ends : EndsType (skipBlank rest)) :
    ∃ left, takeMark name args (skipBlank (c ++ (nullMark nullable ++ rest))) =
      (mk name args nullable, left) ∧ skipBlank left = skipBlank rest := by
  rw [skipBlank_append after]
  cases nullable with
  | true => exact ⟨rest, rfl, rfl⟩
  | false => exact ⟨_, takeMark_of_not_mark name args ends.notMark, skipBlank_skipBlank rest⟩

theorem not_open_of_mark (nullable : Bool) {c rest : List Char} (after : IsBlanks c)
    (ends : EndsType (skipBlank rest)) :
    ∀ inner, skipBlank (c ++ (nullMark nullable ++ rest)) ≠ '<' :: inner := by
  rw [skipBlank_append after]
  cases nullable with
  | true => nofun
  | false => exact ends.notOpen

/-- With brackets the arguments are taken from between them, without any there are none. -/
theorem parseOpened_written {fuel : Nat} {args : List TypeArg}
    (arguments : ∀ {inner : List Char}, ItemsWritten args inner → 2 * inner.length + 1 ≤ fuel →
      ∀ rest, parseArgs fuel (inner ++ rest) = .ok (args, rest))
    {inner behind : List Char} (inside : ArgsWritten args inner) (enough : 2 * inner.length ≤ fuel)
    (notOpen : ∀ text, skipBlank behind ≠ '<' :: text) :
    ∃ left, parseOpened fuel (skipBlank (inner ++ behind)) = .ok (args, left) ∧
      skipBlank left = skipBlank behind := by
  cases inside with
  | none => exact ⟨_, parseOpened_of_not_open fuel notOpen, skipBlank_skipBlank behind⟩
  | @some _ inner items =>
    have room : 2 * inner.length + 1 ≤ fuel := by
      rw [List.length_cons] at enough
      omega
    exact ⟨behind, arguments items room behind, rfl⟩

mutual

theorem parseType_written (t : TypeRef) {text : List Char} (h : Written t text) {fuel : Nat}
    (enough : 2 * text.length ≤ fuel) {rest : List Char} (ends : EndsType (skipBlank rest)) :
    ∃ left, parseType fuel (text ++ rest) = .ok (t, left) ∧ skipBlank left = skipBlank rest := by
  cases t with
  | mk name args nullable =>
    cases h with
    | @mk _ _ _ a b inner c before named whole behind inside after =>
      have isName := isName_iff.mpr named
      have filled : 0 < name.toList.length :=
        List.length_pos_iff.mpr (mt String.toList_eq_nil_iff.mp named.nonempty)
      simp only [List.length_append] at enough
      obtain ⟨fuel, rfl⟩ : ∃ n, fuel = n + 1 := Nat.exists_eq_add_one.mpr (by omega)
      have run : ∀ d ∈ (b ++ (inner ++ (c ++ nullMark nullable)) ++ rest).head?,
          isNameChar d = false := by
        intro d first
        rw [List.head?_append, Option.mem_def, Option.or_eq_some_iff] at first
        obtain here | ⟨-, later⟩ := first
        · exact whole d here
        · exact ends.not_isNameChar d later
      have room : 2 * inner.length ≤ fuel := by omega
      obtain ⟨after', opened, same'⟩ := parseOpened_written
        (fun items room => parseArgs_written args items room) inside room
        (not_open_of_mark nullable after ends)
      obtain ⟨left, mark, same⟩ := exists_takeMark name args nullable after ends
      refine ⟨left, ?_, same⟩
      rw [List.append_assoc, List.append_assoc, parseType_name before isName run]
      simp only [List.append_assoc]
      rw [skipBlank_append behind, opened]
      show (.ok (takeMark name args (skipBlank after')) : Except ParseError _) = _
      rw [same', mark]

theorem parseFirst_written (arg : TypeArg) {text : List Char} (h : ItemWritten arg text)
    {fuel : Nat} (enough : 2 * text.length ≤ fuel) {rest : List Char} (ends : EndsType rest) :
    ∃ left, parseFirst fuel (skipBlank (text ++ rest)) = .ok (arg, left) ∧
      skipBlank left = skipBlank rest := by
  cases arg with
  | star =>
    cases h with
    | @star a b before behind =>
      refine ⟨b ++ rest, ?_, skipBlank_append behind rest⟩
      rw [List.append_assoc, skipBlank_append before]
      rfl
  | type t =>
    have typed : ∀ {text c : List Char}, Written t text → 2 * text.length ≤ fuel → IsBlanks c →
        ∃ left, parseType fuel (text ++ (c ++ rest)) = .ok (t, left) ∧
          skipBlank left = skipBlank rest := by
      intro text c type room behind
      have ends' : EndsType (skipBlank (c ++ rest)) := by
        rwa [skipBlank_append behind, ends.name.skipBlank]
      obtain ⟨left, read, same⟩ := parseType_written t type room ends'
      exact ⟨left, read, same.trans (skipBlank_append behind rest)⟩
    cases h with
    | @marked _ a mark b text c before variance between type behind =>
      simp only [List.length_append] at enough
      obtain ⟨left, read, same⟩ := typed type (by omega) behind
      refine ⟨left, ?_, same⟩
      simp only [List.append_assoc]
      obtain ⟨solid, opens⟩ := opensWithVariance_mark before variance (b ++ (text ++ (c ++ rest)))
      rw [parseFirst_of_name fuel opens.name, solid, skipVariance_mark variance,
        skipBlank_append between, parseType_skipBlank, read]
      rfl
    | @plain _ a text b before type behind unmarked =>
      simp only [List.length_append] at enough
      obtain ⟨left, read, same⟩ := typed type (by omega) behind
      refine ⟨left, ?_, same⟩
      have opens : OpensWithName (a ++ (text ++ b)) := by
        rw [opensWithName_append_iff before]
        exact type.opensWithName.append b
      have unmarked' := mt (opensWithVariance_append opens.ne_nil ends.name).mp unmarked
      rw [parseFirst_of_name fuel (opens.append rest),
        skipVariance_of_not_opens unmarked', parseType_skipBlank, List.append_assoc,
        ← parseType_skipBlank, skipBlank_append before, parseType_skipBlank, List.append_assoc,
        read]
      rfl

theorem parseArgs_written (args : List TypeArg) {text : List Char} (h : ItemsWritten args text)
    {fuel : Nat} (enough : 2 * text.length + 1 ≤ fuel) (rest : List Char) :
    parseArgs fuel (text ++ rest) = .ok (args, rest) := by
  obtain ⟨fuel, rfl⟩ := Nat.exists_eq_add_one.mpr (Nat.zero_lt_of_lt enough)
  cases args with
  | nil => cases h
  | cons arg others =>
    rw [parseArgs_succ]
    cases h with
    | @last _ text item =>
      simp only [List.length_append, List.length_singleton] at enough
      have room : 2 * text.length ≤ fuel := by omega
      obtain ⟨left, read, same⟩ := parseFirst_written arg item room (endsType_close rest)
      rw [List.append_assoc, List.singleton_append, read]
      exact (parseMore_congr fuel arg same).trans (parseMore_close fuel arg rest)
    | @more _ _ text inner item later =>
      simp only [List.length_append, List.length_cons] at enough
      have room : 2 * text.length ≤ fuel := by omega
      have room' : 2 * inner.length + 1 ≤ fuel := by omega
      obtain ⟨left, read, same⟩ :=
        parseFirst_written arg item room (endsType_comma (inner ++ rest))
      rw [List.append_assoc, List.cons_append, read]
      exact (parseMore_congr fuel arg same).trans
        (parseMore_comma arg (parseArgs_written others later room' rest))

end

/-! ## What is read is written -/

/-- The name that is read, and the brackets behind it, if there are any, with what they hold. -/
theorem written_of_parts {text rest : List Char} {name : String} {args : List TypeArg}
    {t : TypeRef} {inner after : List Char}
    (spelled : name = String.ofList ((skipBlank text).takeWhile isNameChar)) (named : IsName name)
    (opened : skipBlank ((skipBlank text).dropWhile isNameChar) = inner ++ after)
    (inside : ArgsWritten args inner) (mark : takeMark name args (skipBlank after) = (t, rest)) :
    ∃ type, text = type ++ rest ∧ Written t type := by
  obtain ⟨nullable, rfl, marked⟩ := of_takeMark mark
  obtain ⟨a, before, front⟩ := exists_blanks text
  obtain ⟨b, behind, middle⟩ := exists_blanks ((skipBlank text).dropWhile isNameChar)
  obtain ⟨c, later, back⟩ := exists_blanks after
  have split : skipBlank text = name.toList ++ (skipBlank text).dropWhile isNameChar := by
    rw [spelled, String.toList_ofList, List.takeWhile_append_dropWhile]
  have tail : (skipBlank text).dropWhile isNameChar =
      b ++ (inner ++ (c ++ nullMark nullable)) ++ rest := by
    rw [middle, opened, back, marked]
    simp only [List.append_assoc]
  have whole : ∀ d ∈ (b ++ (inner ++ (c ++ nullMark nullable))).head?, isNameChar d = false := by
    intro d first
    have first' : ((skipBlank text).dropWhile isNameChar).head? = some d := by
      rw [tail, List.head?_append, first]
      rfl
    have stopped := List.head?_dropWhile_not isNameChar (skipBlank text)
    rw [first'] at stopped
    exact stopped
  refine ⟨_, ?_, .mk before (isName_iff.mp named) whole behind inside later⟩
  rw [List.append_assoc, List.append_assoc, ← tail, ← split]
  exact front

/-- An argument that is read up to the comma or the bracket behind it. -/
theorem itemWritten_of_parse {fuel : Nat}
    (types : ∀ text t rest, parseType fuel text = .ok (t, rest) →
      ∃ type, text = type ++ rest ∧ Written t type)
    {text after : List Char} {arg : TypeArg}
    (read : arg = .star ∧ skipBlank text = '*' :: after ∨
      ∃ t, arg = .type t ∧ parseType fuel (skipVariance (skipBlank text)) = .ok (t, after))
    {c rest : List Char} (behind : IsBlanks c) (stop : after = c ++ rest) :
    ∃ item, text = item ++ rest ∧ ItemWritten arg item := by
  obtain ⟨a, before, front⟩ := exists_blanks text
  obtain ⟨rfl, star⟩ | ⟨t, rfl, read⟩ := read
  · refine ⟨a ++ '*' :: c, ?_, .star before behind⟩
    rw [List.append_assoc, List.cons_append, ← stop, ← star]
    exact front
  · obtain ⟨type, split, typed⟩ := types _ t after read
    by_cases opens : OpensWithVariance text
    · obtain ⟨mark, variance, more, marked⟩ := opens
      obtain ⟨b, between, middle⟩ := exists_blanks more
      rw [← marked, skipVariance_mark variance] at split
      refine ⟨a ++ (mark ++ (b ++ (type ++ c))), ?_, .marked before variance between typed behind⟩
      simp only [List.append_assoc]
      rw [← stop, ← split, ← middle, marked]
      exact front
    · rw [skipVariance_of_not_opens opens] at split
      have cut : text = a ++ (type ++ c) ++ rest := by
        simp only [List.append_assoc]
        rw [← stop, ← split]
        exact front
      exact ⟨_, cut, .plain before typed behind fun more => opens (cut ▸ more.append rest)⟩

theorem written_of_parse (fuel : Nat) :
    (∀ text t rest, parseType fuel text = .ok (t, rest) →
      ∃ type, text = type ++ rest ∧ Written t type) ∧
    ∀ text args rest, parseArgs fuel text = .ok (args, rest) →
      ∃ inner, text = inner ++ rest ∧ ItemsWritten args inner := by
  induction fuel with
  | zero => exact ⟨nofun, nofun⟩
  | succ fuel ih =>
    obtain ⟨types, arguments⟩ := ih
    constructor
    · intro text t rest h
      obtain ⟨named, ⟨inner, args, after, opened, inside, mark⟩ | mark⟩ := of_parseType h
      · obtain ⟨items, rfl, written⟩ := arguments inner args after inside
        exact written_of_parts rfl named opened (.some written) mark
      · rw [skipBlank_skipBlank] at mark
        exact written_of_parts rfl named (List.nil_append _).symm .none
          (by rwa [skipBlank_skipBlank])
    · intro text args rest h
      obtain ⟨arg, after, more, read⟩ := of_parseArgs h
      obtain ⟨c, behind, stop⟩ := exists_blanks after
      obtain ⟨item, rfl, written⟩ := itemWritten_of_parse types read behind stop
      obtain ⟨later, others, comma, inside, rfl⟩ | ⟨close, rfl⟩ := of_parseMore more
      · obtain ⟨inner, rfl, items⟩ := arguments later others rest inside
        refine ⟨item ++ ',' :: inner, ?_, .more written items⟩
        rw [comma, List.append_assoc, List.cons_append]
      · refine ⟨item ++ ['>'], ?_, .last written⟩
        rw [close, List.append_assoc, List.singleton_append]

theorem exists_written_of_parse {text : String} {t : TypeRef} (h : parse text = .ok t) :
    ∃ type blanks, text.toList = type ++ blanks ∧ Written t type ∧ IsBlanks blanks := by
  obtain ⟨⟨u, rest⟩, read, h⟩ := bind_eq_ok_iff.mp h
  simp only [List.isEmpty_iff] at h
  split at h
  next none =>
    cases h
    obtain ⟨type, split, written⟩ := (written_of_parse _).1 text.toList t rest read
    exact ⟨type, rest, split, written, skipBlank_eq_nil_iff.mp none⟩
  next => cases h

theorem parse_of_written {text : String} {t : TypeRef} {type blanks : List Char}
    (split : text.toList = type ++ blanks) (written : Written t type) (behind : IsBlanks blanks) :
    parse text = .ok t := by
  have none : skipBlank blanks = [] := skipBlank_eq_nil_iff.mpr behind
  have room : 2 * type.length ≤ 2 * text.length + 2 := by
    have total := congrArg List.length split
    rw [List.length_append, String.length_toList] at total
    omega
  obtain ⟨left, read, same⟩ := parseType_written t written room (none ▸ endsType_nil)
  rw [parse, split, read]
  show (if (skipBlank left).isEmpty = true then _ else _) = _
  rw [same, none]
  rfl

/-- A text is read as a type just when the grammar derives it as that type, but for blanks behind
it. -/
theorem parse_eq_ok_iff (text : String) (t : TypeRef) :
    parse text = .ok t ↔
      ∃ type blanks, text.toList = type ++ blanks ∧ Written t type ∧ IsBlanks blanks := by
  constructor
  · exact exists_written_of_parse
  · rintro ⟨type, blanks, split, written, behind⟩
    exact parse_of_written split written behind

end WrapperGen.TypeRef
