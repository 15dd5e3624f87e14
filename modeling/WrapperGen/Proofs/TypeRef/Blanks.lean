import Mathlib.Data.List.Forall2
import WrapperGen.Proofs.TypeRef.Steps

namespace WrapperGen.TypeRef

/-! ## Texts that differ in their blanks -/

/-- Equal but for blanks, which may be any blanks. -/
def Respaced (text text' : List Char) : Prop :=
  List.Forall₂ (fun c c' => c = c' ∨ isBlank c = true ∧ isBlank c' = true) text text'

instance : DecidableRel Respaced := fun text text' =>
  inferInstanceAs (Decidable (List.Forall₂ _ text text'))

/-- Behind every bracket that opens and behind every comma both texts start with a mark of variance
or neither does. -/
def KeepsVariance : List Char → List Char → Prop
  | c :: text, _ :: text' =>
    ((c = '<' ∨ c = ',') → (OpensWithVariance text ↔ OpensWithVariance text')) ∧
      KeepsVariance text text'
  | _, _ => True

instance KeepsVariance.decidable : (text text' : List Char) → Decidable (KeepsVariance text text')
  | [], _ => .isTrue trivial
  | _ :: _, [] => .isTrue trivial
  | _ :: text, _ :: text' =>
    have := KeepsVariance.decidable text text'
    inferInstanceAs (Decidable (_ ∧ _))

theorem Respaced.symm {text text' : List Char} (same : Respaced text text') :
    Respaced text' text :=
  List.Forall₂.flip (same.imp fun _ _ alike => alike.imp Eq.symm And.symm)

theorem Respaced.exists_cons {c : Char} (solid : isBlank c = false) {text other : List Char}
    (same : Respaced (c :: text) other) : ∃ text', other = c :: text' ∧ Respaced text text' := by
  obtain ⟨c', text', alike, later, rfl⟩ := List.forall₂_cons_left_iff.mp same
  obtain rfl | ⟨blank, -⟩ := alike
  · exact ⟨text', rfl, later⟩
  · rw [solid] at blank
    cases blank

theorem Respaced.ne_cons {c : Char} (solid : isBlank c = false) {text text' : List Char}
    (same : Respaced text text') (other : ∀ rest, text ≠ c :: rest) :
    ∀ rest, text' ≠ c :: rest := by
  rintro rest rfl
  obtain ⟨rest', rfl, -⟩ := same.symm.exists_cons solid
  exact other rest' rfl

/-- Two texts that differ in their blanks, and keep variance just if the condition holds. -/
structure Tracks (keeps : Prop) (text text' : List Char) : Prop where
  same : Respaced text text'
  keeps_iff : keeps ↔ KeepsVariance text text'

/-- Two texts behind a bracket or a comma, which keep variance from there on just if the condition
holds. -/
structure TracksItem (keeps : Prop) (text text' : List Char) : Prop where
  same : Respaced text text'
  keeps_iff : keeps ↔ (OpensWithVariance text ↔ OpensWithVariance text') ∧ KeepsVariance text text'

namespace Tracks

variable {keeps : Prop} {text text' : List Char}

theorem of_cons {c d : Char} (h : Tracks keeps (c :: text) (d :: text'))
    (inside : c ≠ '<' ∧ c ≠ ',') : Tracks keeps text text' := by
  refine ⟨(List.forall₂_cons.mp h.same).2, h.keeps_iff.trans (and_iff_right ?_)⟩
  rintro (rfl | rfl)
  · exact absurd rfl inside.1
  · exact absurd rfl inside.2

theorem exists_cons {c : Char} {other : List Char} (h : Tracks keeps (c :: text) other)
    (solid : isBlank c = false) (inside : c ≠ '<' ∧ c ≠ ',') :
    ∃ text', other = c :: text' ∧ Tracks keeps text text' := by
  obtain ⟨text', rfl, -⟩ := h.same.exists_cons solid
  exact ⟨text', rfl, h.of_cons inside⟩

theorem exists_item {c : Char} {other : List Char} (h : Tracks keeps (c :: text) other)
    (starts : c = '<' ∨ c = ',') : ∃ text', other = c :: text' ∧ TracksItem keeps text text' := by
  have solid : isBlank c = false := by
    obtain rfl | rfl := starts <;> decide
  obtain ⟨text', rfl, same⟩ := h.same.exists_cons solid
  exact ⟨text', rfl, same, h.keeps_iff.trans (and_congr_left fun _ => forall_prop_of_true starts)⟩

/-- What is left out from the front, blanks or the characters of a name, is the same for both. -/
theorem dropWhile {kind : Char → Bool} (h : Tracks keeps text text')
    (alike : ∀ c c', isBlank c = true → isBlank c' = true → kind c = kind c')
    (inside : kind '<' = false ∧ kind ',' = false) :
    Tracks keeps (text.dropWhile kind) (text'.dropWhile kind) := by
  obtain ⟨same, keeps_iff⟩ := h
  induction same with
  | nil => exact ⟨.nil, keeps_iff⟩
  | @cons c c' text text' here same ih =>
    have kinds : kind c' = kind c := by
      obtain rfl | ⟨blank, blank'⟩ := here
      · rfl
      · exact alike c' c blank' blank
    cases taken : kind c with
    | false =>
      rw [List.dropWhile_cons_of_neg (by simp [taken]),
        List.dropWhile_cons_of_neg (by simp [kinds, taken])]
      exact ⟨.cons here same, keeps_iff⟩
    | true =>
      have other : c ≠ '<' ∧ c ≠ ',' := by
        constructor <;> rintro rfl <;> simp [inside] at taken
      have later : Tracks keeps text text' := of_cons ⟨.cons here same, keeps_iff⟩ other
      rw [List.dropWhile_cons_of_pos taken, List.dropWhile_cons_of_pos (kinds.trans taken)]
      exact ih later.keeps_iff

theorem afterBlanks (h : Tracks keeps text text') :
    Tracks keeps (skipBlank text) (skipBlank text') :=
  h.dropWhile (fun _ _ blank blank' => blank.trans blank'.symm) (by decide)

theorem afterName (h : Tracks keeps text text') :
    Tracks keeps (text.dropWhile isNameChar) (text'.dropWhile isNameChar) := by
  refine h.dropWhile (fun c c' blank blank' => ?_) (by decide)
  rw [not_isNameChar_of_isBlank blank, not_isNameChar_of_isBlank blank']

end Tracks

theorem Respaced.tracks {text text' : List Char} (same : Respaced text text') :
    Tracks (KeepsVariance text text') text text' := ⟨same, .rfl⟩

theorem takeName_of_respaced {text text' : List Char} (same : Respaced text text') :
    text'.takeWhile isNameChar = text.takeWhile isNameChar := by
  induction same with
  | nil => rfl
  | @cons c c' text text' here same ih =>
    obtain rfl | ⟨blank, blank'⟩ := here
    · rw [List.takeWhile_cons, List.takeWhile_cons, ih]
    · have outside := Bool.eq_false_iff.mp (not_isNameChar_of_isBlank blank)
      have outside' := Bool.eq_false_iff.mp (not_isNameChar_of_isBlank blank')
      rw [List.takeWhile_cons_of_neg outside, List.takeWhile_cons_of_neg outside']

theorem opensWithName_of_respaced {text text' : List Char} (same : Respaced text text')
    (opens : OpensWithName text) : OpensWithName text' := by
  obtain ⟨c, rest, front, letter⟩ := opens
  have solid := same.tracks.afterBlanks.same
  rw [front] at solid
  obtain ⟨rest', front', -⟩ := solid.exists_cons (not_isBlank_of_isNameChar letter)
  exact ⟨c, rest', front', letter⟩

theorem TracksItem.tracks {keeps : Prop} {text text' : List Char}
    (h : TracksItem keeps text text') (alike : OpensWithVariance text ↔ OpensWithVariance text') :
    Tracks keeps text text' := ⟨h.same, h.keeps_iff.trans (and_iff_right alike)⟩

/-- A mark of variance is left out in both texts or in neither. -/
theorem Tracks.afterVariance {keeps : Prop} {text text' : List Char}
    (tracks : Tracks keeps text text')
    (alike : OpensWithVariance text ↔ OpensWithVariance text') :
    Tracks keeps (skipVariance (skipBlank text)) (skipVariance (skipBlank text')) := by
  by_cases opens : OpensWithVariance text
  · rw [skipVariance_of_opens opens, skipVariance_of_opens (alike.mp opens)]
    exact tracks.afterBlanks.afterName.afterBlanks
  · rw [skipVariance_of_not_opens opens, skipVariance_of_not_opens (mt alike.mpr opens)]
    exact tracks.afterBlanks

/-! ## Two runs side by side -/

/-- What is read of two texts: the same with texts behind it that differ in blanks, or the same
error, unless the condition fails, and then one of the two is not read. -/
inductive Alike {α : Type} (keeps : Prop) :
    Except ParseError (α × List Char) → Except ParseError (α × List Char) → Prop
  | read (value : α) {rest rest' : List Char} (behind : Tracks keeps rest rest') :
    Alike keeps (.ok (value, rest)) (.ok (value, rest'))
  | failed (e : ParseError) : Alike keeps (.error e) (.error e)
  | apart {x y : Except ParseError (α × List Char)} (broken : ¬keeps)
    (notBoth : ∀ a b, ¬(x = .ok a ∧ y = .ok b)) : Alike keeps x y

variable {α β : Type} {keeps : Prop}

theorem Alike.bind {x y : Except ParseError (α × List Char)} (first : Alike keeps x y)
    {f g : α × List Char → Except ParseError (β × List Char)}
    (more : ∀ value rest rest', Tracks keeps rest rest' →
      Alike keeps (f (value, rest)) (g (value, rest'))) : Alike keeps (x >>= f) (y >>= g) := by
  cases first with
  | read value behind => exact more value _ _ behind
  | failed e => exact .failed e
  | apart broken notBoth =>
    refine .apart broken ?_
    rintro a b ⟨here, there⟩
    obtain ⟨a', here, -⟩ := bind_eq_ok_iff.mp here
    obtain ⟨b', there, -⟩ := bind_eq_ok_iff.mp there
    exact notBoth a' b' ⟨here, there⟩

/-- Two names with no mark of variance in front are not an argument. -/
theorem parseArgs_two_names (fuel : Nat) {text behind : List Char} (first : OpensWithName text)
    (second : OpensWithName behind) (unmarked : ¬OpensWithVariance text)
    (apart : skipBlank ((skipBlank text).dropWhile isNameChar) = skipBlank behind)
    (a : List TypeArg × List Char) : parseArgs fuel text ≠ .ok a := by
  intro h
  cases fuel with
  | zero => cases h
  | succ fuel =>
    obtain ⟨arg, after, more, ⟨-, star⟩ | ⟨t, -, read⟩⟩ := of_parseArgs h
    · exact first.ne_cons (by decide) after star
    · rw [skipVariance_of_not_opens unmarked] at read
      cases fuel with
      | zero => cases read
      | succ fuel =>
        obtain ⟨-, ⟨inner, -, -, opened, -⟩ | mark⟩ := of_parseType read
        · rw [skipBlank_skipBlank, apart] at opened
          exact second.ne_cons (by decide) inner opened
        · rw [skipBlank_skipBlank, apart, skipBlank_skipBlank,
            takeMark_of_not_mark _ _ (second.ne_cons (by decide))] at mark
          obtain ⟨-, rfl⟩ := Prod.mk.inj mark
          rw [parseMore_congr (fuel + 1) arg (skipBlank_skipBlank behind)] at more
          obtain ⟨later, -, comma, -⟩ | ⟨close, -⟩ := of_parseMore more
          · exact second.ne_cons (by decide) later comma
          · exact second.ne_cons (by decide) _ close

/-- An argument with a mark of variance in one text and none in the other is read in one of them at
most: behind the word that is no mark the name of the type is one name too many. -/
theorem notBoth_of_variance {fuel : Nat} {text text' : List Char} (same : Respaced text text')
    (opens : OpensWithVariance text) (unmarked : ¬OpensWithVariance text')
    (a b : List TypeArg × List Char) :
    ¬(parseArgs fuel text = .ok a ∧ parseArgs fuel text' = .ok b) := by
  rintro ⟨here, there⟩
  cases fuel with
  | zero => cases here
  | succ fuel =>
    obtain ⟨arg, after, -, ⟨-, star⟩ | ⟨t, -, read⟩⟩ := of_parseArgs here
    · exact opens.name.ne_cons (by decide) after star
    · have second := opensWithName_of_parseType read
      rw [skipVariance_of_opens opens, opensWithName_skipBlank_iff] at second
      have behind := same.tracks.afterBlanks.afterName.same
      exact parseArgs_two_names (fuel + 1) (opensWithName_of_respaced same opens.name)
        (opensWithName_of_respaced behind second) unmarked rfl b there

theorem alike_takeMark (name : String) (args : List TypeArg) {text text' : List Char}
    (h : Tracks keeps text text') :
    Alike keeps (.ok (takeMark name args text)) (.ok (takeMark name args text')) := by
  by_cases mark : ∃ rest, text = '?' :: rest
  · obtain ⟨rest, rfl⟩ := mark
    obtain ⟨rest', rfl, behind⟩ := h.exists_cons (by decide) (by decide)
    exact .read _ behind
  · have unmarked := not_exists.mp mark
    have unmarked' := h.same.ne_cons (by decide) unmarked
    rw [takeMark_of_not_mark name args unmarked, takeMark_of_not_mark name args unmarked']
    exact .read _ h

section

variable {fuel : Nat} {text text' : List Char}
  (types : ∀ text text', Tracks keeps text text' →
    Alike keeps (parseType fuel text) (parseType fuel text'))
  (arguments : ∀ text text', TracksItem keeps text text' →
    Alike keeps (parseArgs fuel text) (parseArgs fuel text'))

include arguments in
theorem alike_parseOpened (h : Tracks keeps text text') :
    Alike keeps (parseOpened fuel text) (parseOpened fuel text') := by
  by_cases opened : ∃ inner, text = '<' :: inner
  · obtain ⟨inner, rfl⟩ := opened
    obtain ⟨inner', rfl, inside⟩ := h.exists_item (.inl rfl)
    exact arguments inner inner' inside
  · have closed := not_exists.mp opened
    have closed' := h.same.ne_cons (by decide) closed
    rw [parseOpened_of_not_open fuel closed, parseOpened_of_not_open fuel closed']
    exact .read [] h

include arguments in
theorem alike_parseType (h : Tracks keeps text text') :
    Alike keeps (parseType (fuel + 1) text) (parseType (fuel + 1) text') := by
  rw [parseType_succ, parseType_succ, takeName_of_respaced h.afterBlanks.same]
  simp only []
  split
  next => exact .failed _
  next =>
    split
    next => exact .failed _
    next =>
      have opened := alike_parseOpened arguments h.afterBlanks.afterName.afterBlanks
      exact opened.bind fun args _ _ behind => alike_takeMark _ args behind.afterBlanks

include arguments in
theorem alike_parseMore (arg : TypeArg) (h : Tracks keeps text text') :
    Alike keeps (parseMore fuel arg text) (parseMore fuel arg text') := by
  have solid := h.afterBlanks
  by_cases comma : ∃ rest, skipBlank text = ',' :: rest
  · obtain ⟨rest, comma⟩ := comma
    rw [comma] at solid
    obtain ⟨rest', comma', others⟩ := solid.exists_item (.inr rfl)
    rw [parseMore, parseMore, comma, comma']
    exact (arguments rest rest' others).bind fun args _ _ behind => .read _ behind
  · by_cases close : ∃ rest, skipBlank text = '>' :: rest
    · obtain ⟨rest, close⟩ := close
      rw [close] at solid
      obtain ⟨rest', close', behind⟩ := solid.exists_cons (by decide) (by decide)
      rw [parseMore, parseMore, close, close']
      exact .read _ behind
    · have noComma := not_exists.mp comma
      have noClose := not_exists.mp close
      have noComma' := solid.same.ne_cons (by decide) noComma
      have noClose' := solid.same.ne_cons (by decide) noClose
      rw [parseMore_error fuel arg noComma noClose, parseMore_error fuel arg noComma' noClose']
      exact .failed _

include types in
theorem alike_parseFirst (h : Tracks keeps text text')
    (alike : OpensWithVariance text ↔ OpensWithVariance text') :
    Alike keeps (parseFirst fuel (skipBlank text)) (parseFirst fuel (skipBlank text')) := by
  have solid := h.afterBlanks
  by_cases star : ∃ rest, skipBlank text = '*' :: rest
  · obtain ⟨rest, star⟩ := star
    rw [star] at solid
    obtain ⟨rest', star', behind⟩ := solid.exists_cons (by decide) (by decide)
    rw [star, star']
    exact .read TypeArg.star behind
  · have noStar := not_exists.mp star
    have noStar' := solid.same.ne_cons (by decide) noStar
    rw [parseFirst_of_not_star fuel noStar, parseFirst_of_not_star fuel noStar']
    exact (types _ _ (h.afterVariance alike)).bind fun t _ _ behind => .read _ behind

include types arguments in
theorem alike_parseArgs (h : TracksItem keeps text text') :
    Alike keeps (parseArgs (fuel + 1) text) (parseArgs (fuel + 1) text') := by
  by_cases alike : OpensWithVariance text ↔ OpensWithVariance text'
  · rw [parseArgs_succ, parseArgs_succ]
    exact (alike_parseFirst types (h.tracks alike) alike).bind fun arg _ _ behind =>
      alike_parseMore arguments arg behind
  · refine .apart (fun holds => alike (h.keeps_iff.mp holds).1) fun a b both => ?_
    by_cases opens : OpensWithVariance text
    · have unmarked : ¬OpensWithVariance text' := fun opens' => alike (iff_of_true opens opens')
      exact notBoth_of_variance h.same opens unmarked a b both
    · have opens' := (not_iff.mp alike).mp opens
      exact notBoth_of_variance h.same.symm opens' opens b a both.symm

end

/-- Both parsers take one step of the fuel at a time, so the induction is on the fuel for both. -/
theorem alike_of_tracks (fuel : Nat) :
    (∀ text text', Tracks keeps text text' →
      Alike keeps (parseType fuel text) (parseType fuel text')) ∧
    ∀ text text', TracksItem keeps text text' →
      Alike keeps (parseArgs fuel text) (parseArgs fuel text') := by
  induction fuel with
  | zero => exact ⟨fun _ _ _ => .failed _, fun _ _ _ => .failed _⟩
  | succ fuel ih =>
    obtain ⟨types, arguments⟩ := ih
    exact ⟨fun _ _ => alike_parseType arguments, fun _ _ => alike_parseArgs types arguments⟩

theorem Tracks.isEmpty_skipBlank {text text' : List Char} (h : Tracks keeps text text') :
    (skipBlank text).isEmpty = (skipBlank text').isEmpty := by
  have count := List.Forall₂.length_eq h.afterBlanks.same
  rw [Bool.eq_iff_iff, List.isEmpty_iff_length_eq_zero, List.isEmpty_iff_length_eq_zero, count]

/-- Where nothing but blanks is left, nothing can break the condition. -/
theorem Tracks.keeps_of_isBlanks {text text' : List Char} (h : Tracks keeps text text')
    (none : skipBlank text = []) : keeps := by
  have none' : skipBlank text' = [] := by
    rw [← List.isEmpty_iff, ← h.isEmpty_skipBlank, none]
    rfl
  have solid := h.afterBlanks
  rw [none, none'] at solid
  exact solid.keeps_iff.mpr trivial

/-- Two texts that are equal but for their blanks are read alike, as the same type or with the same
error, as long as a mark of variance in the one has its space in the other; where one does not, no
more than one of the two is a type. -/
theorem parse_respaced {text text' : String} (same : Respaced text.toList text'.toList) :
    (KeepsVariance text.toList text'.toList → parse text = parse text') ∧
      (¬KeepsVariance text.toList text'.toList →
        ∀ t u, ¬(parse text = .ok t ∧ parse text' = .ok u)) := by
  have room : text'.length = text.length := by
    rw [← String.length_toList, ← String.length_toList]
    exact (List.Forall₂.length_eq same).symm
  have alike := (alike_of_tracks (2 * text.length + 2)).1 _ _ same.tracks
  unfold parse
  rw [room]
  generalize parseType (2 * text.length + 2) text.toList = x at alike ⊢
  generalize parseType (2 * text.length + 2) text'.toList = y at alike ⊢
  constructor
  · intro keeps
    cases alike with
    | @read t rest rest' behind =>
      show (if (skipBlank rest).isEmpty = true then _ else _) = if _ then _ else _
      rw [behind.isEmpty_skipBlank]
    | failed e => rfl
    | apart broken => exact absurd keeps broken
  · rintro broken t u ⟨here, there⟩
    obtain ⟨a, first, here⟩ := bind_eq_ok_iff.mp here
    obtain ⟨b, second, -⟩ := bind_eq_ok_iff.mp there
    cases alike with
    | @read t rest rest' behind =>
      cases first
      simp only [List.isEmpty_iff] at here
      split at here
      next none => exact broken (behind.keeps_of_isBlanks none)
      next => cases here
    | failed e => cases first
    | apart broken notBoth => exact notBoth _ _ ⟨first, second⟩

/-- The space behind `out` stays, and others become a line break and an ideographic space; then it
is the space behind `out` that becomes a tab. -/
theorem blanks_exchanged :
    let same := ("Map<out A, B >?", "Map<out A,\nB\u3000>?")
    let other := ("Map<out A, B >?", "Map<out\tA, B >?")
    (Respaced same.1.toList same.2.toList ∧ KeepsVariance same.1.toList same.2.toList ∧
        parse same.1 = parse same.2) ∧
      Respaced other.1.toList other.2.toList ∧ ¬KeepsVariance other.1.toList other.2.toList ∧
        ∀ t u, ¬(parse other.1 = .ok t ∧ parse other.2 = .ok u) := by
  intro same other
  have respaced : Respaced same.1.toList same.2.toList := by decide +kernel
  have respaced' : Respaced other.1.toList other.2.toList := by decide +kernel
  have keeps : KeepsVariance same.1.toList same.2.toList := by decide +kernel
  have breaks : ¬KeepsVariance other.1.toList other.2.toList := by decide +kernel
  exact ⟨⟨respaced, keeps, (parse_respaced respaced).1 keeps⟩, respaced', breaks,
    (parse_respaced respaced').2 breaks⟩

/-- A tab behind `out` makes it a name, and a tab behind `in` lets it be one. -/
theorem tab_behind_variance :
    let a : TypeRef := .mk "Int" [] false
    (Respaced "List<out Int>".toList "List<out\tInt>".toList ∧
        parse "List<out Int>" = .ok (.mk "List" [.type a] false) ∧
        parse "List<out\tInt>" = .error .missingSeparator) ∧
      Respaced "List<in\t>".toList "List<in >".toList ∧
        parse "List<in\t>" = .ok (.mk "List" [.type (.mk "in" [] false)] false) ∧
        parse "List<in >" = .error .missingName := by
  decide +kernel

end WrapperGen.TypeRef
