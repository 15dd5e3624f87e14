import WrapperGen.Swift.Name

namespace WrapperGen.Swift

theorem notMem_of_isIdentifier {name : String} (identifier : isIdentifier name = true) {c : Char}
    (other : isLetter c = false ∧ isNumeral c = false ∧ c ≠ '_') : c ∉ name.toList := by
  obtain ⟨notLetter, notNumeral, notLine⟩ := other
  unfold isIdentifier at identifier
  split at identifier
  next none =>
    rw [none]
    exact List.not_mem_nil
  next first rest text =>
    rw [text]
    rw [Bool.and_eq_true, List.all_eq_true] at identifier
    intro mem
    obtain rfl | mem := List.mem_cons.mp mem
    · simpa [notLetter, notLine] using identifier.1
    · simpa [notLetter, notNumeral, notLine] using identifier.2 c mem

theorem ne_empty_of_isIdentifier {name : String} (identifier : isIdentifier name = true) :
    name ≠ "" := by
  rintro rfl
  cases identifier

/-- The character stands in no name, written between backticks or not. -/
def IsMark (c : Char) : Prop :=
  (isLetter c = false ∧ isNumeral c = false ∧ c ≠ '_') ∧ c ≠ '`'

instance (c : Char) : Decidable (IsMark c) := instDecidableAnd

theorem toList_escape_of_mem {name : String} (keyword : name ∈ keywords) :
    (escape name).toList = '`' :: (name.toList ++ ['`']) := by
  rw [escape, if_pos keyword]
  simp

theorem escape_of_notMem {name : String} (own : name ∉ keywords) : escape name = name :=
  if_neg own

theorem notMem_escape {name : String} (identifier : isIdentifier name = true) {c : Char}
    (mark : IsMark c) : c ∉ (escape name).toList := by
  obtain ⟨other, notTick⟩ := mark
  have outside := notMem_of_isIdentifier identifier other
  by_cases keyword : name ∈ keywords
  · rw [toList_escape_of_mem keyword]
    simp [outside, notTick]
  · rwa [escape_of_notMem keyword]

/-- A name can be told from the way it is written. -/
theorem escape_inj {name other : String} (identifier : isIdentifier name = true)
    (identifierOther : isIdentifier other = true) (same : escape name = escape other) :
    name = other := by
  have tick : ∀ {name : String}, isIdentifier name = true → '`' ∉ name.toList :=
    fun identifier => notMem_of_isIdentifier identifier (by decide)
  by_cases keyword : name ∈ keywords <;> by_cases keywordOther : other ∈ keywords
  · have texts := congrArg String.toList same
    rw [toList_escape_of_mem keyword, toList_escape_of_mem keywordOther] at texts
    have inner := List.append_cancel_right (List.cons.inj texts).2
    exact String.toList_inj.mp inner
  · rw [escape_of_notMem keywordOther] at same
    refine absurd ?_ (tick identifierOther)
    rw [← same, toList_escape_of_mem keyword]
    exact List.mem_cons_self
  · rw [escape_of_notMem keyword] at same
    refine absurd ?_ (tick identifier)
    rw [same, toList_escape_of_mem keywordOther]
    exact List.mem_cons_self
  · rwa [escape_of_notMem keyword, escape_of_notMem keywordOther] at same

end WrapperGen.Swift
