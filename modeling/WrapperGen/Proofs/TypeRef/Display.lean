import WrapperGen.Proofs.TypeRef.Grammar

namespace WrapperGen.TypeRef

/-- A word that looks like a mark of variance is the name of a type when no blank follows. -/
theorem not_opensWithVariance {a : List Char} (before : IsBlanks a) {name : String}
    (named : IsName name) {rest : List Char} (ends : EndsName rest) :
    ¬OpensWithVariance (a ++ (name.toList ++ rest)) := by
  obtain ⟨c, letters, text, letter⟩ := named.exists_cons
  have solid : skipBlank (a ++ name.toList) = name.toList := by
    rw [skipBlank_append before, text]
    exact skipBlank_of_not_isBlank (not_isBlank_of_isNameChar letter)
  have some : skipBlank (a ++ name.toList) ≠ [] := by
    rw [solid, text]
    exact List.cons_ne_nil c letters
  rw [← List.append_assoc, opensWithVariance_append some ends]
  rintro ⟨mark, variance, front⟩
  obtain ⟨d, word, rfl, -⟩ := exists_word_of_mark variance
  rw [solid] at front
  have space : ' ' ∈ name.toList := front.subset (List.mem_append_right _ List.mem_cons_self)
  exact absurd (named.chars ' ' space) (by decide)

theorem mem_walkArgs_cons {t : TypeRef} (arg : TypeArg) (rest : List TypeArg) :
    t ∈ walkArgs (arg :: rest) ↔ t ∈ walkArgs [arg] ∨ t ∈ walkArgs rest := by
  cases arg <;> simp [walkArgs]

/-- The arguments of a type between brackets, if there are any. -/
def brackets (args : List TypeArg) : List Char :=
  if args.isEmpty then [] else '<' :: argChars args ++ ['>']

/-- How a type goes on behind its name. -/
def ending (args : List TypeArg) (nullable : Bool) : List Char :=
  brackets args ++ nullMark nullable

theorem chars_mk (name : String) (args : List TypeArg) (nullable : Bool) :
    (mk name args nullable).chars = name.toList ++ ending args nullable := by
  simp [chars, ending, brackets, nullMark]

theorem endsName_ending (args : List TypeArg) (nullable : Bool) :
    EndsName (ending args nullable) := by
  cases args with
  | cons arg others => exact endsName_cons (by decide) _
  | nil =>
    cases nullable with
    | true => exact endsName_cons (by decide) _
    | false => exact nofun

mutual

/-- What is shown of a type is one of its texts. -/
theorem written_chars (t : TypeRef) (named : t.WellFormed) : Written t t.chars := by
  cases t with
  | mk name args nullable =>
    obtain ⟨here, inner⟩ := wellFormed_mk.mp named
    have inside : ArgsWritten args (brackets args) := by
      cases args with
      | nil => exact .none
      | cons arg others =>
        have items := itemsWritten_argChars (arg :: others) nofun inner (a := []) nofun
        exact .some items
    have whole : ∀ d ∈ (ending args nullable).head?, isNameChar d = false :=
      fun d first => (endsName_ending args nullable d first).1
    rw [chars_mk]
    exact .mk (a := []) (b := []) (c := []) nofun (isName_iff.mp here) whole nofun inside nofun

theorem itemsWritten_argChars (args : List TypeArg) (some : args ≠ [])
    (named : ∀ t ∈ walkArgs args, IsName t.name) {a : List Char} (before : IsBlanks a) :
    ItemsWritten args (a ++ (argChars args ++ ['>'])) := by
  cases args with
  | nil => exact absurd rfl some
  | cons arg others =>
    cases others with
    | nil =>
      rw [← List.append_assoc]
      exact .last (itemWritten_argText arg named before)
    | cons next others =>
      have first : ∀ t ∈ walkArgs [arg], IsName t.name :=
        fun t mem => named t ((mem_walkArgs_cons arg _).mpr (.inl mem))
      have later : ∀ t ∈ walkArgs (next :: others), IsName t.name :=
        fun t mem => named t ((mem_walkArgs_cons arg _).mpr (.inr mem))
      have space : IsBlanks [' '] := List.forall_mem_singleton.mpr (by decide)
      have item := itemWritten_argText arg first before
      have more := ItemsWritten.more item (itemsWritten_argChars (next :: others) nofun later space)
      rw [argChars, List.append_assoc, ← List.append_assoc a]
      · exact more
      · nofun

theorem itemWritten_argText (arg : TypeArg) (named : ∀ t ∈ walkArgs [arg], IsName t.name)
    {a : List Char} (before : IsBlanks a) : ItemWritten arg (a ++ argText arg) := by
  cases arg with
  | star => exact .star before (b := []) nofun
  | type t =>
    have whole : t.WellFormed := by simpa [WellFormed, names, walkArgs] using named
    have unmarked : ¬OpensWithVariance (a ++ (t.chars ++ [])) := by
      cases t with
      | mk name args nullable =>
        have here := (wellFormed_mk.mp whole).1
        rw [List.append_nil, chars_mk]
        exact not_opensWithVariance before here (endsName_ending args nullable)
    have item := ItemWritten.plain before (written_chars t whole) (b := []) nofun unmarked
    rwa [List.append_nil] at item

end

/-- Whatever names are well formed, however deep the arguments are nested: the type is read back
from what is shown of it. -/
theorem parse_display {t : TypeRef} (named : t.WellFormed) : parse t.display = .ok t := by
  have shown : t.display.toList = t.chars ++ [] := by
    rw [display, String.toList_ofList, List.append_nil]
  exact parse_of_written shown (written_chars t named) nofun

end WrapperGen.TypeRef
