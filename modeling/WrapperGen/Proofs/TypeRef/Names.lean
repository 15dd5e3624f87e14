import Mathlib.Data.List.DropRight
import Mathlib.Data.List.Infix
import Mathlib.Data.List.TakeWhile
import WrapperGen.Proofs.Text.Pieces
import WrapperGen.TypeRef.Parser

namespace WrapperGen.TypeRef

/-- A name as the parser takes it: name characters, with a name on both sides of every dot. -/
structure IsName (name : String) : Prop where
  chars : ∀ c ∈ name.toList, isNameChar c = true
  dotted : isDotted name.toList = true

instance (name : String) : Decidable (IsName name) :=
  decidable_of_iff (name.toList.all isNameChar = true ∧ isDotted name.toList = true)
    ⟨fun h => ⟨List.all_eq_true.mp h.1, h.2⟩, fun h => ⟨List.all_eq_true.mpr h.chars, h.dotted⟩⟩

/-- All names in the type and its arguments are such as the parser takes. -/
def WellFormed (t : TypeRef) : Prop := ∀ name ∈ t.names, IsName name

theorem wellFormed_mk {name : String} {args : List TypeArg} {nullable : Bool} :
    (mk name args nullable).WellFormed ↔ IsName name ∧ ∀ t ∈ walkArgs args, IsName t.name := by
  simp [WellFormed, names, walk, TypeRef.name]

/-! ## Names and blanks -/

theorem block_apart : ∀ block ∈ letterBlocks.toList ++ numeralBlocks.toList, 0xA0 < block.1 ∧
    (block.2 < 0x1680 ∨ 0x1680 < block.1) ∧ (block.2 < 0x2000 ∨ 0x200A < block.1) ∧
      (block.2 < 0x2028 ∨ 0x205F < block.1) ∧ (block.2 < 0x3000 ∨ 0x3000 < block.1) := by
  decide +kernel

theorem any_block_eq_false {c : Char} (blank : isBlank c = true) {blocks : Array (Nat × Nat)}
    (known : ∀ block ∈ blocks.toList, block ∈ letterBlocks.toList ++ numeralBlocks.toList) :
    (blocks.any fun block => block.1 ≤ c.toNat && c.toNat ≤ block.2) = false := by
  rw [← Array.any_toList]
  refine List.any_eq_false.mpr fun block mem inside => ?_
  have apart := block_apart block (known block mem)
  simp only [isBlank, Bool.or_eq_true, Bool.and_eq_true, decide_eq_true_eq, beq_iff_eq] at blank
  simp only [Bool.and_eq_true, decide_eq_true_eq] at inside
  omega

theorem not_isNameChar_of_isBlank {c : Char} (blank : isBlank c = true) : isNameChar c = false := by
  by_cases ascii : c.toNat < 128
  · have each : ∀ n < 128, isBlank (Char.ofNat n) = true → isNameChar (Char.ofNat n) = false := by
      decide
    have code := each c.toNat ascii
    rw [Char.ofNat_toNat] at code
    exact code blank
  · have letter : isLetter c = false := by
      rw [isLetter, if_neg ascii]
      exact any_block_eq_false blank fun _ => List.mem_append_left _
    have numeral : isNumeral c = false := by
      rw [isNumeral, if_neg ascii]
      exact any_block_eq_false blank fun _ => List.mem_append_right _
    have marks : c ≠ '_' ∧ c ≠ '.' ∧ c ≠ '$' := by
      refine ⟨?_, ?_, ?_⟩ <;> rintro rfl <;> exact ascii (by decide)
    simp [isNameChar, letter, numeral, marks]

theorem not_isBlank_of_isNameChar {c : Char} (named : isNameChar c = true) : isBlank c = false := by
  refine Bool.eq_false_iff.mpr fun blank => ?_
  rw [not_isNameChar_of_isBlank blank] at named
  cases named

theorem IsName.exists_cons {name : String} (h : IsName name) :
    ∃ c rest, name.toList = c :: rest ∧ isNameChar c = true := by
  cases text : name.toList with
  | nil =>
    have dotted := h.dotted
    rw [text] at dotted
    cases dotted
  | cons c rest => exact ⟨c, rest, rfl, h.chars c (text ▸ List.mem_cons_self)⟩

theorem skipBlank_of_head? {text : List Char} (solid : ∀ c ∈ text.head?, isBlank c = false) :
    skipBlank text = text := by
  cases text with
  | nil => rfl
  | cons c rest => exact skipBlank_of_not_isBlank (solid c rfl)

/-! ## Where a name and a type end -/

/-- A name does not go on in the text, and no blank comes first. -/
def EndsName (rest : List Char) : Prop :=
  ∀ c ∈ rest.head?, isNameChar c = false ∧ isBlank c = false

theorem endsName_cons {c : Char} (mark : isNameChar c = false ∧ isBlank c = false)
    (rest : List Char) : EndsName (c :: rest) := by
  intro d first
  cases first
  exact mark

theorem EndsName.skipBlank {rest : List Char} (ends : EndsName rest) : skipBlank rest = rest :=
  skipBlank_of_head? fun c first => (ends c first).2

/-- A type does not go on in the text, and no blank comes first. -/
structure EndsType (rest : List Char) : Prop where
  name : EndsName rest
  notOpen : ∀ text, rest ≠ '<' :: text
  notMark : ∀ text, rest ≠ '?' :: text

theorem endsType_nil : EndsType [] := ⟨nofun, nofun, nofun⟩

theorem endsType_comma (rest : List Char) : EndsType (',' :: rest) :=
  ⟨endsName_cons (by decide) rest, nofun, nofun⟩

theorem endsType_close (rest : List Char) : EndsType ('>' :: rest) :=
  ⟨endsName_cons (by decide) rest, nofun, nofun⟩

/-! ## Names with dots -/

/-- Some name characters with no dot in front, none at the end and no two dots in a row. -/
structure IsDottedName (name : String) : Prop where
  nonempty : name ≠ ""
  chars : ∀ c ∈ name.toList, isNameChar c = true
  front : name.toList.head? ≠ some '.'
  back : name.toList.getLast? ≠ some '.'
  single : ¬['.', '.'] <:+: name.toList

theorem separated_iff (text : List Char) :
    isDotted.separated text = true ↔ text.getLast? ≠ some '.' ∧ ¬['.', '.'] <:+: text := by
  fun_induction isDotted.separated text with
  | case1 => simp
  | case2 => simp
  | case3 rest =>
    have doubled : ['.', '.'] <:+: '.' :: '.' :: rest := ⟨[], rest, rfl⟩
    simp [doubled]
  | case4 c rest single double ih =>
    have last : (c :: rest).getLast? = some '.' ↔ rest.getLast? = some '.' := by
      cases rest with
      | nil =>
        have other : c ≠ '.' := fun dot => single dot rfl
        simp [other]
      | cons d rest => rw [List.getLast?_cons_cons]
    have doubled : ['.', '.'] <:+: c :: rest ↔ ['.', '.'] <:+: rest := by
      rw [List.infix_cons_iff]
      refine or_iff_right ?_
      rintro ⟨behind, front⟩
      obtain ⟨rfl, rfl⟩ := List.cons.inj front
      exact double behind rfl rfl
    rw [ih, ne_eq, ne_eq, last, doubled]

theorem isDotted_iff (text : List Char) :
    isDotted text = true ↔ text ≠ [] ∧ text.head? ≠ some '.' ∧ text.getLast? ≠ some '.' ∧
      ¬['.', '.'] <:+: text := by
  cases text with
  | nil => simp [isDotted]
  | cons c rest => simp [isDotted, separated_iff]

theorem isName_iff {name : String} : IsName name ↔ IsDottedName name := by
  have empty : name.toList ≠ [] ↔ name ≠ "" := not_congr String.toList_eq_nil_iff
  constructor
  · rintro ⟨chars, dotted⟩
    obtain ⟨some, front, back, single⟩ := (isDotted_iff _).mp dotted
    exact ⟨empty.mp some, chars, front, back, single⟩
  · rintro ⟨some, chars, front, back, single⟩
    exact ⟨chars, (isDotted_iff _).mpr ⟨empty.mpr some, front, back, single⟩⟩

/-! ## Blanks -/

def IsBlanks (text : List Char) : Prop := ∀ c ∈ text, isBlank c = true

theorem skipBlank_append {a : List Char} (blanks : IsBlanks a) (text : List Char) :
    skipBlank (a ++ text) = skipBlank text :=
  List.dropWhile_append_of_pos blanks

theorem skipBlank_skipBlank (text : List Char) : skipBlank (skipBlank text) = skipBlank text :=
  List.dropWhile_idempotent _ _

theorem exists_blanks (text : List Char) : ∃ a, IsBlanks a ∧ text = a ++ skipBlank text :=
  ⟨_, fun _ mem => List.mem_takeWhile_imp mem, (List.takeWhile_append_dropWhile).symm⟩

theorem skipBlank_append_of_ne_nil {text : List Char} (solid : skipBlank text ≠ [])
    (rest : List Char) : skipBlank (text ++ rest) = skipBlank text ++ rest := by
  have filled : (text.dropWhile isBlank).isEmpty = false := by simpa [skipBlank] using solid
  rw [skipBlank, List.dropWhile_append, filled]
  rfl

theorem skipBlank_eq_nil_iff {text : List Char} : skipBlank text = [] ↔ IsBlanks text :=
  List.dropWhile_eq_nil_iff

/-! ## Names at the front -/

/-- Behind its blanks the text starts with a name. -/
def OpensWithName (text : List Char) : Prop :=
  ∃ c rest, skipBlank text = c :: rest ∧ isNameChar c = true

theorem opensWithName_append_iff {a : List Char} (before : IsBlanks a) (text : List Char) :
    OpensWithName (a ++ text) ↔ OpensWithName text := by
  rw [OpensWithName, OpensWithName, skipBlank_append before]

theorem opensWithName_skipBlank_iff (text : List Char) :
    OpensWithName (skipBlank text) ↔ OpensWithName text := by
  rw [OpensWithName, OpensWithName, skipBlank_skipBlank]

namespace OpensWithName

variable {text : List Char} (opens : OpensWithName text)
include opens

theorem ne_cons {d : Char} (mark : isNameChar d = false) :
    ∀ rest, skipBlank text ≠ d :: rest := by
  intro rest same
  obtain ⟨c, behind, front, letter⟩ := opens
  obtain ⟨rfl, -⟩ := List.cons.inj (front.symm.trans same)
  rw [letter] at mark
  cases mark

theorem ne_nil : skipBlank text ≠ [] := by
  obtain ⟨c, behind, front, -⟩ := opens
  rw [front]
  exact List.cons_ne_nil c behind

theorem append (rest : List Char) : OpensWithName (text ++ rest) := by
  have some := opens.ne_nil
  obtain ⟨c, behind, front, letter⟩ := opens
  exact ⟨c, behind ++ rest, by rw [skipBlank_append_of_ne_nil some, front]; rfl, letter⟩

end OpensWithName

end WrapperGen.TypeRef
