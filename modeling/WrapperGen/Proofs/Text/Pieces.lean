import WrapperGen.Text.Line

namespace WrapperGen

variable {separator : Char}

theorem piecesAt_eq_splitOn (separator : Char) (text : List Char) :
    piecesAt separator text = text.splitOn separator := by
  induction text with
  | nil => rw [piecesAt, List.splitOn_nil]
  | cons c text ih =>
    rw [piecesAt, ih, List.splitOn_cons_eq_if_modifyHead]
    cases pieces : text.splitOn separator with
    | nil => exact absurd pieces (List.splitOn_ne_nil separator text)
    | cons piece rest => simp only [beq_iff_eq, List.modifyHead_cons]

theorem piecesAt_eq_takeWhile_cons (separator : Char) (text : List Char) :
    ∃ rest, piecesAt separator text = text.takeWhile (· ≠ separator) :: rest := by
  rw [piecesAt_eq_splitOn]
  induction text with
  | nil => exact ⟨[], List.splitOn_nil separator⟩
  | cons c text ih =>
    obtain ⟨rest, pieces⟩ := ih
    rw [List.splitOn_cons_eq_if_modifyHead, pieces]
    by_cases same : c = separator
    · exact ⟨_, by simp [same]; rfl⟩
    · exact ⟨rest, by simp [same]⟩

theorem notMem_of_mem_piecesAt {text piece : List Char} (mem : piece ∈ piecesAt separator text) :
    separator ∉ piece := by
  rw [piecesAt_eq_splitOn] at mem
  induction text generalizing piece with
  | nil =>
    rw [List.splitOn_nil] at mem
    rw [List.mem_singleton.mp mem]
    exact List.not_mem_nil
  | cons c text ih =>
    rw [List.splitOn_cons_eq_if_modifyHead] at mem
    cases pieces : text.splitOn separator with
    | nil => exact absurd pieces (List.splitOn_ne_nil separator text)
    | cons first rest =>
      rw [pieces] at mem ih
      by_cases same : c = separator
      · rw [if_pos (beq_iff_eq.mpr same)] at mem
        obtain rfl | later := List.mem_cons.mp mem
        · exact List.not_mem_nil
        · exact ih later
      · rw [if_neg (mt beq_iff_eq.mp same), List.modifyHead_cons] at mem
        obtain rfl | later := List.mem_cons.mp mem
        · intro here
          obtain rfl | behind := List.mem_cons.mp here
          · exact same rfl
          · exact ih List.mem_cons_self behind
        · exact ih (List.mem_cons_of_mem _ later)

/-- The text comes back from its pieces with the separator behind each. -/
theorem flatMap_piecesAt (separator : Char) (text : List Char) :
    (piecesAt separator text).flatMap (· ++ [separator]) = text ++ [separator] := by
  induction text with
  | nil => rfl
  | cons c text ih =>
    rw [piecesAt]
    cases pieces : piecesAt separator text with
    | nil => exact absurd pieces (piecesAt_ne_nil separator text)
    | cons piece rest =>
      rw [pieces, List.flatMap_cons] at ih
      dsimp only
      by_cases same : c = separator
      · rw [if_pos same, List.flatMap_cons, List.flatMap_cons, ih, same]
        rfl
      · rw [if_neg same, List.flatMap_cons, List.cons_append, List.cons_append, ih]
        rfl

/-- Parts that are left out make what is joined from the parts shorter only. -/
theorem intercalate_sublist {α : Type} (separator : List α) {parts more : List (List α)}
    (within : parts.Sublist more) :
    (separator.intercalate parts).Sublist (separator.intercalate more) := by
  induction within with
  | slnil => exact .refl _
  | @cons parts more part within ih =>
    cases more with
    | nil => simp [List.sublist_nil.mp within]
    | cons next more =>
      rw [List.intercalate_cons_cons]
      exact ih.trans (List.sublist_append_right _ _)
  | @cons_cons parts more part within ih =>
    cases more with
    | nil => simp [List.sublist_nil.mp within]
    | cons next more =>
      cases parts with
      | nil =>
        rw [List.intercalate_singleton, List.intercalate_cons_cons, List.append_assoc]
        exact List.sublist_append_left _ _
      | cons other parts =>
        rw [List.intercalate_cons_cons, List.intercalate_cons_cons]
        exact (List.Sublist.refl _).append ih

/-! ## Runs of characters of one kind -/

section

variable {kind : Char → Bool} {run rest : List Char} (each : ∀ c ∈ run, kind c = true)
  (ends : ∀ c ∈ rest.head?, kind c = false)
include each ends

theorem takeWhile_run : (run ++ rest).takeWhile kind = run := by
  rw [List.takeWhile_append_of_pos each]
  cases rest with
  | nil => simp
  | cons c rest => simp [ends c rfl]

theorem dropWhile_run : (run ++ rest).dropWhile kind = rest := by
  rw [List.dropWhile_append_of_pos each]
  cases rest with
  | nil => simp
  | cons c rest => simp [ends c rfl]

theorem run_inj {run' rest' : List Char} (each' : ∀ c ∈ run', kind c = true)
    (ends' : ∀ c ∈ rest'.head?, kind c = false) (same : run ++ rest = run' ++ rest') :
    run = run' ∧ rest = rest' := by
  have front := takeWhile_run each ends
  have back := dropWhile_run each ends
  rw [same, takeWhile_run each' ends'] at front
  rw [same, dropWhile_run each' ends'] at back
  exact ⟨front.symm, back.symm⟩

end

/-- What stands before the first of some marks, and what stands behind it. -/
theorem cut_inj {mark : Char} {run run' rest rest' : List Char} (none : mark ∉ run)
    (none' : mark ∉ run') (same : run ++ mark :: rest = run' ++ mark :: rest') :
    run = run' ∧ rest = rest' := by
  have each : ∀ l : List Char, mark ∉ l → ∀ c ∈ l, decide (c ≠ mark) = true :=
    fun l none c mem => decide_eq_true fun here => none (here ▸ mem)
  have ends : ∀ rest : List Char, ∀ c ∈ (mark :: rest).head?, decide (c ≠ mark) = false := by
    simp
  obtain ⟨front, back⟩ := run_inj (each run none) (ends rest) (each run' none') (ends rest') same
  exact ⟨front, (List.cons.inj back).2⟩

/-! ## The first and the last character -/

/-- The text has a first character, and it is of the kind. -/
def StartsWith (kind : Char → Prop) (text : String) : Prop :=
  ∃ first ∈ text.toList.head?, kind first

/-- The text has a last character, and it is of the kind. -/
def EndsWith (kind : Char → Prop) (text : String) : Prop :=
  ∃ last ∈ text.toList.getLast?, kind last

section

variable {kind : Char → Prop} {text rest : String}

-- An instance that is searched for may decide by going through all characters.
instance [DecidablePred kind] (text : String) : Decidable (StartsWith kind text) :=
  decidable_of_iff (text.toList.head?.any (kind ·) = true)
    (by simp [StartsWith, Option.any_eq_true])

instance [DecidablePred kind] (text : String) : Decidable (EndsWith kind text) :=
  decidable_of_iff (text.toList.getLast?.any (kind ·) = true)
    (by simp [EndsWith, Option.any_eq_true])

theorem StartsWith.append (starts : StartsWith kind text) (rest : String) :
    StartsWith kind (text ++ rest) := by
  obtain ⟨first, mem, fine⟩ := starts
  refine ⟨first, ?_, fine⟩
  rw [String.toList_append, List.head?_append, Option.mem_def.mp mem]
  rfl

theorem EndsWith.append (ends : EndsWith kind rest) (text : String) :
    EndsWith kind (text ++ rest) := by
  obtain ⟨last, mem, fine⟩ := ends
  refine ⟨last, ?_, fine⟩
  rw [String.toList_append, List.getLast?_append, Option.mem_def.mp mem]
  rfl

theorem startsWith_of_forall (some : text ≠ "") (each : ∀ c ∈ text.toList, kind c) :
    StartsWith kind text := by
  cases first : text.toList.head? with
  | none => exact absurd (String.toList_eq_nil_iff.mp (List.head?_eq_none_iff.mp first)) some
  | some c => exact ⟨c, first, each c (List.mem_of_head? first)⟩

theorem endsWith_of_forall (some : text ≠ "") (each : ∀ c ∈ text.toList, kind c) :
    EndsWith kind text := by
  cases last : text.toList.getLast? with
  | none => exact absurd (String.toList_eq_nil_iff.mp (List.getLast?_eq_none_iff.mp last)) some
  | some c => exact ⟨c, last, each c (List.mem_of_getLast? last)⟩

end

/-! ## Numerals -/

theorem repr_inj {i j : Nat} : i.repr = j.repr ↔ i = j := by
  refine ⟨fun same => ?_, congrArg Nat.repr⟩
  have digits : Nat.toDigits 10 i = Nat.toDigits 10 j := by
    rw [← Nat.toList_repr, ← Nat.toList_repr, same]
  rw [← Nat.ofDigitChars_ten_toDigits (n := i), digits, Nat.ofDigitChars_ten_toDigits]

end WrapperGen
