import WrapperGen.Files.Path
import WrapperGen.Proofs.Text.Pieces

namespace WrapperGen

/-- A name that a file or a directory can have. -/
structure IsFileName (name : String) : Prop where
  some : name ≠ ""
  noSlash : '/' ∉ name.toList
  notDot : name ≠ "."
  notDots : name ≠ ".."

instance (name : String) : Decidable (IsFileName name) :=
  decidable_of_iff (name ≠ "" ∧ '/' ∉ name.toList ∧ name ≠ "." ∧ name ≠ "..")
    ⟨fun h => ⟨h.1, h.2.1, h.2.2.1, h.2.2.2⟩, fun h => ⟨h.some, h.noSlash, h.notDot, h.notDots⟩⟩

theorem isFileName_replicate (k : Nat) :
    IsFileName (String.ofList (List.replicate (k + 3) 'a')) := by
  have long (other : String) (short : other.toList.length < 3) :
      String.ofList (List.replicate (k + 3) 'a') ≠ other := by
    rintro rfl
    rw [String.toList_ofList, List.length_replicate] at short
    omega
  refine ⟨long "" (by decide), ?_, long "." (by decide), long ".." (by decide)⟩
  rw [String.toList_ofList, List.mem_replicate]
  exact fun slash => absurd slash.2 (by decide)

namespace Path

variable {p : Path} {name : String}

theorem mem_names (mem : name ∈ p.names) : name ≠ "" ∧ '/' ∉ name.toList := by
  obtain ⟨piece, here, rfl⟩ := List.mem_map.mp mem
  obtain ⟨mem, some⟩ := List.mem_filter.mp here
  refine ⟨?_, by simpa using notMem_of_mem_piecesAt mem⟩
  rintro empty
  have none : piece = [] := by simpa using congrArg String.toList empty
  simp [none] at some

theorem names_append (before behind : String) :
    (⟨before ++ "/" ++ behind⟩ : Path).names =
      (⟨before⟩ : Path).names ++ (⟨behind⟩ : Path).names := by
  have pieces := List.splitOn_append_cons_self (a := '/') before.toList behind.toList
  have text : (before ++ "/" ++ behind).toList = before.toList ++ '/' :: behind.toList := by simp
  simp only [names, piecesAt_eq_splitOn, text, pieces, List.filter_append, List.map_append]

theorem names_empty : (⟨""⟩ : Path).names = [] := rfl

theorem names_name (some : name ≠ "") (noSlash : '/' ∉ name.toList) :
    (⟨name⟩ : Path).names = [name] := by
  have text : name.toList.isEmpty = false := by simpa using some
  simp [names, piecesAt_eq_splitOn, List.splitOn_eq_singleton noSlash, text]

theorem isAbsolute_append {before : String} (some : before ≠ "") (behind : String) :
    (⟨before ++ behind⟩ : Path).isAbsolute = (⟨before⟩ : Path).isAbsolute := by
  obtain ⟨c, rest, text⟩ := List.exists_cons_of_ne_nil (show before.toList ≠ [] by simpa using some)
  simp only [isAbsolute, String.toList_append, text, List.cons_append, List.head?_cons]

theorem isAbsolute_name (noSlash : '/' ∉ name.toList) : (⟨name⟩ : Path).isAbsolute = false := by
  refine beq_false_of_ne fun first => noSlash ?_
  exact List.mem_of_mem_head? first

/-- Behind a path that ends in a slash the name stands as it is, else behind one more slash. -/
theorem join_eq (noSlash : '/' ∉ name.toList) : (p.text = "" ∧ p.join name = ⟨name⟩) ∨
    (∃ before, p.text = before ++ "/" ∧ p.join name = ⟨before ++ "/" ++ name⟩) ∨
    (p.text ≠ "" ∧ p.join name = ⟨p.text ++ "/" ++ name⟩) := by
  unfold join
  rw [isAbsolute_name noSlash, Bool.false_or]
  by_cases empty : p.text = ""
  · exact .inl ⟨empty, by simp [empty]⟩
  · rw [if_neg (by simpa using empty)]
    by_cases slash : p.endsInSlash = true
    · obtain ⟨before, last⟩ := List.getLast?_eq_some_iff.mp (beq_iff_eq.mp slash)
      have text : p.text = String.ofList before ++ "/" := by
        apply String.toList_inj.mp
        simpa using last
      exact .inr (.inl ⟨_, text, by rw [if_pos slash, ← text]⟩)
    · exact .inr (.inr ⟨empty, if_neg slash⟩)

theorem names_join (h : IsFileName name) : (p.join name).names = p.names ++ [name] := by
  have single := names_name h.some h.noSlash
  obtain ⟨empty, join⟩ | ⟨before, text, join⟩ | ⟨_, join⟩ := join_eq (p := p) h.noSlash
  · have none : p.names = [] := congrArg (names ⟨·⟩) empty
    rw [join, none, single, List.nil_append]
  · have around : p.names = (⟨before⟩ : Path).names := by
      have split := names_append before ""
      rw [String.append_empty, ← text, names_empty, List.append_nil] at split
      exact split
    rw [join, names_append, around, single]
  · rw [join, names_append, single]

theorem isAbsolute_join (h : IsFileName name) : (p.join name).isAbsolute = p.isAbsolute := by
  obtain ⟨empty, join⟩ | ⟨before, text, join⟩ | ⟨some, join⟩ := join_eq (p := p) h.noSlash
  · have none : p.isAbsolute = false := congrArg (isAbsolute ⟨·⟩) empty
    rw [join, none, isAbsolute_name h.noSlash]
  · have some : p.text ≠ "" := by simp [text]
    rw [join, ← text, isAbsolute_append some]
  · rw [join, String.append_assoc, isAbsolute_append some]

theorem endsInSlash_append (before : String) (some : name ≠ "") (noSlash : '/' ∉ name.toList) :
    (⟨before ++ name⟩ : Path).endsInSlash = false := by
  refine beq_false_of_ne fun last => noSlash ?_
  rw [String.toList_append, List.getLast?_append] at last
  cases final : name.toList.getLast? with
  | none => simp [some] at final
  | some c =>
    rw [final] at last
    cases last
    exact List.mem_of_getLast? final

theorem endsInSlash_join (h : IsFileName name) : (p.join name).endsInSlash = false := by
  obtain ⟨_, join⟩ | ⟨_, _, join⟩ | ⟨_, join⟩ := join_eq (p := p) h.noSlash
  · rw [join, ← String.empty_append (s := name)]
    exact endsInSlash_append "" h.some h.noSlash
  · exact join ▸ endsInSlash_append _ h.some h.noSlash
  · exact join ▸ endsInSlash_append _ h.some h.noSlash

/-! ## The directory in which a path lies -/

theorem names_intercalate {names : List String} (h : ∀ n ∈ names, n ≠ "" ∧ '/' ∉ n.toList) :
    (⟨"/".intercalate names⟩ : Path).names = names := by
  induction names with
  | nil => rfl
  | cons n rest ih =>
    have first := names_name (h n List.mem_cons_self).1 (h n List.mem_cons_self).2
    cases rest with
    | nil => simpa using first
    | cons next rest =>
      have others := ih fun n mem => h n (List.mem_cons_of_mem _ mem)
      rw [String.intercalate_cons_cons, names_append, first, others]
      rfl

theorem names_ofNames {names : List String} (h : ∀ n ∈ names, n ≠ "" ∧ '/' ∉ n.toList)
    (absolute : Bool) : (ofNames absolute names).names = names.reverse := by
  have relative := names_intercalate fun n mem => h n (List.mem_reverse.mp mem)
  cases absolute with
  | false => simpa [ofNames] using relative
  | true =>
    have behind := names_append "" ("/".intercalate names.reverse)
    simpa [ofNames, names_empty, relative] using behind

theorem isAbsolute_ofNames {names : List String} (some : names ≠ [])
    (h : ∀ n ∈ names, n ≠ "" ∧ '/' ∉ n.toList) (absolute : Bool) :
    (ofNames absolute names).isAbsolute = absolute := by
  cases absolute with
  | true => simp [ofNames, isAbsolute]
  | false =>
    obtain ⟨first, rest, outward⟩ :=
      List.exists_cons_of_ne_nil (mt List.reverse_eq_nil_iff.mp some)
    obtain ⟨text, noSlash⟩ := h first (List.mem_reverse.mp (outward ▸ List.mem_cons_self))
    have relative := isAbsolute_name noSlash
    unfold ofNames
    rw [outward, if_neg Bool.false_ne_true, String.empty_append]
    cases rest with
    | nil => simpa using relative
    | cons next rest =>
      rw [String.intercalate_cons_cons, String.append_assoc, isAbsolute_append text, relative]

/-- The names but for those that lead from a directory to itself. -/
def steps (p : Path) : List String := p.names.filter (· ≠ ".")

theorem shortened_eq_nil {names : List String} (h : shortened names = []) :
    names.filter (· ≠ ".") = [] := by
  induction names with
  | nil => rfl
  | cons name rest ih =>
    rw [shortened] at h
    by_cases dot : name = "."
    · rw [if_pos dot] at h
      simpa [dot] using ih h
    · rw [if_neg dot] at h
      cases h

theorem shortened_eq_cons {names front : List String} {more : List (List String)}
    (h : shortened names = front :: more) :
    front ≠ [] ∧ front ⊆ names ∧ front.filter (· ≠ ".") = names.filter (· ≠ ".") := by
  induction names with
  | nil => cases h
  | cons name rest ih =>
    rw [shortened] at h
    by_cases dot : name = "."
    · rw [if_pos dot] at h
      obtain ⟨some, mem, steps⟩ := ih h
      exact ⟨some, List.subset_cons_of_subset _ mem, by simpa [dot] using steps⟩
    · rw [if_neg dot] at h
      cases h
      exact ⟨nofun, List.Subset.refl _, rfl⟩

/-- Each of the shortened lists is at the end of those before it. -/
theorem pairwise_shortened (names : List String) :
    (names :: shortened names).Pairwise fun inner outer => outer <:+ inner := by
  induction names with
  | nil => exact List.pairwise_singleton _ _
  | cons name rest ih =>
    obtain ⟨first, others⟩ := List.pairwise_cons.mp ih
    have ends : ∀ outer ∈ shortened rest, outer <:+ name :: rest := fun outer mem =>
      (first outer mem).trans (List.suffix_cons name rest)
    rw [shortened]
    split
    next => exact List.pairwise_cons.mpr ⟨ends, others⟩
    next =>
      refine List.pairwise_cons.mpr ⟨?_, List.pairwise_cons.mpr ⟨ends, others⟩⟩
      exact List.forall_mem_cons.mpr ⟨List.suffix_refl _, ends⟩

theorem ne_nil_of_mem_shortened {names outer : List String} (mem : outer ∈ shortened names) :
    outer ≠ [] := by
  induction names with
  | nil => cases mem
  | cons name rest ih =>
    rw [shortened] at mem
    split at mem
    next => exact ih mem
    next =>
      obtain rfl | mem := List.mem_cons.mp mem
      · exact List.cons_ne_nil name rest
      · exact ih mem

section

variable {front : List String} {last : String} (names : p.names = front ++ [last])
  (notDot : last ≠ ".")
include names notDot

theorem above_of_names_eq_append : p.above = shortened front.reverse := by
  rw [above, names, List.reverse_append, List.reverse_singleton, List.singleton_append,
    shortened, if_neg notDot]
  rfl

/-- The path lies in the directory to which the names in front of its last one lead. -/
theorem parent_of_names_eq_append :
    p.parent.isAbsolute = p.isAbsolute ∧ p.parent.steps = front.filter (· ≠ ".") := by
  unfold parent
  rw [above_of_names_eq_append names notDot]
  cases outward : shortened front.reverse with
  | nil =>
    have none : front.filter (· ≠ ".") = [] := by
      have reversed := shortened_eq_nil outward
      rwa [List.filter_reverse, List.reverse_eq_nil_iff] at reversed
    rw [none]
    cases p.isAbsolute <;> exact ⟨rfl, rfl⟩
  | cons inner more =>
    obtain ⟨some, mem, same⟩ := shortened_eq_cons outward
    have proper : ∀ n ∈ inner, n ≠ "" ∧ '/' ∉ n.toList := fun n here =>
      mem_names (names ▸ List.mem_append_left _ (List.mem_reverse.mp (mem here)))
    refine ⟨isAbsolute_ofNames some proper _, ?_⟩
    rw [steps, names_ofNames proper, List.filter_reverse, same, List.filter_reverse,
      List.reverse_reverse]

end

/-- A file that is named in a directory lies in that directory. -/
theorem parent_join (h : IsFileName name) :
    (p.join name).parent.isAbsolute = p.isAbsolute ∧ (p.join name).parent.steps = p.steps := by
  obtain ⟨absolute, steps⟩ := parent_of_names_eq_append (names_join h) h.notDot
  exact ⟨absolute.trans (isAbsolute_join h), steps⟩

theorem intercalate_names_sublist {front : List String} (within : front <+: p.names) :
    ("/".intercalate front).toList.Sublist p.text.toList := by
  have pieces : (front.map String.toList).Sublist (piecesAt '/' p.text.toList) := by
    have parts := within.sublist.map String.toList
    have same : String.toList ∘ String.ofList = id := funext fun _ => String.toList_ofList
    rw [names, List.map_map, same, List.map_id] at parts
    exact parts.trans List.filter_sublist
  have short := intercalate_sublist ['/'] pieces
  rwa [piecesAt_eq_splitOn, List.intercalate_splitOn, ← String.toList_singleton,
    ← String.toList_intercalate] at short

/-- The first names of a path are written in no more than the path itself. -/
theorem text_ofNames_sublist {front : List String} (within : front <+: p.names) :
    (ofNames p.isAbsolute front.reverse).text.toList.Sublist p.text.toList := by
  rw [ofNames, List.reverse_reverse]
  cases absolute : p.isAbsolute with
  | false => simpa using intercalate_names_sublist within
  | true =>
    obtain ⟨rest, first⟩ := List.head?_eq_some_iff.mp (beq_iff_eq.mp absolute)
    have text : p.text = "" ++ "/" ++ String.ofList rest :=
      String.toList_inj.mp (by simpa using first)
    have same : p.names = (⟨String.ofList rest⟩ : Path).names := by
      have split := names_append "" (String.ofList rest)
      rwa [← text, names_empty, List.nil_append] at split
    have behind := intercalate_names_sublist (same ▸ within)
    rw [String.toList_ofList] at behind
    rw [first, if_pos rfl, String.toList_append]
    exact behind.cons_cons '/'

end Path

end WrapperGen
