import WrapperGen.Proofs.Files.WellFormed

namespace WrapperGen

open Files

/-- A path that is made of names of files and directories only. -/
structure Path.Plain (p : Path) : Prop where
  some : p.names ≠ []
  each : ∀ name ∈ p.names, IsFileName name

instance (p : Path) : Decidable p.Plain :=
  decidable_of_iff (p.names ≠ [] ∧ ∀ name ∈ p.names, IsFileName name)
    ⟨fun h => ⟨h.1, h.2⟩, fun plain => ⟨plain.some, plain.each⟩⟩

theorem Path.walk_of_each {names : List String} (each : ∀ name ∈ names, IsFileName name)
    (here : Place) : walk here names = names.reverse ++ here := by
  induction names generalizing here with
  | nil => rfl
  | cons name rest ih =>
    obtain ⟨proper, each⟩ := List.forall_mem_cons.mp each
    rw [walk, if_neg proper.notDot, if_neg proper.notDots, ih each, List.reverse_cons,
      List.append_assoc, List.singleton_append]

namespace Tree

variable {t u : Tree} {p : Path} {here place q : Place} {names : List String} {bytes : ByteArray}

/-! ## The way along plain names -/

section

variable (tree : t.WellFormed) (each : ∀ name ∈ names, IsFileName name)
  (short : ∀ name ∈ names, checkName name = .ok ())
include each short

include tree in
theorem descend_of_directory (found : t.find? (names.reverse ++ here) = some .directory) :
    t.descend here names = .ok (names.reverse ++ here) := by
  induction names generalizing here with
  | nil => rfl
  | cons name rest ih =>
    obtain ⟨proper, each⟩ := List.forall_mem_cons.mp each
    obtain ⟨first, short⟩ := List.forall_mem_cons.mp short
    rw [List.reverse_cons, List.append_assoc, List.singleton_append] at found ⊢
    have inner := tree.directory_of_suffix found (List.suffix_append rest.reverse (name :: here))
    exact descend_cons_eq_ok_iff.mpr
      ⟨name :: here, .inner proper.notDot proper.notDots first inner, ih each short found⟩

/-- Where no file is in the way, nothing but a missing directory ends it. -/
theorem descend_of_no_file
    (free : ∀ q, q <:+ names.reverse ++ here → ∀ bytes, t.find? q ≠ some (.file bytes)) :
    t.descend here names = .ok (names.reverse ++ here) ∨
      t.descend here names = .error .noSuchFile := by
  induction names generalizing here with
  | nil => exact .inl rfl
  | cons name rest ih =>
    obtain ⟨proper, each⟩ := List.forall_mem_cons.mp each
    obtain ⟨first, short⟩ := List.forall_mem_cons.mp short
    rw [List.reverse_cons, List.append_assoc, List.singleton_append] at free ⊢
    rw [descend, if_neg proper.notDot, if_neg proper.notDots, first]
    simp only [bind, Except.bind]
    cases found : t.find? (name :: here) with
    | none => exact .inr rfl
    | some item =>
      cases item with
      | file bytes => exact absurd found (free _ (List.suffix_append _ _) bytes)
      | directory => exact ih each short free

include tree in
theorem descend_of_file (start : t.find? here = some .directory)
    (file : t.find? q = some (.file bytes)) (within : q <:+ names.reverse ++ here) :
    t.descend here names = .error .notADirectory := by
  induction names generalizing here with
  | nil => cases file.symm.trans (tree.directory_of_suffix start within)
  | cons name rest ih =>
    obtain ⟨proper, each⟩ := List.forall_mem_cons.mp each
    obtain ⟨first, short⟩ := List.forall_mem_cons.mp short
    rw [List.reverse_cons, List.append_assoc, List.singleton_append] at within
    rw [descend, if_neg proper.notDot, if_neg proper.notDots, first]
    simp only [bind, Except.bind]
    cases found : t.find? (name :: here) with
    | some item =>
      cases item with
      | file _ => rfl
      | directory => exact ih each short found within
    | none =>
      -- the file lies in the directory where the way begins, or deeper than what is missing
      have there : (t.find? q).isSome = true := by rw [file]; rfl
      obtain outer | inner := List.suffix_or_suffix_of_suffix within
        (List.suffix_append rest.reverse (name :: here))
      · obtain rfl | outer := List.suffix_cons_iff.mp outer
        · cases file.symm.trans found
        · cases file.symm.trans (tree.directory_of_suffix start outer)
      · have apart : name :: here ≠ q := by
          rintro rfl
          cases file.symm.trans found
        cases found.symm.trans (tree.directory_of_isSome there inner apart)

end

/-! ## Making the directories of a plain path -/

theorem makeDir_of_isSome {slash : Bool} (located : t.locate p = .ok (.named place slash))
    (taken : (t.find? place).isSome = true) : t.makeDir p = .error .alreadyExists := by
  simp only [makeDir, located, bind, Except.bind, taken]
  rfl

theorem isDir_of_locate {slash : Bool} (located : t.locate p = .ok (.named place slash))
    (found : t.find? place = some .directory) : t.isDir p = true := by
  obtain ⟨fine, -, front, last, here, names, way, dot, dots, short, rfl⟩ :=
    locate_eq_named_iff.mp located
  exact isDir_iff.mpr ⟨fine, _, leadsTo_of_named names way dot dots short found⟩

/-- Where a path stands for a directory or for nothing, there is a directory afterwards. -/
theorem makeDir_of_locate {slash : Bool} (located : t.locate p = .ok (.named place slash))
    (free : ∀ bytes, t.find? place ≠ some (.file bytes)) :
    (∃ u, t.makeDir p = .ok u) ∨ t.makeDir p = .error .alreadyExists ∧ t.isDir p = true := by
  cases found : t.find? place with
  | none => exact .inl ⟨_, makeDir_eq_ok_iff.mpr ⟨place, slash, located, found, rfl⟩⟩
  | some item =>
    cases item with
    | file bytes => exact absurd found (free bytes)
    | directory =>
      exact .inr ⟨makeDir_of_isSome located (by rw [found]; rfl), isDir_of_locate located found⟩

theorem exists_run_makeDirs_of_locate {slash : Bool}
    (located : t.locate p = .ok (.named place slash))
    (free : ∀ bytes, t.find? place ≠ some (.file bytes)) (above : List (List String)) :
    ∃ u, makeDirs (m := StateM Tree) p above t = (.ok (), u) := by
  obtain ⟨u, made⟩ | ⟨made, dir⟩ := makeDir_of_locate located free
  · cases above with
    | nil => exact ⟨u, by rw [makeDirs, run_makeOrKeepDir, made]⟩
    | cons names above => exact ⟨u, by rw [run_makeDirs, made]⟩
  · cases above with
    | nil => exact ⟨t, by rw [makeDirs, run_makeOrKeepDir, made, dir]; rfl⟩
    | cons names above => exact ⟨t, by rw [run_makeDirs, made, dir]; rfl⟩

end Tree

/-! ## The directories around a plain path -/

namespace Path

variable {p : Path} {front : List String} {last : String}

theorem text_ne_empty (filled : p.names ≠ []) : p.text ≠ "" := fun empty =>
  filled (congrArg (Path.names ⟨·⟩) empty)

theorem walk_filter (here : Place) (names : List String) :
    walk here (names.filter (· ≠ ".")) = walk here names := by
  induction names generalizing here with
  | nil => rfl
  | cons name rest ih =>
    by_cases dot : name = "."
    · rw [List.filter_cons_of_neg (by simpa using dot), walk, if_pos dot, ih]
    · rw [List.filter_cons_of_pos (by simpa using dot), walk, walk, ih, ih]
      simp only [ih]

namespace Plain

theorem exists_last (plain : p.Plain) : ∃ front last, p.names = front ++ [last] := by
  obtain none | ⟨front, last, names⟩ := List.eq_nil_or_concat p.names
  · exact absurd none plain.some
  · exact ⟨front, last, names.trans List.concat_eq_append⟩

variable (plain : p.Plain) (names : p.names = front ++ [last])
include plain names

theorem isFileName_last : IsFileName last :=
  plain.each last (names ▸ List.mem_append_right _ (List.mem_singleton_self _))

theorem isFileName_front : ∀ name ∈ front, IsFileName name := fun name mem =>
  plain.each name (names ▸ List.mem_append_left _ mem)

theorem steps_parent : p.parent.isAbsolute = p.isAbsolute ∧ p.parent.steps = front := by
  obtain ⟨absolute, steps⟩ :=
    parent_of_names_eq_append names (plain.isFileName_last names).notDot
  refine ⟨absolute, steps.trans (List.filter_eq_self.mpr fun name mem => ?_)⟩
  exact decide_eq_true (plain.isFileName_front names name mem).notDot

theorem placeFrom_parent (home : Place) :
    p.parent.placeFrom home = front.reverse ++ if p.isAbsolute then [] else home := by
  obtain ⟨absolute, kept⟩ := plain.steps_parent names
  rw [steps] at kept
  rw [placeFrom, absolute, ← walk_filter, kept, walk_of_each (plain.isFileName_front names)]

theorem placeFrom_eq (home : Place) : p.placeFrom home = last :: p.parent.placeFrom home := by
  rw [plain.placeFrom_parent names, placeFrom, walk_of_each plain.each, names,
    List.reverse_append, List.reverse_singleton, List.singleton_append, List.cons_append]

/-- What lies on the way to the directory of a path lies around the path. -/
theorem suffix_of_passes_parent {home q : Place} (passes : p.parent.Passes home q) :
    q <:+ p.parent.placeFrom home := by
  obtain ⟨absolute, kept⟩ := plain.steps_parent names
  rw [steps] at kept
  obtain ⟨part, within, rfl⟩ := passes
  obtain ⟨rest, whole⟩ : part.filter (· ≠ ".") <+: front := kept ▸ within.filter _
  have each : ∀ name ∈ part.filter (· ≠ "."), IsFileName name := fun name mem =>
    plain.isFileName_front names name (whole ▸ List.mem_append_left rest mem)
  rw [plain.placeFrom_parent names, absolute, ← walk_filter, walk_of_each each, ← whole,
    List.reverse_append, List.append_assoc]
  exact List.suffix_append _ _

theorem leadsTo_parent_iff {t : Tree} {place : Place} :
    t.LeadsTo p.parent place ↔ t.descend (t.start p) front = .ok place := by
  obtain ⟨absolute, kept⟩ := plain.steps_parent names
  rw [steps] at kept
  rw [Tree.LeadsTo, Tree.start, absolute, ← Tree.descend_filter, kept, Tree.start]

theorem parent_eq (filled : front ≠ []) :
    p.parent = ofNames p.isAbsolute front.reverse ∧ p.above = front.reverse :: p.parent.above := by
  have proper := plain.isFileName_front names
  have texts : ∀ n ∈ front.reverse, n ≠ "" ∧ '/' ∉ n.toList := fun n mem =>
    mem_names (names ▸ List.mem_append_left _ (List.mem_reverse.mp mem))
  have outward := above_of_names_eq_append names (plain.isFileName_last names).notDot
  obtain ⟨name, rest, inner⟩ :=
    List.exists_cons_of_ne_nil (mt List.reverse_eq_nil_iff.mp filled)
  have notDot : name ≠ "." :=
    (proper name (List.mem_reverse.mp (inner ▸ List.mem_cons_self))).notDot
  have nearest : p.above = front.reverse :: shortened rest := by
    rw [outward, inner, shortened, if_neg notDot]
  have here : p.parent = ofNames p.isAbsolute front.reverse := by
    rw [parent, nearest]
  refine ⟨here, ?_⟩
  rw [nearest, here, above, names_ofNames texts, List.reverse_reverse, inner, shortened,
    if_neg notDot]
  rfl

theorem names_parent (filled : front ≠ []) : p.parent.names = front := by
  rw [(plain.parent_eq names filled).1, names_ofNames, List.reverse_reverse]
  exact fun n mem => mem_names (names ▸ List.mem_append_left _ (List.mem_reverse.mp mem))

end Plain

/-- A path that is made of names of files and directories, and that the system takes. -/
structure Usable (p : Path) : Prop extends p.Plain where
  fits : Tree.checkPath p = .ok ()
  short : ∀ name ∈ p.names, Tree.checkName name = .ok ()

theorem Usable.short_front (usable : p.Usable) (names : p.names = front ++ [last]) :
    ∀ name ∈ front, Tree.checkName name = .ok () := fun name mem =>
  usable.short name (names ▸ List.mem_append_left _ mem)

theorem Usable.parent (usable : p.Usable) (names : p.names = front ++ [last])
    (filled : front ≠ []) : p.parent.Usable := by
  have plain := usable.toPlain
  have spelled := plain.names_parent names filled
  have within : p.parent.text.toList.Sublist p.text.toList := by
    rw [(plain.parent_eq names filled).1]
    exact text_ofNames_sublist (names ▸ List.prefix_append front [last])
  refine ⟨⟨spelled ▸ filled, spelled ▸ plain.isFileName_front names⟩, ?_, ?_⟩
  · exact Tree.checkPath_of_sublist within (text_ne_empty (spelled ▸ filled)) usable.fits
  · exact spelled ▸ usable.short_front names

theorem Usable.checkDirectory_parent (usable : p.Usable) :
    p.parent.checkDirectory = .ok () := by
  obtain ⟨front, last, names⟩ := usable.exists_last
  refine checkDirectory_of_checkPath ?_
  by_cases empty : front = []
  · have above := above_of_names_eq_append names (usable.isFileName_last names).notDot
    rw [empty] at above
    unfold Path.parent
    rw [above]
    cases p.isAbsolute <;> decide
  · exact (usable.parent names empty).fits

end Path

namespace Tree

variable {t u : Tree} {p : Path} {here q : Place} {bytes : ByteArray}

section

variable {front : List String} {last : String} (usable : p.Usable)
  (names : p.names = front ++ [last])
include usable names

theorem placeFrom_parent_eq : p.parent.placeFrom t.home = front.reverse ++ t.start p :=
  usable.placeFrom_parent names t.home

theorem locate_of_leadsTo_parent (leads : t.LeadsTo p.parent here) :
    t.locate p = .ok (.named (last :: here) p.endsInSlash) := by
  have plain := usable.toPlain
  have proper := plain.isFileName_last names
  have short := usable.short last (names ▸ List.mem_append_right _ (List.mem_singleton_self _))
  exact locate_eq_named_iff.mpr ⟨usable.fits, rfl, front, last, here, names,
    (plain.leadsTo_parent_iff names).mp leads, proper.notDot, proper.notDots, short, rfl⟩

/-- Where no file is in the way, it leads to the end or to a missing directory. -/
theorem leadsTo_parent_or_missing
    (free : ∀ q, q <:+ p.placeFrom t.home → ∀ bytes, t.find? q ≠ some (.file bytes)) :
    t.LeadsTo p.parent (p.parent.placeFrom t.home) ∨
      front ≠ [] ∧ t.makeDir p = .error .noSuchFile := by
  have plain := usable.toPlain
  have outer := placeFrom_parent_eq (t := t) usable names
  have around : ∀ q, q <:+ front.reverse ++ t.start p →
      ∀ bytes, t.find? q ≠ some (.file bytes) := by
    intro q within
    refine free q (within.trans ?_)
    rw [plain.placeFrom_eq names, outer]
    exact List.suffix_cons last _
  obtain way | missing :=
    descend_of_no_file (plain.isFileName_front names) (usable.short_front names) around
  · exact .inl ((plain.leadsTo_parent_iff names).mpr (outer ▸ way))
  · refine .inr ⟨?_, ?_⟩
    · rintro rfl
      cases missing
    · rw [makeDir, locate_of_names_eq_append names usable.fits, missing]
      rfl

theorem leadsTo_parent_of_directory (tree : t.WellFormed)
    (found : t.find? (p.parent.placeFrom t.home) = some .directory) :
    t.LeadsTo p.parent (p.parent.placeFrom t.home) := by
  rw [placeFrom_parent_eq usable names] at found ⊢
  exact (usable.leadsTo_parent_iff names).mpr
    (descend_of_directory tree (usable.isFileName_front names) (usable.short_front names) found)

end

/-- Where a file is in the way, no directory around is missing. -/
theorem makeDir_of_file (tree : t.WellFormed) (usable : p.Usable)
    (file : t.find? q = some (.file bytes)) (within : q <:+ p.placeFrom t.home) :
    ∃ fault, t.makeDir p = .error fault ∧ fault ≠ .noSuchFile := by
  obtain ⟨front, last, names⟩ := usable.exists_last
  have place := usable.placeFrom_eq names t.home
  obtain here | inner := List.suffix_cons_iff.mp (place ▸ within)
  · subst here
    have taken : (t.find? (last :: p.parent.placeFrom t.home)).isSome = true := by
      rw [file]
      rfl
    have around := tree.around last _ taken
    have leads := leadsTo_parent_of_directory usable names tree around
    have located := locate_of_leadsTo_parent usable names leads
    exact ⟨.alreadyExists, makeDir_of_isSome located taken, by decide⟩
  · have outer := placeFrom_parent_eq (t := t) usable names
    have way := descend_of_file tree (usable.isFileName_front names) (usable.short_front names)
      (tree.start p) file (outer ▸ inner)
    refine ⟨.notADirectory, ?_, by decide⟩
    rw [makeDir, locate_of_names_eq_append names usable.fits, way]
    rfl

/-- Where no file is in the way, all directories that are missing can be made. -/
theorem exists_run_makeDirs {p : Path} (usable : p.Usable)
    (free : ∀ q, q <:+ p.placeFrom t.home → ∀ bytes, t.find? q ≠ some (.file bytes)) :
    ∃ u, makeDirs (m := StateM Tree) p p.above t = (.ok (), u) := by
  obtain ⟨front, last, names⟩ := usable.exists_last
  have place := usable.placeFrom_eq names t.home
  obtain leads | ⟨filled, missing⟩ := leadsTo_parent_or_missing usable names free
  · have located := locate_of_leadsTo_parent usable names leads
    exact exists_run_makeDirs_of_locate located (place ▸ free _ (List.suffix_refl _)) _
  · -- the directory right above is made first, which leaves no file in the way
    have outer := usable.parent names filled
    have around : ∀ q, q <:+ p.parent.placeFrom t.home →
        ∀ bytes, t.find? q ≠ some (.file bytes) := fun q within =>
      free q (place ▸ within.trans (List.suffix_cons last _))
    have fewer : p.parent.names.length < p.names.length := by
      rw [usable.names_parent names filled, names]
      simp
    obtain ⟨v, made⟩ := exists_run_makeDirs outer around
    obtain ⟨way, leads⟩ := of_run_makeDirs (.self p.parent) made
    obtain ⟨-, here, leads⟩ := leads rfl
    have same : here = p.parent.placeFrom t.home := by
      rw [← leads.placeFrom_eq, way.home]
    have located := locate_of_leadsTo_parent usable names leads
    obtain ⟨nearest, above⟩ := usable.parent_eq names filled
    obtain ⟨u, made'⟩ := exists_run_makeDirs_of_locate located
      (fun bytes found => free _ (List.suffix_refl _) bytes
        (by rw [place, ← same]; exact way.file_iff.mp found)) []
    refine ⟨u, ?_⟩
    rw [above, run_makeDirs, missing]
    simp only [← nearest, made]
    exact made'
termination_by p.names.length

end Tree

end WrapperGen
