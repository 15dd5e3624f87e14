import WrapperGen.Proofs.Output.Effect

namespace WrapperGen.Output

open Files WrapperGen.Tree

variable {t u v : Tree} {dir : Path} {place : Place} {files others : List OutputFile}
  {line : String}

theorem exists_findRev?_of_mem {n : String} (mem : n ∈ files.map OutputFile.name) :
    ∃ file ∈ files, file.name = n ∧ files.findRev? (·.name == n) = some file := by
  obtain ⟨file, here, named⟩ := List.mem_map.mp mem
  have found : (files.reverse.find? (·.name == n)).isSome = true :=
    List.find?_isSome.mpr ⟨file, List.mem_reverse.mpr here, beq_iff_eq.mpr named⟩
  obtain ⟨last, found⟩ := Option.isSome_iff_exists.mp found
  have same := List.find?_some (p := fun file : OutputFile => file.name == n) found
  refine ⟨last, List.mem_reverse.mp (List.mem_of_find?_eq_some found), beq_iff_eq.mp same, ?_⟩
  rw [List.findRev?_eq_find?_reverse, found]

namespace Effect

/-- Directories stay. -/
theorem directory (effect : Effect t u dir place files line)
    (allowed : Allowed t dir place files line) {q : Place} (found : t.find? q = some .directory) :
    u.find? q = some .directory := by
  rw [effect.kept q, found]
  rintro n rfl
  constructor
  · intro mem
    obtain ⟨file, here, rfl⟩ := List.mem_map.mp mem
    exact (allowed.writable file here).2 found
  · rintro ⟨-, -, bytes, file, -⟩
    cases found.symm.trans file

theorem leadsTo (effect : Effect t u dir place files line)
    (allowed : Allowed t dir place files line) {p : Path} {q : Place} (leads : t.LeadsTo p q) :
    u.LeadsTo p q :=
  leads.of_directories effect.home fun _ => effect.directory allowed

theorem kept_name (effect : Effect t u dir place files line) {n : String}
    (other : n ∉ files.map OutputFile.name) (fresh : ¬t.Stale dir place line n) :
    u.find? (n :: place) = t.find? (n :: place) := by
  refine effect.kept _ fun m same => ?_
  cases same
  exact ⟨other, fun stale => fresh stale.2⟩

theorem kept_outside (effect : Effect t u dir place files line) {q : Place}
    (outside : ¬∃ n, q = n :: place) : u.find? q = t.find? q :=
  effect.kept q fun n same => absurd ⟨n, same⟩ outside

theorem proper (effect : Effect t u dir place files line) (proper : t.Proper)
    (named : ∀ file ∈ files, IsFileName file.name) : u.Proper := by
  intro name around found
  by_cases written : around = place ∧ name ∈ files.map OutputFile.name
  · obtain ⟨file, mem, rfl⟩ := List.mem_map.mp written.2
    exact named file mem
  · by_cases removed : around = place ∧ line ≠ "" ∧ t.Stale dir place line name
    · obtain ⟨rfl, lined, stale⟩ := removed
      have gone := effect.removed name (fun mem => written ⟨rfl, mem⟩) lined stale
      rw [gone] at found
      cases found
    · have same : u.find? (name :: around) = t.find? (name :: around) := by
        refine effect.kept _ fun n here => ?_
        cases here
        exact ⟨fun mem => written ⟨rfl, mem⟩, fun stale => removed ⟨rfl, stale⟩⟩
      exact proper name around (same ▸ found)

end Effect

/-- What may be written after an output might have been written without it. -/
theorem Allowed.before (effect : Effect t u dir place files line)
    (allowed : Allowed t dir place files line) (later : Allowed u dir place others line) :
    Allowed t dir place others line where
  writable file mem := by
    obtain ⟨fine, other⟩ := later.writable file mem
    exact ⟨checkWrite_eq_of_home effect.home dir file.name ▸ fine,
      fun found => other (effect.directory allowed found)⟩
  listable := later.listable

section

variable (header : line ≠ "") (allowed : Allowed t dir place files line)
include header allowed

/-- The files of an output that begin with the header are stale for the next one. -/
theorem find?_of_written (headed : ∀ file ∈ files, hasFirstLine line file.text.toUTF8 = true)
    (first : Effect t u dir place files line) (second : Effect u v dir place others line)
    {n : String} (mem : n ∈ files.map OutputFile.name) (other : n ∉ others.map OutputFile.name) :
    v.find? (n :: place) = none := by
  obtain ⟨file, here, rfl, last⟩ := exists_findRev?_of_mem mem
  refine second.removed file.name other header ⟨?_, file.text.toUTF8, ?_, headed file here⟩
  · exact checkRead_of_checkWrite (allowed.writable file here).1
  · exact first.written file.name file last

/-- What lay under the name of a file of an output is gone without that output too, unless somebody
wrote it by hand. -/
theorem find?_of_spared {u' : Tree} (alone : Effect t u' dir place others line) {n : String}
    (mem : n ∈ files.map OutputFile.name) (other : n ∉ others.map OutputFile.name)
    (spared : ∀ bytes, t.find? (n :: place) = some (.file bytes) →
      hasFirstLine line bytes = true) :
    u'.find? (n :: place) = none := by
  obtain ⟨file, here, rfl⟩ := List.mem_map.mp mem
  obtain ⟨fine, notDirectory⟩ := allowed.writable file here
  cases found : t.find? (file.name :: place) with
  | none =>
    have fresh : ¬t.Stale dir place line file.name := by
      rintro ⟨-, bytes, file, -⟩
      cases found.symm.trans file
    rw [alone.kept_name other fresh, found]
  | some item =>
    cases item with
    | directory => exact absurd found notDirectory
    | file bytes =>
      exact alone.removed _ other header
        ⟨checkRead_of_checkWrite fine, bytes, found, spared bytes found⟩

/-- After the output that follows it nothing is left of an output. -/
theorem find?_eq_of_effects (headed : ∀ file ∈ files, hasFirstLine line file.text.toUTF8 = true)
    (spared : ∀ file ∈ files, ∀ bytes, t.find? (file.name :: place) = some (.file bytes) →
      hasFirstLine line bytes = true)
    (first : Effect t u dir place files line) (second : Effect u v dir place others line)
    {u' : Tree} (alone : Effect t u' dir place others line) (q : Place) :
    u'.find? q = v.find? q := by
  by_cases inside : ∃ n, q = n :: place
  · -- names of the later output, then of the earlier one only, then of neither
    obtain ⟨n, rfl⟩ := inside
    by_cases again : n ∈ others.map OutputFile.name
    · obtain ⟨file, -, -, last⟩ := exists_findRev?_of_mem again
      rw [alone.written n file last, second.written n file last]
    · by_cases mem : n ∈ files.map OutputFile.name
      · obtain ⟨file, here, rfl⟩ := List.mem_map.mp mem
        rw [find?_of_written header allowed headed first second mem again,
          find?_of_spared header allowed alone mem again (spared file here)]
      · by_cases stale : t.Stale dir place line n
        · have gone := first.removed n mem header stale
          have fresh : ¬u.Stale dir place line n := by
            rintro ⟨-, bytes, file, -⟩
            cases gone.symm.trans file
          rw [alone.removed n again header stale, second.kept_name again fresh, gone]
        · have kept := first.kept_name mem stale
          have fresh := mt (stale_iff_of_find?_eq kept).mp stale
          rw [alone.kept_name again stale, second.kept_name again fresh, kept]
  · rw [alone.kept_outside inside, second.kept_outside inside, first.kept_outside inside]

end

end WrapperGen.Output
