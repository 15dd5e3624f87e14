import WrapperGen.Proofs.Output.Account
import WrapperGen.Proofs.Swift.Sources

namespace WrapperGen

open Files WrapperGen.Tree Output Swift

variable {t u v : Tree} {dir : Path} {place : Place} {c : GeneratorConfig} {e : Entry}
  {typeName name source header : String} {files others : List OutputFile} {r : OutputReport}

/-- An output with the header has written the source under the name. Whatever has become of the tree
since, the file is there and the directory has not moved. -/
structure Output.Remains (header : String) (dir : Path) (name source : String) (v : Tree) :
    Prop where
  written : ∃ t u files r, (∀ file ∈ files, IsFileName file.name) ∧
    Output.write (m := StateM Tree) dir files header t = (.ok r, u) ∧
    files.findRev? (·.name == name) = some ⟨name, source⟩ ∧ v.home = u.home
  proper : v.Proper
  directory : v.LeadsTo dir (dir.placeFrom v.home)
  found : v.find? (name :: dir.placeFrom v.home) = some (.file source.toUTF8)

namespace Output.Remains

/-- What could be written can be read and, if the output has listed the directory, be found. -/
theorem usable (remains : Remains header dir name source v) :
    checkRead dir name = .ok () ∧ (firstLine header ≠ "" → checkPath dir = .ok ()) := by
  obtain ⟨t, u, files, r, named, run, last, -⟩ := remains.written
  obtain ⟨t', place, made, leads⟩ := exists_run_createDirs_of_run_write run
  have allowed := allowed_of_run_write made leads named run
  obtain ⟨file, mem, rfl, -⟩ := exists_findRev?_of_mem (mem_names_of_findRev? last)
  exact ⟨checkRead_of_checkWrite (allowed.writable file mem).1, allowed.listable⟩

theorem stale (remains : Remains header dir name source v) {line : String}
    (headed : hasFirstLine line source.toUTF8 = true) :
    v.Stale dir (dir.placeFrom v.home) line name :=
  ⟨remains.usable.1, _, remains.found, headed⟩

end Output.Remains

/-- A run finds what is stale and has not been written again. -/
theorem Tree.Stale.removed {line : String} (stale : v.Stale dir place line name)
    (lined : line ≠ "") (same : firstLine header = line) (leads : v.LeadsTo dir place)
    (proper : v.Proper) (named : ∀ file ∈ others, IsFileName file.name)
    (other : name ∉ others.map OutputFile.name)
    (run : Output.write (m := StateM Tree) dir others header v = (.ok r, u)) :
    dir.join name ∈ r.removed ∧ u.find? (name :: place) = none := by
  cases of_run_write proper named run with
  | @done v' _ place' _ made leads' allowed effect reports =>
    have there : v = v' := congrArg Prod.snd ((run_createDirs_of_leadsTo leads).symm.trans made)
    subst there
    obtain rfl : place = place' := leads.placeFrom_eq.symm.trans leads'.placeFrom_eq
    subst same
    obtain ⟨names, -, removed, mem⟩ := reports.removed
    have told : name ∈ names := (mem name).mpr ⟨other, lined, stale⟩
    exact ⟨removed ▸ List.mem_map_of_mem told, effect.removed name other lined stale⟩

/-- The source of every wrapper is known again by the header it was made with, and a later run that
has the same first line in its header and does not write the file anew removes it. -/
theorem source_known_by_header (lined : firstLine c.header ≠ "")
    (rendered : renderEntry c e typeName = .ok source) :
    hasFirstLine (firstLine c.header) source.toUTF8 = true ∧
      ∀ dir name v header, Output.Remains c.header dir name source v →
        firstLine header = firstLine c.header →
        (∃ r u, Output.write (m := StateM Tree) dir [] header v = (.ok r, u)) ∧
        ∀ others r u, (∀ file ∈ others, IsFileName file.name) →
          name ∉ others.map OutputFile.name →
          Output.write (m := StateM Tree) dir others header v = (.ok r, u) →
          dir.join name ∈ r.removed ∧ u.find? (name :: dir.placeFrom v.home) = none := by
  have headed : hasFirstLine (firstLine c.header) source.toUTF8 = true := by
    rw [hasFirstLine_toUTF8, firstLine_renderEntry lined rendered, beq_self_eq_true]
  refine ⟨headed, fun dir name v header remains same => ⟨?_, ?_⟩⟩
  · have fine := remains.usable.2 lined
    have made := run_createDirs_of_leadsTo remains.directory
    rw [Path.checkDirectory_of_checkPath fine] at made
    have allowed : Allowed v dir (dir.placeFrom v.home) [] (firstLine header) :=
      ⟨List.forall_mem_nil _, fun _ => fine⟩
    obtain ⟨r, u, run, -⟩ := exists_run_write made remains.directory (List.forall_mem_nil _)
      remains.proper allowed
    exact ⟨r, u, run⟩
  · intro others r u named other run
    exact (remains.stale headed).removed lined same remains.directory remains.proper named other run

/-! ## A header of two lines -/

/-- A header with blanks around its first line, and with line ends of two characters. -/
def wideHeader : GeneratorConfig :=
  { GeneratorConfig.standard with header := " // A \t\r\n// B\r\n" }

/-- A wrapper with that header is put out, and then removed by a run with another header that has
the same first line. -/
theorem wide_header_known : ∃ source r u r' w,
    renderEntry wideHeader ⟨"a.X", "X", none, []⟩ "X" = .ok source ∧
      Output.write (m := StateM Tree) ⟨"out"⟩ [⟨"X.swift", source⟩] wideHeader.header
        (shelf "Old.swift") = (.ok r, u) ∧
      u.find? ["X.swift", "out"] = some (.file source.toUTF8) ∧
      Output.write (m := StateM Tree) ⟨"out"⟩ [] " // A\n" u = (.ok r', w) ∧
      w.find? ["X.swift", "out"] = none := by
  let e : Entry := ⟨"a.X", "X", none, []⟩
  let source := renderSteps (wrapperSteps wideHeader e "X") ++ "\n"
  have rendered : renderEntry wideHeader e "X" = .ok source :=
    renderEntry_eq_ok_iff.mpr ⟨by decide, rfl⟩
  have lined : firstLine wideHeader.header ≠ "" := by decide
  have named : ∀ file ∈ [(⟨"X.swift", source⟩ : OutputFile)], IsFileName file.name := by
    intro file mem
    rw [List.mem_singleton.mp mem]
    decide
  have leads := leadsTo_shelf "Old.swift"
  have proper : (shelf "Old.swift").Proper := proper_shelf (by decide)
  have allowed : Allowed (shelf "Old.swift") ⟨"out"⟩ ["out"] [⟨"X.swift", source⟩]
      (firstLine wideHeader.header) := by
    refine ⟨fun file mem => ?_, fun _ => by decide⟩
    have free : (shelf "Old.swift").find? ["X.swift", "out"] = none := rfl
    rw [List.mem_singleton.mp mem, free]
    exact ⟨(checkWrite_eq_of_home (t := ∅) rfl _ _).trans (by decide), nofun⟩
  obtain ⟨r, u, run, effect, -⟩ :=
    exists_run_write (run_createDirs_of_leadsTo leads) leads named proper allowed
  have found := effect.written "X.swift" ⟨"X.swift", source⟩ rfl
  have place : Path.placeFrom u.home ⟨"out"⟩ = ["out"] := by
    rw [effect.home]
    rfl
  have remains : Remains wideHeader.header ⟨"out"⟩ "X.swift" source u := by
    refine ⟨⟨_, u, _, r, named, run, rfl, rfl⟩, effect.proper proper named, ?_, ?_⟩
    · rw [place]
      exact effect.leadsTo allowed leads
    · rw [place]
      exact found
  obtain ⟨-, later⟩ := source_known_by_header lined rendered
  obtain ⟨⟨r', w, run'⟩, each⟩ := later _ _ _ " // A\n" remains (by decide)
  have gone := (each [] r' w (List.forall_mem_nil _) List.not_mem_nil run').2
  rw [place] at gone
  exact ⟨source, r, u, r', w, rendered, run, found, run', gone⟩

end WrapperGen
