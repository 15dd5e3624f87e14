import WrapperGen.Proofs.Generator.Rerun
import WrapperGen.Proofs.Output.Confinement

namespace WrapperGen

open Files WrapperGen.Tree Output Swift

variable {t u : Tree} {p dir : Path} {c : GeneratorConfig}

/-- A run of the generator, whatever the manifest holds, changes regular files right in the output
directory only, besides making that directory. What it writes has the name of a source. If there is
no manifest to be read nothing changes at all. -/
theorem run_stays_in_directory {result : Except GeneratorError GeneratorReport} (proper : t.Proper)
    (run : runGenerator (m := StateM Tree) p dir c t = (result, u)) :
    Contained t u dir IsSourceName ∧
      (∀ r, result = .ok r →
        ∀ path ∈ r.output.written, ∃ name, IsSourceName name ∧ path = dir.join name) ∧
      (∀ failure, result = .error (.access failure) →
        failure.path = dir ∨ ∃ name, IsSourceName name ∧ failure.path = dir.join name) ∧
      ∀ error, result = .error (.manifest error) → u = t := by
  obtain ⟨found, read⟩ := Manifest.exists_run_readFrom p t
  rw [runGenerator, run_bind, read] at run
  cases found with
  | error error =>
    cases run
    exact ⟨⟨rfl, fun _ changed => absurd rfl changed⟩, by simp, by simp, fun _ _ => rfl⟩
  | ok m =>
    simp only at run
    rw [run_bind] at run
    have names : ∀ file ∈ (generate c m).files, IsSourceName file.name := fun _ mem =>
      (isSourceName_of_mem_files mem).1
    rcases wrote : Output.write (m := StateM Tree) dir (generate c m).files c.header t
      with ⟨outcome, w⟩
    have possible := of_run_write proper (isFileName_of_mem_files c m) wrote
    have contained := possible.contained names
    have paths := possible.paths
    rw [wrote] at run
    cases outcome with
    | error failure =>
      cases run
      refine ⟨contained, by simp, fun _ same => ?_, by simp⟩
      cases same
      obtain here | ⟨file, mem, path⟩ := paths
      · exact .inl here
      · exact .inr ⟨file.name, names file mem, path⟩
    | ok report =>
      cases run
      refine ⟨contained, fun r same path mem => ?_, by simp, by simp⟩
      cases same
      obtain ⟨file, here, rfl⟩ := List.mem_map.mp (paths ▸ mem)
      exact ⟨file.name, names file here, rfl⟩

/-- The first of these entries would have its wrapper outside of every directory of the tree. -/
def escaping : Manifest :=
  .ofList [⟨"com.a.Escaped", "/../../escaped", none, []⟩, ⟨"com.a.Good", "Good", none, []⟩]

theorem escaping_name_contained : ∃ r u,
    runGenerator (m := StateM Tree) ⟨"a.json"⟩ ⟨"out"⟩ .standard (desk escaping panels) =
        (.ok r, u) ∧
      (∀ path ∈ r.output.written, ∃ name, IsSourceName name ∧ path = Path.join ⟨"out"⟩ name) ∧
      u.find? ["escaped.swift"] = none := by
  have names : (generate .standard escaping).units.map SourceUnit.fileName =
      ["ObservableGood.swift"] := by decide
  have free : (desk escaping panels).find? ["ObservableGood.swift", "out"] = none := rfl
  have out := leadsTo_out escaping panels
  have proper := proper_desk escaping panels
  obtain ⟨r, u, run, -⟩ := exists_run_generator proper (manifestAt_a escaping panels)
    (run_createDirs_of_leadsTo out) out
    (allowed_out rfl ((names_files _).trans names) (by decide) (by simp [free]) _)
  obtain ⟨contained, written, -⟩ := run_stays_in_directory proper run
  refine ⟨r, u, run, written r rfl, ?_⟩
  have before : (desk escaping panels).find? ["escaped.swift"] = none := rfl
  by_contra there
  obtain ⟨-, -, front, way, here⟩ | ⟨-, name, here, -⟩ :=
    contained.changed ["escaped.swift"] (by rwa [before])
  · -- the way to the directory begins at home and ends there
    have names : (⟨"out"⟩ : Path).names = ["out"] := rfl
    rw [names, List.prefix_cons_iff] at way
    obtain rfl | ⟨rest, rfl, way⟩ := way
    · cases here
    · rw [List.prefix_nil.mp way] at here
      exact absurd here (by decide)
  · cases here

end WrapperGen
