import WrapperGen.Generator
import WrapperGen.Proofs.Manifest.Storing
import WrapperGen.Proofs.Output.Rerun
import WrapperGen.Proofs.Swift.Sources

namespace WrapperGen

open Files WrapperGen.Tree Output Swift

variable {t u v : Tree} {p dir : Path} {place : Place} {c : GeneratorConfig} {m : Manifest}
  {r : GeneratorReport}

/-- The manifest is what a run reads at the path. -/
def Tree.ManifestAt (t : Tree) (p : Path) (m : Manifest) : Prop :=
  Manifest.readFrom (m := StateM Tree) p t = (.ok m, t)

/-- A manifest that was stored is there to be read. -/
theorem Tree.manifestAt_join {name : String} (leads : t.LeadsTo dir place)
    (proper : IsFileName name) (fine : checkRead dir name = .ok ())
    (stored : t.find? (name :: place) = some (.file (Manifest.text m).toUTF8)) :
    t.ManifestAt (dir.join name) m :=
  Manifest.run_readFrom_of_readBytes (readBytes_join leads proper fine stored)

theorem exists_run_write_of_run_generator (manifest : t.ManifestAt p m)
    (run : runGenerator (m := StateM Tree) p dir c t = (.ok r, u)) :
    ∃ report, Output.write (m := StateM Tree) dir (generate c m).files c.header t =
      (.ok report, u) ∧ r = ⟨report, (generate c m).failures, Manifest.digest m⟩ := by
  rw [runGenerator] at run
  obtain ⟨m', v, read, run⟩ := exists_of_run_bind run fun _ _ => ⟨_, _, rfl⟩
  cases manifest.symm.trans read
  obtain ⟨report, w, wrote, run⟩ := exists_of_run_bind run fun _ _ => ⟨_, _, rfl⟩
  cases run
  exact ⟨report, wrote, rfl⟩

theorem isFileName_of_mem_files (c : GeneratorConfig) (m : Manifest) :
    ∀ file ∈ (generate c m).files, IsFileName file.name := fun _ mem => (mem_files_generate mem).1

/-- A run has the effect of its output on a tree in which the directory is there. -/
theorem effect_of_run_generator (proper : t.Proper) (manifest : t.ManifestAt p m)
    (run : runGenerator (m := StateM Tree) p dir c t = (.ok r, u)) :
    ∃ v place, createDirs (m := StateM Tree) dir t = (.ok (), v) ∧ v.LeadsTo dir place ∧
      Allowed v dir place (generate c m).files (firstLine c.header) ∧
      Effect v u dir place (generate c m).files (firstLine c.header) := by
  obtain ⟨report, wrote, -⟩ := exists_run_write_of_run_generator manifest run
  obtain ⟨v, place, made, leads⟩ := exists_run_createDirs_of_run_write wrote
  have named := isFileName_of_mem_files c m
  have allowed := allowed_of_run_write made leads named wrote
  have proper' := (of_run_createDirs made).1.proper proper
  obtain ⟨report', u', wrote', effect, -⟩ := exists_run_write made leads named proper' allowed
  have same : u' = u := congrArg Prod.snd (wrote'.symm.trans wrote)
  exact ⟨v, place, made, leads, allowed, same ▸ effect⟩

theorem exists_run_generator (proper : v.Proper) (manifest : t.ManifestAt p m)
    (made : createDirs (m := StateM Tree) dir t = (.ok (), v)) (leads : v.LeadsTo dir place)
    (allowed : Allowed v dir place (generate c m).files (firstLine c.header)) :
    ∃ r u, runGenerator (m := StateM Tree) p dir c t = (.ok r, u) ∧
      Effect v u dir place (generate c m).files (firstLine c.header) := by
  obtain ⟨report, u, wrote, effect, -⟩ :=
    exists_run_write made leads (isFileName_of_mem_files c m) proper allowed
  refine ⟨⟨report, (generate c m).failures, Manifest.digest m⟩, u, ?_, effect⟩
  rw [runGenerator, run_bind, manifest]
  simp only
  rw [run_bind, wrote]
  rfl

/-- The output directory remembers nothing of the manifests before: one run and then another one
leave what the other one alone leaves, if the first has not written over what somebody wrote. -/
theorem output_forgets_earlier_manifests {t₁ t₂ : Tree} {p₁ p₂ : Path} {c₁ c₂ : GeneratorConfig}
    {m₁ m₂ : Manifest} {r₁ r₂ : GeneratorReport} (proper : t.Proper)
    (header : firstLine c₁.header = firstLine c₂.header) (lined : firstLine c₂.header ≠ "")
    (manifest₁ : t.ManifestAt p₁ m₁) (manifest₂ : t₁.ManifestAt p₂ m₂)
    (run₁ : runGenerator (m := StateM Tree) p₁ dir c₁ t = (.ok r₁, t₁))
    (run₂ : runGenerator (m := StateM Tree) p₂ dir c₂ t₁ = (.ok r₂, t₂))
    (spared : ∀ u ∈ (generate c₁ m₁).units, ∀ bytes,
      t.find? (u.fileName :: dir.placeFrom t.home) = some (.file bytes) →
        hasFirstLine (firstLine c₁.header) bytes = true)
    (manifest : t.ManifestAt p m₂) :
    ∃ r t', runGenerator (m := StateM Tree) p dir c₂ t = (.ok r, t') ∧ t'.home = t₂.home ∧
      ∀ q, t'.find? q = t₂.find? q := by
  obtain ⟨v, place, made, leads, allowed, first⟩ := effect_of_run_generator proper manifest₁ run₁
  have gains := (of_run_createDirs made).1
  have proper₁ := first.proper (gains.proper proper) (isFileName_of_mem_files c₁ m₁)
  have leads₁ := first.leadsTo allowed leads
  obtain ⟨v', place', made', leads', later, second⟩ :=
    effect_of_run_generator proper₁ manifest₂ run₂
  -- the directory was made by the first run, the second one finds it
  have there : t₁ = v' := congrArg Prod.snd ((run_createDirs_of_leadsTo leads₁).symm.trans made')
  subst there
  have same : place = place' := leads₁.placeFrom_eq.symm.trans leads'.placeFrom_eq
  subst same
  rw [header] at allowed first
  obtain ⟨r, t', run, alone⟩ := exists_run_generator (gains.proper proper) manifest made leads
    (allowed.before first later)
  refine ⟨r, t', run, ?_, fun q => ?_⟩
  · rw [alone.home, second.home, first.home]
  · refine find?_eq_of_effects lined allowed ?_ ?_ first second alone q
    · intro file mem
      have headed := (mem_files_generate mem).2 (header ▸ lined)
      rw [hasFirstLine_toUTF8, headed, header, beq_self_eq_true]
    · intro file mem bytes found
      obtain ⟨unit, here, rfl⟩ := List.mem_map.mp mem
      have home : dir.placeFrom t.home = place := gains.home ▸ leads.placeFrom_eq
      exact header ▸ spared unit here bytes (home ▸ gains.file_iff.mp found)

/-! ## Two manifests and one directory -/

/-- Two manifests beside a directory with a source that somebody wrote and an old wrapper. -/
def desk (a b : Manifest) : Tree where
  home := []
  items := [(["a.json"], .file (Manifest.text a).toUTF8),
    (["b.json"], .file (Manifest.text b).toUTF8), (["out"], .directory),
    (["Notes.swift", "out"], .file "import Combine\n".toUTF8),
    (["ObservableScreen.swift", "out"], .file GeneratorConfig.standard.header.toUTF8)]

variable {a b : Manifest}

theorem isFileName_desk :
    ∀ n ∈ ["a.json", "b.json", "out", "Notes.swift", "ObservableScreen.swift"], IsFileName n := by
  have each : ∀ n ∈ ["a.json", "b.json", "out", "Notes.swift", "ObservableScreen.swift"],
      n ≠ "" ∧ '/' ∉ n.toList ∧ n ≠ "." ∧ n ≠ ".." := by decide
  intro n mem
  obtain ⟨some, noSlash, notDot, notDots⟩ := each n mem
  exact ⟨some, noSlash, notDot, notDots⟩

theorem proper_desk (a b : Manifest) : (desk a b).Proper := by
  intro name around found
  rw [find?_cons, List.lookup_isSome_iff] at found
  obtain ⟨item, mem, same⟩ := found
  refine isFileName_desk name ?_
  simp only [desk, List.mem_cons, List.not_mem_nil, or_false] at mem
  rcases mem with rfl | rfl | rfl | rfl | rfl <;> simp_all

theorem leadsTo_desk (a b : Manifest) : (desk a b).LeadsTo ⟨""⟩ [] := rfl

theorem leadsTo_out (a b : Manifest) : (desk a b).LeadsTo ⟨"out"⟩ ["out"] := rfl

theorem manifestAt_a (a b : Manifest) : (desk a b).ManifestAt ⟨"a.json"⟩ a := by
  -- stated by itself first, as the unifier would compute the text of the manifest
  have read := manifestAt_join (m := a) (leadsTo_desk a b) (isFileName_desk "a.json" (by simp))
    (by decide) rfl
  exact read

theorem manifestAt_b (leads : t.LeadsTo ⟨""⟩ [])
    (kept : t.find? ["b.json"] = (desk a b).find? ["b.json"]) : t.ManifestAt ⟨"b.json"⟩ b := by
  have read := manifestAt_join (m := b) leads (isFileName_desk "b.json" (by simp))
    (by decide) kept
  exact read

theorem names_files (g : Generation) :
    g.files.map OutputFile.name = g.units.map SourceUnit.fileName := by
  rw [Generation.files, List.map_map]
  rfl

theorem allowed_out {files : List OutputFile} {n : String} (home : t.home = [])
    (names : files.map OutputFile.name = [n])
    (fine : (∅ : Tree).checkWrite ⟨"out"⟩ n = .ok ())
    (other : t.find? [n, "out"] ≠ some .directory) (line : String) :
    Allowed t ⟨"out"⟩ ["out"] files line where
  writable file mem := by
    have name : file.name = n :=
      List.mem_singleton.mp (names ▸ List.mem_map_of_mem (f := OutputFile.name) mem)
    rw [name]
    exact ⟨(checkWrite_eq_of_home (t := ∅) home ⟨"out"⟩ n).trans fine, other⟩
  listable _ := by decide

theorem old_screen (a b : Manifest) : (desk a b).find? ["ObservableScreen.swift", "out"] =
    some (.file GeneratorConfig.standard.header.toUTF8) := rfl

section

variable (screens : (generate .standard a).units.map SourceUnit.fileName =
  ["ObservableScreen.swift"])
include screens

theorem spared_desk : ∀ u ∈ (generate .standard a).units, ∀ bytes,
    (desk a b).find? (u.fileName :: Path.placeFrom (desk a b).home ⟨"out"⟩) = some (.file bytes) →
      hasFirstLine (firstLine GeneratorConfig.standard.header) bytes = true := by
  intro u mem bytes found
  have name : u.fileName = "ObservableScreen.swift" :=
    List.mem_singleton.mp (screens ▸ List.mem_map_of_mem mem)
  have place : Path.placeFrom (desk a b).home ⟨"out"⟩ = ["out"] := rfl
  rw [name, place, old_screen] at found
  cases found
  rw [hasFirstLine_toUTF8, beq_self_eq_true]

theorem allowed_desk (line : String) :
    Allowed (desk a b) ⟨"out"⟩ ["out"] (generate .standard a).files line :=
  allowed_out rfl ((names_files _).trans screens) (by decide) (by simp [old_screen]) line

theorem exists_runs_desk
    (panels : (generate .standard b).units.map SourceUnit.fileName = ["ObservablePanel.swift"]) :
    ∃ r₁ t₁ r₂ t₂,
      runGenerator (m := StateM Tree) ⟨"a.json"⟩ ⟨"out"⟩ .standard (desk a b) = (.ok r₁, t₁) ∧
        t₁.ManifestAt ⟨"b.json"⟩ b ∧
        runGenerator (m := StateM Tree) ⟨"b.json"⟩ ⟨"out"⟩ .standard t₁ = (.ok r₂, t₂) := by
  let line := firstLine GeneratorConfig.standard.header
  have out := leadsTo_out a b
  have allowed := allowed_desk (b := b) screens line
  obtain ⟨r₁, t₁, run₁, first⟩ := exists_run_generator (proper_desk a b) (manifestAt_a a b)
    (run_createDirs_of_leadsTo out) out allowed
  have kept : t₁.find? ["b.json"] = (desk a b).find? ["b.json"] := first.kept_outside (by simp)
  have manifest := manifestAt_b (first.leadsTo allowed (leadsTo_desk a b)) kept
  have free : t₁.find? ["ObservablePanel.swift", "out"] = none := by
    refine (first.kept_name (by simp [names_files, screens]) ?_).trans rfl
    rintro ⟨-, bytes, found, -⟩
    cases found
  have allowed' : Allowed t₁ ⟨"out"⟩ ["out"] (generate .standard b).files line :=
    allowed_out first.home ((names_files _).trans panels) (by decide) (by simp [free]) line
  have out' := first.leadsTo allowed out
  have proper := first.proper (proper_desk a b) (isFileName_of_mem_files _ _)
  obtain ⟨r₂, t₂, run₂, -⟩ := exists_run_generator proper manifest (run_createDirs_of_leadsTo out')
    out' allowed'
  exact ⟨r₁, t₁, r₂, t₂, run₁, manifest, run₂⟩

end

def screens : Manifest := .ofList [⟨"a.Screen", "Screen", none, []⟩]

def panels : Manifest := .ofList [⟨"b.Panel", "Panel", none, []⟩]

/-- After the screens and then the panels the directory is as after the panels alone. -/
theorem panels_after_screens : ∃ r₁ t₁ r₂ t₂ r t',
    runGenerator (m := StateM Tree) ⟨"a.json"⟩ ⟨"out"⟩ .standard (desk screens panels) =
        (.ok r₁, t₁) ∧
      runGenerator (m := StateM Tree) ⟨"b.json"⟩ ⟨"out"⟩ .standard t₁ = (.ok r₂, t₂) ∧
      runGenerator (m := StateM Tree) ⟨"b.json"⟩ ⟨"out"⟩ .standard (desk screens panels) =
        (.ok r, t') ∧
      t'.home = t₂.home ∧ ∀ q, t'.find? q = t₂.find? q := by
  have first : (generate .standard screens).units.map SourceUnit.fileName =
      ["ObservableScreen.swift"] := by decide
  have second : (generate .standard panels).units.map SourceUnit.fileName =
      ["ObservablePanel.swift"] := by decide
  have lined : firstLine GeneratorConfig.standard.header ≠ "" := by decide
  obtain ⟨r₁, t₁, r₂, t₂, run₁, manifest, run₂⟩ := exists_runs_desk first second
  obtain ⟨r, t', run, same⟩ := output_forgets_earlier_manifests (proper_desk screens panels) rfl
    lined (manifestAt_a screens panels) manifest run₁ run₂ (spared_desk first)
    (manifestAt_b (leadsTo_desk screens panels) rfl)
  exact ⟨r₁, t₁, r₂, t₂, r, t', run₁, run₂, run, same⟩

end WrapperGen
