import WrapperGen.Proofs.Output.Rerun

namespace WrapperGen.Output

open Files WrapperGen.Tree

variable {t u v : Tree} {dir : Path} {place : Place} {files : List OutputFile} {line : String}

/-- Nothing has changed but for files right in a directory: some are gone, others are as they were
to be written. -/
structure Confined (t u : Tree) (dir : Path) (place : Place) (files : List OutputFile) :
    Prop where
  home : u.home = t.home
  leads : u.LeadsTo dir place
  changed : ∀ q, u.find? q ≠ t.find? q → ∃ n, q = n :: place ∧ t.find? q ≠ some .directory ∧
    (u.find? q = none ∨ ∃ file ∈ files, file.name = n ∧ u.find? q = some (.file file.text.toUTF8))

theorem confined_putFiles {before : List OutputFile} (leads : t.LeadsTo dir place)
    (part : before ⊆ files)
    (other : ∀ file ∈ before, t.find? (file.name :: place) ≠ some .directory) :
    Confined t (t.putFiles place before) dir place files where
  home := home_putFiles t place before
  leads := leads.putFiles other
  changed q changed := by
    by_cases written : ∃ n, q = n :: place ∧ n ∈ before.map OutputFile.name
    · obtain ⟨n, rfl, mem⟩ := written
      obtain ⟨file, here, rfl, last⟩ := exists_findRev?_of_mem mem
      refine ⟨file.name, rfl, other file here, .inr ⟨file, part here, rfl, ?_⟩⟩
      rw [find?_putFiles_name, last]
      rfl
    · exact absurd (find?_putFiles_of_notMem fun n same mem => written ⟨n, same, mem⟩) changed

theorem Effect.confined (effect : Effect t u dir place files line)
    (allowed : Allowed t dir place files line) (leads : t.LeadsTo dir place) :
    Confined t u dir place files where
  home := effect.home
  leads := effect.leadsTo allowed leads
  changed q changed := by
    by_cases inside : ∃ n, q = n :: place
    · obtain ⟨n, rfl⟩ := inside
      refine ⟨n, rfl, fun found => changed ?_, ?_⟩
      · rw [effect.directory allowed found, found]
      · by_cases mem : n ∈ files.map OutputFile.name
        · obtain ⟨file, here, same, last⟩ := exists_findRev?_of_mem mem
          exact .inr ⟨file, here, same, effect.written n file last⟩
        · by_cases stale : line ≠ "" ∧ t.Stale dir place line n
          · exact .inl (effect.removed n mem stale.1 stale.2)
          · refine absurd (effect.kept _ fun m same => ?_) changed
            cases same
            exact ⟨mem, stale⟩
    · exact absurd (effect.kept_outside inside) changed

/-- Whatever comes of an output, it has made way for its directory and has stayed in it. -/
theorem Outcome.confined {result : Except AccessFailure OutputReport}
    (outcome : Outcome t dir files line result u) :
    ∃ v, t.MakesWay dir v ∧ (u = v ∨ ∃ place, Confined v u dir place files) := by
  cases outcome with
  | noDirectory made => exact ⟨u, (makesWay_of_run_createDirs made).1, .inl rfl⟩
  | unwritten made leads split other =>
    have part := split ▸ List.subset_append_left _ _
    exact ⟨_, (makesWay_of_run_createDirs made).1, .inr ⟨_, confined_putFiles leads part other⟩⟩
  | unlisted made leads other =>
    have part := List.Subset.refl files
    exact ⟨_, (makesWay_of_run_createDirs made).1, .inr ⟨_, confined_putFiles leads part other⟩⟩
  | done made leads allowed effect reports =>
    exact ⟨_, (makesWay_of_run_createDirs made).1, .inr ⟨_, effect.confined allowed leads⟩⟩

/-- What may become of a tree when files of certain names are written into a directory: new
directories on the way there, and regular files right in it that are gone or have been written. -/
structure Contained (t u : Tree) (dir : Path) (named : String → Prop) : Prop where
  home : u.home = t.home
  changed : ∀ q, u.find? q ≠ t.find? q →
    t.find? q = none ∧ u.find? q = some .directory ∧ dir.Passes t.home q ∨
    u.LeadsTo dir (dir.placeFrom t.home) ∧ ∃ name, q = name :: dir.placeFrom t.home ∧
      t.find? q ≠ some .directory ∧
      (u.find? q = none ∨ named name ∧ ∃ bytes, u.find? q = some (.file bytes))

theorem contained_of_makesWay {named : String → Prop} (way : t.MakesWay dir u) :
    Contained t u dir named :=
  ⟨way.home, fun _ changed => .inl (way.new changed)⟩

theorem Confined.contained {named : String → Prop} (way : t.MakesWay dir v)
    (confined : Confined v u dir place files) (names : ∀ file ∈ files, named file.name) :
    Contained t u dir named := by
  have home := confined.home.trans way.home
  refine ⟨home, fun q changed => ?_⟩
  by_cases same : u.find? q = v.find? q
  · rw [same] at changed ⊢
    exact .inl (way.new changed)
  · obtain ⟨name, rfl, other, outcome⟩ := confined.changed q same
    have there : dir.placeFrom t.home = place := home ▸ confined.leads.placeFrom_eq
    rw [there]
    refine .inr ⟨confined.leads, name, rfl, way.find?_eq other ▸ other, ?_⟩
    obtain gone | ⟨file, mem, rfl, found⟩ := outcome
    · exact .inl gone
    · exact .inr ⟨names file mem, _, found⟩

theorem Outcome.contained {result : Except AccessFailure OutputReport} {named : String → Prop}
    (outcome : Outcome t dir files line result u) (names : ∀ file ∈ files, named file.name) :
    Contained t u dir named := by
  obtain ⟨v, way, rfl | ⟨place, confined⟩⟩ := outcome.confined
  · exact contained_of_makesWay way
  · exact confined.contained way names

/-- An output tells of its directory and of the files in it, whether it fails or not. -/
theorem Outcome.paths {result : Except AccessFailure OutputReport}
    (outcome : Outcome t dir files line result u) :
    match result with
    | .ok r => r.written = files.map fun file => dir.join file.name
    | .error failure => failure.path = dir ∨ ∃ file ∈ files, failure.path = dir.join file.name := by
  cases outcome with
  | noDirectory made => exact .inl rfl
  | unwritten made leads split other =>
    exact .inr ⟨_, split ▸ List.mem_append_right _ List.mem_cons_self, rfl⟩
  | unlisted made leads other => exact .inl rfl
  | done made leads allowed effect reports => exact reports.written

end WrapperGen.Output
