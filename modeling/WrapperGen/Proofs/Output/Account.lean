import WrapperGen.Proofs.Output.Confinement

namespace WrapperGen.Output

open Files WrapperGen.Tree

variable {t u v : Tree} {dir : Path} {place : Place} {files : List OutputFile}
  {line header : String} {r : OutputReport}

namespace Effect

/-- No stale file is left, but for files that were written. -/
theorem not_stale (effect : Effect t u dir place files line) {n : String}
    (other : n ∉ files.map OutputFile.name) (lined : line ≠ "") : ¬u.Stale dir place line n := by
  intro stale
  obtain ⟨-, bytes, found, -⟩ := id stale
  by_cases before : t.Stale dir place line n
  · cases (effect.removed n other lined before).symm.trans found
  · exact before ((stale_iff_of_find?_eq (effect.kept_name other before)).mp stale)

theorem allowed (effect : Effect t u dir place files line)
    (allowed : Allowed t dir place files line) : Allowed u dir place files line where
  writable file mem := by
    obtain ⟨last, -, -, found⟩ := exists_findRev?_of_mem (List.mem_map_of_mem mem)
    refine ⟨(checkWrite_eq_of_home effect.home _ _).trans (allowed.writable file mem).1, ?_⟩
    rw [effect.written _ last found]
    nofun
  listable := allowed.listable

/-- What is done twice is as good as done once. -/
theorem find?_eq_of_again (effect : Effect t u dir place files line)
    (again : Effect u v dir place files line) (q : Place) : v.find? q = u.find? q := by
  by_cases inside : ∃ n, q = n :: place
  · obtain ⟨n, rfl⟩ := inside
    by_cases mem : n ∈ files.map OutputFile.name
    · obtain ⟨file, -, -, last⟩ := exists_findRev?_of_mem mem
      rw [again.written n file last, effect.written n file last]
    · refine again.kept _ fun m same => ?_
      cases same
      exact ⟨mem, fun stale => effect.not_stale mem stale.1 stale.2⟩
  · exact again.kept_outside inside

end Effect

/-- The full account of an output that has succeeded: what has become of the files in the directory,
of everything else, and what was reported. -/
structure Account (t u : Tree) (dir : Path) (place : Place) (files : List OutputFile)
    (line : String) (r : OutputReport) : Prop where
  home : u.home = t.home
  directory : u.LeadsTo dir place
  /-- Of several files of one name the last is there and is what is read at its path. -/
  written : ∀ n file, files.findRev? (·.name == n) = some file →
    u.find? (n :: place) = some (.file file.text.toUTF8) ∧
      u.readBytes (dir.join n) = .ok file.text.toUTF8
  /-- Another file is removed if it begins with the line and its path can be used. -/
  others : ∀ n bytes, n ∉ files.map OutputFile.name →
    t.find? (n :: place) = some (.file bytes) →
    (u.find? (n :: place) = none ↔
      line ≠ "" ∧ BeginsWith line bytes ∧ checkRead dir n = .ok ())
  /-- All that is neither written nor removed stays. -/
  kept : ∀ q item, t.find? q = some item → u.find? q = some item ∨
    item ≠ .directory ∧ ∃ n, q = n :: place ∧
      (n ∈ files.map OutputFile.name ∨ u.find? q = none)
  /-- Nothing comes to be but the files and the directories on the way. -/
  new : ∀ q, t.find? q = none → u.find? q = none ∨
    (u.find? q = some .directory ∧ dir.Passes t.home q) ∨
    ∃ n ∈ files.map OutputFile.name, q = n :: place
  reported : r.written = files.map fun file => dir.join file.name
  /-- The removed files are told of in the order of their names. -/
  removed : ∃ names : List String, names.Pairwise (· < ·) ∧ r.removed = names.map dir.join ∧
    ∀ n, n ∈ names ↔ (t.find? (n :: place)).isSome = true ∧ u.find? (n :: place) = none

theorem stale_iff {n : String} {bytes : ByteArray}
    (found : t.find? (n :: place) = some (.file bytes)) :
    t.Stale dir place line n ↔ BeginsWith line bytes ∧ checkRead dir n = .ok () := by
  constructor
  · rintro ⟨readable, other, same, begins⟩
    cases found.symm.trans same
    exact ⟨hasFirstLine_iff.mp begins, readable⟩
  · rintro ⟨begins, readable⟩
    exact ⟨readable, bytes, found, hasFirstLine_iff.mpr begins⟩

/-- A file that was not written is gone if and only if it was stale. -/
theorem Effect.find?_eq_none_iff (effect : Effect t u dir place files line) {n : String}
    (other : n ∉ files.map OutputFile.name) (there : (t.find? (n :: place)).isSome = true) :
    u.find? (n :: place) = none ↔ line ≠ "" ∧ t.Stale dir place line n := by
  constructor
  · intro gone
    by_contra fresh
    have kept : u.find? (n :: place) = t.find? (n :: place) := by
      refine effect.kept _ fun m same => ?_
      cases same
      exact ⟨other, fresh⟩
    rw [← kept, gone] at there
    cases there
  · rintro ⟨lined, stale⟩
    exact effect.removed n other lined stale

section

variable (way : t.MakesWay dir v) (leads : v.LeadsTo dir place)
  (allowed : Allowed v dir place files line) (effect : Effect v u dir place files line)
include way leads allowed effect

theorem kept_of_effect {q : Place} {item : Item} (found : t.find? q = some item) :
    u.find? q = some item ∨ item ≠ .directory ∧ ∃ n, q = n :: place ∧
      (n ∈ files.map OutputFile.name ∨ u.find? q = none) := by
  have there : v.find? q = some item := (way.found q).elim (·.trans found) fun new => by
    rw [new.1] at found
    cases found
  by_cases same : u.find? q = v.find? q
  · exact .inl (same.trans there)
  · obtain ⟨n, here, other, outcome⟩ := (effect.confined allowed leads).changed q same
    refine .inr ⟨fun directory => other (directory ▸ there), n, here, ?_⟩
    obtain gone | ⟨file, mem, rfl, -⟩ := outcome
    · exact .inr gone
    · exact .inl (List.mem_map_of_mem mem)

theorem new_of_effect {q : Place} (free : t.find? q = none) :
    u.find? q = none ∨ (u.find? q = some .directory ∧ dir.Passes t.home q) ∨
      ∃ n ∈ files.map OutputFile.name, q = n :: place := by
  by_cases same : u.find? q = v.find? q
  · by_cases made : v.find? q = t.find? q
    · exact .inl (same.trans (made.trans free))
    · obtain ⟨-, directory, passed⟩ := way.new made
      exact .inr (.inl ⟨same.trans directory, passed⟩)
  · have confined := effect.confined allowed leads
    obtain ⟨n, here, -, gone | ⟨file, mem, rfl, -⟩⟩ := confined.changed q same
    · exact .inl gone
    · exact .inr (.inr ⟨file.name, List.mem_map_of_mem mem, here⟩)

omit leads allowed in
theorem removed_of_effect {n : String} :
    (n ∉ files.map OutputFile.name ∧ line ≠ "" ∧ v.Stale dir place line n) ↔
      (t.find? (n :: place)).isSome = true ∧ u.find? (n :: place) = none := by
  constructor
  · rintro ⟨other, lined, stale⟩
    obtain ⟨bytes, found, -⟩ := stale.begins
    rw [way.file_iff.mp found]
    exact ⟨rfl, effect.removed n other lined stale⟩
  · rintro ⟨some, gone⟩
    have other : n ∉ files.map OutputFile.name := by
      intro mem
      obtain ⟨file, -, -, last⟩ := exists_findRev?_of_mem mem
      cases gone.symm.trans (effect.written n file last)
    obtain ⟨item, found⟩ := Option.isSome_iff_exists.mp some
    have there : v.find? (n :: place) = t.find? (n :: place) :=
      (way.found (n :: place)).resolve_right fun new => by
        rw [new.1] at found
        cases found
    exact ⟨other, (effect.find?_eq_none_iff other (there ▸ some)).mp gone⟩

theorem account (named : ∀ file ∈ files, IsFileName file.name)
    (reports : Reports v dir place files line r) : Account t u dir place files line r where
  home := effect.home.trans way.home
  directory := effect.leadsTo allowed leads
  written n file last := by
    have found := effect.written n file last
    obtain ⟨file', mem, rfl, same⟩ := exists_findRev?_of_mem (mem_names_of_findRev? last)
    have readable := checkRead_of_checkWrite (allowed.writable file' mem).1
    exact ⟨found, readBytes_join (effect.leadsTo allowed leads) (named file' mem) readable found⟩
  others n bytes other found := by
    have there := way.file_iff.mpr found
    rw [effect.find?_eq_none_iff other (there ▸ rfl), stale_iff there]
  kept q item found := kept_of_effect way leads allowed effect found
  new q free := new_of_effect way leads allowed effect free
  reported := reports.written
  removed := by
    obtain ⟨names, ascending, removed, mem⟩ := reports.removed
    refine ⟨names, ascending, removed, fun n => ?_⟩
    exact (mem n).trans (removed_of_effect way effect)

end

/-- A second output finds nothing to remove and nothing to change. -/
theorem exists_run_write_again (way : t.MakesWay dir v) (fine : dir.checkDirectory = .ok ())
    (leads : v.LeadsTo dir place) (proper : t.Proper) (named : ∀ file ∈ files, IsFileName file.name)
    (allowed : Allowed v dir place files (firstLine header))
    (effect : Effect v u dir place files (firstLine header)) :
    ∃ u', write (m := StateM Tree) dir files header u =
        (.ok ⟨files.map fun file => dir.join file.name, []⟩, u') ∧
      u'.home = u.home ∧ ∀ q, u'.find? q = u.find? q := by
  have leads' := effect.leadsTo allowed leads
  have made : createDirs (m := StateM Tree) dir u = (.ok (), u) := by
    rw [run_createDirs_of_leadsTo leads', fine]
  obtain ⟨⟨written, removed⟩, u', run, again, reports⟩ := exists_run_write made leads' named
    (effect.proper (way.proper proper) named) (effect.allowed allowed)
  obtain ⟨names, -, rfl, mem⟩ := reports.removed
  have none : names = [] := List.eq_nil_iff_forall_not_mem.mpr fun n here =>
    effect.not_stale ((mem n).mp here).1 ((mem n).mp here).2.1 ((mem n).mp here).2.2
  cases reports.written
  subst none
  exact ⟨u', run, again.home, effect.find?_eq_of_again again⟩

/-- What an output that succeeds leaves in its directory and elsewhere. To put out the same files
once more leaves the same. -/
theorem account_of_run_write (proper : t.Proper) (named : ∀ file ∈ files, IsFileName file.name)
    (run : write (m := StateM Tree) dir files header t = (.ok r, u)) :
    Account t u dir (dir.placeFrom t.home) files (firstLine header) r ∧
      ∃ u', write (m := StateM Tree) dir files header u = (.ok ⟨r.written, []⟩, u') ∧
        u'.home = u.home ∧ ∀ q, u'.find? q = u.find? q := by
  cases of_run_write proper named run with
  | done made leads allowed effect reports =>
    obtain ⟨way, there⟩ := makesWay_of_run_createDirs made
    have place := leads.placeFrom_eq
    rw [way.home] at place
    rw [place, reports.written]
    exact ⟨account way leads allowed effect named reports,
      exists_run_write_again way (there rfl).1 leads proper named allowed effect⟩

/-! ## A directory with an old file -/

/-- A directory with an old file under a name and a file that somebody wrote. -/
def shelf (name : String) : Tree where
  home := []
  items := [(["out"], .directory), ([name, "out"], .file "// H\n".toUTF8),
    (["Notes.swift", "out"], .file "import Combine\n".toUTF8)]

section

variable {name : String}

theorem proper_shelf (named : IsFileName name) : (shelf name).Proper := by
  have own : ∀ n ∈ ["out", "Notes.swift"], n ≠ "" ∧ '/' ∉ n.toList ∧ n ≠ "." ∧ n ≠ ".." := by
    decide
  intro n around found
  rw [find?_cons, List.lookup_isSome_iff] at found
  obtain ⟨item, mem, same⟩ := found
  obtain rfl | other : n = name ∨ n ∈ ["out", "Notes.swift"] := by
    simp only [shelf, List.mem_cons, List.not_mem_nil, or_false] at mem
    rcases mem with rfl | rfl | rfl <;> simp_all
  · exact named
  · obtain ⟨some, noSlash, notDot, notDots⟩ := own n other
    exact ⟨some, noSlash, notDot, notDots⟩

theorem leadsTo_shelf (name : String) : (shelf name).LeadsTo ⟨"out"⟩ ["out"] := rfl

theorem find?_shelf (name : String) :
    (shelf name).find? [name, "out"] = some (.file "// H\n".toUTF8) := by
  have apart : ([name, "out"] == ["out"]) = false := by simp
  rw [find?_cons, shelf, List.lookup_cons, apart, List.lookup_cons_self]

theorem beginsWith_shelf : BeginsWith (firstLine "// H") "// H\n".toUTF8 := by
  refine hasFirstLine_iff.mp ?_
  rw [hasFirstLine_toUTF8]
  decide

end

def sources : List OutputFile := [⟨"New.swift", "// H\nnew"⟩, ⟨"New.swift", "// H\nnewer"⟩]

/-- The old file makes place for the new one, which was put out twice. -/
theorem old_file_replaced : ∃ r u,
    write (m := StateM Tree) ⟨"out"⟩ sources "// H" (shelf "Old.swift") = (.ok r, u) ∧
      u.find? ["New.swift", "out"] = some (.file "// H\nnewer".toUTF8) ∧
      u.find? ["Old.swift", "out"] = none ∧
      u.find? ["Notes.swift", "out"] = some (.file "import Combine\n".toUTF8) := by
  have named : ∀ file ∈ sources, IsFileName file.name := by
    have each : ∀ file ∈ sources, file.name ≠ "" ∧ '/' ∉ file.name.toList ∧ file.name ≠ "." ∧
        file.name ≠ ".." := by decide
    intro file mem
    obtain ⟨some, noSlash, notDot, notDots⟩ := each file mem
    exact ⟨some, noSlash, notDot, notDots⟩
  have proper : (shelf "Old.swift").Proper :=
    proper_shelf (by decide)
  have allowed : Allowed (shelf "Old.swift") ⟨"out"⟩ ["out"] sources (firstLine "// H") := by
    refine ⟨fun file mem => ?_, fun _ => by decide⟩
    have name : file.name = "New.swift" := by
      simp only [sources, List.mem_cons, List.not_mem_nil, or_false] at mem
      rcases mem with rfl | rfl <;> rfl
    have free : (shelf "Old.swift").find? ["New.swift", "out"] = none := rfl
    rw [name, free]
    exact ⟨(checkWrite_eq_of_home (t := ∅) rfl _ _).trans (by decide), nofun⟩
  have leads := leadsTo_shelf "Old.swift"
  obtain ⟨r, u, run, -⟩ :=
    exists_run_write (run_createDirs_of_leadsTo leads) leads named proper allowed
  obtain ⟨account, -⟩ := account_of_run_write proper named run
  have place : Path.placeFrom (shelf "Old.swift").home ⟨"out"⟩ = ["out"] := rfl
  rw [place] at account
  refine ⟨r, u, run, (account.written "New.swift" _ rfl).1, ?_, ?_⟩
  · refine (account.others "Old.swift" _ (by decide) rfl).mpr ⟨by decide, ?_, ?_⟩
    · exact beginsWith_shelf
    · decide
  · have notes : (shelf "Old.swift").find? ["Notes.swift", "out"] =
        some (.file "import Combine\n".toUTF8) := rfl
    have other : ¬BeginsWith (firstLine "// H") "import Combine\n".toUTF8 := by
      rw [← hasFirstLine_iff, hasFirstLine_toUTF8]
      decide
    obtain same | ⟨-, n, here, mem | gone⟩ := account.kept _ _ notes
    · exact same
    · cases here
      exact absurd mem (by decide)
    · have removed := (account.others "Notes.swift" _ (by decide) notes).mp gone
      exact absurd removed.2.1 other

/-! ## A way that is too long -/

/-- The directory `out`, after some steps that lead nowhere. -/
def roundabout : Nat → String
  | 0 => "out"
  | k + 1 => "." ++ "/" ++ roundabout k

theorem utf8ByteSize_roundabout (k : Nat) : (roundabout k).utf8ByteSize = 2 * k + 3 := by
  induction k with
  | zero => decide
  | succ k ih =>
    rw [roundabout, String.utf8ByteSize_append, String.utf8ByteSize_append, ih]
    have step : ".".utf8ByteSize + "/".utf8ByteSize = 2 := by decide
    omega

theorem notMem_roundabout (k : Nat) : '\x00' ∉ (roundabout k).toList := by
  induction k with
  | zero => decide
  | succ k ih => simpa [roundabout] using ih

theorem steps_roundabout (k : Nat) : (⟨roundabout k⟩ : Path).isAbsolute = false ∧
    (⟨roundabout k⟩ : Path).steps = ["out"] := by
  induction k with
  | zero => exact ⟨rfl, rfl⟩
  | succ k ih =>
    constructor
    · rw [roundabout, String.append_assoc, Path.isAbsolute_append (by decide)]
      rfl
    · rw [roundabout, Path.steps, Path.names_append, List.filter_append]
      exact ih.2

theorem leadsTo_roundabout (name : String) (k : Nat) :
    (shelf name).LeadsTo ⟨roundabout k⟩ ["out"] :=
  (leadsTo_shelf name).of_steps (steps_roundabout k).1 (steps_roundabout k).2

theorem checkPath_roundabout {k : Nat} (short : 2 * k + 3 ≤ 4095) :
    checkPath ⟨roundabout k⟩ = .ok () := by
  have size := utf8ByteSize_roundabout k
  have some : (roundabout k).isEmpty = false := by
    refine Bool.eq_false_iff.mpr fun empty => ?_
    rw [String.isEmpty_iff.mp empty] at size
    exact absurd size (by simp)
  have zero : (roundabout k).toList.contains '\x00' = false := by
    simpa using notMem_roundabout k
  simp only [checkPath, zero, some, size, Bool.false_eq_true, ↓reduceIte]
  rw [if_neg (by omega)]

theorem checkRead_roundabout {k : Nat} {name : String} (noSlash : '/' ∉ name.toList)
    (long : 4095 < 2 * k + 3 + name.utf8ByteSize) : checkRead ⟨roundabout k⟩ name ≠ .ok () := by
  have size := utf8ByteSize_roundabout k
  have join : 4095 < (Path.join ⟨roundabout k⟩ name).text.utf8ByteSize := by
    obtain ⟨empty, -⟩ | ⟨before, text, join⟩ | ⟨-, join⟩ :=
      Path.join_eq (p := ⟨roundabout k⟩) noSlash
    · rw [show roundabout k = "" from empty] at size
      exact absurd size (by simp)
    · rw [join, ← text, String.utf8ByteSize_append, size]
      exact long
    · rw [join, String.utf8ByteSize_append, String.utf8ByteSize_append, size]
      omega
  intro fine
  obtain ⟨_, path, -⟩ := bind_eq_ok_iff.mp fine
  exact absurd (utf8ByteSize_le_of_checkPath path) (Nat.not_le.mpr join)

/-- An old file stays where its path has become too long to be used, as the directory is given by
many steps that lead nowhere. -/
theorem distant_file_stays :
    let name := String.ofList (List.replicate 250 'a')
    let dir : Path := ⟨roundabout 1950⟩
    let place := dir.placeFrom (shelf name).home
    (shelf name).Proper ∧ ∃ r u,
      write (m := StateM Tree) dir [] "// H" (shelf name) = (.ok r, u) ∧
      firstLine "// H" ≠ "" ∧ BeginsWith (firstLine "// H") "// H\n".toUTF8 ∧
      (shelf name).find? (name :: place) = some (.file "// H\n".toUTF8) ∧
      u.find? (name :: place) = some (.file "// H\n".toUTF8) := by
  intro name dir place
  have long : name.utf8ByteSize = 250 := by decide +kernel
  have named : IsFileName name := isFileName_replicate 247
  have proper := proper_shelf named
  have leads := leadsTo_roundabout name 1950
  have out : place = ["out"] := leads.placeFrom_eq
  have fine : checkPath dir = .ok () := checkPath_roundabout (by decide)
  have far : checkRead dir name ≠ .ok () :=
    checkRead_roundabout named.noSlash (by rw [long]; decide)
  have made := run_createDirs_of_leadsTo leads
  rw [Path.checkDirectory_of_checkPath fine] at made
  have allowed : Allowed (shelf name) dir ["out"] [] (firstLine "// H") :=
    ⟨by simp, fun _ => fine⟩
  obtain ⟨r, u, run, effect, -⟩ :=
    exists_run_write made leads (by simp) proper allowed
  have kept : u.find? [name, "out"] = (shelf name).find? [name, "out"] :=
    effect.kept_name List.not_mem_nil fun stale => far stale.readable
  rw [out]
  exact ⟨proper, r, u, run, by decide, beginsWith_shelf, find?_shelf name,
    kept.trans (find?_shelf name)⟩

end WrapperGen.Output
