import WrapperGen.Proofs.Files.Places

namespace WrapperGen

open Files

variable {t u v : Tree} {p : Path} {place : Place}

namespace Tree

/-- Nothing has a name that no file or directory can have. -/
def Proper (t : Tree) : Prop :=
  ∀ name around, (t.find? (name :: around)).isSome = true → IsFileName name

/-- Nothing has changed but for new directories where there was nothing. -/
structure GainsDirectories (t u : Tree) : Prop where
  home : u.home = t.home
  found : ∀ q, u.find? q = t.find? q ∨
    t.find? q = none ∧ u.find? q = some .directory ∧
      ∃ name around, q = name :: around ∧ IsFileName name

namespace GainsDirectories

theorem refl (t : Tree) : t.GainsDirectories t := ⟨rfl, fun _ => .inl rfl⟩

theorem trans (h : t.GainsDirectories u) (h' : u.GainsDirectories v) : t.GainsDirectories v where
  home := h'.home.trans h.home
  found q := by
    obtain same' | ⟨none', found', named'⟩ := h'.found q
    · rw [same']
      exact h.found q
    · obtain same | ⟨_, found, _⟩ := h.found q
      · exact .inr ⟨same ▸ none', found', named'⟩
      · rw [found] at none'
        cases none'

theorem directory (h : t.GainsDirectories u) {q : Place} (found : t.find? q = some .directory) :
    u.find? q = some .directory := by
  obtain same | ⟨none, -, -⟩ := h.found q
  · rw [same, found]
  · rw [none] at found
    cases found

theorem file_iff (h : t.GainsDirectories u) {q : Place} {bytes : ByteArray} :
    u.find? q = some (.file bytes) ↔ t.find? q = some (.file bytes) := by
  obtain same | ⟨none, found, -⟩ := h.found q
  · rw [same]
  · rw [none, found]
    simp

theorem proper (h : t.GainsDirectories u) (proper : t.Proper) : u.Proper := by
  intro name around found
  obtain same | ⟨-, -, _, _, here, named⟩ := h.found (name :: around)
  · exact proper name around (same ▸ found)
  · cases here
    exact named

end GainsDirectories

theorem gainsDirectories_put {name : String} {around : Place} (proper : IsFileName name)
    (free : t.find? (name :: around) = none) :
    t.GainsDirectories (t.put (name :: around) .directory) where
  home := rfl
  found q := by
    rw [find?_put]
    split
    next here => exact .inr ⟨here ▸ free, rfl, name, around, here, proper⟩
    next => exact .inl rfl

/-- Nothing has changed but for new directories on the way along a path. -/
structure MakesWay (t : Tree) (p : Path) (u : Tree) : Prop extends t.GainsDirectories u where
  passed : ∀ q, u.find? q ≠ t.find? q → p.Passes t.home q

namespace MakesWay

theorem refl (t : Tree) (p : Path) : t.MakesWay p t :=
  ⟨.refl t, fun _ changed => absurd rfl changed⟩

theorem trans (h : t.MakesWay p u) (h' : u.MakesWay p v) : t.MakesWay p v where
  toGainsDirectories := h.toGainsDirectories.trans h'.toGainsDirectories
  passed q changed := by
    by_cases same : v.find? q = u.find? q
    · exact h.passed q (same ▸ changed)
    · exact h.home ▸ h'.passed q same

theorem of_front {front : Path} (h : t.MakesWay front u)
    (absolute : front.isAbsolute = p.isAbsolute) (names : front.names <+: p.names) :
    t.MakesWay p u where
  toGainsDirectories := h.toGainsDirectories
  passed q changed := by
    obtain ⟨way, before, here⟩ := h.passed q changed
    exact ⟨way, before.trans names, absolute ▸ here⟩

/-- What has changed is a directory where there was nothing. -/
theorem new (h : t.MakesWay p u) {q : Place} (changed : u.find? q ≠ t.find? q) :
    t.find? q = none ∧ u.find? q = some .directory ∧ p.Passes t.home q := by
  obtain same | ⟨free, found, -⟩ := h.found q
  · exact absurd same changed
  · exact ⟨free, found, h.passed q changed⟩

theorem find?_eq (h : t.MakesWay p u) {q : Place} (other : u.find? q ≠ some .directory) :
    u.find? q = t.find? q :=
  (h.found q).resolve_right fun new => other new.2.1

end MakesWay

theorem locate_of_checkPath {fault : Fault} (wrong : checkPath p = .error fault) :
    t.locate p = .error fault := by
  simp only [locate, wrong]
  rfl

theorem makeDir_of_leadsTo (h : t.LeadsTo p place) :
    t.makeDir p = checkPath p >>= fun _ => .error .alreadyExists := by
  unfold makeDir
  cases fine : checkPath p with
  | error fault =>
    rw [locate_of_checkPath fine]
    rfl
  | ok _ =>
    obtain located | ⟨slash, located, found⟩ := locate_of_leadsTo h fine
    · rw [located]
      rfl
    · simp only [located, bind, Except.bind, found]
      rfl

theorem makeDir_eq_ok_iff : t.makeDir p = .ok u ↔ ∃ place slash,
    t.locate p = .ok (.named place slash) ∧ t.find? place = none ∧ u = t.put place .directory := by
  constructor
  · intro made
    obtain ⟨target, located, made⟩ := bind_eq_ok_iff.mp made
    cases target with
    | itself _ => cases made
    | named place slash =>
      simp only at made
      split at made
      next => cases made
      next free =>
        cases made
        exact ⟨place, slash, located, Option.not_isSome_iff_eq_none.mp free, rfl⟩
  · rintro ⟨place, slash, located, free, rfl⟩
    simp only [makeDir, located, bind, Except.bind, free]
    rfl

theorem of_makeDir (h : t.makeDir p = .ok u) :
    t.MakesWay p u ∧ checkPath p = .ok () ∧ ∃ place, u.LeadsTo p place := by
  obtain ⟨_, _, located, free, rfl⟩ := makeDir_eq_ok_iff.mp h
  obtain ⟨fine, -, front, last, here, names, way, dot, dots, short, rfl⟩ :=
    locate_eq_named_iff.mp located
  have proper : IsFileName last := by
    have mem : last ∈ p.names := names ▸ List.mem_append_right _ (List.mem_singleton_self _)
    obtain ⟨some, noSlash⟩ := Path.mem_names mem
    exact ⟨some, noSlash, dot, dots⟩
  have gains := gainsDirectories_put proper free
  have leads : (t.put (last :: here) .directory).LeadsTo p (last :: here) := by
    refine leadsTo_of_named names ?_ dot dots short ?_
    · exact descend_eq_ok_of_directories (fun _ => gains.directory) way
    · rw [find?_put, if_pos rfl]
  refine ⟨⟨gains, fun q changed => ⟨p.names, List.prefix_refl _, ?_⟩⟩, fine, _, leads⟩
  have new : q = last :: here := Decidable.byContradiction fun apart =>
    changed ((find?_put t last here _ q).trans (if_neg apart))
  subst new
  exact leads.placeFrom_eq

end Tree

open WrapperGen.Tree

theorem run_bind {α β : Type} (x : StateM Tree α) (f : α → StateM Tree β) (t : Tree) :
    (x >>= f) t = f (x t).1 (x t).2 := rfl

theorem run_pure {α : Type} (a : α) (t : Tree) : (pure a : StateM Tree α) t = (a, t) := rfl

/-- Where a failure of the first part is one of the whole, a run that succeeds has succeeded in its
first part. -/
theorem exists_of_run_bind {α β ε δ : Type} {x : StateM Tree (Except ε α)}
    {f : Except ε α → StateM Tree (Except δ β)} {b : β} (run : (x >>= f) t = (.ok b, u))
    (fails : ∀ fault t, ∃ failure t', f (.error fault) t = (.error failure, t')) :
    ∃ a v, x t = (.ok a, v) ∧ f (.ok a) v = (.ok b, u) := by
  rw [run_bind] at run
  rcases first : x t with ⟨fault | a, v⟩
  · obtain ⟨failure, t', failed⟩ := fails fault v
    rw [first, failed] at run
    cases run
  · rw [first] at run
    exact ⟨a, v, rfl, run⟩

theorem run_makeDir (p : Path) (t : Tree) :
    Files.makeDir (m := StateM Tree) p t = match t.makeDir p with
      | .ok u => (.ok (), u)
      | .error fault => (.error fault, t) := rfl

theorem run_isDir (p : Path) (t : Tree) : Files.isDir (m := StateM Tree) p t = (t.isDir p, t) := rfl

theorem run_keepDir (p : Path) (fault : Fault) (t : Tree) :
    (do if ← Files.isDir p then return .ok () else return .error fault :
      StateM Tree (Except Fault Unit)) t = (if t.isDir p then .ok () else .error fault, t) := by
  rw [run_bind, run_isDir]
  by_cases dir : t.isDir p = true
  · rw [if_pos dir, if_pos dir, run_pure]
  · rw [if_neg dir, if_neg dir, run_pure]

theorem run_makeOrKeepDir (p : Path) (t : Tree) :
    makeOrKeepDir (m := StateM Tree) p t = match t.makeDir p with
      | .ok u => (.ok (), u)
      | .error fault => (if t.isDir p then .ok () else .error fault, t) := by
  rw [makeOrKeepDir, run_bind, run_makeDir]
  cases t.makeDir p with
  | ok u => rfl
  | error fault => exact run_keepDir p fault t

theorem run_makeDirs (p : Path) (names : List String) (above : List (List String)) (t : Tree) :
    makeDirs (m := StateM Tree) p (names :: above) t = match t.makeDir p with
      | .ok u => (.ok (), u)
      | .error .noSuchFile =>
        match makeDirs (m := StateM Tree) (.ofNames p.isAbsolute names) above t with
        | (.ok (), u) => makeOrKeepDir (m := StateM Tree) p u
        | (.error fault, u) => (.error fault, u)
      | .error fault => (if t.isDir p then .ok () else .error fault, t) := by
  rw [makeDirs, run_bind, run_makeDir]
  cases t.makeDir p with
  | ok u => rfl
  | error fault =>
    cases fault with
    | noSuchFile =>
      change (makeDirs (m := StateM Tree) (.ofNames p.isAbsolute names) above >>= _) t = _
      rw [run_bind]
      rcases makeDirs (m := StateM Tree) (.ofNames p.isAbsolute names) above t
        with ⟨⟨⟩ | ⟨⟩, u⟩ <;> rfl
    | _ => exact run_keepDir p _ t

/-! ## Making directories -/

/-- The lists hold the names of directories on the way along the path, each one around the one
before it. -/
structure Path.Above (p : Path) (above : List (List String)) : Prop where
  some : ∀ names ∈ above, names ≠ []
  outward : (p.names.reverse :: above).Pairwise fun inner outer => outer <:+ inner

namespace Path.Above

theorem self (p : Path) : p.Above p.above where
  some _ mem := ne_nil_of_mem_shortened (List.mem_of_mem_drop mem)
  outward := (pairwise_shortened p.names.reverse).sublist ((List.drop_sublist 1 _).cons_cons _)

variable {names : List String} {above : List (List String)}

/-- The directory right above is itself on the way along the path. -/
theorem nearest (h : p.Above (names :: above)) :
    (ofNames p.isAbsolute names).isAbsolute = p.isAbsolute ∧
      (ofNames p.isAbsolute names).names <+: p.names ∧
      (ofNames p.isAbsolute names).Above above := by
  obtain ⟨first, others⟩ := List.pairwise_cons.mp h.outward
  have ends := first names List.mem_cons_self
  have proper : ∀ n ∈ names, n ≠ "" ∧ '/' ∉ n.toList := fun n mem =>
    mem_names (List.mem_reverse.mp (ends.subset mem))
  have same := names_ofNames proper p.isAbsolute
  refine ⟨isAbsolute_ofNames (h.some names List.mem_cons_self) proper _, ?_, ?_, ?_⟩
  · rwa [same, ← List.reverse_suffix, List.reverse_reverse]
  · exact fun outer mem => h.some outer (List.mem_cons_of_mem _ mem)
  · rwa [same, List.reverse_reverse]

end Path.Above

theorem of_run_keepDir {fault : Fault} {result : Except Fault Unit}
    (h : (if t.isDir p then Except.ok () else .error fault, t) = (result, u)) :
    t.MakesWay p u ∧ (result = .ok () → checkPath p = .ok () ∧ ∃ place, u.LeadsTo p place) := by
  cases h
  refine ⟨.refl t p, fun kept => ?_⟩
  by_cases dir : t.isDir p = true
  · exact isDir_iff.mp dir
  · rw [if_neg dir] at kept
    cases kept

theorem of_run_makeOrKeepDir {result : Except Fault Unit}
    (h : makeOrKeepDir (m := StateM Tree) p t = (result, u)) :
    t.MakesWay p u ∧ (result = .ok () → checkPath p = .ok () ∧ ∃ place, u.LeadsTo p place) := by
  rw [run_makeOrKeepDir] at h
  cases made : t.makeDir p with
  | ok u' =>
    rw [made] at h
    cases h
    exact ⟨(of_makeDir made).1, fun _ => (of_makeDir made).2⟩
  | error fault =>
    rw [made] at h
    exact of_run_keepDir h

/-- Directories on the way are made at most, and where nothing fails the path leads to one. -/
theorem of_run_makeDirs {above : List (List String)} {result : Except Fault Unit}
    (around : p.Above above) (h : makeDirs (m := StateM Tree) p above t = (result, u)) :
    t.MakesWay p u ∧ (result = .ok () → checkPath p = .ok () ∧ ∃ place, u.LeadsTo p place) := by
  -- the directory right above is made with the others, then the path is tried again
  induction above generalizing p result u with
  | nil => exact of_run_makeOrKeepDir h
  | cons names above ih =>
    rw [run_makeDirs] at h
    obtain ⟨absolute, front, around⟩ := around.nearest
    split at h
    next made =>
      cases h
      exact ⟨(of_makeDir made).1, fun _ => (of_makeDir made).2⟩
    next =>
      split at h
      next t' outer =>
        have way := (ih around outer).1.of_front absolute front
        obtain ⟨way', leads⟩ := of_run_makeOrKeepDir h
        exact ⟨way.trans way', leads⟩
      next outer =>
        cases h
        exact ⟨(ih around outer).1.of_front absolute front, nofun⟩
    next => exact of_run_keepDir h

/-- What is wrong with the path of a directory that is there already. -/
def Path.checkDirectory (p : Path) : Except Fault Unit :=
  if p.text.isEmpty then .ok () else Tree.checkPath p

theorem Path.checkDirectory_of_checkPath (fine : checkPath p = .ok ()) :
    p.checkDirectory = .ok () := by
  unfold checkDirectory
  split
  next => rfl
  next => exact fine

/-- To create a directory makes way for it, whatever comes of it. -/
theorem makesWay_of_run_createDirs {result : Except Fault Unit}
    (h : createDirs (m := StateM Tree) p t = (result, u)) : t.MakesWay p u ∧
      (result = .ok () → p.checkDirectory = .ok () ∧ ∃ place, u.LeadsTo p place) := by
  unfold createDirs at h
  unfold Path.checkDirectory
  split at h
  next empty =>
    cases h
    have names : p.names = [] := congrArg (Path.names ⟨·⟩) (String.isEmpty_iff.mp empty)
    have leads : t.LeadsTo p (t.start p) := by
      rw [LeadsTo, names]
      rfl
    exact ⟨.refl t p, fun _ => ⟨if_pos empty, _, leads⟩⟩
  next some =>
    rw [if_neg some]
    exact of_run_makeDirs (.self p) h

theorem of_run_createDirs {result : Except Fault Unit}
    (h : createDirs (m := StateM Tree) p t = (result, u)) :
    t.GainsDirectories u ∧ (result = .ok () → ∃ place, u.LeadsTo p place) :=
  ⟨(makesWay_of_run_createDirs h).1.toGainsDirectories,
    fun made => ((makesWay_of_run_createDirs h).2 made).2⟩

theorem noSuchFile_ne_checkPath (some : p.text.isEmpty = false) :
    checkPath p ≠ .error .noSuchFile := by
  unfold checkPath
  split
  next => nofun
  next =>
    rw [some]
    split
    next impossible => cases impossible
    next => split <;> nofun

theorem makeDir_error_of_leadsTo (h : t.LeadsTo p place) (some : p.text.isEmpty = false) :
    ∃ fault, t.makeDir p = .error fault ∧ fault ≠ .noSuchFile ∧
      (if t.isDir p then Except.ok () else .error fault) = checkPath p := by
  have made := makeDir_of_leadsTo h
  cases fine : checkPath p with
  | ok _ =>
    rw [fine] at made
    exact ⟨.alreadyExists, made, nofun, if_pos (isDir_iff.mpr ⟨fine, place, h⟩)⟩
  | error fault =>
    rw [fine] at made
    refine ⟨fault, made, ?_, if_neg ?_⟩
    · rintro rfl
      exact noSuchFile_ne_checkPath some fine
    · rw [isDir_iff, fine]
      exact fun impossible => nomatch impossible.1

/-- Nothing is made where more than a directory around is missing. -/
theorem run_makeDirs_of_makeDir_eq_error {fault : Fault} (made : t.makeDir p = .error fault)
    (other : fault ≠ .noSuchFile) (above : List (List String)) :
    makeDirs (m := StateM Tree) p above t = (if t.isDir p then .ok () else .error fault, t) := by
  cases above with
  | nil => simp only [makeDirs, run_makeOrKeepDir, made]
  | cons names above =>
    rw [run_makeDirs, made]
    split
    next same => cases same
    next same => exact absurd (Except.error.inj same) other
    next same =>
      cases same
      rfl

theorem run_makeDirs_of_leadsTo (h : t.LeadsTo p place) (some : p.text.isEmpty = false)
    (above : List (List String)) :
    makeDirs (m := StateM Tree) p above t = (checkPath p, t) := by
  obtain ⟨fault, made, other, kept⟩ := makeDir_error_of_leadsTo h some
  rw [run_makeDirs_of_makeDir_eq_error made other, kept]

theorem createDirs_eq_makeDirs (filled : p.text ≠ "") :
    createDirs (m := StateM Tree) p = makeDirs p p.above := by
  rw [createDirs, if_neg (by simpa using filled)]

/-- Directories that are there stay as they are. -/
theorem run_createDirs_of_leadsTo (h : t.LeadsTo p place) :
    createDirs (m := StateM Tree) p t = (p.checkDirectory, t) := by
  unfold createDirs Path.checkDirectory
  cases some : p.text.isEmpty with
  | true => rfl
  | false => exact run_makeDirs_of_leadsTo h some p.above

end WrapperGen
