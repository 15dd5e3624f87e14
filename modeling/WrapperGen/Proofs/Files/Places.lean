import Mathlib.Data.String.Basic
import WrapperGen.Files.Tree
import WrapperGen.Proofs.Fallible
import WrapperGen.Proofs.Files.Names

namespace WrapperGen

theorem lookup_filter_ne (entries : List (Place × Item)) (key other : Place) :
    (entries.filter (·.1 != key)).lookup other =
      if other = key then none else entries.lookup other := by
  induction entries with
  | nil => simp
  | cons entry rest ih =>
    by_cases gone : entry.1 = key
    · rw [List.filter_cons_of_neg (by simpa using gone), ih]
      split
      next => rfl
      next apart => rw [List.lookup_cons, beq_false_of_ne fun same => apart (same.trans gone)]
    · rw [List.filter_cons_of_pos (by simpa using gone), List.lookup_cons, List.lookup_cons, ih]
      by_cases here : other = entry.1
      · have kept : other ≠ key := fun same => gone (here.symm.trans same)
        simp [here, gone]
      · rw [beq_false_of_ne here]

/-- Where the names lead to from a place if there are directories all the way. -/
def Path.walk (here : Place) : List String → Place
  | [] => here
  | name :: rest =>
    if name = "." then walk here rest
    else if name = ".." then walk here.tail rest
    else walk (name :: here) rest

theorem Path.walk_append (here : Place) (front back : List String) :
    walk here (front ++ back) = walk (walk here front) back := by
  induction front generalizing here with
  | nil => rfl
  | cons name front ih =>
    rw [List.cons_append, walk, walk]
    by_cases dot : name = "."
    · rw [if_pos dot, if_pos dot, ih]
    · by_cases dots : name = ".."
      · rw [if_neg dot, if_neg dot, if_pos dots, if_pos dots, ih]
      · rw [if_neg dot, if_neg dot, if_neg dots, if_neg dots, ih]

/-- The place of a path, as seen from a working directory. -/
def Path.placeFrom (home : Place) (p : Path) : Place :=
  walk (if p.isAbsolute then [] else home) p.names

/-- The place lies on the way along a path: some of the first names of the path lead there. -/
def Path.Passes (home : Place) (p : Path) (place : Place) : Prop :=
  ∃ front, front <+: p.names ∧ walk (if p.isAbsolute then [] else home) front = place

/-- The text has a size with which the system takes it for a path, and no zero byte. -/
def Path.Fits (p : Path) : Prop := '\x00' ∉ p.text.toList ∧ p.text.utf8ByteSize ≤ 4095

instance (p : Path) : Decidable p.Fits := inferInstanceAs (Decidable (_ ∧ _))

namespace Tree

variable {t u : Tree} {p : Path} {place : Place} {name : String}

theorem find?_cons (t : Tree) (name : String) (around : Place) :
    t.find? (name :: around) = t.items.lookup (name :: around) := rfl

theorem find?_put (t : Tree) (name : String) (around : Place) (item : Item) (q : Place) :
    (t.put (name :: around) item).find? q =
      if q = name :: around then some item else t.find? q := by
  cases q with
  | nil => simp [find?]
  | cons n rest =>
    rw [find?_cons, put, List.lookup_cons, erase, lookup_filter_ne, find?_cons]
    by_cases same : n :: rest = name :: around
    · simp [same]
    · rw [beq_false_of_ne same, if_neg same, if_neg same]

theorem find?_erase (t : Tree) (name : String) (around q : Place) :
    (t.erase (name :: around)).find? q = if q = name :: around then none else t.find? q := by
  cases q with
  | nil => simp [find?]
  | cons n rest =>
    rw [find?_cons, erase, lookup_filter_ne, find?_cons]

@[simp] theorem home_put (t : Tree) (place : Place) (item : Item) :
    (t.put place item).home = t.home := rfl

/-! ## The way along a path -/

/-- Where the way along a path begins. -/
def start (t : Tree) (p : Path) : Place := if p.isAbsolute then [] else t.home

/-- The path leads over directories to a directory at the place. -/
def LeadsTo (t : Tree) (p : Path) (place : Place) : Prop :=
  t.descend (t.start p) p.names = .ok place

/-- One name leads from a directory to the next one. -/
inductive Enters (t : Tree) (here : Place) : String → Place → Prop
  | same : Enters t here "." here
  | outer : Enters t here ".." here.tail
  | inner {name : String} (notDot : name ≠ ".") (notDots : name ≠ "..")
    (short : checkName name = .ok ()) (found : t.find? (name :: here) = some .directory) :
    Enters t here name (name :: here)

theorem descend_cons_eq_ok_iff {here : Place} {rest : List String} :
    t.descend here (name :: rest) = .ok place ↔
      ∃ next, t.Enters here name next ∧ t.descend next rest = .ok place := by
  rw [descend]
  constructor
  · intro way
    split at way
    next dot => exact ⟨here, dot ▸ .same, way⟩
    next notDot =>
      split at way
      next dots => exact ⟨here.tail, dots ▸ .outer, way⟩
      next notDots =>
        cases short : checkName name with
        | error fault =>
          rw [short] at way
          cases way
        | ok _ =>
          rw [short] at way
          simp only [bind, Except.bind] at way
          split at way
          next => cases way
          next => cases way
          next found => exact ⟨_, .inner notDot notDots short found, way⟩
  · rintro ⟨next, enters, way⟩
    cases enters with
    | same => exact way
    | outer => exact way
    | inner notDot notDots short found =>
      rw [if_neg notDot, if_neg notDots, short]
      simp only [bind, Except.bind, found]
      exact way

theorem descend_append_eq_ok_iff {here : Place} {front back : List String} :
    t.descend here (front ++ back) = .ok place ↔
      ∃ next, t.descend here front = .ok next ∧ t.descend next back = .ok place := by
  induction front generalizing here with
  | nil => simp [descend]
  | cons name front ih =>
    simp only [List.cons_append, descend_cons_eq_ok_iff, ih]
    constructor
    · rintro ⟨inner, enters, next, way, rest⟩
      exact ⟨next, ⟨inner, enters, way⟩, rest⟩
    · rintro ⟨next, ⟨inner, enters, way⟩, rest⟩
      exact ⟨inner, enters, next, way, rest⟩

theorem descend_filter (t : Tree) (here : Place) (names : List String) :
    t.descend here (names.filter (· ≠ ".")) = t.descend here names := by
  induction names generalizing here with
  | nil => rfl
  | cons name rest ih =>
    by_cases dot : name = "."
    · rw [List.filter_cons_of_neg (by simpa using dot), descend, if_pos dot, ih]
    · rw [List.filter_cons_of_pos (by simpa using dot), descend, descend, ih, ih]
      simp only [ih]

theorem Enters.of_directories {here next : Place}
    (kept : ∀ q, t.find? q = some .directory → u.find? q = some .directory)
    (enters : t.Enters here name next) : u.Enters here name next := by
  cases enters with
  | same => exact .same
  | outer => exact .outer
  | inner notDot notDots short found => exact .inner notDot notDots short (kept _ found)

/-- A way over directories stays one where those directories are. -/
theorem descend_eq_ok_of_directories {here : Place} {names : List String}
    (kept : ∀ q, t.find? q = some .directory → u.find? q = some .directory)
    (way : t.descend here names = .ok place) : u.descend here names = .ok place := by
  induction names generalizing here with
  | nil => exact way
  | cons name rest ih =>
    obtain ⟨next, enters, way⟩ := descend_cons_eq_ok_iff.mp way
    exact descend_cons_eq_ok_iff.mpr ⟨next, enters.of_directories kept, ih way⟩

theorem walk_of_descend {here : Place} {names : List String}
    (way : t.descend here names = .ok place) : Path.walk here names = place := by
  induction names generalizing here with
  | nil => exact Except.ok.inj way
  | cons name rest ih =>
    obtain ⟨next, enters, way⟩ := descend_cons_eq_ok_iff.mp way
    cases enters with
    | same => exact ih way
    | outer => exact ih way
    | inner notDot notDots _ _ =>
      rw [Path.walk, if_neg notDot, if_neg notDots]
      exact ih way

namespace LeadsTo

theorem placeFrom_eq (h : t.LeadsTo p place) : p.placeFrom t.home = place :=
  walk_of_descend h

theorem of_directories (h : t.LeadsTo p place) (home : u.home = t.home)
    (kept : ∀ q, t.find? q = some .directory → u.find? q = some .directory) :
    u.LeadsTo p place := by
  have way := descend_eq_ok_of_directories kept h
  rwa [start, ← home] at way

theorem of_steps (h : t.LeadsTo p place) {p' : Path} (absolute : p'.isAbsolute = p.isAbsolute)
    (steps : p'.steps = p.steps) : t.LeadsTo p' place := by
  unfold LeadsTo start at h ⊢
  rw [← descend_filter] at h ⊢
  rw [absolute]
  exact (congrArg (t.descend _) steps).trans h

theorem put_file {bytes : ByteArray} (leads : t.LeadsTo p place)
    (other : t.find? (name :: place) ≠ some .directory) :
    (t.put (name :: place) (.file bytes)).LeadsTo p place := by
  refine leads.of_directories rfl fun q found => ?_
  have apart : q ≠ name :: place := fun here => other (here ▸ found)
  rw [find?_put, if_neg apart, found]

theorem erase_file {bytes : ByteArray} (leads : t.LeadsTo p place)
    (file : t.find? (name :: place) = some (.file bytes)) :
    (t.erase (name :: place)).LeadsTo p place := by
  refine leads.of_directories rfl fun q found => ?_
  have apart : q ≠ name :: place := by
    rintro rfl
    cases found.symm.trans file
  rw [find?_erase, if_neg apart, found]

end LeadsTo

/-! ## What lies at a path -/

theorem checkPath_empty {p : Path} (empty : p.text = "") : checkPath p ≠ .ok () := by
  rw [checkPath, empty]
  exact nofun

theorem checkPath_eq_ok_iff : checkPath p = .ok () ↔ p.text ≠ "" ∧ p.Fits := by
  simp only [checkPath, Path.Fits, List.contains_iff_mem, String.isEmpty_iff]
  grind

theorem utf8ByteSize_le_of_checkPath (fine : checkPath p = .ok ()) :
    p.text.utf8ByteSize ≤ 4095 := (checkPath_eq_ok_iff.mp fine).2.2

theorem checkPath_of_sublist {p' : Path} (within : p'.text.toList.Sublist p.text.toList)
    (some : p'.text ≠ "") (fine : checkPath p = .ok ()) : checkPath p' = .ok () := by
  obtain ⟨-, noZero, short⟩ := checkPath_eq_ok_iff.mp fine
  refine checkPath_eq_ok_iff.mpr ⟨some, fun zero => noZero (within.subset zero), ?_⟩
  have size := String.utf8Len_le_of_sublist within
  simp only [← String.utf8ByteSize_ofList, String.ofList_toList] at size
  exact size.trans short

theorem checkName_eq_ok_iff : checkName name = .ok () ↔ name.utf8ByteSize ≤ 255 := by
  unfold checkName
  grind

theorem isAbsolute_of_names_eq_nil (none : p.names = []) (fine : checkPath p = .ok ()) :
    p.isAbsolute = true := by
  have some : p.text.toList ≠ [] := fun empty =>
    checkPath_empty (String.toList_eq_nil_iff.mp empty) fine
  obtain ⟨c, rest, text⟩ := List.exists_cons_of_ne_nil some
  by_cases slash : c = '/'
  · simp [Path.isAbsolute, text, slash]
  · -- a path that begins otherwise has a first name
    obtain ⟨pieces, split⟩ := piecesAt_eq_takeWhile_cons '/' p.text.toList
    rw [text, List.takeWhile_cons_of_pos (by simpa using slash), ← text] at split
    simp [Path.names, split] at none

theorem locate_of_names_eq_nil (none : p.names = []) (fine : checkPath p = .ok ()) :
    t.locate p = .ok (.itself []) := by
  simp only [locate, fine, none, List.getLast?_nil]
  rfl

theorem locate_of_names_eq_append {front : List String} {last : String}
    (names : p.names = front ++ [last]) (fine : checkPath p = .ok ()) :
    t.locate p = (do
      let here ← t.descend (t.start p) front
      if last = "." then return .itself here
      if last = ".." then return .itself here.tail
      checkName last
      return .named (last :: here) p.endsInSlash) := by
  simp only [locate, fine, names, List.getLast?_append, List.getLast?_singleton,
    List.dropLast_concat]
  rfl

theorem locate_of_leadsTo (h : t.LeadsTo p place) (fine : checkPath p = .ok ()) :
    t.locate p = .ok (.itself place) ∨
      ∃ slash, t.locate p = .ok (.named place slash) ∧ t.find? place = some .directory := by
  obtain none | ⟨front, last, names⟩ := List.eq_nil_or_concat p.names
  · rw [LeadsTo, none, start, if_pos (isAbsolute_of_names_eq_nil none fine)] at h
    cases h
    exact .inl (locate_of_names_eq_nil none fine)
  · rw [List.concat_eq_append] at names
    rw [locate_of_names_eq_append names fine]
    rw [LeadsTo, names] at h
    obtain ⟨here, way, final⟩ := descend_append_eq_ok_iff.mp h
    obtain ⟨next, enters, done⟩ := descend_cons_eq_ok_iff.mp final
    cases done
    rw [way]
    cases enters with
    | same => exact .inl rfl
    | outer => exact .inl rfl
    | inner notDot notDots short found =>
      refine .inr ⟨p.endsInSlash, ?_, found⟩
      simp only [bind, Except.bind, if_neg notDot, if_neg notDots, short]
      rfl

/-- A path is located by its own dots or by its last name. -/
theorem of_locate {target : Target} (h : t.locate p = .ok target) :
    checkPath p = .ok () ∧
      ((∃ place, target = .itself place ∧ t.LeadsTo p place) ∨
        ∃ front last here, p.names = front ++ [last] ∧ t.descend (t.start p) front = .ok here ∧
          last ≠ "." ∧ last ≠ ".." ∧ checkName last = .ok () ∧
          target = .named (last :: here) p.endsInSlash) := by
  have fine : checkPath p = .ok () := by
    obtain ⟨_, fine, -⟩ := bind_eq_ok_iff.mp h
    exact fine
  refine ⟨fine, ?_⟩
  obtain none | ⟨front, last, names⟩ := List.eq_nil_or_concat p.names
  · rw [locate_of_names_eq_nil none fine] at h
    refine .inl ⟨[], (Except.ok.inj h).symm, ?_⟩
    rw [LeadsTo, none, start, if_pos (isAbsolute_of_names_eq_nil none fine)]
    rfl
  · rw [List.concat_eq_append] at names
    rw [locate_of_names_eq_append names fine] at h
    obtain ⟨here, way, h⟩ := bind_eq_ok_iff.mp h
    have further : ∀ {next}, t.Enters here last next → t.LeadsTo p next := by
      intro next enters
      rw [LeadsTo, names]
      exact descend_append_eq_ok_iff.mpr
        ⟨here, way, descend_cons_eq_ok_iff.mpr ⟨next, enters, rfl⟩⟩
    by_cases dot : last = "."
    · rw [if_pos dot] at h
      exact .inl ⟨here, (Except.ok.inj h).symm, further (dot ▸ .same)⟩
    · rw [if_neg dot] at h
      by_cases dots : last = ".."
      · rw [if_pos dots] at h
        exact .inl ⟨here.tail, (Except.ok.inj h).symm, further (dots ▸ .outer)⟩
      · rw [if_neg dots] at h
        obtain ⟨_, short, h⟩ := bind_eq_ok_iff.mp h
        exact .inr ⟨front, last, here, names, way, dot, dots, short, (Except.ok.inj h).symm⟩

/-- A path stands for what has its last name in the directory to which the others lead. -/
theorem locate_eq_named_iff {slash : Bool} : t.locate p = .ok (.named place slash) ↔
    checkPath p = .ok () ∧ p.endsInSlash = slash ∧ ∃ front last here, p.names = front ++ [last] ∧
      t.descend (t.start p) front = .ok here ∧ last ≠ "." ∧ last ≠ ".." ∧
      checkName last = .ok () ∧ last :: here = place := by
  constructor
  · intro located
    obtain ⟨fine, ⟨_, same, -⟩ | ⟨front, last, here, names, way, dot, dots, short, same⟩⟩ :=
      of_locate located
    · cases same
    · obtain ⟨rfl, rfl⟩ := Target.named.inj same
      exact ⟨fine, rfl, front, last, here, names, way, dot, dots, short, rfl⟩
  · rintro ⟨fine, rfl, front, last, here, names, way, dot, dots, short, rfl⟩
    rw [locate_of_names_eq_append names fine, way]
    simp only [bind, Except.bind, if_neg dot, if_neg dots, short]
    rfl

theorem placeFrom_of_locate {slash : Bool} (located : t.locate p = .ok (.named place slash)) :
    p.placeFrom t.home = place := by
  obtain ⟨-, -, front, last, here, names, way, dot, dots, -, rfl⟩ := locate_eq_named_iff.mp located
  rw [Path.placeFrom, names, Path.walk_append]
  change Path.walk (Path.walk (t.start p) front) [last] = _
  rw [walk_of_descend way, Path.walk, if_neg dot, if_neg dots]
  rfl

/-- A path that leads to a name still does when the directories on its way are still there. -/
theorem locate_named_of_directories {slash : Bool} (home : u.home = t.home)
    (kept : ∀ q, t.find? q = some .directory → u.find? q = some .directory)
    (located : t.locate p = .ok (.named place slash)) : u.locate p = .ok (.named place slash) := by
  obtain ⟨fine, ends, front, last, here, names, way, rest⟩ := locate_eq_named_iff.mp located
  have way' := descend_eq_ok_of_directories kept way
  rw [start, ← home] at way'
  exact locate_eq_named_iff.mpr ⟨fine, ends, front, last, here, names, way', rest⟩

theorem leadsTo_of_named {front : List String} {last : String} {here : Place}
    (names : p.names = front ++ [last]) (way : t.descend (t.start p) front = .ok here)
    (notDot : last ≠ ".") (notDots : last ≠ "..") (short : checkName last = .ok ())
    (found : t.find? (last :: here) = some .directory) : t.LeadsTo p (last :: here) := by
  rw [LeadsTo, names]
  exact descend_append_eq_ok_iff.mpr ⟨here, way,
    descend_cons_eq_ok_iff.mpr ⟨_, .inner notDot notDots short found, rfl⟩⟩

theorem stat_eq_directory_iff :
    t.stat p = .ok (place, .directory) ↔ checkPath p = .ok () ∧ t.LeadsTo p place := by
  constructor
  · intro h
    obtain ⟨target, located, h⟩ := bind_eq_ok_iff.mp h
    obtain ⟨fine, ⟨place', rfl, leads⟩ | ⟨front, last, here, names, way, dot, dots, short, rfl⟩⟩ :=
      of_locate located
    · cases h
      exact ⟨fine, leads⟩
    · simp only at h
      split at h
      next => cases h
      next found =>
        cases h
        exact ⟨fine, leadsTo_of_named names way dot dots short found⟩
      next =>
        split at h
        next => cases h
        next => cases h
  · rintro ⟨fine, leads⟩
    unfold stat
    obtain located | ⟨slash, located, found⟩ := locate_of_leadsTo leads fine
    · rw [located]
      rfl
    · simp only [located, bind, Except.bind, found]
      rfl

theorem isDir_iff : t.isDir p = true ↔ checkPath p = .ok () ∧ ∃ place, t.LeadsTo p place := by
  unfold isDir
  constructor
  · intro h
    split at h
    next found =>
      obtain ⟨fine, leads⟩ := stat_eq_directory_iff.mp found
      exact ⟨fine, _, leads⟩
    next => cases h
  · rintro ⟨fine, place, leads⟩
    rw [stat_eq_directory_iff.mpr ⟨fine, leads⟩]

/-- A name in a directory is found in the place of that directory. -/
theorem locate_join (h : t.LeadsTo p place) (proper : IsFileName name)
    (fine : checkPath (p.join name) = .ok ()) :
    t.locate (p.join name) = (do
      checkName name
      return .named (name :: place) false) := by
  have way : t.descend (t.start (p.join name)) p.names = .ok place := by
    rw [start, Path.isAbsolute_join proper]
    exact h
  rw [locate_of_names_eq_append (Path.names_join proper) fine, way,
    Path.endsInSlash_join proper]
  simp only [bind, Except.bind, if_neg proper.notDot, if_neg proper.notDots]

end Tree

end WrapperGen
