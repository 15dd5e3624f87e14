import Mathlib.Data.List.Nodup
import Mathlib.Data.List.Perm.Subperm
import WrapperGen.Proofs.Files.Directories

namespace WrapperGen

namespace Tree

variable {t u : Tree} {p : Path} {here place : Place} {name : String} {bytes : ByteArray}

/-! ## A file that waits for its place -/

theorem temporaryName_injective : Function.Injective temporaryName := fun _ _ same =>
  Nat.add_left_cancel (repr_inj.mp ((String.append_right_inj ".tmp").mp same))

/-- More names are tried than there are files. -/
theorem exists_free_temporaryName (t : Tree) (here : Place) :
    ∃ name, ((List.range (t.items.length + 1)).map temporaryName).find?
      (fun name => (t.find? (name :: here)).isNone) = some name ∧
        t.find? (name :: here) = none := by
  cases found : ((List.range (t.items.length + 1)).map temporaryName).find?
    fun name => (t.find? (name :: here)).isNone with
  | some name => exact ⟨name, rfl, by simpa using List.find?_some found⟩
  | none =>
    let places := (List.range (t.items.length + 1)).map fun number => temporaryName number :: here
    have distinct : places.Nodup := List.nodup_range.map fun _ _ same =>
      temporaryName_injective (List.cons.inj same).1
    have within : places ⊆ t.items.map Prod.fst := by
      intro q mem
      obtain ⟨number, tried, rfl⟩ := List.mem_map.mp mem
      have taken := List.find?_eq_none.mp found _ (List.mem_map_of_mem tried)
      have there : (t.items.lookup (temporaryName number :: here)).isSome = true := by
        simpa [find?_cons, Option.isSome_iff_ne_none] using taken
      obtain ⟨item, mem, same⟩ := List.lookup_isSome_iff.mp there
      exact List.mem_map.mpr ⟨item, mem, (beq_iff_eq.mp same).symm⟩
    have few := (List.subperm_of_subset distinct within).length_le
    simp only [places, List.length_map, List.length_range] at few
    omega

theorem makeTemporary_of_leadsTo {directory : Path} (leads : t.LeadsTo directory here)
    (fine : checkPath (t.freshIn directory) = .ok ()) :
    ∃ name, t.find? (name :: here) = none ∧
      t.makeTemporary directory = .ok (name :: here, t.put (name :: here) (.file .empty)) := by
  obtain ⟨name, found, free⟩ := t.exists_free_temporaryName here
  have way : t.descend (if directory.isAbsolute then [] else t.home) directory.names = .ok here :=
    leads
  refine ⟨name, free, ?_⟩
  simp only [makeTemporary, bind, Except.bind, fine, way, found]
  rfl

theorem put_put (t : Tree) (q : Place) (item item' : Item) :
    (t.put q item).put q item' = t.put q item' := by
  simp [put, erase]

/-- What is put where nothing was and is taken away again leaves no trace. -/
theorem erase_put_of_free (free : t.find? (name :: here) = none) (item : Item) :
    (t.put (name :: here) item).erase (name :: here) = t := by
  have absent : ∀ entry ∈ t.items, entry.1 ≠ name :: here := by
    rintro entry mem same
    have there : (t.items.lookup (name :: here)).isSome = true :=
      List.lookup_isSome_iff.mpr ⟨entry, mem, beq_iff_eq.mpr same.symm⟩
    rw [← find?_cons, free] at there
    cases there
  have kept : t.items.filter (·.1 != name :: here) = t.items :=
    List.filter_eq_self.mpr fun entry mem => bne_iff_ne.mpr (absent entry mem)
  simp [put, erase, kept]

theorem persist_eq_ok_iff {temporary : Place} (waits : t.find? temporary = some (.file bytes)) :
    t.persist temporary p = .ok u ↔ ∃ place, t.locate p = .ok (.named place false) ∧
      t.find? place ≠ some .directory ∧ u = (t.erase temporary).put place (.file bytes) := by
  simp only [persist, waits]
  constructor
  · intro persisted
    obtain ⟨target, located, persisted⟩ := bind_eq_ok_iff.mp persisted
    cases target with
    | itself _ => cases persisted
    | named place slash =>
      cases slash with
      | true => cases persisted
      | false =>
        refine ⟨place, located, ?_⟩
        simp only [Bool.false_eq_true, ↓reduceIte] at persisted
        split at persisted
        next => cases persisted
        next found =>
          cases persisted
          exact ⟨by simp [found], rfl⟩
        next found =>
          cases persisted
          exact ⟨by simp [found], rfl⟩
  · rintro ⟨place, located, other, rfl⟩
    simp only [located, bind, Except.bind, Bool.false_eq_true, ↓reduceIte]
    cases found : t.find? place with
    | none => rfl
    | some item =>
      cases item with
      | directory => exact absurd found other
      | file _ => rfl

theorem fresh_of_home (home : u.home = t.home) (p : Path) : u.fresh p = t.fresh p := by
  rw [fresh, freshIn, home]
  rfl

/-- Nothing has changed but for the file at a path, which has these bytes. -/
structure Replaces (t : Tree) (p : Path) (place : Place) (bytes : ByteArray) (u : Tree) : Prop where
  beside : checkPath (t.fresh p) = .ok ()
  located : t.locate p = .ok (.named place false)
  other : t.find? place ≠ some .directory
  put : u = t.put place (.file bytes)

/-- A file that waits where nothing was is in nobody's way. -/
theorem persist_put_eq_ok_iff (free : t.find? (name :: here) = none)
    (beside : checkPath (t.fresh p) = .ok ()) :
    (t.put (name :: here) (.file bytes)).persist (name :: here) p = .ok u ↔
      ∃ place, t.Replaces p place bytes u := by
  have directory : ∀ q, (t.put (name :: here) (.file bytes)).find? q = some .directory ↔
      t.find? q = some .directory := by
    intro q
    rw [find?_put]
    split
    next same => simp [same, free]
    next => rfl
  have waits : (t.put (name :: here) (.file bytes)).find? (name :: here) = some (.file bytes) := by
    rw [find?_put, if_pos rfl]
  rw [persist_eq_ok_iff waits, erase_put_of_free free]
  constructor
  · rintro ⟨place, located, other, put⟩
    have located' :=
      locate_named_of_directories (home_put t _ _).symm (fun q => (directory q).mp) located
    exact ⟨place, beside, located', mt (directory place).mpr other, put⟩
  · rintro ⟨place, -, located, other, put⟩
    have located' :=
      locate_named_of_directories (home_put t _ _) (fun q => (directory q).mpr) located
    exact ⟨place, located', mt (directory place).mp other, put⟩

end Tree

open WrapperGen.Tree

theorem run_step (change : Tree → Except Fault Tree) (t : Tree) :
    step change t = match change t with
      | .ok u => (.ok (), u)
      | .error fault => (.error fault, t) := by
  unfold step
  cases change t <;> rfl

variable {t u : Tree} {p : Path} {here : Place} {fault : Fault}

theorem run_makeTemporary (directory : Path) (t : Tree) :
    Files.makeTemporary (m := StateM Tree) directory t = stepFor (·.makeTemporary directory) t :=
  rfl

theorem run_replace_of_beside (beside : checkPath (t.fresh p) = .error fault) (bytes : ByteArray) :
    Files.replace (m := StateM Tree) p bytes t = (.error fault, t) := by
  have made : t.makeTemporary p.parent = .error fault := by
    change checkPath (t.freshIn p.parent) = _ at beside
    rw [Tree.makeTemporary, beside]
    rfl
  rw [Files.replace, run_bind, run_makeTemporary, stepFor, made]
  rfl

theorem run_fill (temporary : Place) (bytes : ByteArray) (t : Tree) :
    Files.fill (m := StateM Tree) temporary bytes t =
      (.ok (), t.put temporary (.file bytes)) := rfl

theorem run_persist (temporary : Place) (p : Path) (t : Tree) :
    Files.persist (m := StateM Tree) temporary p t = step (·.persist temporary p) t := rfl

/-- The file waits with its bytes until it takes its place or is taken away. -/
theorem run_replace_of_makeTemporary {temporary : Place} (made : t.makeTemporary p.parent =
    .ok (temporary, t.put temporary (.file .empty))) (bytes : ByteArray) :
    Files.replace (m := StateM Tree) p bytes t =
      match (t.put temporary (.file bytes)).persist temporary p with
      | .ok u => (.ok (), u)
      | .error fault => (.error fault, (t.put temporary (.file bytes)).erase temporary) := by
  rw [Files.replace, run_bind, run_makeTemporary, stepFor, made]
  change (Files.fill (m := StateM Tree) temporary bytes >>= _) _ = _
  rw [run_bind, run_fill, put_put]
  change (Files.persist (m := StateM Tree) temporary p >>= _) _ = _
  rw [run_bind, run_persist, run_step]
  cases (t.put temporary (.file bytes)).persist temporary p <;> rfl

/-- Seen from outside, the file takes its place at one stroke. -/
theorem run_replace_eq_ok_iff {bytes : ByteArray} (leads : t.LeadsTo p.parent here) :
    Files.replace (m := StateM Tree) p bytes t = (.ok (), u) ↔
      ∃ place, t.Replaces p place bytes u := by
  cases beside : checkPath (t.fresh p) with
  | error fault =>
    rw [run_replace_of_beside beside]
    constructor
    · exact nofun
    · rintro ⟨place, replaces⟩
      cases beside.symm.trans replaces.beside
  | ok _ =>
    obtain ⟨name, free, made⟩ := makeTemporary_of_leadsTo leads beside
    rw [run_replace_of_makeTemporary made, ← persist_put_eq_ok_iff free beside]
    cases (t.put (name :: here) (.file bytes)).persist (name :: here) p with
    | error fault => constructor <;> exact nofun
    | ok v =>
      constructor
      · intro run
        cases run
        rfl
      · intro put
        cases put
        rfl

/-- Where the file does not take its place, nothing of it is left. -/
theorem eq_of_run_replace {bytes : ByteArray} (leads : t.LeadsTo p.parent here)
    (run : Files.replace (m := StateM Tree) p bytes t = (.error fault, u)) : u = t := by
  cases beside : checkPath (t.fresh p) with
  | error fault =>
    rw [run_replace_of_beside beside] at run
    cases run
    rfl
  | ok _ =>
    obtain ⟨name, free, made⟩ := makeTemporary_of_leadsTo leads beside
    rw [run_replace_of_makeTemporary made, erase_put_of_free free] at run
    split at run
    next => cases run
    next =>
      cases run
      rfl

end WrapperGen
