import WrapperGen.Proofs.Files.Replacing
import WrapperGen.Proofs.Roster.Lookup

namespace WrapperGen

open Files

namespace Tree

variable {t u : Tree} {dir : Path} {place : Place} {name : String}

/-- What is wrong with reading a name in a directory, whatever lies there. -/
def checkRead (dir : Path) (name : String) : Except Fault Unit := do
  checkPath (dir.join name)
  checkName name

/-- What is wrong with writing a name in a directory, whatever lies there. -/
def checkWrite (t : Tree) (dir : Path) (name : String) : Except Fault Unit := do
  (dir.join name).parent.checkDirectory
  checkPath (t.fresh (dir.join name))
  checkRead dir name

theorem checkWrite_eq_of_home (home : u.home = t.home) (dir : Path) (name : String) :
    u.checkWrite dir name = t.checkWrite dir name := by
  simp only [checkWrite, fresh_of_home home]

theorem checkRead_of_checkWrite (fine : t.checkWrite dir name = .ok ()) :
    checkRead dir name = .ok () := by
  obtain ⟨_, _, fine⟩ := bind_eq_ok_iff.mp fine
  exact (bind_eq_ok_iff.mp fine).elim fun _ h => h.2

section

variable (leads : t.LeadsTo dir place) (proper : IsFileName name)
include leads proper

theorem leadsTo_parent_join : t.LeadsTo (dir.join name).parent place := by
  obtain ⟨absolute, steps⟩ := Path.parent_join (p := dir) proper
  exact leads.of_steps absolute steps

theorem locate_join_eq : t.locate (dir.join name) = (do
    checkRead dir name
    return .named (name :: place) false) := by
  unfold checkRead
  cases fine : checkPath (dir.join name) with
  | error fault => exact locate_of_checkPath fine
  | ok _ => exact locate_join leads proper fine

theorem stat_join (fine : checkRead dir name = .ok ()) :
    t.stat (dir.join name) = match t.find? (name :: place) with
      | none => .error .noSuchFile
      | some item => .ok (name :: place, item) := by
  rw [stat, locate_join_eq leads proper, fine]
  simp only [bind, Except.bind, pure, Except.pure]
  cases t.find? (name :: place) with
  | none => rfl
  | some item => cases item <;> rfl

theorem stat_join_eq_ok_iff {q : Place} {item : Item} :
    t.stat (dir.join name) = .ok (q, item) ↔
      checkRead dir name = .ok () ∧ q = name :: place ∧ t.find? (name :: place) = some item := by
  cases fine : checkRead dir name with
  | error fault =>
    rw [stat, locate_join_eq leads proper, fine]
    constructor
    · exact nofun
    · exact fun impossible => nomatch impossible.1
  | ok _ =>
    rw [stat_join leads proper fine]
    cases t.find? (name :: place) with
    | none =>
      constructor
      · exact nofun
      · exact fun impossible => nomatch impossible.2.2
    | some other =>
      constructor
      · intro h
        cases h
        exact ⟨rfl, rfl, rfl⟩
      · rintro ⟨-, rfl, same⟩
        cases same
        rfl

theorem isFile_join_iff : t.isFile (dir.join name) = true ↔
    checkRead dir name = .ok () ∧ ∃ bytes, t.find? (name :: place) = some (.file bytes) := by
  unfold isFile
  constructor
  · intro h
    split at h
    next found =>
      obtain ⟨fine, rfl, file⟩ := (stat_join_eq_ok_iff leads proper).mp found
      exact ⟨fine, _, file⟩
    next => cases h
  · rintro ⟨fine, bytes, file⟩
    rw [(stat_join_eq_ok_iff leads proper).mpr ⟨fine, rfl, file⟩]

theorem readBytes_join {bytes : ByteArray} (fine : checkRead dir name = .ok ())
    (file : t.find? (name :: place) = some (.file bytes)) :
    t.readBytes (dir.join name) = .ok bytes := by
  rw [readBytes, (stat_join_eq_ok_iff leads proper).mpr ⟨fine, rfl, file⟩]
  rfl

theorem remove_join {bytes : ByteArray} (fine : checkRead dir name = .ok ())
    (file : t.find? (name :: place) = some (.file bytes)) :
    t.remove (dir.join name) = .ok (t.erase (name :: place)) := by
  rw [remove, (stat_join_eq_ok_iff leads proper).mpr ⟨fine, rfl, file⟩]
  rfl

theorem exists_replaces_join_iff {bytes : ByteArray} :
    (∃ q, t.Replaces (dir.join name) q bytes u) ↔
      checkPath (t.fresh (dir.join name)) = .ok () ∧ checkRead dir name = .ok () ∧
        t.find? (name :: place) ≠ some .directory ∧ u = t.put (name :: place) (.file bytes) := by
  have located := locate_join_eq leads proper
  constructor
  · rintro ⟨q, beside, found, other, put⟩
    obtain ⟨_, fine, here⟩ := bind_eq_ok_iff.mp (located.symm.trans found)
    cases here
    exact ⟨beside, fine, other, put⟩
  · rintro ⟨beside, fine, other, put⟩
    rw [fine] at located
    exact ⟨_, beside, located, other, put⟩

omit leads proper in
theorem run_step_eq_ok_iff {change : Tree → Except Fault Tree} :
    step change t = (.ok (), u) ↔ change t = .ok u := by
  unfold step
  cases change t with
  | error fault => constructor <;> exact nofun
  | ok v =>
    constructor
    · intro h
      cases h
      rfl
    · intro h
      cases h
      rfl

omit leads proper in
theorem checkWrite_eq_ok_iff : t.checkWrite dir name = .ok () ↔
    (dir.join name).parent.checkDirectory = .ok () ∧ checkPath (t.fresh (dir.join name)) = .ok () ∧
      checkRead dir name = .ok () := by
  simp only [checkWrite, bind_eq_ok_iff]
  constructor
  · rintro ⟨_, parent, _, beside, fine⟩
    exact ⟨parent, beside, fine⟩
  · rintro ⟨parent, beside, fine⟩
    exact ⟨(), parent, (), beside, fine⟩

/-- A write into a directory that is there changes what lies under the name, and nothing else. -/
theorem run_writeAtomic_join_eq_ok_iff (bytes : ByteArray) :
    writeAtomic (m := StateM Tree) (dir.join name) bytes t = (.ok (), u) ↔
      t.checkWrite dir name = .ok () ∧ t.find? (name :: place) ≠ some .directory ∧
        u = t.put (name :: place) (.file bytes) := by
  have parent := run_createDirs_of_leadsTo (leadsTo_parent_join leads proper)
  rw [writeAtomic, run_bind, parent, checkWrite_eq_ok_iff]
  cases checked : (dir.join name).parent.checkDirectory with
  | error fault =>
    constructor
    · exact nofun
    · exact fun impossible => nomatch impossible.1.1
  | ok _ =>
    change Files.replace (m := StateM Tree) (dir.join name) bytes t = (.ok (), u) ↔ _
    rw [run_replace_eq_ok_iff (leadsTo_parent_join leads proper),
      exists_replaces_join_iff leads proper]
    simp only [true_and, and_assoc]

/-- A write into a directory that is there and fails changes nothing. -/
theorem eq_of_run_writeAtomic_join {bytes : ByteArray} {fault : Fault}
    (h : writeAtomic (m := StateM Tree) (dir.join name) bytes t = (.error fault, u)) : u = t := by
  rw [writeAtomic, run_bind,
    run_createDirs_of_leadsTo (leadsTo_parent_join leads proper)] at h
  cases checked : (dir.join name).parent.checkDirectory with
  | error fault =>
    rw [checked] at h
    cases h
    rfl
  | ok _ =>
    rw [checked] at h
    change Files.replace (m := StateM Tree) (dir.join name) bytes t = (.error fault, u) at h
    exact eq_of_run_replace (leadsTo_parent_join leads proper) h

end

/-- The names in a directory are those under which something lies there. -/
theorem exists_namesIn (leads : t.LeadsTo dir place) (fine : checkPath dir = .ok ()) :
    ∃ names, t.namesIn dir = .ok names ∧ names.Nodup ∧
      ∀ n, n ∈ names ↔ (t.find? (n :: place)).isSome = true := by
  have listed : ∀ n, n ∈ t.items.filterMap (fun item => nameIn? place item.1) ↔
      (t.find? (n :: place)).isSome = true := by
    intro n
    rw [find?_cons, List.lookup_isSome_iff, List.mem_filterMap]
    constructor
    · rintro ⟨⟨q, item⟩, mem, named⟩
      refine ⟨(q, item), mem, beq_iff_eq.mpr ?_⟩
      cases q with
      | nil => cases named
      | cons first around =>
        simp only [nameIn?, Option.ite_none_right_eq_some] at named
        obtain ⟨rfl, same⟩ := named
        cases same
        rfl
    · rintro ⟨⟨q, item⟩, mem, same⟩
      have here : n :: place = q := beq_iff_eq.mp same
      exact ⟨_, mem, here ▸ if_pos rfl⟩
  refine ⟨_, ?_, ?_, fun n => NameSet.mem_ofList.trans (listed n)⟩
  · rw [namesIn, stat_eq_directory_iff.mpr ⟨fine, leads⟩]
    rfl
  · simpa using (Roster.ofList (t.items.filterMap fun item => nameIn? place item.1) :
      NameSet).nodup_names

end Tree

end WrapperGen
