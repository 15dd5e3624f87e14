import WrapperGen.Proofs.Files.Replacing

namespace WrapperGen

open Files

variable {t u : Tree} {p : Path} {place : Place} {bytes : ByteArray}

namespace Tree

theorem readBytes_eq_ok_iff : t.readBytes p = .ok bytes ↔
    ∃ place, t.locate p = .ok (.named place false) ∧ t.find? place = some (.file bytes) := by
  constructor
  · intro read
    obtain ⟨⟨place, item⟩, found, read⟩ := bind_eq_ok_iff.mp read
    cases item with
    | directory => cases read
    | file other =>
      cases read
      obtain ⟨target, located, found⟩ := bind_eq_ok_iff.mp found
      cases target with
      | itself _ => cases found
      | named q slash =>
        simp only at found
        split at found
        next => cases found
        next => cases found
        next there =>
          cases slash with
          | true => cases found
          | false =>
            cases found
            exact ⟨_, located, there⟩
  · rintro ⟨place, located, found⟩
    simp only [readBytes, stat, located, bind, Except.bind, found, Bool.false_eq_true, ↓reduceIte]
    rfl

namespace Replaces

variable (replaces : t.Replaces p place bytes u)
include replaces

theorem home : u.home = t.home := by
  rw [replaces.put, home_put]

theorem find?_eq (q : Place) :
    u.find? q = if q = place then some (.file bytes) else t.find? q := by
  obtain ⟨-, located, -, rfl⟩ := replaces
  obtain ⟨-, -, -, last, here, -, -, -, -, -, rfl⟩ := locate_eq_named_iff.mp located
  exact find?_put t last here _ q

theorem directory {q : Place} (found : t.find? q = some .directory) :
    u.find? q = some .directory := by
  have apart : q ≠ place := fun same => replaces.other (same ▸ found)
  rw [replaces.find?_eq, if_neg apart, found]

/-- What has replaced a file is read in its place. -/
theorem readBytes : u.readBytes p = .ok bytes := by
  have located :=
    locate_named_of_directories replaces.home (fun _ => replaces.directory) replaces.located
  exact readBytes_eq_ok_iff.mpr ⟨place, located, by rw [replaces.find?_eq, if_pos rfl]⟩

/-- In any other place is read what was read there before. -/
theorem readBytes_of_ne {p' : Path} {bytes' : ByteArray} (apart : p'.placeFrom t.home ≠ place)
    (read : t.readBytes p' = .ok bytes') : u.readBytes p' = .ok bytes' := by
  obtain ⟨q, located, found⟩ := readBytes_eq_ok_iff.mp read
  rw [placeFrom_of_locate located] at apart
  have located' :=
    locate_named_of_directories replaces.home (fun _ => replaces.directory) located
  exact readBytes_eq_ok_iff.mpr ⟨q, located', by rw [replaces.find?_eq, if_neg apart, found]⟩

end Replaces

/-- To make directories changes nothing for those who read files. -/
theorem GainsDirectories.readBytes (gains : t.GainsDirectories u)
    (read : t.readBytes p = .ok bytes) : u.readBytes p = .ok bytes := by
  obtain ⟨place, located, found⟩ := readBytes_eq_ok_iff.mp read
  have kept := locate_named_of_directories gains.home (fun _ => gains.directory) located
  exact readBytes_eq_ok_iff.mpr ⟨place, kept, gains.file_iff.mpr found⟩

end Tree

open WrapperGen.Tree

/-- A write that succeeds has replaced the file as soon as its directory was there. One that fails
leaves what the making of the directory has left. -/
theorem createDirs_of_run_writeAtomic {result : Except Fault Unit}
    (h : writeAtomic (m := StateM Tree) p bytes t = (result, u)) :
    match result with
    | .ok () => ∃ v, createDirs (m := StateM Tree) p.parent t = (.ok (), v) ∧
        ∃ place, v.Replaces p place bytes u
    | .error _ => ∃ made, createDirs (m := StateM Tree) p.parent t = (made, u) := by
  rw [writeAtomic, run_bind] at h
  rcases made : createDirs (m := StateM Tree) p.parent t with ⟨fault | _, v⟩
  · rw [made] at h
    cases h
    exact ⟨_, rfl⟩
  · obtain ⟨here, leads⟩ := (of_run_createDirs made).2 rfl
    rw [made] at h
    change Files.replace (m := StateM Tree) p bytes v = (result, u) at h
    cases result with
    | ok _ => exact ⟨v, rfl, (run_replace_eq_ok_iff leads).mp h⟩
    | error fault => exact ⟨.ok (), by rw [eq_of_run_replace leads h]⟩

/-- A write makes directories at most before it puts the file into its place. -/
theorem of_run_writeAtomic {result : Except Fault Unit}
    (h : writeAtomic (m := StateM Tree) p bytes t = (result, u)) : ∃ v, t.GainsDirectories v ∧
      match result with
      | .ok () => ∃ place, v.Replaces p place bytes u
      | .error _ => u = v := by
  have parts := createDirs_of_run_writeAtomic h
  cases result with
  | ok _ =>
    obtain ⟨v, made, replaces⟩ := parts
    exact ⟨v, (of_run_createDirs made).1, replaces⟩
  | error _ =>
    obtain ⟨_, made⟩ := parts
    exact ⟨u, (of_run_createDirs made).1, rfl⟩

theorem readBytes_of_run_writeAtomic
    (h : writeAtomic (m := StateM Tree) p bytes t = (.ok (), u)) : u.readBytes p = .ok bytes := by
  obtain ⟨v, -, place, replaces⟩ := of_run_writeAtomic h
  exact replaces.readBytes

theorem gainsDirectories_of_run_writeAtomic {fault : Fault}
    (h : writeAtomic (m := StateM Tree) p bytes t = (.error fault, u)) : t.GainsDirectories u := by
  obtain ⟨v, gains, rfl⟩ := of_run_writeAtomic h
  exact gains

end WrapperGen
