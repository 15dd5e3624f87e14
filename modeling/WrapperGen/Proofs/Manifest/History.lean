import WrapperGen.Proofs.Files.Atomic
import WrapperGen.Proofs.Manifest.Storing

namespace WrapperGen

open Files

/-- What is done with a file in which a manifest may be kept. -/
inductive Access where
  | save (p : Path) (m : Manifest)
  | put (p : Path) (bytes : ByteArray)
  | load (p : Path)

inductive Answer where
  | saved (result : Except StoreError String)
  | put (result : Except Fault Unit)
  | loaded (result : Except StoreError Manifest)

namespace Answer

/-- Something was written, and it is there. -/
def wrote : Answer → Bool
  | .saved (.ok _) | .put (.ok _) => true
  | _ => false

end Answer

namespace Access

def path : Access → Path
  | .save p _ | .put p _ | .load p => p

/-- What the access writes, if it is one that writes. -/
def bytes? : Access → Option ByteArray
  | .save _ m => some (Manifest.text m).toUTF8
  | .put _ bytes => some bytes
  | .load _ => none

def run {m : Type → Type} [Monad m] [Files m] : Access → m Answer
  | .save p manifest => return .saved (← Manifest.writeTo p manifest)
  | .put p bytes => return .put (← writeAtomic p bytes)
  | .load p => return .loaded (← Manifest.readFrom p)

/-- Accesses one after another, each with its answer. -/
def runAll {m : Type → Type} [Monad m] [Files m] : List Access → m (List (Access × Answer))
  | [] => return []
  | access :: rest => do
    let answer ← access.run
    return (access, answer) :: (← runAll rest)

/-- The last access that wrote to a place, as seen from a working directory. -/
def lastWrite (home place : Place) (past : List (Access × Answer)) : Option Access :=
  (past.reverse.find? fun entry =>
    entry.2.wrote && entry.1.path.placeFrom home == place).map Prod.fst

theorem run_runAll (access : Access) (rest : List Access) (t : Tree) :
    runAll (m := StateM Tree) (access :: rest) t =
      ((access, (access.run (m := StateM Tree) t).1) ::
        (runAll (m := StateM Tree) rest (access.run (m := StateM Tree) t).2).1,
        (runAll (m := StateM Tree) rest (access.run (m := StateM Tree) t).2).2) := by
  rw [runAll, run_bind, run_bind, run_pure]

variable {t u v : Tree} {access : Access} {answer : Answer} {past : List (Access × Answer)}
  {home place : Place}

theorem lastWrite_concat (home place : Place) (past : List (Access × Answer)) (access : Access)
    (answer : Answer) : lastWrite home place (past ++ [(access, answer)]) =
      if answer.wrote = true ∧ access.path.placeFrom home = place then some access
      else lastWrite home place past := by
  unfold lastWrite
  rw [List.reverse_append, List.reverse_singleton, List.singleton_append, List.find?_cons]
  by_cases here : answer.wrote = true ∧ access.path.placeFrom home = place
  · simp [here]
  · have other : (answer.wrote && access.path.placeFrom home == place) = false := by
      simpa using here
    simp only [other, if_neg here]

/-- An access that has written something has replaced a file, and no other has done more than make
directories. -/
theorem of_run (ran : access.run (m := StateM Tree) t = (answer, u)) :
    if answer.wrote = true then ∃ bytes v place, access.bytes? = some bytes ∧
      t.GainsDirectories v ∧ v.Replaces access.path place bytes u
    else t.GainsDirectories u := by
  cases access with
  | save p m =>
    rw [Access.run, run_bind, run_pure, Manifest.run_writeTo] at ran
    split at ran
    next run =>
      cases ran
      obtain ⟨v, gains, place, replaces⟩ := of_run_writeAtomic run
      exact ⟨_, v, place, rfl, gains, replaces⟩
    next run =>
      cases ran
      exact gainsDirectories_of_run_writeAtomic run
  | put p bytes =>
    rw [Access.run, run_bind, run_pure] at ran
    rcases run : writeAtomic (m := StateM Tree) p bytes t with ⟨fault | _, v⟩
    · rw [run] at ran
      cases ran
      exact gainsDirectories_of_run_writeAtomic run
    · rw [run] at ran
      cases ran
      obtain ⟨v, gains, place, replaces⟩ := of_run_writeAtomic run
      exact ⟨_, v, place, rfl, gains, replaces⟩
  | load p =>
    obtain ⟨result, read⟩ := Manifest.exists_run_readFrom p t
    rw [Access.run, run_bind, run_pure, read] at ran
    cases ran
    exact .refl _

/-- In every place lies what the last access has written there that wrote something. -/
structure Kept (home : Place) (past : List (Access × Answer)) (t : Tree) : Prop where
  start : t.home = home
  read : ∀ place access, lastWrite home place past = some access →
    access.path.placeFrom home = place ∧
      ∃ bytes, access.bytes? = some bytes ∧ t.readBytes access.path = .ok bytes

namespace Kept

theorem nil (t : Tree) : Kept t.home [] t := ⟨rfl, fun _ _ last => nomatch last⟩

/-- What an access leaves alone is still read. -/
theorem concat (kept : Kept home past t) (ran : access.run (m := StateM Tree) t = (answer, u)) :
    Kept home (past ++ [(access, answer)]) u := by
  have effect := of_run ran
  by_cases wrote : answer.wrote = true
  · rw [if_pos wrote] at effect
    obtain ⟨bytes, v, written, writes, gains, replaces⟩ := effect
    have start : v.home = home := gains.home.trans kept.start
    have here : access.path.placeFrom home = written :=
      start ▸ Tree.placeFrom_of_locate replaces.located
    refine ⟨replaces.home.trans start, fun place other last => ?_⟩
    rw [lastWrite_concat] at last
    split at last
    next same =>
      cases last
      exact ⟨same.2, bytes, writes, replaces.readBytes⟩
    next apart =>
      obtain ⟨there, bytes', writes', read⟩ := kept.read place other last
      refine ⟨there, bytes', writes', replaces.readBytes_of_ne ?_ (gains.readBytes read)⟩
      rw [start, there, ← here]
      exact fun same => apart ⟨wrote, same.symm⟩
  · rw [if_neg wrote] at effect
    refine ⟨effect.home.trans kept.start, fun place other last => ?_⟩
    rw [lastWrite_concat, if_neg fun both => wrote both.1] at last
    obtain ⟨there, bytes, writes, read⟩ := kept.read place other last
    exact ⟨there, bytes, writes, effect.readBytes read⟩

theorem append {accesses : List Access} {more : List (Access × Answer)} (kept : Kept home past t)
    (ran : runAll (m := StateM Tree) accesses t = (more, u)) : Kept home (past ++ more) u := by
  induction accesses generalizing past t more with
  | nil =>
    cases ran
    rwa [List.append_nil]
  | cons access rest ih =>
    rw [run_runAll] at ran
    cases ran
    have whole := ih (kept.concat rfl) rfl
    rwa [List.append_assoc] at whole

end Kept

/-- Up to any of its answers, a run is one of the accesses before. -/
theorem exists_runAll_of_append {accesses : List Access} {before after : List (Access × Answer)}
    (ran : (runAll (m := StateM Tree) accesses t).1 = before ++ (access, answer) :: after) :
    ∃ v w, runAll (m := StateM Tree) (before.map Prod.fst) t = (before, v) ∧
      access.run (m := StateM Tree) v = (answer, w) := by
  induction before generalizing accesses t with
  | nil =>
    cases accesses with
    | nil => cases ran
    | cons first rest =>
      rw [run_runAll] at ran
      cases ran
      exact ⟨t, _, rfl, rfl⟩
  | cons entry before ih =>
    cases accesses with
    | nil => cases ran
    | cons first rest =>
      rw [run_runAll] at ran
      obtain ⟨rfl, later⟩ := List.cons.inj ran
      obtain ⟨v, w, same, last⟩ := ih later
      refine ⟨v, w, ?_, last⟩
      rw [List.map_cons, run_runAll, same]

/-- A manifest is loaded as it was saved where nothing else has been written since. -/
theorem loaded_of_lastWrite {accesses : List Access} {before after : List (Access × Answer)}
    {p : Path} {m : Manifest}
    (ran : (runAll (m := StateM Tree) accesses t).1 = before ++ (.load p, answer) :: after)
    (last : lastWrite t.home (p.placeFrom t.home) before = some (.save p m)) :
    answer = .loaded (.ok m) := by
  obtain ⟨v, w, same, load⟩ := exists_runAll_of_append ran
  obtain ⟨-, bytes, writes, read⟩ := ((Kept.nil t).append same).read _ _ last
  cases writes
  rw [Access.run, run_bind, run_pure, Manifest.run_readFrom_of_readBytes (p := p) read] at load
  cases load
  rfl

/-- A write to a plain path replaces the file there, or fails and leaves all files as they are; over
any accesses a manifest is loaded as it was last saved. -/
theorem all_written_or_none (tree : t.WellFormed) {p : Path} (plain : p.Plain) (bytes : ByteArray)
    (accesses : List Access) :
    (∃ result u, writeAtomic (m := StateM Tree) p bytes t = (result, u) ∧ u.WellFormed ∧
      (result = .ok () ↔ t.Takes p ∧ ¬ t.Obstructs (p.placeFrom t.home)) ∧
      (result = .ok () →
        u.readBytes p = .ok bytes ∧ t.Stored (p.placeFrom t.home) bytes u) ∧
      (result ≠ .ok () → t.Approached (p.placeFrom t.home) u ∧ (t.Takes p → u = t))) ∧
    ∀ before answer after q m,
      (runAll (m := StateM Tree) accesses t).1 = before ++ (.load q, answer) :: after →
      lastWrite t.home (q.placeFrom t.home) before = some (.save q m) →
      answer = .loaded (.ok m) := by
  refine ⟨?_, fun before answer after q m => loaded_of_lastWrite⟩
  rcases run : writeAtomic (m := StateM Tree) p bytes t with ⟨fault | _, u⟩
  · obtain ⟨made, left⟩ := createDirs_of_run_writeAtomic run
    refine ⟨_, u, rfl, tree.of_run_createDirs left, ⟨nofun, ?_⟩, nofun, fun _ => ?_⟩
    · rintro ⟨takes, clear⟩
      obtain ⟨v, success⟩ := Tree.exists_run_writeAtomic takes plain clear bytes
      cases run.symm.trans success
    · exact ⟨Tree.approached_of_run_createDirs plain left, fun takes =>
        Tree.eq_of_run_writeAtomic tree plain takes run⟩
  · obtain ⟨takes, clear, stored⟩ := Tree.stored_of_run_writeAtomic tree plain run
    refine ⟨_, u, rfl, stored.wellFormed tree clear, iff_of_true rfl ⟨takes, clear⟩, fun _ => ?_,
      fun failed => absurd rfl failed⟩
    exact ⟨readBytes_of_run_writeAtomic run, stored⟩

/-- A working directory with a file in a directory of its own. -/
def desk (bytes : ByteArray) : Tree :=
  ((Tree.new ["work"]).put ["out", "work"] .directory).put ["view.json", "out", "work"]
    (.file bytes)

theorem run_writeAtomic_view (bytes : ByteArray) :
    writeAtomic (m := StateM Tree) ⟨"out/view.json"⟩ bytes (.new ["work"]) =
      (.ok (), desk bytes) := rfl

theorem run_writeAtomic_below_view (bytes bytes' : ByteArray) :
    writeAtomic (m := StateM Tree) ⟨"out/view.json/old"⟩ bytes' (desk bytes) =
      (.error .alreadyExists, desk bytes) := rfl

theorem exists_runAll_view (m : Manifest) (bytes : ByteArray) : ∃ answer,
    (runAll (m := StateM Tree) [.save ⟨"out/view.json"⟩ m, .put ⟨"out/view.json/old"⟩ bytes,
        .load ⟨"out/view.json"⟩] (.new ["work"])).1 =
      [(.save ⟨"out/view.json"⟩ m, .saved (.ok (Manifest.digest m))),
        (.put ⟨"out/view.json/old"⟩ bytes, .put (.error .alreadyExists))] ++
      [(.load ⟨"out/view.json"⟩, answer)] := by
  rw [run_runAll, run_runAll, run_runAll]
  simp only [Access.run, run_bind, run_pure, Manifest.run_writeTo, run_writeAtomic_view,
    run_writeAtomic_below_view]
  exact ⟨_, rfl⟩

theorem lastWrite_view (m : Manifest) (bytes : ByteArray) :
    lastWrite ["work"] (Path.placeFrom ["work"] ⟨"out/view.json"⟩)
      [(.save ⟨"out/view.json"⟩ m, .saved (.ok (Manifest.digest m))),
        (.put ⟨"out/view.json/old"⟩ bytes, .put (.error .alreadyExists))] =
      some (.save ⟨"out/view.json"⟩ m) := by
  simp [lastWrite, Answer.wrote, path]

theorem takes_below_view (bytes : ByteArray) : (desk bytes).Takes ⟨"out/view.json/old"⟩ where
  path := by decide
  beside := by
    rw [Tree.fresh_of_home (u := desk bytes) (t := .new ["work"]) rfl]
    decide
  names := by decide
  noSlash := by decide

/-- A manifest is saved in a new directory. A write below it fails and changes nothing, and the
manifest is loaded as it was saved. -/
theorem view_stays :
    let t := Tree.new ["work"]
    let p : Path := ⟨"out/view.json"⟩
    let below : Path := ⟨"out/view.json/old"⟩
    let m : Manifest := .ofList [⟨"a.Panel", "Panel", none, []⟩]
    let accesses : List Access := [.save p m, .put below "x".toUTF8, .load p]
    t.WellFormed ∧ p.Plain ∧ below.Plain ∧
      (∃ u, writeAtomic (m := StateM Tree) p (Manifest.text m).toUTF8 t = (.ok (), u) ∧
        t.Stored ["view.json", "out", "work"] (Manifest.text m).toUTF8 u ∧
        u.WellFormed ∧ u.Takes below ∧ ∃ result v,
          writeAtomic (m := StateM Tree) below "x".toUTF8 u = (result, v) ∧ result ≠ .ok () ∧
            v = u) ∧
      ∃ before answer,
        (runAll (m := StateM Tree) accesses t).1 = before ++ [(.load p, answer)] ∧
        lastWrite t.home (p.placeFrom t.home) before = some (.save p m) ∧
        answer = .loaded (.ok m) := by
  intro t p below m accesses
  have tree : t.WellFormed := Tree.wellFormed_new ["work"]
  have plain : p.Plain := by decide
  have plainBelow : below.Plain := by decide
  have place : p.placeFrom t.home = ["view.json", "out", "work"] := by decide
  have takes := takes_below_view (Manifest.text m).toUTF8
  obtain ⟨⟨result, u, run, wellFormed, -, stored, -⟩, loaded⟩ :=
    all_written_or_none tree plain (Manifest.text m).toUTF8 accesses
  cases run.symm.trans (run_writeAtomic_view (Manifest.text m).toUTF8)
  obtain ⟨⟨result, v, runBelow, -, -, -, failed⟩, -⟩ :=
    all_written_or_none wellFormed plainBelow "x".toUTF8 []
  have refused : result ≠ .ok () := by
    rintro rfl
    cases runBelow.symm.trans (run_writeAtomic_below_view (Manifest.text m).toUTF8 "x".toUTF8)
  obtain ⟨answer, ran⟩ := exists_runAll_view m "x".toUTF8
  exact ⟨tree, plain, plainBelow,
    ⟨_, run, place ▸ (stored rfl).2, wellFormed, takes, result, v, runBelow, refused,
      (failed refused).2 takes⟩,
    _, answer, ran, lastWrite_view m _, loaded _ _ _ _ _ ran (lastWrite_view m _)⟩

theorem not_obstructs_empty (name : String) :
    ¬ (∅ : Tree).Obstructs [name, "new"] := by
  have found (q : Place) : (∅ : Tree).find? q = if q <:+ [] then some .directory else none :=
    Tree.find?_new [] q
  rintro (here | ⟨q, bytes, -, -, file⟩)
  · rw [found, if_neg (by simp)] at here
    cases here
  · rw [found] at file
    split at file <;> cases file

/-- A name that is too long, or a slash at the end, is noticed only when the directory has been
made, which then stays. -/
theorem directory_stays_after_failure :
    let name := String.ofList (List.replicate 256 'a')
    let p := (⟨"new"⟩ : Path).join name
    (∅ : Tree).WellFormed ∧ p.Plain ∧ ¬ (∅ : Tree).Obstructs (p.placeFrom (∅ : Tree).home) ∧
      (∅ : Tree).find? ["new"] = none ∧
      (∃ fault u, writeAtomic (m := StateM Tree) p "x".toUTF8 ∅ = (.error fault, u) ∧
        u.find? ["new"] = some .directory) ∧
      ∃ fault u, writeAtomic (m := StateM Tree) ⟨"new/x/"⟩ "x".toUTF8 ∅ = (.error fault, u) ∧
        u.find? ["new"] = some .directory := by
  intro name p
  have named : IsFileName name := isFileName_replicate 253
  have long : name.utf8ByteSize = 256 := by decide +kernel
  have names : p.names = ["new"] ++ [name] := Path.names_join named
  have plain : p.Plain := by
    refine ⟨by simp [names], ?_⟩
    rw [names]
    exact List.forall_mem_cons.mpr ⟨by decide, List.forall_mem_singleton.mpr named⟩
  have tree : (∅ : Tree).WellFormed := Tree.wellFormed_new []
  have parent : p.parent = ⟨"new"⟩ := by
    rw [(plain.parent_eq names (by simp)).1, Path.isAbsolute_join named]
    decide
  have place : p.placeFrom (∅ : Tree).home = [name, "new"] := by
    rw [plain.placeFrom_eq names, parent]
    rfl
  have made : createDirs (m := StateM Tree) p.parent ∅ =
      (.ok (), (∅ : Tree).put ["new"] .directory) := by
    rw [parent]
    rfl
  refine ⟨tree, plain, place ▸ not_obstructs_empty name, rfl, ?_, _, _, rfl, rfl⟩
  rcases run : writeAtomic (m := StateM Tree) p "x".toUTF8 ∅ with ⟨fault | _, u⟩
  · obtain ⟨result, left⟩ := createDirs_of_run_writeAtomic run
    cases left.symm.trans made
    exact ⟨fault, _, rfl, rfl⟩
  · have short := (Tree.stored_of_run_writeAtomic tree plain run).1.names name (by simp [names])
    omega

end Access

end WrapperGen
