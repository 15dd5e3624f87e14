import WrapperGen.Proofs.Generator.Rerun
import WrapperGen.Proofs.Resolution.Bookkeeping

namespace WrapperGen

namespace Session

open Resolution WrapperGen.Tree

/-- A call to a session: a round, or the end of the rounds. -/
inductive Call where
  | round (t : Table)
  | finish

def Call.event {σ : Type} : Call → Event σ
  | .round t => .round t
  | .finish => .finish

variable {tree : Tree} {p : Path} {s : Session Tree StoreError String}

/-- Before the manifest is written nothing has come to the tree but directories. From then on the
file at the path holds the text of the manifest, and the receipt is its digest. -/
structure Stored (tree : Tree) (p : Path) (s : Session Tree StoreError String) : Prop where
  before : s.resolution.isDone = false → tree.GainsDirectories s.sinkState
  behind : ∀ receipt, s.resolution.phase = .done receipt →
    receipt = Digest.hex (Manifest.text s.resolution.entries) ∧
      s.sinkState.readBytes p = .ok (Manifest.text s.resolution.entries).toUTF8

theorem isDone_of_scanning {r : Resolution String} (scanning : r.phase = .scanning) :
    r.isDone = false := by
  rw [isDone, receipt?, scanning]
  rfl

namespace Stored

theorem of_scanning (scanning : s.resolution.phase = .scanning)
    (gains : tree.GainsDirectories s.sinkState) : s.Stored tree p where
  before _ := gains
  behind receipt done := by
    rw [scanning] at done
    cases done

theorem deliver (gains : tree.GainsDirectories s.sinkState)
    (scanning : s.resolution.phase = .scanning) :
    (s.deliver (Manifest.writeTo p)).2.Stored tree p := by
  unfold Session.deliver
  split
  next receipt after wrote =>
    obtain ⟨made, stored⟩ := Manifest.of_run_writeTo wrote
    refine ⟨nofun, fun receipt done => ?_⟩
    cases done
    exact ⟨made, stored⟩
  next cause after wrote =>
    have more := Manifest.of_run_writeTo wrote
    exact of_scanning scanning (gains.trans more)

theorem stall (gains : tree.GainsDirectories s.sinkState) : s.stall.Stored tree p :=
  ⟨fun _ => gains, nofun⟩

theorem process (h : s.Stored tree p) (t : Table) :
    (s.process (Manifest.writeTo p) t).2.Stored tree p := by
  cases phase : s.resolution.phase with
  | scanning =>
    have gains := h.before (isDone_of_scanning phase)
    rw [process_of_scanning phase]
    split
    next =>
      dsimp only
      exact deliver gains phase
    next =>
      split
      next => exact stall gains
      next => exact of_scanning phase gains
  | done receipt => rwa [process_of_done phase]
  | stalled pass names => rwa [process_of_stalled phase]

theorem finish (h : s.Stored tree p) : (s.finish (Manifest.writeTo p)).2.Stored tree p := by
  cases phase : s.resolution.phase with
  | scanning =>
    have gains := h.before (isDone_of_scanning phase)
    rw [finish_of_scanning phase]
    split
    next =>
      dsimp only
      exact deliver gains phase
    next => exact stall gains
  | done receipt => rwa [finish_of_done phase]
  | stalled pass names => rwa [finish_of_stalled phase]

theorem run (h : s.Stored tree p) (calls : List Call) :
    (s.run (Manifest.writeTo p) (calls.map Call.event)).Stored tree p := by
  induction calls generalizing s with
  | nil => exact h
  | cons call calls ih =>
    cases call with
    | round t => exact ih (h.process t)
    | finish => exact ih h.finish

end Stored

/-- Until a resolution that writes to a file is done, no file changes and there is no digest. From
then on the file holds the text of the manifest, and the resolution, the manifest and every run of
the generator on the file give one digest, that of the text. -/
theorem manifest_stored_once_done (config : ScanConfig) (p : Path) (tree : Tree)
    (calls : List Call) :
    let s := (start config tree).run (Manifest.writeTo p) (calls.map Call.event)
    let m := s.resolution.entries
    let digest := Digest.hex (Manifest.text m)
    (s.resolution.isDone = false → s.resolution.receipt? = none ∧
      (∀ q bytes, s.sinkState.find? q = some (.file bytes) ↔ tree.find? q = some (.file bytes)) ∧
      ∀ bytes, tree.readBytes p = .ok bytes → s.sinkState.readBytes p = .ok bytes) ∧
    (s.resolution.isDone = true → s.written = [m] ∧
      s.sinkState.readBytes p = .ok (Manifest.text m).toUTF8 ∧
      s.resolution.receipt? = some digest ∧
      Manifest.readFrom (m := StateM Tree) p s.sinkState = (.ok m, s.sinkState) ∧
      Manifest.digest m = digest ∧
      ∀ dir c r after, runGenerator (m := StateM Tree) p dir c s.sinkState = (.ok r, after) →
        r.digest = digest) := by
  intro s m digest
  have stored : s.Stored tree p := (Stored.of_scanning rfl (.refl tree)).run calls
  have faithful : s.Faithful config := faithful_run config _ tree _
  constructor
  · intro undone
    have gains := stored.before undone
    have nothing : s.resolution.receipt? = none :=
      Option.isNone_iff_eq_none.mp (Option.isSome_eq_false_iff.mp undone)
    exact ⟨nothing, fun _ _ => gains.file_iff, fun _ => gains.readBytes⟩
  · intro done
    obtain ⟨receipt, phase⟩ := isDone_iff.mp done
    obtain ⟨rfl, held⟩ := stored.behind receipt phase
    have read := Manifest.run_readFrom_of_readBytes held
    refine ⟨faithful.written_of_done done, held, ?_, read, rfl, ?_⟩
    · rw [receipt?, phase]
    · intro dir c r after ran
      obtain ⟨report, -, rfl⟩ := exists_run_write_of_run_generator read ran
      rfl

end Session

end WrapperGen
