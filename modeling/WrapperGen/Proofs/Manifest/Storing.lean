import WrapperGen.Manifest.Store
import WrapperGen.Proofs.Files.Storing
import WrapperGen.Proofs.Manifest.RoundTrip
import WrapperGen.Proofs.Text.Utf8

namespace WrapperGen.Manifest

open Files WrapperGen.Tree

variable {t u : Tree} {p : Path} {m : Manifest}

theorem run_writeTo (p : Path) (m : Manifest) (t : Tree) : writeTo (m := StateM Tree) p m t =
    match writeAtomic (m := StateM Tree) p (text m).toUTF8 t with
    | (.ok (), u) => (.ok (digest m), u)
    | (.error fault, u) => (.error (.file p fault), u) := by
  rw [writeTo, run_bind]
  rcases writeAtomic (m := StateM Tree) p (text m).toUTF8 t with ⟨_ | _, u⟩ <;> rfl

/-- A write of a manifest that fails has made directories at most. Else the file holds the text of
the manifest, and the answer is its digest. -/
theorem of_run_writeTo {result : Except StoreError String}
    (h : writeTo (m := StateM Tree) p m t = (result, u)) :
    match result with
    | .ok receipt => receipt = Digest.hex (text m) ∧ u.readBytes p = .ok (text m).toUTF8
    | .error _ => t.GainsDirectories u := by
  rw [run_writeTo] at h
  split at h
  next wrote =>
    cases h
    exact ⟨rfl, readBytes_of_run_writeAtomic wrote⟩
  next wrote =>
    cases h
    exact gainsDirectories_of_run_writeAtomic wrote

/-- To read a manifest changes nothing. -/
theorem exists_run_readFrom (p : Path) (t : Tree) :
    ∃ result, readFrom (m := StateM Tree) p t = (result, t) := by
  have bytes : Files.readBytes (m := StateM Tree) p t = (t.readBytes p, t) := rfl
  rw [readFrom, run_bind, readText, run_bind, bytes]
  cases t.readBytes p with
  | error fault => exact ⟨_, rfl⟩
  | ok bytes =>
    simp only
    cases String.fromUTF8? bytes <;> exact ⟨_, rfl⟩

/-- A manifest is read from a file that holds its text. -/
theorem run_readFrom_of_readBytes (stored : t.readBytes p = .ok (text m).toUTF8) :
    readFrom (m := StateM Tree) p t = (.ok m, t) := by
  have bytes : Files.readBytes (m := StateM Tree) p t = (.ok (text m).toUTF8, t) :=
    congrArg (·, t) stored
  have read : ofText (text m) = .ok m := by
    rw [ofText, read_text]
    exact manifest_draft m
  rw [readFrom, run_bind, readText, run_bind, bytes]
  simp only [fromUTF8?_toUTF8, run_pure, read]
  rfl

end WrapperGen.Manifest
