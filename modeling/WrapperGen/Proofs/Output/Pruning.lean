import WrapperGen.Output
import WrapperGen.Proofs.Files.Entries
import WrapperGen.Proofs.Text.Utf8

namespace WrapperGen

variable {t u : Tree} {dir : Path} {place : Place} {line name : String}

/-- The bytes up to the first line feed are those of a text, and the text is the line but for blanks
at its end. -/
def BeginsWith (line : String) (bytes : ByteArray) : Prop :=
  ∃ text : String, bytes.toList.takeWhile (· != 10) = text.toUTF8.toList ∧
    String.ofList (trimEnd text.toList) = line

theorem hasFirstLine_iff {bytes : ByteArray} :
    hasFirstLine line bytes = true ↔ BeginsWith line bytes := by
  have first : (⟨(bytes.toList.takeWhile (· != 10)).toArray⟩ : ByteArray).toList =
      bytes.toList.takeWhile (· != 10) := toList_eq_data _
  unfold hasFirstLine BeginsWith
  constructor
  · intro h
    split at h
    next text read => exact ⟨text, first ▸ fromUTF8?_eq_some_iff.mp read, beq_iff_eq.mp h⟩
    next => cases h
  · rintro ⟨text, bytes, same⟩
    rw [fromUTF8?_eq_some_iff.mpr (first.trans bytes)]
    exact beq_iff_eq.mpr same

/-- Of a text the first line is looked at as it is taken from a header. -/
theorem hasFirstLine_toUTF8 (line text : String) :
    hasFirstLine line text.toUTF8 = (firstLine text == line) := by
  have bytes : (⟨(text.toUTF8.toList.takeWhile (· != 10)).toArray⟩ : ByteArray) =
      (String.ofList (text.toList.takeWhile (· ≠ '\n'))).toUTF8 := by
    rw [toList_toUTF8, takeWhile_flatMap_utf8EncodeChar, String.toUTF8_eq_toByteArray,
      String.toByteArray_ofList, List.utf8Encode]
    exact ByteArray.ext List.data_toByteArray.symm
  rw [hasFirstLine, bytes, fromUTF8?_toUTF8]
  simp only [String.toList_ofList]
  rfl

namespace Tree

/-- Under the name there is a file that begins with the line. -/
structure Stale (t : Tree) (dir : Path) (place : Place) (line name : String) : Prop where
  readable : checkRead dir name = .ok ()
  begins : ∃ bytes, t.find? (name :: place) = some (.file bytes) ∧ hasFirstLine line bytes = true

theorem stale_iff_of_find?_eq (same : u.find? (name :: place) = t.find? (name :: place)) :
    u.Stale dir place line name ↔ t.Stale dir place line name := by
  constructor
  · rintro ⟨readable, begins⟩
    exact ⟨readable, same ▸ begins⟩
  · rintro ⟨readable, begins⟩
    exact ⟨readable, same.symm ▸ begins⟩

end Tree

namespace Output

open Files WrapperGen.Tree

theorem run_isStale (line : String) (p : Path) (t : Tree) :
    isStale (m := StateM Tree) line p t =
      (match t.readBytes p with
        | .ok bytes => hasFirstLine line bytes
        | .error _ => false, t) := by
  unfold isStale
  rw [run_bind]
  change (match t.readBytes p with
    | .ok bytes => pure (hasFirstLine line bytes)
    | .error _ => pure false : StateM Tree Bool) t = _
  cases t.readBytes p <;> rfl

theorem run_isFile (p : Path) (t : Tree) :
    Files.isFile (m := StateM Tree) p t = (t.isFile p, t) := rfl

theorem exists_run_keep (line : String) (leads : t.LeadsTo dir place) (proper : IsFileName name) :
    ∃ keep, (do
      if !(← Files.isFile (dir.join name)) then return true
      return !(← isStale line (dir.join name)) : StateM Tree Bool) t = (keep, t) ∧
      (keep = false ↔ t.Stale dir place line name) := by
  rw [run_bind, run_isFile]
  by_cases file : t.isFile (dir.join name) = true
  · obtain ⟨readable, bytes, found⟩ := (isFile_join_iff leads proper).mp file
    refine ⟨!hasFirstLine line bytes, ?_, ?_⟩
    · simp only [file, Bool.not_true, Bool.false_eq_true, ↓reduceIte]
      rw [run_bind, run_isStale, readBytes_join leads proper readable found]
      rfl
    · rw [Bool.not_eq_false']
      constructor
      · exact fun begins => ⟨readable, bytes, found, begins⟩
      · rintro ⟨-, bytes', found', begins⟩
        cases found.symm.trans found'
        exact begins
  · refine ⟨true, ?_, ?_⟩
    · simp only [Bool.not_eq_true] at file
      simp only [file, Bool.not_false, ↓reduceIte, run_pure]
    · constructor
      · exact nofun
      · rintro ⟨readable, bytes, found, -⟩
        exact absurd ((isFile_join_iff leads proper).mpr ⟨readable, bytes, found⟩) file

theorem run_prune_cons_of_kept {written names : List String}
    (leads : t.LeadsTo dir place) (proper : IsFileName name)
    (kept : ¬(name ∉ written ∧ t.Stale dir place line name)) :
    prune (m := StateM Tree) dir line written (name :: names) t =
      prune (m := StateM Tree) dir line written names t := by
  rw [prune, run_bind]
  by_cases mem : name ∈ written
  · rw [if_pos mem]
    rfl
  · obtain ⟨keep, decided, iff⟩ := exists_run_keep line leads proper
    have fresh : keep = true := by
      rw [← Bool.not_eq_false, iff]
      exact fun stale => kept ⟨mem, stale⟩
    rw [if_neg mem, decided, fresh]
    rfl

theorem run_prune_cons_of_stale {written names : List String}
    (leads : t.LeadsTo dir place) (proper : IsFileName name) (unwritten : name ∉ written)
    (stale : t.Stale dir place line name) :
    prune (m := StateM Tree) dir line written (name :: names) t =
      match prune (m := StateM Tree) dir line written names (t.erase (name :: place)) with
      | (.ok removed, u) => (.ok (name :: removed), u)
      | (.error failure, u) => (.error failure, u) := by
  obtain ⟨keep, decided, iff⟩ := exists_run_keep line leads proper
  obtain ⟨readable, bytes, found, -⟩ := id stale
  have removed : Files.remove (m := StateM Tree) (dir.join name) t =
      (.ok (), t.erase (name :: place)) :=
    run_step_eq_ok_iff.mpr (remove_join leads proper readable found)
  rw [prune, run_bind, if_neg unwritten, decided, iff.mpr stale]
  simp only [Bool.false_eq_true, ↓reduceIte]
  rw [run_bind, removed]
  simp only
  rw [run_bind]
  cases prune (m := StateM Tree) dir line written names (t.erase (name :: place)) with
  | mk result u => cases result <;> rfl

/-- Pruning never fails. It removes the stale files that were not written, and nothing else. -/
theorem exists_run_prune {names : List String} (leads : t.LeadsTo dir place)
    (proper : ∀ n ∈ names, IsFileName n) (distinct : names.Nodup) (line : String)
    (written : List String) :
    ∃ removed u, prune (m := StateM Tree) dir line written names t = (.ok removed, u) ∧
      u.home = t.home ∧
      (∀ n, n ∈ removed ↔ n ∈ names ∧ n ∉ written ∧ t.Stale dir place line n) ∧
      ∀ q, u.find? q = if q ∈ removed.map (· :: place) then none else t.find? q := by
  induction names generalizing t with
  | nil => exact ⟨[], t, rfl, rfl, by simp, by simp⟩
  | cons name rest ih =>
    have first := proper name List.mem_cons_self
    have others := fun n mem => proper n (List.mem_cons_of_mem _ mem)
    obtain ⟨once, distinct⟩ := List.nodup_cons.mp distinct
    by_cases gone : name ∉ written ∧ t.Stale dir place line name
    · obtain ⟨unwritten, stale⟩ := gone
      obtain ⟨bytes, found, -⟩ := stale.begins
      obtain ⟨removed, u, run, home, mem, after⟩ := ih (leads.erase_file found) others distinct
      -- to remove one name leaves the files under the others, stale or not, as they are
      refine ⟨name :: removed, u, ?_, home, ?_, ?_⟩
      · rw [run_prune_cons_of_stale leads first unwritten stale, run]
      · intro n
        rw [List.mem_cons, List.mem_cons, mem]
        by_cases here : n = name
        · simp [here, unwritten, stale]
        · have apart : n :: place ≠ name :: place := fun same => here (List.cons.inj same).1
          have same := (find?_erase t name place (n :: place)).trans (if_neg apart)
          simp only [here, false_or, stale_iff_of_find?_eq same]
      · intro q
        simp only [after, find?_erase, List.map_cons, List.mem_cons]
        by_cases here : q = name :: place <;> simp [here]
    · obtain ⟨removed, u, run, home, mem, after⟩ := ih leads others distinct
      refine ⟨removed, u, ?_, home, ?_, after⟩
      · rw [run_prune_cons_of_kept leads first gone, run]
      · intro n
        rw [mem, List.mem_cons]
        by_cases here : n = name
        · subst here
          simp only [once, false_and, true_or, true_and, gone]
        · simp only [here, false_or]

end Output

end WrapperGen
