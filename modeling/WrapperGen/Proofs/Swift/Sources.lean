import Mathlib.Data.List.TakeWhile
import WrapperGen.Generator
import WrapperGen.Proofs.Files.Names
import WrapperGen.Proofs.Swift.Front
import WrapperGen.Proofs.Swift.Names
import WrapperGen.Proofs.Swift.Units
import WrapperGen.Proofs.Text.Pieces

namespace WrapperGen.Swift

theorem firstLine_append {before : String} (single : '\n' ∉ before.toList) (behind : String) :
    firstLine (before ++ "\n" ++ behind) = firstLine before := by
  have whole : ∀ c ∈ before.toList, decide (c ≠ '\n') = true := fun c mem =>
    decide_eq_true fun feed => single (feed ▸ mem)
  have text : (before ++ "\n" ++ behind).toList = before.toList ++ '\n' :: behind.toList := by simp
  rw [firstLine, firstLine, text, List.takeWhile_append_of_pos whole,
    List.takeWhile_cons_of_neg (by simp), List.append_nil, List.takeWhile_eq_self_iff.mpr whole]

theorem firstLine_intercalate {first : String} (single : '\n' ∉ first.toList)
    (rest : List String) :
    firstLine ("\n".intercalate (first :: rest) ++ "\n") = firstLine first := by
  cases rest with
  | nil =>
    have behind := firstLine_append single ""
    rwa [String.append_empty] at behind
  | cons next rest =>
    rw [String.intercalate_cons_cons, String.append_assoc]
    exact firstLine_append single _

theorem renderEntry_eq_ok_iff {c : GeneratorConfig} {e : Entry} {typeName source : String} :
    renderEntry c e typeName = .ok source ↔ checkEntry e typeName = .ok () ∧
      source = renderSteps (wrapperSteps c e typeName) ++ "\n" := by
  unfold renderEntry
  cases checkEntry e typeName with
  | error failure =>
    constructor
    · exact nofun
    · exact fun impossible => nomatch impossible.1
  | ok _ =>
    constructor
    · exact fun rendered => ⟨rfl, (Except.ok.inj rendered).symm⟩
    · rintro ⟨-, rfl⟩
      rfl

/-- The source of a wrapper begins with the first line of the header. -/
theorem firstLine_renderEntry {c : GeneratorConfig} {e : Entry} {typeName source : String}
    (some : firstLine c.header ≠ "") (rendered : renderEntry c e typeName = .ok source) :
    firstLine source = firstLine c.header := by
  have written : c.header.isEmpty = false := by
    rw [Bool.eq_false_iff]
    intro empty
    rw [String.isEmpty_iff.mp empty] at some
    exact some rfl
  obtain ⟨pieces, split⟩ := piecesAt_eq_takeWhile_cons '\n' c.header.toList
  have texts : lineTexts c.header =
      String.ofList (c.header.toList.takeWhile (· ≠ '\n')) :: pieces.map String.ofList := by
    rw [lineTexts, split, List.map_cons]
  have header : wrapperSteps c e typeName =
      .block c.header :: .line "" :: (importSteps c ++ classSteps c e typeName) := by
    rw [wrapperSteps, headerSteps, written]
    rfl
  have single : '\n' ∉ (String.ofList (c.header.toList.takeWhile (· ≠ '\n'))).toList := by
    rw [String.toList_ofList]
    exact notMem_of_mem_piecesAt (split ▸ List.mem_cons_self)
  rw [(renderEntry_eq_ok_iff.mp rendered).2, renderSteps_eq, header, linesOf, Step.linesAt, texts,
    List.map_cons, List.cons_append, SourceWriter.indented_zero, firstLine_intercalate single]
  simp only [firstLine, String.toList_ofList, List.takeWhile_idem]

/-! ## The files of the units -/

theorem isFileName_of_isIdentifier {name : String} (identifier : isIdentifier name = true) :
    IsFileName (name ++ ".swift") := by
  have slash := notMem_of_isIdentifier identifier (c := '/') (by decide)
  have long : 6 ≤ (name ++ ".swift").toList.length := by simp
  refine ⟨by simp, by simpa using slash, ?_, ?_⟩
  · intro dot
    rw [dot] at long
    exact absurd long (by decide)
  · intro dots
    rw [dots] at long
    exact absurd long (by decide)

theorem isIdentifier_of_checkEntry {e : Entry} {typeName : String}
    (fine : checkEntry e typeName = .ok ()) : isIdentifier typeName = true := by
  by_contra other
  rw [checkEntry, checkName, if_neg other] at fine
  cases fine

/-- An identifier with the ending of a source. -/
def IsSourceName (name : String) : Prop := ∃ id, isIdentifier id = true ∧ name = id ++ ".swift"

/-- Whatever the entries are called, each file has the name of a source and begins with the
header. -/
theorem isSourceName_of_mem_files {c : GeneratorConfig} {m : Manifest} {file : OutputFile}
    (mem : file ∈ (generate c m).files) : IsSourceName file.name ∧
      (firstLine c.header ≠ "" → firstLine file.text = firstLine c.header) := by
  obtain ⟨u, here, rfl⟩ := List.mem_map.mp mem
  rw [units_generate, List.mem_filterMap] at here
  obtain ⟨e, -, made⟩ := here
  obtain ⟨source, rendered, rfl⟩ := toOption_unit_eq_some_iff.mp made
  obtain ⟨fine, -⟩ := renderEntry_eq_ok_iff.mp rendered
  exact ⟨⟨_, isIdentifier_of_checkEntry fine, rfl⟩, fun some => firstLine_renderEntry some rendered⟩

theorem mem_files_generate {c : GeneratorConfig} {m : Manifest} {file : OutputFile}
    (mem : file ∈ (generate c m).files) : IsFileName file.name ∧
      (firstLine c.header ≠ "" → firstLine file.text = firstLine c.header) := by
  obtain ⟨⟨id, identifier, name⟩, headed⟩ := isSourceName_of_mem_files mem
  exact ⟨name ▸ isFileName_of_isIdentifier identifier, headed⟩

end WrapperGen.Swift
