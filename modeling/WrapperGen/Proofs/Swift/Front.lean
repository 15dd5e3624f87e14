import WrapperGen.Proofs.Swift.Lines
import WrapperGen.Proofs.Text.Pieces
import WrapperGen.Swift.Wrapper

namespace WrapperGen.Swift

theorem haltOf_headerSteps (c : GeneratorConfig) : haltOf (headerSteps c) = none := by
  unfold headerSteps
  split <;> rfl

theorem haltOf_importLines (names : List String) :
    haltOf (names.map fun name => .line ("import " ++ name)) = none := by
  induction names with
  | nil => rfl
  | cons name rest ih => exact ih

theorem haltOf_importSteps (c : GeneratorConfig) : haltOf (importSteps c) = none := by
  unfold importSteps
  split
  next => rfl
  next =>
    rw [haltOf_append, haltOf_importLines]
    rfl

/-- What stands above a class: the header and the imports, with an empty line behind each. -/
def frontText (c : GeneratorConfig) : String :=
  (if c.header.isEmpty then "" else c.header ++ "\n\n") ++
    if c.imports.isEmpty then ""
    else String.join (c.imports.map fun name => "import " ++ name ++ "\n") ++ "\n"

theorem textOf_cons (line : String) (rest : List String) :
    textOf (line :: rest) = line.toList ++ '\n' :: textOf rest := by
  simp [textOf]

theorem SourceWriter.indented_zero (text : String) : indented 0 text = text := by
  unfold indented
  split
  next empty => rw [String.isEmpty_iff.mp empty]
  next => simp

theorem textOf_lineTexts (text : String) :
    textOf ((lineTexts text).map (SourceWriter.indented 0)) = text.toList ++ ['\n'] := by
  have plain : SourceWriter.indented 0 = id := funext SourceWriter.indented_zero
  rw [plain, List.map_id, textOf, lineTexts, List.flatMap_map]
  simp only [String.toList_ofList]
  exact flatMap_piecesAt '\n' text.toList

theorem textOf_headerSteps (c : GeneratorConfig) :
    textOf (linesOf 0 (headerSteps c)) =
      (if c.header.isEmpty then "" else c.header ++ "\n\n").toList := by
  unfold headerSteps
  split
  next => rfl
  next =>
    have lines : linesOf 0 [.block c.header, .line ""] =
        (lineTexts c.header).map (SourceWriter.indented 0) ++ [""] := rfl
    rw [lines, textOf_append, textOf_lineTexts]
    simp [textOf]

theorem textOf_importLines (names : List String) :
    textOf (linesOf 0 (names.map fun name => .line ("import " ++ name))) =
      (String.join (names.map fun name => "import " ++ name ++ "\n")).toList := by
  induction names with
  | nil => rfl
  | cons name rest ih =>
    rw [List.map_cons, List.map_cons, linesOf, Step.linesAt, SourceWriter.indented_zero,
      List.singleton_append, textOf_cons]
    simp [Step.halt?, ih]

theorem textOf_importSteps (c : GeneratorConfig) :
    textOf (linesOf 0 (importSteps c)) = (if c.imports.isEmpty then ""
      else String.join (c.imports.map fun name => "import " ++ name ++ "\n") ++ "\n").toList := by
  unfold importSteps
  split
  next => rfl
  next =>
    rw [linesOf_append (haltOf_importLines c.imports), textOf_append, textOf_importLines,
      String.toList_append]
    rfl

theorem haltOf_frontSteps (c : GeneratorConfig) :
    haltOf (headerSteps c ++ importSteps c) = none := by
  rw [haltOf_append, haltOf_headerSteps, haltOf_importSteps]
  rfl

theorem textOf_frontSteps (c : GeneratorConfig) :
    textOf (linesOf 0 (headerSteps c ++ importSteps c)) = (frontText c).toList := by
  rw [linesOf_append (haltOf_headerSteps c), textOf_append, textOf_headerSteps, textOf_importSteps,
    frontText, String.toList_append]

/-- A wrapper is its front and the lines of its class. -/
theorem toList_renderSteps_wrapperSteps (c : GeneratorConfig) (e : Entry) (typeName : String) :
    (renderSteps (wrapperSteps c e typeName) ++ "\n").toList =
      (frontText c).toList ++ textOf (linesOf 0 (classSteps c e typeName)) := by
  have lines : linesOf 0 (wrapperSteps c e typeName) = linesOf 0 (headerSteps c ++ importSteps c) ++
      linesOf 0 (classSteps c e typeName) := linesOf_append (haltOf_frontSteps c) 0 _
  have some : linesOf 0 (wrapperSteps c e typeName) ≠ [] := by
    rw [lines, classSteps]
    simp [linesOf, Step.linesAt]
  rw [toList_renderSteps some, lines, textOf_append, textOf_frontSteps]

end WrapperGen.Swift
