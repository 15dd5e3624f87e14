import WrapperGen.Swift.Script

namespace WrapperGen.Swift

mutual

/-- What stops a step, if anything does. -/
def Step.halt? : Step → Option Halt
  | .line _ | .block _ | .attempt _ => none
  | .indent body => haltOf body
  | .stop halt => some halt

/-- What the first of the steps that does not come to its end is stopped by. -/
def haltOf : List Step → Option Halt
  | [] => none
  | step :: rest => step.halt?.or (haltOf rest)

end

mutual

/-- The lines that a step writes at a level. -/
def Step.linesAt (depth : Nat) : Step → List String
  | .line text => [SourceWriter.indented depth text]
  | .block text => (lineTexts text).map (SourceWriter.indented depth)
  | .indent body => linesOf (depth + 1) body
  | .attempt body => linesOf depth body
  | .stop _ => []

/-- The lines that steps write from a level on, up to the one that stops. -/
def linesOf (depth : Nat) : List Step → List String
  | [] => []
  | step :: rest =>
    step.linesAt depth ++ if step.halt?.isSome then [] else linesOf depth rest

end

namespace SourceWriter

theorem block_eq (w : SourceWriter) (text : String) :
    w.block text = ⟨w.lines ++ (lineTexts text).map (indented w.depth), w.depth⟩ := by
  rw [block]
  induction lineTexts text generalizing w with
  | nil => simp
  | cons first rest ih => simp [ih, line]

end SourceWriter

mutual

/-- A step adds its lines, and the level behind it is the level before. -/
theorem run_eq (step : Step) (w : SourceWriter) :
    (step.run w).1.halt = step.halt? ∧
      (step.run w).2 = ⟨w.lines ++ step.linesAt w.depth, w.depth⟩ := by
  cases step with
  | line text => exact ⟨rfl, rfl⟩
  | block text => exact ⟨rfl, SourceWriter.block_eq w text⟩
  | indent body =>
    obtain ⟨halt, writer⟩ := runSteps_eq body { w with depth := w.depth + 1 }
    refine ⟨halt, ?_⟩
    rw [Step.run, SourceWriter.indent, Step.linesAt]
    simp only [writer]
  | attempt body =>
    obtain ⟨-, writer⟩ := runSteps_eq body w
    exact ⟨rfl, writer⟩
  | stop halt =>
    refine ⟨rfl, ?_⟩
    rw [Step.run, Step.linesAt, List.append_nil]

/-- Steps add their lines up to the one that stops. -/
theorem runSteps_eq (steps : List Step) (w : SourceWriter) :
    (runSteps steps w).1.halt = haltOf steps ∧
      (runSteps steps w).2 = ⟨w.lines ++ linesOf w.depth steps, w.depth⟩ := by
  cases steps with
  | nil => simp [runSteps, haltOf, linesOf]
  | cons step rest =>
    obtain ⟨halt, writer⟩ := run_eq step w
    rw [runSteps, haltOf, linesOf]
    simp only [Progress.stopped, halt]
    cases stopped : step.halt? with
    | some h =>
      rw [stopped] at halt
      simp [halt, writer]
    | none =>
      obtain ⟨later, final⟩ := runSteps_eq rest (step.run w).2
      rw [writer] at later final
      simp [writer, later, final]

end

theorem haltOf_append (steps later : List Step) :
    haltOf (steps ++ later) = (haltOf steps).or (haltOf later) := by
  induction steps with
  | nil => rfl
  | cons step rest ih => rw [List.cons_append, haltOf, haltOf, ih, Option.or_assoc]

/-- Steps that come to their end leave the level and the rest to those behind them. -/
theorem linesOf_append {steps : List Step} (ended : haltOf steps = none) (depth : Nat)
    (later : List Step) :
    linesOf depth (steps ++ later) = linesOf depth steps ++ linesOf depth later := by
  induction steps with
  | nil => rfl
  | cons step rest ih =>
    obtain ⟨first, others⟩ := Option.or_eq_none_iff.mp ended
    rw [List.cons_append, linesOf, linesOf, first, ih others, List.append_assoc]
    rfl

theorem renderSteps_eq (steps : List Step) :
    renderSteps steps = "\n".intercalate (linesOf 0 steps) := by
  have writer := (runSteps_eq steps .empty).2
  rw [renderSteps, writer]
  rfl

/-! ## The text of the lines -/

/-- The lines with a line feed behind each. -/
def textOf (lines : List String) : List Char :=
  lines.flatMap fun line => line.toList ++ ['\n']

theorem textOf_append (lines later : List String) :
    textOf (lines ++ later) = textOf lines ++ textOf later :=
  List.flatMap_append

theorem toList_intercalate {lines : List String} (some : lines ≠ []) :
    ("\n".intercalate lines ++ "\n").toList = textOf lines := by
  induction lines with
  | nil => exact absurd rfl some
  | cons line rest ih =>
    cases rest with
    | nil => simp [textOf]
    | cons next rest =>
      have later := ih nofun
      rw [String.intercalate_cons_cons, String.append_assoc, String.toList_append, later]
      simp [textOf]

theorem toList_renderSteps {steps : List Step} (some : linesOf 0 steps ≠ []) :
    (renderSteps steps ++ "\n").toList = textOf (linesOf 0 steps) := by
  rw [renderSteps_eq]
  exact toList_intercalate some

end WrapperGen.Swift
