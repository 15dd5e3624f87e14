import WrapperGen.Proofs.Swift.Lines
import WrapperGen.Proofs.Text.Pieces

namespace WrapperGen.Swift

/-! ## The steps that are carried out -/

/-- A step that is carried out, and in how many bodies of `indent` it stands. -/
structure Operation where
  indents : Nat
  step : Step

namespace Operation

/-- The lines of a step itself, those of its body apart. -/
def lines (op : Operation) : List String :=
  match op.step with
  | .line text => [SourceWriter.indented op.indents text]
  | .block text =>
    (text.toList.splitOn '\n').map fun piece =>
      SourceWriter.indented op.indents (String.ofList piece)
  | .indent _ | .attempt _ | .stop _ => []

end Operation

mutual

/-- A step, with all of its body that is carried out. -/
def Step.operations (indents : Nat) : Step → List Operation
  | .line text => [⟨indents, .line text⟩]
  | .block text => [⟨indents, .block text⟩]
  | .indent body => ⟨indents, .indent body⟩ :: operationsOf (indents + 1) body
  | .attempt body => ⟨indents, .attempt body⟩ :: operationsOf indents body
  | .stop halt => [⟨indents, .stop halt⟩]

/-- All that is carried out of steps, in order: nothing behind the first that is stopped. No writer
has a part in this. -/
def operationsOf (indents : Nat) : List Step → List Operation
  | [] => []
  | step :: rest =>
    step.operations indents ++ if step.halt?.isSome then [] else operationsOf indents rest

end

mutual

theorem lines_operations (indents : Nat) (step : Step) :
    (step.operations indents).flatMap Operation.lines = step.linesAt indents := by
  cases step with
  | line text => rfl
  | block text =>
    have pieces := piecesAt_eq_splitOn '\n' text.toList
    rw [Step.linesAt, lineTexts, pieces, List.map_map, Step.operations, List.flatMap_singleton]
    rfl
  | indent body => exact lines_operationsOf (indents + 1) body
  | attempt body => exact lines_operationsOf indents body
  | stop halt => rfl

/-- The lines of steps are those of the operations among them. -/
theorem lines_operationsOf (indents : Nat) (steps : List Step) :
    (operationsOf indents steps).flatMap Operation.lines = linesOf indents steps := by
  cases steps with
  | nil => rfl
  | cons step rest =>
    have first := lines_operations indents step
    have others := lines_operationsOf indents rest
    rw [operationsOf, linesOf, List.flatMap_append, first]
    split
    next => rfl
    next => rw [others]

end

/-! ## The writers that a run goes through -/

/-- A step that a run comes to, and the writer that it is run on. -/
structure Visit where
  step : Step
  before : SourceWriter

namespace Visit

/-- The writer behind the step, whether that comes to its end or is stopped. -/
def after (v : Visit) : SourceWriter := (v.step.run v.before).2

theorem after_eq (v : Visit) :
    v.after = ⟨v.before.lines ++ v.step.linesAt v.before.depth, v.before.depth⟩ :=
  (run_eq v.step v.before).2

end Visit

mutual

/-- A step on a writer, and the steps of its body on the writers that they are run on. -/
def Step.visits : Step → SourceWriter → List Visit
  | .line text, w => [⟨.line text, w⟩]
  | .block text, w => [⟨.block text, w⟩]
  | .indent body, w => ⟨.indent body, w⟩ :: (w.indent fun inner => (visitsOf body inner, inner)).1
  | .attempt body, w => ⟨.attempt body, w⟩ :: visitsOf body w
  | .stop halt, w => [⟨.stop halt, w⟩]

/-- The steps that a run comes to, in the order in which it does. -/
def visitsOf : List Step → SourceWriter → List Visit
  | [], _ => []
  | step :: rest, w =>
    step.visits w ++ if (step.run w).1.stopped then [] else visitsOf rest (step.run w).2

end

/-- The visits to operations, one behind the other. Each finds the lines of those before it, and the
level that is the number of `indent`s around it. -/
def visitsInTurn (lines : List String) : List Operation → List Visit
  | [] => []
  | op :: rest => ⟨op.step, ⟨lines, op.indents⟩⟩ :: visitsInTurn (lines ++ op.lines) rest

theorem visitsInTurn_append (lines : List String) (operations later : List Operation) :
    visitsInTurn lines (operations ++ later) =
      visitsInTurn lines operations ++
        visitsInTurn (lines ++ operations.flatMap Operation.lines) later := by
  induction operations generalizing lines with
  | nil => simp [visitsInTurn]
  | cons op rest ih => simp [visitsInTurn, ih]

mutual

theorem visits_eq (step : Step) (w : SourceWriter) :
    step.visits w = visitsInTurn w.lines (step.operations w.depth) := by
  cases step with
  | line text => rfl
  | block text => rfl
  | indent body =>
    -- The level that the body is run at is the count that its operations start from.
    have inside := visitsOf_eq body { w with depth := w.depth + 1 }
    rw [Step.visits, Step.operations, visitsInTurn, Operation.lines, List.append_nil, ← inside]
    rfl
  | attempt body =>
    have inside := visitsOf_eq body w
    rw [Step.visits, Step.operations, visitsInTurn, Operation.lines, List.append_nil, inside]
  | stop halt => rfl

/-- A run comes to the operations in turn, whichever steps are stopped on the way. -/
theorem visitsOf_eq (steps : List Step) (w : SourceWriter) :
    visitsOf steps w = visitsInTurn w.lines (operationsOf w.depth steps) := by
  cases steps with
  | nil => rfl
  | cons step rest =>
    obtain ⟨halt, writer⟩ := run_eq step w
    have first := visits_eq step w
    have others := visitsOf_eq rest (step.run w).2
    rw [visitsOf, operationsOf, visitsInTurn_append, lines_operations, first, Progress.stopped,
      halt]
    split
    next => rfl
    next => rw [others, writer]

end

/-! ## Lines that stay -/

/-- The writer behind steps is that behind the first of them, if it stops the rest. -/
theorem writer_runSteps_cons (step : Step) (rest : List Step) (w : SourceWriter) :
    (runSteps (step :: rest) w).2 =
      if (step.run w).1.stopped then (step.run w).2 else (runSteps rest (step.run w).2).2 := by
  rw [runSteps]
  dsimp only
  split
  next => rfl
  next => rfl

theorem lines_prefix_runSteps (steps : List Step) (w : SourceWriter) :
    w.lines <+: (runSteps steps w).2.lines := by
  rw [(runSteps_eq steps w).2]
  exact List.prefix_append ..

mutual

theorem lines_prefix_of_mem_visits (step : Step) (w : SourceWriter) {v : Visit}
    (mem : v ∈ step.visits w) : v.after.lines <+: (step.run w).2.lines := by
  cases step with
  | line _ | block _ | stop _ =>
    obtain rfl := List.mem_singleton.mp mem
    exact List.prefix_rfl
  | indent body =>
    obtain rfl | inside := List.mem_cons.mp mem
    · exact List.prefix_rfl
    · exact lines_prefix_of_mem_visitsOf body { w with depth := w.depth + 1 } inside
  | attempt body =>
    obtain rfl | inside := List.mem_cons.mp mem
    · exact List.prefix_rfl
    · exact lines_prefix_of_mem_visitsOf body w inside

/-- What has been written behind a step is still there when the run is over. -/
theorem lines_prefix_of_mem_visitsOf (steps : List Step) (w : SourceWriter) {v : Visit}
    (mem : v ∈ visitsOf steps w) : v.after.lines <+: (runSteps steps w).2.lines := by
  cases steps with
  | nil => exact absurd mem List.not_mem_nil
  | cons step rest =>
    rw [visitsOf] at mem
    rw [writer_runSteps_cons]
    obtain first | later := List.mem_append.mp mem
    · have kept := lines_prefix_of_mem_visits step w first
      split
      next => exact kept
      next => exact kept.trans (lines_prefix_runSteps rest (step.run w).2)
    · split at later
      next => exact absurd later List.not_mem_nil
      next goesOn =>
        rw [if_neg goesOn]
        exact lines_prefix_of_mem_visitsOf rest (step.run w).2 later

end

/-- However steps fail or break down, and wherever that is caught: each step that is carried out
finds the writer at the level that is the number of `indent`s around it, with the lines of all that
has been carried out before. Behind it, complete or stopped, the level is the same, and what is
written stays. The text is the lines of the operations in order, joined by single line feeds. -/
theorem steps_written_at_their_levels (steps : List Step) :
    let operations := operationsOf 0 steps
    let final := (runSteps steps .empty).2
    visitsOf steps .empty = visitsInTurn [] operations ∧
      (∀ v ∈ visitsOf steps .empty,
        v.after.depth = v.before.depth ∧ v.after.lines <+: final.lines) ∧
      final = ⟨operations.flatMap Operation.lines, 0⟩ ∧
      renderSteps steps = "\n".intercalate (operations.flatMap Operation.lines) := by
  intro operations final
  have lines : operations.flatMap Operation.lines = linesOf 0 steps := lines_operationsOf 0 steps
  refine ⟨visitsOf_eq steps .empty, fun v mem => ⟨?_, ?_⟩, ?_, ?_⟩
  · rw [v.after_eq]
  · exact lines_prefix_of_mem_visitsOf steps .empty mem
  · rw [lines]
    exact (runSteps_eq steps .empty).2
  · rw [lines]
    exact renderSteps_eq steps

/-- A failure that leaves two levels at once, and a breakdown inside of the attempt that follows. -/
example :
    renderSteps
        [.attempt [.indent [.line "before", .indent [.stop .failure], .line "unreachable"]],
          .attempt [.indent [.block "first\n\nthird", .stop .breakdown]], .line "after"] =
      "    before\n    first\n\n    third\nafter" := by
  decide

end WrapperGen.Swift
