import WrapperGen.Swift.SourceWriter

namespace WrapperGen.Swift

/-- How a step stops the steps behind it: it fails, or it breaks down. -/
inductive Halt where
  | failure
  | breakdown
  deriving DecidableEq

/-- A step of writing source text. `attempt` goes on behind its body even if that stops. -/
inductive Step where
  | line (text : String)
  | block (text : String)
  | indent (body : List Step)
  | attempt (body : List Step)
  | stop (halt : Halt)

/-- What is noted while steps run: the level and the number of lines behind a step that was
completed, and whether an attempt was stopped. -/
inductive Mark where
  | position (depth lines : Nat)
  | caught (stopped : Bool)
  deriving DecidableEq

structure Progress where
  halt : Option Halt
  marks : List Mark

def Progress.stopped (p : Progress) : Bool := p.halt.isSome

def SourceWriter.mark (w : SourceWriter) : Mark := .position w.depth w.lines.length

mutual

def Step.run : Step → SourceWriter → Progress × SourceWriter
  | .line text, w =>
    let w := w.line text
    (⟨none, [w.mark]⟩, w)
  | .block text, w =>
    let w := w.block text
    (⟨none, [w.mark]⟩, w)
  | .indent body, w =>
    let (p, w) := w.indent (runSteps body)
    (⟨p.halt, if p.stopped then p.marks else p.marks ++ [w.mark]⟩, w)
  | .attempt body, w =>
    let (p, w) := runSteps body w
    (⟨none, p.marks ++ [.caught p.stopped, w.mark]⟩, w)
  | .stop halt, w => (⟨some halt, []⟩, w)

/-- Runs steps up to the first that stops. -/
def runSteps : List Step → SourceWriter → Progress × SourceWriter
  | [], w => (⟨none, []⟩, w)
  | step :: rest, w =>
    let (p, w) := step.run w
    if p.stopped then (p, w)
    else
      let (q, w) := runSteps rest w
      (⟨q.halt, p.marks ++ q.marks⟩, w)

end

/-- The text that the steps write. -/
def renderSteps (steps : List Step) : String :=
  (runSteps steps .empty).2.render

end WrapperGen.Swift
