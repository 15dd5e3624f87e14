import WrapperGen.Text.Line

namespace WrapperGen.Swift

/-- Lines of source text, and the level at which the next one is indented. -/
structure SourceWriter where
  lines : List String
  depth : Nat
  deriving DecidableEq

namespace SourceWriter

def empty : SourceWriter := ⟨[], 0⟩

/-- The line at a level, four spaces for each; an empty line stays empty. -/
def indented (depth : Nat) (text : String) : String :=
  if text.isEmpty then "" else String.ofList (List.replicate (4 * depth) ' ') ++ text

def line (w : SourceWriter) (text : String) : SourceWriter :=
  { w with lines := w.lines ++ [indented w.depth text] }

/-- One line for every piece between line feeds. -/
def block (w : SourceWriter) (text : String) : SourceWriter :=
  (lineTexts text).foldl line w

/-- The lines of the body stand one level deeper. Whatever level the body ends at, the level after
it is the one before. -/
def indent {α : Type} (w : SourceWriter) (body : SourceWriter → α × SourceWriter) :
    α × SourceWriter :=
  let (a, inner) := body { w with depth := w.depth + 1 }
  (a, { inner with depth := w.depth })

def render (w : SourceWriter) : String := "\n".intercalate w.lines

end SourceWriter

end WrapperGen.Swift
