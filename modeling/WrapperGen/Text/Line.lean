import WrapperGen.Text.Blank

namespace WrapperGen

/-- The pieces of a text between the occurrences of a character, one more than there are such. -/
def piecesAt (separator : Char) : List Char → List (List Char)
  | [] => [[]]
  | c :: rest =>
    match piecesAt separator rest with
    | [] => [[c]]
    | piece :: pieces =>
      if c = separator then [] :: piece :: pieces else (c :: piece) :: pieces

/-- The pieces of a text between its line feeds. -/
def lineTexts (text : String) : List String :=
  (piecesAt '\n' text.toList).map String.ofList

/-- The first line of a text without the blanks at its end. -/
def firstLine (text : String) : String :=
  String.ofList (trimEnd (text.toList.takeWhile (· ≠ '\n')))

/-- What stands after the last dot of a name; the whole name when it has none. -/
def lastSegment (name : String) : String :=
  String.ofList (name.toList.reverse.takeWhile (· ≠ '.')).reverse

theorem piecesAt_ne_nil (separator : Char) (text : List Char) : piecesAt separator text ≠ [] := by
  cases text with
  | nil => simp [piecesAt]
  | cons c rest =>
    rw [piecesAt]
    split
    · simp
    · split <;> simp

end WrapperGen
