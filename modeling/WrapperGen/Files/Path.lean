import WrapperGen.Text.Line

namespace WrapperGen

/-- The path of a file as it is written. -/
structure Path where
  text : String
  deriving DecidableEq

namespace Path

def isAbsolute (p : Path) : Bool := p.text.toList.head? == some '/'

def endsInSlash (p : Path) : Bool := p.text.toList.getLast? == some '/'

/-- The names between the slashes. -/
def names (p : Path) : List String :=
  ((piecesAt '/' p.text.toList).filter (!·.isEmpty)).map String.ofList

/-- The path of a name in a directory; an absolute name stands for itself. -/
def join (p : Path) (name : String) : Path :=
  if (⟨name⟩ : Path).isAbsolute || p.text.isEmpty then ⟨name⟩
  else if p.endsInSlash then ⟨p.text ++ name⟩
  else ⟨p.text ++ "/" ++ name⟩

/-- The path of names that come innermost first. -/
def ofNames (absolute : Bool) (names : List String) : Path :=
  ⟨(if absolute then "/" else "") ++ "/".intercalate names.reverse⟩

/-- Names that come innermost first, then the same without the first one, and so on. A name `.`
never comes first. -/
def shortened : List String → List (List String)
  | [] => []
  | name :: rest => if name = "." then shortened rest else (name :: rest) :: shortened rest

/-- The directories in which the path lies, the nearest first, each by its names from the innermost
outwards. -/
def above (p : Path) : List (List String) := (shortened p.names.reverse).drop 1

/-- The directory in which the path lies. -/
def parent (p : Path) : Path :=
  match p.above with
  | names :: _ => ofNames p.isAbsolute names
  | [] => if p.isAbsolute then ⟨"/"⟩ else ⟨"."⟩

end Path

end WrapperGen
