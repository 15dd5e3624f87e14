namespace WrapperGen

/-- The three annotations by which source code asks for a wrapper. -/
inductive Marker where
  | viewModel
  | uiState
  | uiAction
  deriving DecidableEq

namespace Marker

def all : List Marker := [.viewModel, .uiState, .uiAction]

/-- The package that declares the annotations. -/
def package : String := "com.mnikonov.observablevm.swiftvm"

def shortName : Marker → String
  | .viewModel => "SwiftViewModel"
  | .uiState => "SwiftUiState"
  | .uiAction => "SwiftUiAction"

def qualifiedName (m : Marker) : String := package ++ "." ++ m.shortName

/-- The text behind a given beginning, if the text begins so. -/
def behind? (start text : List Char) : Option (List Char) :=
  if start.isPrefixOf text then some (text.drop start.length) else none

/-- An annotation names a marker by its short or by its qualified name, with any number of signs
`@` in front. -/
def isNamedBy (m : Marker) (text : String) : Bool :=
  let written := text.toList.dropWhile (· == '@')
  match behind? package.toList written with
  | some rest => rest == '.' :: m.shortName.toList
  | none => written == m.shortName.toList

/-- Whether one of the annotations names the marker. -/
def isAmong (m : Marker) (annotations : List String) : Bool :=
  annotations.any m.isNamedBy

end Marker

end WrapperGen
