import WrapperGen.Text.Letter
import WrapperGen.Text.Numeral

namespace WrapperGen.Swift

/-- A letter or an underscore, followed by letters, numerals and underscores. -/
def isIdentifier (name : String) : Bool :=
  match name.toList with
  | [] => false
  | first :: rest =>
    (isLetter first || first == '_') && rest.all fun c => isLetter c || isNumeral c || c == '_'

/-- Words that name something only between backticks. -/
def keywords : List String :=
  ["associatedtype", "class", "deinit", "enum", "extension", "fileprivate", "func", "import",
    "init", "inout", "internal", "let", "open", "operator", "private", "protocol", "public",
    "rethrows", "static", "struct", "subscript", "typealias", "var", "break", "case", "continue",
    "default", "defer", "do", "else", "fallthrough", "for", "guard", "if", "in", "repeat",
    "return", "switch", "where", "while", "as", "catch", "false", "is", "nil", "super", "self",
    "Self", "throw", "throws", "true", "try"]

/-- The name as it is written in a place of its own. -/
def escape (name : String) : String :=
  if name ∈ keywords then "`" ++ name ++ "`" else name

/-- Types that have no class of their own on the other side. -/
def unbridgeableTypes : List String :=
  ["Unit", "Nothing", "List", "MutableList", "Set", "MutableSet", "Map", "MutableMap", "Array",
    "Pair", "Triple", "Flow", "StateFlow", "SharedFlow"]

/-- Why a type name cannot be written. -/
inductive Unsupported where
  | notAnIdentifier
  | functionType
  | unbridgeable
  deriving DecidableEq

def Unsupported.message : Unsupported → String
  | .notAnIdentifier => "not a type identifier"
  | .functionType => "function types cannot be bridged"
  | .unbridgeable => "type has no Swift counterpart"

/-- A function type is called so with the number of its parameters in ASCII digits. -/
def isFunctionType (name : String) : Bool :=
  let word := "Function".toList
  let arity := name.toList.drop word.length
  word.isPrefixOf name.toList && !arity.isEmpty && arity.all Char.isDigit

def checkType (name : String) : Except Unsupported Unit :=
  if !isIdentifier name then .error .notAnIdentifier
  else if isFunctionType name then .error .functionType
  else if name ∈ unbridgeableTypes then .error .unbridgeable
  else .ok ()

end WrapperGen.Swift
