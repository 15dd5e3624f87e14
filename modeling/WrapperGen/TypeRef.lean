import WrapperGen.Text.Letter
import WrapperGen.Text.Line
import WrapperGen.Text.Numeral

namespace WrapperGen

mutual

/-- A type as it is written where it is used: a name, arguments, and a mark for null. -/
inductive TypeRef where
  | mk (name : String) (args : List TypeArg) (nullable : Bool)

/-- An argument of a type: a type, or a star for any type. -/
inductive TypeArg where
  | star
  | type (t : TypeRef)

end

instance : Inhabited TypeRef := ⟨.mk "" [] false⟩

namespace TypeRef

def name : TypeRef → String
  | .mk name _ _ => name

def args : TypeRef → List TypeArg
  | .mk _ args _ => args

def nullable : TypeRef → Bool
  | .mk _ _ nullable => nullable

mutual

/-- Equal names, arguments and marks. -/
def same : TypeRef → TypeRef → Bool
  | .mk name args nullable, .mk name' args' nullable' =>
    name == name' && sameArgs args args' && nullable == nullable'

def sameArgs : List TypeArg → List TypeArg → Bool
  | [], [] => true
  | .star :: rest, .star :: rest' => sameArgs rest rest'
  | .type t :: rest, .type t' :: rest' => t.same t' && sameArgs rest rest'
  | _, _ => false

end

mutual

theorem same_iff (t u : TypeRef) : t.same u = true ↔ t = u := by
  cases t with
  | mk name args nullable =>
    cases u with
    | mk name' args' nullable' => simp [same, sameArgs_iff args args', and_assoc]

theorem sameArgs_iff (args args' : List TypeArg) : sameArgs args args' = true ↔ args = args' := by
  cases args with
  | nil => cases args' <;> simp [sameArgs]
  | cons arg rest =>
    cases args' with
    | nil => cases arg <;> simp [sameArgs]
    | cons arg' rest' =>
      cases arg with
      | star => cases arg' <;> simp [sameArgs, sameArgs_iff rest rest']
      | type t =>
        cases arg' with
        | star => simp [sameArgs]
        | type u => simp [sameArgs, same_iff t u, sameArgs_iff rest rest']

end

instance : DecidableEq TypeRef := fun t u => decidable_of_iff _ (same_iff t u)

/-- The name behind the last dot. -/
def simpleName (t : TypeRef) : String := lastSegment t.name

mutual

def chars : TypeRef → List Char
  | .mk name args nullable =>
    name.toList ++ (if args.isEmpty then [] else '<' :: argChars args ++ ['>']) ++
      (if nullable then ['?'] else [])

def argChars : List TypeArg → List Char
  | [] => []
  | [arg] => argText arg
  | arg :: rest => argText arg ++ ',' :: ' ' :: argChars rest

def argText : TypeArg → List Char
  | .star => ['*']
  | .type t => t.chars

end

/-- The one way in which a type is shown. -/
def display (t : TypeRef) : String := String.ofList t.chars

mutual

/-- The type and every type among its arguments, outer before inner, from left to right. -/
def walk : TypeRef → List TypeRef
  | .mk name args nullable => .mk name args nullable :: walkArgs args

def walkArgs : List TypeArg → List TypeRef
  | [] => []
  | .star :: rest => walkArgs rest
  | .type t :: rest => t.walk ++ walkArgs rest

end

/-- The names written in a type and its arguments. -/
def names (t : TypeRef) : List String := t.walk.map name

theorem name_mem_names (t : TypeRef) : t.name ∈ t.names := by
  refine List.mem_map_of_mem ?_
  cases t
  exact List.mem_cons_self

end TypeRef

instance : DecidableEq TypeArg
  | .star, .star => isTrue rfl
  | .star, .type _ => isFalse nofun
  | .type _, .star => isFalse nofun
  | .type t, .type u => decidable_of_iff (t = u) (by simp)

def TypeArg.display : TypeArg → String
  | .star => "*"
  | .type t => t.display

end WrapperGen
