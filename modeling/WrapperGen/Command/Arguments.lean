import WrapperGen.Files.Path

namespace WrapperGen

/-- An option of a command: whether a value follows it, whether that is a path, which must not be
empty, and whether the option may be given again. -/
structure OptionRule where
  name : String
  takesValue : Bool
  isPath : Bool
  repeats : Bool

/-- The given options with their values, and the other arguments. -/
structure Arguments where
  options : List (String × String)
  others : List String

/-- Why no command is run. -/
inductive Refusal where
  | help
  | usage
  deriving DecidableEq

namespace Arguments

def empty : Arguments := ⟨[], []⟩

def values (a : Arguments) (name : String) : List String :=
  a.options.filterMap fun (n, v) => if n = name then some v else none

def value? (a : Arguments) (name : String) : Option String := (a.values name).head?

def has (a : Arguments) (name : String) : Bool := !(a.values name).isEmpty

def addOption (a : Arguments) (rule : OptionRule) (value : String) : Except Refusal Arguments :=
  if rule.isPath ∧ value.isEmpty then .error .usage
  else if !rule.repeats ∧ a.has rule.name then .error .usage
  else .ok { a with options := a.options ++ [(rule.name, value)] }

/-- How an argument is written. -/
inductive Written where
  | terminator
  | long (name : String) (value : Option String)
  | short (letter : Char)
  | plain

def written (arg : String) : Written :=
  match arg.toList with
  | ['-', '-'] => .terminator
  | '-' :: '-' :: rest =>
    let name := String.ofList (rest.takeWhile (· ≠ '='))
    match rest.dropWhile (· ≠ '=') with
    | [] => .long name none
    | _ :: value => .long name (some (String.ofList value))
  | '-' :: letter :: _ => .short letter
  | _ => .plain

/-- Takes arguments one by one, with at most `room` that are not options; `waiting` is the option
whose value comes next. -/
def parse (rules : List OptionRule) (room : Nat) (a : Arguments) (waiting : Option OptionRule) :
    List String → Except Refusal Arguments
  | [] => if waiting.isSome then .error .usage else .ok a
  | arg :: rest =>
    match written arg, waiting with
    | .plain, some rule => do parse rules room (← a.addOption rule arg) none rest
    | _, some _ => .error .usage
    | .plain, none =>
      if a.others.length < room then
        if arg.isEmpty then .error .usage
        else parse rules room { a with others := a.others ++ [arg] } none rest
      else .error .usage
    | .terminator, none =>
      if a.others.length + rest.length ≤ room ∧ rest.all (!·.isEmpty) then
        .ok { a with others := a.others ++ rest }
      else .error .usage
    | .short letter, none => .error (if letter = 'h' then .help else .usage)
    | .long name value, none =>
      match rules.find? (·.name == name), value with
      | none, none => .error (if name = "help" then .help else .usage)
      | none, some _ => .error .usage
      | some rule, some value =>
        if rule.takesValue then do parse rules room (← a.addOption rule value) none rest
        else .error .usage
      | some rule, none =>
        if rule.takesValue then parse rules room a (some rule) rest
        else do parse rules room (← a.addOption rule "") none rest

end Arguments

end WrapperGen
