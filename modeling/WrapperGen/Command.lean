import WrapperGen.Command.Arguments

namespace WrapperGen

/-- What the program can be told to do. -/
inductive Command where
  | scan (rounds : List Path) (out : Path) (containers : List String) (strict : Bool)
  | generate (manifest outDir : Path) (config : Option Path) (strict : Bool)
  | digest (manifest : Path)
  deriving DecidableEq

namespace Command

inductive Name where
  | scan
  | generate
  | digest
  deriving DecidableEq

def Name.ofText? : String → Option Name
  | "scan" => some .scan
  | "generate" => some .generate
  | "digest" => some .digest
  | _ => none

def pathOption (name : String) (repeats : Bool) : OptionRule := ⟨name, true, true, repeats⟩

def flag (name : String) : OptionRule := ⟨name, false, false, false⟩

def Name.options : Name → List OptionRule
  | .scan =>
    [pathOption "round" true, pathOption "out" false, ⟨"state-container", true, false, true⟩,
      flag "deny-diagnostics"]
  | .generate =>
    [pathOption "manifest" false, pathOption "out-dir" false, pathOption "config" false,
      flag "strict"]
  | .digest => []

/-- How many arguments a command has that are not options. -/
def Name.room : Name → Nat
  | .scan | .generate => 0
  | .digest => 1

/-- The command of its arguments; none if one is missing. -/
def ofArguments? (a : Arguments) : Name → Option Command
  | .scan =>
    match a.values "round", a.value? "out" with
    | first :: rest, some out =>
      some (.scan ((first :: rest).map Path.mk) ⟨out⟩ (a.values "state-container")
        (a.has "deny-diagnostics"))
    | _, _ => none
  | .generate =>
    match a.value? "manifest", a.value? "out-dir" with
    | some manifest, some outDir =>
      some (.generate ⟨manifest⟩ ⟨outDir⟩ ((a.value? "config").map Path.mk) (a.has "strict"))
    | _, _ => none
  | .digest =>
    match a.others with
    | [manifest] => some (.digest ⟨manifest⟩)
    | _ => none

/-- What help is wanted on. -/
inductive Topic where
  | program
  | command (name : Name)
  | help
  deriving DecidableEq

def Topic.ofText? : String → Option Topic
  | "help" => some .help
  | word => (Name.ofText? word).map .command

/-- Why no command is run: help is wanted, or the arguments are wrong. -/
inductive NoCommand where
  | help (topic : Topic)
  | usage
  deriving DecidableEq

def isHelpFlag (arg : String) : Bool :=
  arg == "--help" || arg.toList.take 2 == ['-', 'h']

def parse : List String → Except NoCommand Command
  | [] => .error .usage
  | ["help"] => .error (.help .program)
  | ["help", word] =>
    match Topic.ofText? word with
    | some topic => .error (.help topic)
    | none => .error .usage
  | word :: rest =>
    match Name.ofText? word with
    | none => .error (if isHelpFlag word then .help .program else .usage)
    | some name =>
      match Arguments.parse name.options name.room .empty none rest with
      | .error .help => .error (.help (.command name))
      | .error .usage => .error .usage
      | .ok a =>
        match ofArguments? a name with
        | some command => .ok command
        | none => .error .usage

end Command

end WrapperGen
