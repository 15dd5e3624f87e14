import WrapperGen.Files
import WrapperGen.Roster

namespace WrapperGen

/-- Where something lies: its own name, then those of the directories around it outwards. The
directory around everything is the empty place. -/
abbrev Place := List String

inductive Item where
  | directory
  | file (bytes : ByteArray)

/-- Files and directories, with a working directory where relative paths begin. -/
structure Tree where
  home : Place
  items : List (Place × Item)

namespace Tree

/-- The directories on the way to a place, with the one there. -/
def directoriesTo : Place → List (Place × Item)
  | [] => []
  | name :: around => (name :: around, .directory) :: directoriesTo around

/-- A tree with an empty working directory. -/
def new (home : Place) : Tree := ⟨home, directoriesTo home⟩

instance : EmptyCollection Tree := ⟨new []⟩
instance : Inhabited Tree := ⟨∅⟩

def find? (t : Tree) (place : Place) : Option Item :=
  if place.isEmpty then some .directory else t.items.lookup place

def erase (t : Tree) (place : Place) : Tree := ⟨t.home, t.items.filter (·.1 != place)⟩

def put (t : Tree) (place : Place) (item : Item) : Tree :=
  ⟨t.home, (place, item) :: (t.erase place).items⟩

/-- A name has at most 255 bytes. -/
def checkName (name : String) : Except Fault Unit :=
  if 255 < name.utf8ByteSize then .error .nameTooLong else .ok ()

/-- A path has no zero byte and 1 to 4095 bytes. -/
def checkPath (p : Path) : Except Fault Unit :=
  if p.text.toList.contains '\x00' then .error .zeroByte
  else if p.text.isEmpty then .error .noSuchFile
  else if 4095 < p.text.utf8ByteSize then .error .nameTooLong
  else .ok ()

/-- Goes from a directory to the one that the names lead to. -/
def descend (t : Tree) (here : Place) : List String → Except Fault Place
  | [] => .ok here
  | name :: rest =>
    if name = "." then descend t here rest
    else if name = ".." then descend t here.tail rest
    else do
      checkName name
      match t.find? (name :: here) with
      | none => .error .noSuchFile
      | some (.file _) => .error .notADirectory
      | some .directory => descend t (name :: here) rest

/-- What a path leads to: a directory by its own dots, or a name in a directory, which may be
taken. -/
inductive Target where
  | itself (place : Place)
  | named (place : Place) (slash : Bool)

def locate (t : Tree) (p : Path) : Except Fault Target := do
  checkPath p
  match p.names.getLast? with
  | none => return .itself []
  | some last =>
    let here ← t.descend (if p.isAbsolute then [] else t.home) p.names.dropLast
    if last = "." then return .itself here
    if last = ".." then return .itself here.tail
    checkName last
    return .named (last :: here) p.endsInSlash

/-- What lies at a path, with its place. -/
def stat (t : Tree) (p : Path) : Except Fault (Place × Item) := do
  match ← t.locate p with
  | .itself place => return (place, .directory)
  | .named place slash =>
    match t.find? place with
    | none => .error .noSuchFile
    | some .directory => return (place, .directory)
    | some (.file bytes) => if slash then .error .notADirectory else return (place, .file bytes)

def makeDir (t : Tree) (p : Path) : Except Fault Tree := do
  match ← t.locate p with
  | .itself _ => .error .alreadyExists
  | .named place _ =>
    if (t.find? place).isSome then .error .alreadyExists
    return t.put place .directory

def isDir (t : Tree) (p : Path) : Bool :=
  match t.stat p with
  | .ok (_, .directory) => true
  | _ => false

def isFile (t : Tree) (p : Path) : Bool :=
  match t.stat p with
  | .ok (_, .file _) => true
  | _ => false

def readBytes (t : Tree) (p : Path) : Except Fault ByteArray := do
  match ← t.stat p with
  | (_, .directory) => .error .isADirectory
  | (_, .file bytes) => return bytes

/-- The path of a new file in a directory, from the outermost directory on. -/
def freshIn (t : Tree) (directory : Path) : Path :=
  ((Path.ofNames true t.home).join directory.text).join ".tmpXXXXXX"

/-- The path of a new file beside the one at a path. -/
def fresh (t : Tree) (p : Path) : Path := t.freshIn p.parent

/-- One of the names that a new file may get. -/
def temporaryName (number : Nat) : String := ".tmp" ++ toString (100000 + number)

/-- A tree with a new empty file in the directory, and where that lies. -/
def makeTemporary (t : Tree) (directory : Path) : Except Fault (Place × Tree) := do
  checkPath (t.freshIn directory)
  let here ← t.descend (if directory.isAbsolute then [] else t.home) directory.names
  let names := (List.range (t.items.length + 1)).map temporaryName
  match names.find? fun name => (t.find? (name :: here)).isNone with
  | none => .error .alreadyExists
  | some name => return (name :: here, t.put (name :: here) (.file .empty))

/-- The file at a place goes to where a path leads. -/
def persist (t : Tree) (temporary : Place) (p : Path) : Except Fault Tree := do
  match t.find? temporary with
  | none | some .directory => .error .noSuchFile
  | some (.file bytes) =>
    match ← t.locate p with
    | .itself _ => .error .busy
    | .named place slash =>
      if slash then .error .notADirectory
      match t.find? place with
      | some .directory => .error .isADirectory
      | some (.file _) | none => return (t.erase temporary).put place (.file bytes)

def remove (t : Tree) (p : Path) : Except Fault Tree := do
  match ← t.stat p with
  | (_, .directory) => .error .isADirectory
  | (place, .file _) => return t.erase place

/-- The name of a place, if it lies right in the directory. -/
def nameIn? (directory : Place) : Place → Option String
  | [] => none
  | name :: around => if around = directory then some name else none

/-- The names in a directory, in ascending order. -/
def namesIn (t : Tree) (p : Path) : Except Fault (List String) := do
  match ← t.stat p with
  | (_, .file _) => .error .notADirectory
  | (place, .directory) =>
    let names : NameSet := .ofList (t.items.filterMap fun item => nameIn? place item.1)
    return names.toList

/-- The names that lead from a directory to a place in it, innermost first. -/
def namesFrom? (directory : Place) : Place → Option (List String)
  | [] => none
  | name :: around =>
    if around = directory then some [name] else (name :: ·) <$> namesFrom? directory around

/-- All that lies in the working directory, by its path from there. -/
def contents (t : Tree) : List (Path × Item) :=
  t.items.filterMap fun (place, item) =>
    (namesFrom? t.home place).map fun names => (.ofNames false names, item)

/-- A step on the tree; one that fails leaves it as it is. -/
def step (change : Tree → Except Fault Tree) : StateM Tree (Except Fault Unit) := fun t =>
  match change t with
  | .ok t => (.ok (), t)
  | .error fault => (.error fault, t)

/-- A step on the tree that has a result; one that fails leaves the tree as it is. -/
def stepFor {α : Type} (change : Tree → Except Fault (α × Tree)) : StateM Tree (Except Fault α) :=
  fun t =>
    match change t with
    | .ok (a, t) => (.ok a, t)
    | .error fault => (.error fault, t)

instance : Files (StateM Tree) where
  Temporary := Place
  makeDir p := step (·.makeDir p)
  isDir p := fun t => (t.isDir p, t)
  isFile p := fun t => (t.isFile p, t)
  readBytes p := fun t => (t.readBytes p, t)
  makeTemporary directory := stepFor (·.makeTemporary directory)
  fill place bytes := step fun t => .ok (t.put place (.file bytes))
  persist place p := step (·.persist place p)
  discard place := fun t => ((), t.erase place)
  remove p := step (·.remove p)
  namesIn p := fun t => (t.namesIn p, t)

end Tree

end WrapperGen
