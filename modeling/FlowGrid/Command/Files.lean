import FlowGrid.Text.Quoted

/-! Files and directories by path, and a small tree of them. A path is a list of names between
slashes, walked from the working directory or from the root. The root and the directories that
hold the working directory are there; all else that the tree does not list is absent. -/

namespace FlowGrid.Command

/-- Why a path cannot be opened. -/
inductive FileFault
  | absent
  | notDirectory
  | isDirectory
  | nameTooLong
  /-- Any other fault, by its number and its reason. Some do not tell the path. -/
  | other (number : Nat) (reason : String) (named : Bool)
deriving DecidableEq, Repr

namespace FileFault

def number : FileFault → Nat
  | .absent => 2
  | .notDirectory => 20
  | .isDirectory => 21
  | .nameTooLong => 36
  | .other number _ _ => number

def reason : FileFault → String
  | .absent => "No such file or directory"
  | .notDirectory => "Not a directory"
  | .isDirectory => "Is a directory"
  | .nameTooLong => "File name too long"
  | .other _ reason _ => reason

def tellsPath : FileFault → Bool
  | .other _ _ named => named
  | _ => true

def message (f : FileFault) (path : String) : String :=
  s!"[Errno {f.number}] {f.reason}" ++ if f.tellsPath then s!": {Text.quoted path}" else ""

end FileFault

/-- What a path leads to. -/
inductive Found
  | file (bytes : List UInt8)
  | directory
  | nothing (fault : FileFault)
deriving DecidableEq, Repr

/-! ### Places -/

/-- Where a path leads to, by the names on the way: from the root, or from the directory so
many levels above the working directory. -/
inductive Place
  | rooted (names : List String)
  | near (levels : Nat) (names : List String)
deriving DecidableEq, Repr

namespace Place

def enter (name : String) : Place → Place
  | .rooted names => .rooted (names ++ [name])
  | .near levels names => .near levels (names ++ [name])

def leave : Place → Place
  | .rooted names => .rooted names.dropLast
  | .near levels names => if names.isEmpty then .near (levels + 1) [] else .near levels names.dropLast

/-- The place that a name leads to. -/
def follow (name : String) (place : Place) : Place :=
  if name = "" || name = "." then place
  else if name = ".." then place.leave
  else place.enter name

/-- The place that names lead to one after the other. -/
def followAll (place : Place) (names : List String) : Place :=
  names.foldl (fun reached name => reached.follow name) place

end Place

/-- Whether a place is one of the directories that are always there. -/
def Place.isStanding : Place → Bool
  | .rooted names => names.isEmpty
  | .near _ names => names.isEmpty

/-- The names of a path. -/
def pathNames (path : String) : List String := (path.toList.splitOn '/').map String.ofList

/-- Where a path begins. -/
def origin (path : String) : Place := if path.startsWith "/" then .rooted [] else .near 0 []

/-- The place that a path names, if all on the way to it are directories. -/
def placeOf (path : String) : Place := (origin path).followAll (pathNames path)

/-- The greatest number of bytes in a name. -/
def nameLimit : Nat := 255

/-- The greatest number of bytes in a path. -/
def pathLimit : Nat := 4095

/-! ### Trees -/

/-- Directories and files by place, and what standard input holds. A sink is a file that stays
empty, whatever is written to it. -/
structure FileTree where
  directories : List Place
  files : List (Place × List UInt8)
  sinks : List Place
  input : List UInt8

namespace FileTree

/-- A tree with the usual directories below the root and one sink. -/
def empty : FileTree where
  directories := ["bin", "boot", "dev", "etc", "home", "lib", "media", "mnt", "opt", "proc", "root",
    "run", "sbin", "srv", "sys", "tmp", "usr", "var"].map fun name => .rooted [name]
  files := []
  sinks := [.rooted ["dev", "null"]]
  input := []

def at? (t : FileTree) (place : Place) : Found :=
  if t.sinks.contains place then .file []
  else
    match t.files.lookup place with
    | some bytes => .file bytes
    | none =>
      if place.isStanding || t.directories.contains place then .directory else .nothing .absent

/-- Walks along names; only a directory can be entered or left. -/
def walk (t : FileTree) (place : Place) : List String → Found
  | [] => t.at? place
  | name :: rest =>
    match t.at? place with
    | .file _ => .nothing .notDirectory
    | .nothing fault => .nothing fault
    | .directory =>
      if nameLimit < name.utf8ByteSize then .nothing .nameTooLong
      else t.walk (place.follow name) rest

def find (t : FileTree) (path : String) : Found :=
  if path.isEmpty then .nothing .absent
  else if pathLimit < path.utf8ByteSize then .nothing .nameTooLong
  else t.walk (origin path) (pathNames path)

/-- Why the last name of a path cannot be written to, if it cannot, given the names before
it. A slash or dots at the end of a path ask for a directory. -/
def refusesLast? (t : FileTree) (path last : String) (before : List String) :
    Option FileFault :=
  match t.walk (origin path) before with
  | .file _ => some .notDirectory
  | .nothing fault => some fault
  | .directory =>
    if last = "." || last = ".." || path.endsWith "/" then some .isDirectory
    else
      match t.walk (origin path) (before ++ [last]) with
      | .file _ => none
      | .directory => some .isDirectory
      | .nothing .absent => none
      | .nothing fault => some fault

/-- Why a path cannot be written to, if it cannot. -/
def refuses? (t : FileTree) (path : String) : Option FileFault :=
  if path.isEmpty then some .absent
  else if pathLimit < path.utf8ByteSize then some .nameTooLong
  else
    match (pathNames path).reverse.dropWhile (· = "") with
    | [] => some .isDirectory
    | last :: before => t.refusesLast? path last before.reverse

/-- Writes a file, in place of the one that the path leads to. What is written to a sink is
not kept. -/
def write (t : FileTree) (path : String) (bytes : List UInt8) : FileTree :=
  let place := placeOf path
  if t.sinks.contains place then t
  else { t with files := (place, bytes) :: t.files.filter fun (other, _) => other ≠ place }

/-- The places on the way from the first one along names, both ends included. -/
def onTheWay (place : Place) (names : List String) : List Place :=
  (List.range (names.length + 1)).map fun n => place.followAll (names.take n)

/-- Makes a directory and those on the way to it. -/
def makeDirectory (t : FileTree) (path : String) : FileTree :=
  { t with directories := onTheWay (origin path) (pathNames path) ++ t.directories }

/-- Makes a file and the directories on the way to it. -/
def makeFile (t : FileTree) (path : String) (bytes : List UInt8) : FileTree :=
  { t with directories := onTheWay (origin path) (pathNames path).dropLast ++ t.directories }.write
    path bytes

end FileTree
end FlowGrid.Command
