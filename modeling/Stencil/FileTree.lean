import Stencil.Assoc
import Stencil.Path

/-!
# File trees

The files and directories below a working directory, as a value. A place is the list of names that
lead to it; the top is a directory. Operations take the text of a path, follow it name by name, and
say what stood in the way.
-/
namespace Stencil

/-- Why a path cannot be used. -/
inductive FileProblem where
  | missing
  | isDirectory
  | notDirectory
  | tooLong
  | invalid
  deriving DecidableEq, Repr

def FileProblem.text : FileProblem → Bytes
  | .missing => "no such file or directory"
  | .isDirectory => "is a directory"
  | .notDirectory => "not a directory"
  | .tooLong => "file name too long"
  | .invalid => "invalid argument"

/-- What was tried with a path, and why it did not work. -/
structure FileError where
  action : Bytes
  path : Bytes
  problem : FileProblem
  deriving DecidableEq, Repr

def FileError.message (e : FileError) : Bytes :=
  e.action ++ " " ++ e.path ++ ": " ++ e.problem.text

/-- What stands at a place. -/
inductive FileNode where
  | file (content : Bytes)
  | directory
  deriving DecidableEq, Repr

/-- The names that lead to a file or directory. -/
abbrev FilePlace := List Bytes

/-- The files and directories below the top. -/
structure FileTree where
  nodes : Assoc FilePlace FileNode := []

namespace FileTree

/-- What stands at a place, if anything does. -/
def node? (t : FileTree) (place : FilePlace) : Option FileNode :=
  if place = [] then some .directory else Assoc.get? place t.nodes

/-- The most bytes of a name. -/
def nameLimit : Nat := 255

/-- How many bytes a path must not reach. -/
def pathLimit : Nat := 4096

/-- Where a rooted path starts. -/
def rootPlace : FilePlace := [[Path.slash]]

/-- Goes from a directory to one of its names. What is above the top is no part of the tree. -/
def enter (t : FileTree) (place : FilePlace) (name : Bytes) : Except FileProblem FilePlace :=
  match t.node? place with
  | none => .error .missing
  | some (.file _) => .error .notDirectory
  | some .directory =>
    if name = [] ∨ name = Path.here then .ok place
    else if name = Path.above then
      .ok (if place = [] then [Path.above] else if place = rootPlace then rootPlace else place.dropLast)
    else if nameLimit < name.length then .error .tooLong
    else .ok (place ++ [name])

/-- The place of a path; the last name need not exist. -/
def locate (t : FileTree) (path : Bytes) : Except FileProblem FilePlace :=
  if path = [] then .error .missing
  else if (0 : UInt8) ∈ path then .error .invalid
  else if pathLimit ≤ path.length then .error .tooLong
  else (Path.elements path).foldlM t.enter (if Path.isRooted path then rootPlace else [])

/-- The content of a file. -/
def read (t : FileTree) (path : Bytes) : Except FileError Bytes :=
  match t.locate path with
  | .error problem => .error ⟨"open", path, problem⟩
  | .ok place =>
    match t.node? place with
    | none => .error ⟨"open", path, .missing⟩
    | some .directory => .error ⟨"read", path, .isDirectory⟩
    | some (.file content) => .ok content

/-- Puts a file in a directory that exists, over a file that is there. -/
def write (t : FileTree) (path content : Bytes) : Except FileError FileTree :=
  if 1 < path.length ∧ Bytes.endsWith "/" path then .error ⟨"open", path, .isDirectory⟩
  else match t.locate path with
    | .error problem => .error ⟨"open", path, problem⟩
    | .ok place =>
      match t.node? place with
      | some .directory => .error ⟨"open", path, .isDirectory⟩
      | _ => .ok { nodes := Assoc.insert place (.file content) t.nodes }

/-- Makes directories along the names from a place that is a directory, with the text of the path
so far. -/
def makeAlong (t : FileTree) (place : FilePlace) (text : Bytes) : List Bytes → Except FileError FileTree
  | [] => .ok t
  | name :: names =>
    match t.enter place name with
    | .error problem => .error ⟨"mkdir", text ++ name, problem⟩
    | .ok next =>
      let textHere := text ++ name
      if pathLimit ≤ textHere.length then .error ⟨"mkdir", textHere, .tooLong⟩
      else match t.node? next with
      | some .directory => makeAlong t next (textHere ++ [Path.slash]) names
      | some (.file _) => .error ⟨"mkdir", textHere, .notDirectory⟩
      | none =>
        makeAlong { nodes := Assoc.insert next .directory t.nodes } next (textHere ++ [Path.slash])
          names

/-- Makes a directory and those it stands in. -/
def makeDirectory (t : FileTree) (path : Bytes) : Except FileError FileTree :=
  if Path.isRooted path then
    makeAlong { nodes := Assoc.insert rootPlace .directory t.nodes } rootPlace [Path.slash]
      (Path.elements path).tail
  else makeAlong t [] [] (Path.elements path)

/-- Puts a file, with the directories it stands in. A path that ends in a slash is that of a
directory. -/
def add (t : FileTree) (path content : Bytes) : FileTree :=
  if Bytes.endsWith "/" path then (t.makeDirectory (Path.clean path)).toOption.getD t
  else
    let t := (t.makeDirectory (Path.parent path)).toOption.getD t
    (t.write path content).toOption.getD t

/-- The places at or below a place. -/
def isAtOrBelow (place other : FilePlace) : Bool := place.isPrefixOf other

/-- The names that stand in a directory. -/
def children (t : FileTree) (place : FilePlace) : List Bytes :=
  Bytes.sort (t.nodes.filterMap fun e =>
    if e.1 ≠ [] ∧ e.1.dropLast = place then e.1.getLast? else none)

/-- Takes a file away, or a directory in which nothing stands. Anything else stays. -/
def remove (t : FileTree) (path : Bytes) : FileTree :=
  match t.locate path with
  | .error _ => t
  | .ok place =>
    match t.node? place with
    | some (.file _) => { nodes := Assoc.erase place t.nodes }
    | some .directory =>
      if t.children place = [] then { nodes := Assoc.erase place t.nodes } else t
    | none => t

/-- The directory that a path leads through last, and the name in it; slashes at the end do not
count. -/
def splitLast (path : Bytes) : Bytes × Bytes :=
  let rec go : Bytes → Bytes
    | [] => []
    | c :: cs => if c = Path.slash ∧ cs ≠ [] then go cs else c :: cs
  let body := (go path.reverse).reverse
  match (Path.elements body).reverse with
  | [] => (Path.here, [])
  | [name] => (Path.here, name)
  | name :: above =>
    let up := Bytes.join [Path.slash] above.reverse
    (if up = [] then [Path.slash] else up, name)

/-- Without what stands at a place and below it. -/
def prune (t : FileTree) (place : FilePlace) : FileTree :=
  { nodes := t.nodes.filter fun e => !isAtOrBelow place e.1 }

/-- Takes away whatever stands at a path and below it. When the path as a whole cannot be followed,
the name in its directory counts. -/
def removeAll (t : FileTree) (path : Bytes) : Except FileError FileTree :=
  if path = [] then .ok t
  else if (Path.elements path).getLast? = some Path.here then
    .error ⟨"RemoveAll", path, .invalid⟩
  else match t.locate path with
    | .ok place => .ok (t.prune place)
    | .error .missing => .ok t
    | .error _ =>
      let (up, name) := splitLast path
      match t.locate up with
      | .error .missing => .ok t
      | .error problem => .error ⟨"open", up, problem⟩
      | .ok place =>
        match t.enter place name with
        | .ok place => .ok (t.prune place)
        | .error .missing => .ok t
        | .error problem => .error ⟨"unlinkat", up ++ [Path.slash] ++ name, problem⟩

/-- The files at or below a place, each by the names that lead to it from there. -/
def filesBelow (t : FileTree) (place : FilePlace) : List (FilePlace × Bytes) :=
  t.nodes.filterMap fun e =>
    match e.2 with
    | .file content =>
      if isAtOrBelow place e.1 then some (e.1.drop place.length, content) else none
    | .directory => none

end FileTree

end Stencil
