import Stencil.Compile.State

/-!
# Where templates come from

Templates by path: from a table in memory, or from the files below a directory. A path into a
directory is cleaned as if it started at the root, so it cannot lead out of it; a path without an
extension stands for that of each extension in turn as well.
-/
namespace Stencil.Compile.Resolver

/-- Templates held in memory. -/
def ofTable (files : Assoc Bytes Bytes) : Resolver := fun path =>
  match Assoc.get? path files with
  | some src => .ok src
  | none => .error (.notFound path)

/-- The files that a path may mean, the likeliest first. -/
def candidates (extensions : List Bytes) (path : Bytes) : List Bytes :=
  let name := Path.belowRoot path
  if Path.extension name = [] then name :: extensions.map (name ++ ·) else [name]

/-- A path that names a file below a directory: no element is empty or leads elsewhere. -/
def isInside (path : Bytes) : Bool :=
  Text.Utf8.isValid path && path.all (· != 0)
    && (Path.elements path).all fun e => e != [] && e != Path.here && e != Path.above

/-- Reads a file below a directory. -/
def readInside (files : FileTree) (root path : Bytes) : Except FileError Bytes :=
  if isInside path then
    (files.read (root ++ [Path.slash] ++ path)).mapError fun e => { e with path }
  else .error ⟨"readfile", path, .invalid⟩

/-- The first of some files that exists in a file system, which `read` gives the files of; `name` is
what was asked for. -/
def firstOf (read : Bytes → Except FileError Bytes) (name : Bytes) : List Bytes → Except Failure Bytes
  | [] => .error (.notFound name)
  | path :: paths =>
    match read path with
    | .ok src => .ok src
    | .error e =>
      if e.problem = .missing then firstOf read name paths
      else .error (.within ("failed to read template " ++ path) (.file e))

/-- Templates in the files of a file system. -/
def ofFiles (read : Bytes → Except FileError Bytes) (extensions : List Bytes) : Resolver := fun path =>
  firstOf read (Path.belowRoot path) (candidates extensions path)

/-- Templates in the files below a directory. -/
def ofDirectory (files : FileTree) (root : Bytes) (extensions : List Bytes) : Resolver :=
  ofFiles (readInside files root) extensions

/-- Looks for a template, unless the activity is cancelled. -/
def find (resolver : Resolver) (canceled : Bool) (path : Bytes) : Except Failure Bytes :=
  if canceled then .error .canceled else resolver path

end Stencil.Compile.Resolver
