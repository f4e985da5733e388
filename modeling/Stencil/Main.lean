import Stencil.Cli.Command

/-!
# The program

Reads the files below the working directory, runs the command line on them, writes what has changed
and prints. All decisions are those of `Cli.run`.
-/
namespace Stencil.Console

/-- The bytes for a file or a stream. -/
def packed (s : Bytes) : ByteArray := ⟨s.toArray⟩

/-- The path of a place from the working directory. -/
def pathText (place : FilePlace) : String := (Bytes.join [Path.slash] place).toString

/-- Adds what stands in a directory to a tree. -/
partial def readEntry (place : FilePlace) (nodes : List (FilePlace × FileNode))
    (e : IO.FS.DirEntry) : IO (List (FilePlace × FileNode)) := do
  let next := place ++ [Bytes.ofString e.fileName]
  if ← e.path.isDir then
    (← e.path.readDir).foldlM (readEntry next) ((next, .directory) :: nodes)
  else
    return (next, .file (← IO.FS.readBinFile e.path).data.toList) :: nodes

/-- The files below the working directory. -/
def readTree : IO FileTree := do
  let entries ← (← IO.currentDir).readDir
  return { nodes := (← entries.foldlM (readEntry []) []).reverse }

/-- Takes away what is no longer there, the innermost first. -/
def removeOld (before after : FileTree) : IO Unit := do
  let gone := before.nodes.filter fun e =>
    match e.2, after.node? e.1 with
    | .file _, some (.file _) => false
    | .directory, some .directory => false
    | _, _ => true
  for e in gone.mergeSort fun a b => b.1.length ≤ a.1.length do
    match e.2 with
    | .file _ => IO.FS.removeFile (pathText e.1)
    | .directory => IO.FS.removeDir (pathText e.1)

/-- Writes what is new or different. -/
def writeNew (before after : FileTree) : IO Unit := do
  for e in after.nodes do
    match e.2 with
    | .directory => IO.FS.createDirAll (pathText e.1)
    | .file content =>
      if before.node? e.1 ≠ some (.file content) then
        IO.FS.createDirAll (pathText (e.1.dropLast ++ [Path.here]))
        IO.FS.writeBinFile (pathText e.1) (packed content)

/-- The time of day, which is that of a file made just now. -/
def now : IO Instant := do
  let (_, path) ← IO.FS.createTempFile
  let stamp := (← path.metadata).modified
  IO.FS.removeFile path
  -- the year 1970 starts 719162 days after the year 1
  return { nanos := (719162 * 86400 + stamp.sec) * Instant.nanosPerSecond + stamp.nsec.toNat }

end Stencil.Console

open Stencil in
/-- Runs the program on a command line. -/
def main (args : List String) : IO UInt32 := do
  let before ← Console.readTree
  let o := Cli.run (args.map Bytes.ofString) (← Console.now) before
  Console.removeOld before o.files
  Console.writeNew before o.files
  (← IO.getStdout).write (Console.packed o.stdout)
  (← IO.getStderr).write (Console.packed o.stderr)
  return o.exit.toUInt32
