import HackVM.CommandLine.Run

/-! # The command

Looks at the part of the file system that a command line speaks of, runs the
command on it, and makes the changes that the run asks for. -/
namespace HackVM.CommandLine

/-- What stands at a place of the file system. -/
def observe (place : Place) : IO (Option Node) := do
  if place.any fun name => name.toList.contains (Char.ofNat 0) then return none
  let here ← IO.currentDir
  let path := here / FileTree.placeText place
  if ← path.isDir then return some .directory
  else if ← path.pathExists then
    let content ← IO.FS.readBinFile path
    return some (.file content.toList)
  else return none

/-- The tree with what stands at some places of the file system. -/
def observeAll (t : FileTree) : List Place → IO FileTree
  | [] => return t
  | place :: rest => do
    match ← observe place with
    | none => observeAll t rest
    | some node => observeAll (t.insert place node) rest

/-- The places of the entries of a directory of the file system. -/
def entryPlaces (place : Place) : IO (List Place) := do
  let here ← IO.currentDir
  let entries ← (here / FileTree.placeText place).readDir
  return entries.toList.map fun entry => place ++ [entry.fileName]

/-- The part of the file system that a request speaks of: the input, its entries
if it is a directory, and the way to the output. -/
def snapshot (r : Request) : IO FileTree := do
  let here ← IO.currentDir
  let home := Path.ofText here.toString
  let bare := FileTree.bare home.parts
  let input := Path.ofText r.input
  let t ← observeAll bare (bare.trail home ++ bare.trail input)
  let entries ← if t.isDirectory input then entryPlaces (t.resolve input) else pure []
  let t ← observeAll t entries
  observeAll t (t.trail (outputPath t r))

/-- Makes the changes of a run in the file system. -/
def apply : List (Place × Node) → IO Unit
  | [] => return ()
  | (place, .directory) :: rest => do
    IO.FS.createDir (FileTree.placeText place)
    apply rest
  | (place, .file content) :: rest => do
    IO.FS.writeBinFile (FileTree.placeText place) ⟨content.toArray⟩
    apply rest

/-- Runs the command on the file system, and answers its exit status. -/
def execute (arguments : List String) : IO UInt32 := do
  let t ← match Request.ofArguments arguments with
    | .ok r => snapshot r
    | .error _ => pure (.bare [])
  let report := run t arguments
  apply ((report.tree.changesSince t).mergeSort fun a b => a.1.length ≤ b.1.length)
  IO.print report.output
  IO.eprint report.errors
  match report.ending with
  | .finished status => return status.toUInt32
  | .stopped status => return status.toUInt32
  | .failed fault => do
    IO.eprintln fault.message
    return 1

end HackVM.CommandLine

/-- The entry of the command. -/
def main (arguments : List String) : IO UInt32 := HackVM.CommandLine.execute arguments
