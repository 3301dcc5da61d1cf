import HackVM.Emitter.Command
import HackVM.Files.Tree

/-! # Emitting modules from files

The name of a module is that of its file without the suffix.  The modules of a
directory are its entries with the source suffix, taken in increasing order of
their names, whatever the order in which the tree lists them. -/
namespace HackVM

/-- The suffix of source files. -/
def sourceSuffix : String := ".vm"

/-- Whether an entry of a directory is a source file, by its name. -/
def isSourceName (name : String) : Bool := sourceSuffix.toList.isSuffixOf name.toList

/-- The fault of a file that cannot be read. -/
def ReadProblem.fault (p : Path) : ReadProblem → Fault
  | .nul => .nulInPath
  | .file e => .refused ⟨.unreadable p.text e.message, none, some p.stem⟩
  | .encoding f => .refused ⟨.unreadable p.text f.message, none, some p.stem⟩

/-- The paths of the source files of a directory, in order. -/
def FileTree.sources (t : FileTree) (p : Path) : List Path :=
  (((t.list p).filter isSourceName).mergeSort fun a b => a ≤ b).map p.child

namespace Emission

/-- Emits the module of a file, and answers its name. -/
def file (t : FileTree) (p : Path) : Emission String :=
  match t.readText p with
  | .error problem => fail (problem.fault p)
  | .ok text => do
    module p.stem (Text.lines text)
    pure p.stem

/-- Emits the modules of several files, and answers their names. -/
def files (t : FileTree) : List Path → Emission (List String)
  | [] => pure []
  | p :: rest => do
    let name ← file t p
    let names ← files t rest
    pure (name :: names)

/-- Emits the modules of a directory, and answers their names. -/
def directory (t : FileTree) (p : Path) : Emission (List String) :=
  match t.status p with
  | .error e => fail (.file e)
  | .ok _ => files t (t.sources p)

end Emission
end HackVM
