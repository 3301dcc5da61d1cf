import HackVM.Asm.Listing
import HackVM.CommandLine.Request
import HackVM.Emitter.Files

/-! # Running the command

A run reads the input, which is a source file or a directory of them, and writes
one assembly file.  Nothing is written unless everything was accepted.  The run
is a function of the file tree and the arguments, and its report holds the tree
afterwards. -/
namespace HackVM.CommandLine

/-- How a run ends. -/
inductive Ending where
  /-- The command has done its work, or has said why not. -/
  | finished (status : Nat)
  /-- The arguments were refused, or only help was asked for. -/
  | stopped (status : Nat)
  /-- A fault that the command does not report itself. -/
  | failed (fault : Fault)
deriving DecidableEq

/-- What a run leaves behind. -/
structure Report where
  ending : Ending
  /-- What it wrote to its output. -/
  output : String
  /-- What it wrote to its error output. -/
  errors : String
  /-- The file tree afterwards. -/
  tree : FileTree
deriving DecidableEq

/-- The name of the command. -/
def commandName : String := "vmtranslator"

/-- The line that shows how the command is used. -/
def usageLine : String :=
  "usage: " ++ commandName ++ " [-h] [-o ASM] [--bootstrap | --no-bootstrap] input\n"

/-- The help text. -/
def helpText : String :=
  usageLine
  ++ "\nVM code -> Hack assembly\n"
  ++ "\npositional arguments:\n"
  ++ "  input              Input .vm file or directory of .vm files\n"
  ++ "\noptions:\n"
  ++ "  -h, --help         show this help message and exit\n"
  ++ "  -o ASM, --asm ASM  Path to output .asm file (default: next to input)\n"
  ++ "  --bootstrap        Emit SP=256; call Sys.init 0 first (default for\n"
  ++ "                     directories)\n"
  ++ "  --no-bootstrap     Never emit the bootstrap code\n"

/-- The suffix of assembly files. -/
def assemblySuffix : String := ".asm"

/-- The output path that belongs to an input: inside a directory, under the
directory's own name, and next to a file otherwise. -/
def outputBeside (t : FileTree) (input : Path) : Path :=
  if t.isDirectory input then
    input.child ((t.resolve input).getLast?.getD "" ++ assemblySuffix)
  else input.withSuffix assemblySuffix

/-- The output path of an input when nothing is said, if the input can be looked
at. -/
def defaultOutput (t : FileTree) (input : Path) : Except Fault Path :=
  match t.status input with
  | .error e => .error (.file e)
  | .ok _ => .ok (outputBeside t input)

/-- Where the assembly of a request goes.  An empty output path counts as none. -/
def outputPath (t : FileTree) (r : Request) : Path :=
  match r.output with
  | none => outputBeside t (Path.ofText r.input)
  | some s => if s = "" then outputBeside t (Path.ofText r.input) else Path.ofText s

/-- Whether the start of the program is emitted: as the request says, and for
directories if it says nothing. -/
def wantsBootstrap (t : FileTree) (r : Request) : Bool :=
  r.bootstrap.getD (t.isDirectory (Path.ofText r.input))

/-- The emission of a request, which answers the names of the modules. -/
def emission (t : FileTree) (r : Request) : Emission (List String) := do
  let input := Path.ofText r.input
  if wantsBootstrap t r then Emission.bootstrap
  if t.isDirectory input then Emission.directory t input
  else do
    let name ← Emission.file t input
    pure [name]

/-- An error message of the command. -/
def errorLine (message : String) : String :=
  "[" ++ commandName ++ "] ERROR: " ++ message ++ "\n"

/-- What the command says when it has succeeded. -/
def successText (t : FileTree) (modules : List String) (output : Path) (lines : Nat) : String :=
  "[" ++ commandName ++ "] modules: " ++ Text.join ", " modules ++ "\n"
    ++ "OK. asm_written=" ++ FileTree.placeText (t.resolve output) ++ " ("
    ++ Text.decimal lines ++ " lines)\n"

/-- Writes a listing to a path, with the directories that lead to it. -/
def save (t : FileTree) (output : Path) (listing : Asm.Listing) :
    FileTree × Except Fault Unit :=
  if output.parent.hasNul then (t, .error .nulInPath)
  else
    match t.makeDirectories output.parent with
    | (t', .error e) => (t', .error (.file e))
    | (t', .ok ()) =>
      match t'.write output.text listing.text with
      | .error fault => (t', .error fault)
      | .ok t'' => (t'', .ok ())

/-- Carries out a request. -/
def Request.carryOut (t : FileTree) (r : Request) : Report :=
  let input := Path.ofText r.input
  match t.status input with
  | .error e => ⟨.failed (.file e), "", "", t⟩
  | .ok none => ⟨.finished 2, "", errorLine ("input not found: " ++ input.text), t⟩
  | .ok (some _) =>
    let outcome := emission t r .start
    match outcome.result with
    | .error (.refused d) => ⟨.finished 3, "", errorLine d.render, t⟩
    | .error fault => ⟨.failed fault, "", "", t⟩
    | .ok [] => ⟨.finished 2, "", errorLine ("no .vm files in " ++ input.text), t⟩
    | .ok modules =>
      let listing := Asm.Listing.empty.append outcome.code
      let output := outputPath t r
      match save t output listing with
      | (t', .error fault) => ⟨.failed fault, "", "", t'⟩
      | (t', .ok ()) =>
        ⟨.finished 0, successText t modules output listing.length, "", t'⟩

/-- Runs the command. -/
def run (t : FileTree) (arguments : List String) : Report :=
  match Request.ofArguments arguments with
  | .error .help => ⟨.stopped 0, helpText, "", t⟩
  | .error (.usage message) =>
    ⟨.stopped 2, "", usageLine ++ commandName ++ ": error: " ++ message ++ "\n", t⟩
  | .ok request => request.carryOut t

end HackVM.CommandLine
