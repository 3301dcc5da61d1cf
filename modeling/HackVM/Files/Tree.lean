import HackVM.Fault
import HackVM.Files.Path
import HackVM.Text.Utf8

/-! # File trees

A file system as a value: which places hold a directory and which hold a file,
and the working directory.  A place is the list of the names that lead to it from
the root.  Operations follow the rules of the system: a name can be looked up
only in a directory that exists, two dots lead to the parent, and names and paths
have a greatest length in bytes.

There are no permissions and no links.  Everything that exists can be looked at, read
and written, where a system may refuse each of these, looking at a path included; and what
is written to a path stands at the place of that path, where a system would follow a link. -/
namespace HackVM

/-- What stands at a place. -/
inductive Node where
  | directory
  | file (content : List UInt8)
deriving DecidableEq

/-- A place, as the names that lead to it from the root. -/
abbrev Place := List String

/-- A file system.  One thing stands at a place. -/
structure FileTree where
  entries : List (Place × Node)
  workingDirectory : Place
  distinct : (entries.map Prod.fst).Nodup
deriving DecidableEq

/-- Why a text cannot be read from a file. -/
inductive ReadProblem where
  | nul
  | file (error : FileError)
  | encoding (fault : Text.Utf8.Fault)
deriving DecidableEq

namespace FileTree

/-- What stands at a place.  The root is always a directory. -/
def node? (t : FileTree) (place : Place) : Option Node :=
  if place = [] then some .directory else t.entries.lookup place

/-- The tree with nothing but its root. -/
def bare (workingDirectory : Place) : FileTree := ⟨[], workingDirectory, List.nodup_nil⟩

/-- The entries at other places than a given one. -/
def elsewhere (t : FileTree) (place : Place) : List (Place × Node) :=
  t.entries.filter fun entry => entry.1 ≠ place

theorem distinct_cons_elsewhere (t : FileTree) (place : Place) (node : Node) :
    (((place, node) :: t.elsewhere place).map Prod.fst).Nodup := by
  rw [List.map_cons, List.nodup_cons]
  refine ⟨?_, t.distinct.sublist (List.filter_sublist.map _)⟩
  intro h
  obtain ⟨entry, he, hp⟩ := List.mem_map.mp h
  have hne := (List.mem_filter.mp he).2
  exact absurd hp (by simpa using hne)

/-- The tree with something put at a place. -/
def insert (t : FileTree) (place : Place) (node : Node) : FileTree :=
  ⟨(place, node) :: t.elsewhere place, t.workingDirectory, t.distinct_cons_elsewhere place node⟩

/-- The place that a name leads to from a directory. -/
def step (place : Place) (name : String) : Place :=
  if name = "." then place
  else if name = ".." then place.dropLast
  else place ++ [name]

/-- Succeeds when a directory stands at a place. -/
def expectDirectory (t : FileTree) (place : Place) : Except FileProblem Unit :=
  match t.node? place with
  | none => .error .notFound
  | some (.file _) => .error .notDirectory
  | some .directory => .ok ()

/-- The most bytes that a name may have. -/
def nameLimit : Nat := 255

/-- The most bytes that the text of a path may have. -/
def pathLimit : Nat := 4095

/-- Succeeds when a text has no more bytes than a limit. -/
def expectLength (limit : Nat) (text : String) : Except FileProblem Unit :=
  if text.utf8ByteSize ≤ limit then .ok () else .error .nameTooLong

/-- The place that names lead to, where each is looked up in a directory that
exists.  Nothing need stand at the place itself. -/
def walk (t : FileTree) (place : Place) : List String → Except FileProblem Place
  | [] => .ok place
  | name :: rest => do
    t.expectDirectory place
    expectLength nameLimit name
    walk t (step place name) rest

/-- Where a path starts. -/
def origin (t : FileTree) (p : Path) : Place :=
  if p.root = .relative then t.workingDirectory else []

/-- What a path names. -/
def find (t : FileTree) (p : Path) : Except FileProblem Node := do
  expectLength pathLimit p.text
  let place ← t.walk (t.origin p) p.parts
  match t.node? place with
  | none => .error .notFound
  | some node => .ok node

/-- What a path names, if it names anything.  Only a path that is too long is an
error. -/
def status (t : FileTree) (p : Path) : Except FileError (Option Node) :=
  if p.hasNul then .ok none
  else
    match t.find p with
    | .ok node => .ok (some node)
    | .error .nameTooLong => .error ⟨.nameTooLong, p.text⟩
    | .error _ => .ok none

/-- Whether a path names a directory. -/
def isDirectory (t : FileTree) (p : Path) : Bool :=
  !p.hasNul &&
    match t.find p with
    | .ok .directory => true
    | _ => false

/-- The place of a path when its double dots are taken out, whether or not
anything stands there. -/
def resolve (t : FileTree) (p : Path) : Place := p.parts.foldl step (t.origin p)

/-- The places that a path leads through, from its start on. -/
def trail (t : FileTree) (p : Path) : List Place :=
  (List.range (p.parts.length + 1)).map fun n => t.resolve ⟨p.root, p.parts.take n⟩

/-- What stands in a tree and did not stand there, or was something else, in an
earlier one. -/
def changesSince (after before : FileTree) : List (Place × Node) :=
  after.entries.filter fun (place, node) => before.node? place ≠ some node

/-- The text of a place. -/
def placeText (place : Place) : String := "/" ++ Text.join "/" place

/-- The name of an entry that lies directly in a place. -/
def nameIn (place : Place) (entry : Place × Node) : Option String :=
  match entry.1.getLast? with
  | none => none
  | some name => if entry.1.dropLast = place then some name else none

/-- The names of the entries of a directory, in no particular order.  There are
none if the path names no directory. -/
def list (t : FileTree) (p : Path) : List String :=
  if t.isDirectory p then
    match t.walk (t.origin p) p.parts with
    | .ok place => t.entries.filterMap (nameIn place)
    | .error _ => []
  else []

/-- The bytes of a file. -/
def readBytes (t : FileTree) (p : Path) : Except ReadProblem (List UInt8) :=
  if p.hasNul then .error .nul
  else
    match t.find p with
    | .error problem => .error (.file ⟨problem, p.text⟩)
    | .ok .directory => .error (.file ⟨.isDirectory, p.text⟩)
    | .ok (.file content) => .ok content

/-- The text of a file, with its line ends unified. -/
def readText (t : FileTree) (p : Path) : Except ReadProblem String := do
  let bytes ← t.readBytes p
  match Text.Utf8.decode bytes with
  | .error fault => .error (.encoding fault)
  | .ok cs => .ok (String.ofList (Text.unifyLineEnds cs))

/-- Makes a directory in one that exists. -/
def makeDirectory (t : FileTree) (p : Path) : Except FileProblem FileTree :=
  match p.parts.getLast? with
  | none => .error .alreadyExists
  | some name => do
    expectLength pathLimit p.text
    let place ← t.walk (t.origin p) p.parts.dropLast
    t.expectDirectory place
    expectLength nameLimit name
    if name = ".." || (t.node? (step place name)).isSome then .error .alreadyExists
    else .ok (t.insert (step place name) .directory)

/-- How an attempt to make a directory ends: a directory that is already there
will do. -/
def settle (t : FileTree) (p : Path) : Except FileProblem FileTree → FileTree × Except FileError Unit
  | .ok t' => (t', .ok ())
  | .error .notFound => (t, .error ⟨.notFound, p.text⟩)
  | .error problem => if t.isDirectory p then (t, .ok ()) else (t, .error ⟨problem, p.text⟩)

/-- Makes a directory and, if they are missing, up to `depth` of those that lead
to it.  Directories that have been made stay when a later one fails. -/
def makeDirectoriesTo (t : FileTree) (p : Path) : Nat → FileTree × Except FileError Unit
  | 0 => t.settle p (t.makeDirectory p)
  | depth + 1 =>
    match t.makeDirectory p with
    | .error .notFound =>
      match makeDirectoriesTo t p.parent depth with
      | (t', .ok ()) => t'.settle p (t'.makeDirectory p)
      | (t', .error e) => (t', .error e)
    | attempt => t.settle p attempt

/-- Makes a directory and those that lead to it. -/
def makeDirectories (t : FileTree) (p : Path) : FileTree × Except FileError Unit :=
  t.makeDirectoriesTo p p.parts.length

/-- The place of a file that is opened for writing, given the names that lead to
it and whether a slash ends them. -/
def placeToWrite (t : FileTree) (origin : Place) (names : List String) (slash : Bool) :
    Except FileProblem Place :=
  match names.getLast? with
  | none => .error .isDirectory
  | some name => do
    let place ← t.walk origin names.dropLast
    t.expectDirectory place
    if slash || name = "." || name = ".." then .error .isDirectory
    else
      expectLength nameLimit name
      match t.node? (step place name) with
      | some .directory => .error .isDirectory
      | _ => .ok (step place name)

/-- Writes a text to the file that a path text names, which is made if it is
missing.  The path is taken as it is written: a trailing slash matters. -/
def write (t : FileTree) (path content : String) : Except Fault FileTree :=
  let cs := path.toList
  let names := ((Text.pieces '/' cs).map String.ofList).filter (· ≠ "")
  if cs.contains (Char.ofNat 0) then .error .nulInPath
  else if cs = [] then .error (.file ⟨.notFound, path⟩)
  else
    let origin := if Path.rootOf cs = .relative then t.workingDirectory else []
    let attempt := do
      expectLength pathLimit path
      t.placeToWrite origin names (cs.getLast? = some '/')
    match attempt with
    | .error problem => .error (.file ⟨problem, path⟩)
    | .ok place => .ok (t.insert place (.file (Text.Utf8.encode content)))

end FileTree
end HackVM
