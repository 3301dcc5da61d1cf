import HackVM.Text.Lines

/-! # Paths

A path names a place in a file tree, from the root or from the working directory.
Empty components and single dots are dropped when a path is read; double dots are
kept, since what they mean depends on the tree. -/
namespace HackVM

/-- What a path starts from. -/
inductive PathRoot where
  /-- The working directory. -/
  | relative
  /-- The root. -/
  | single
  /-- The root, written with exactly two slashes. -/
  | double
deriving DecidableEq

/-- The text of a path's start. -/
def PathRoot.text : PathRoot → String
  | .relative => ""
  | .single => "/"
  | .double => "//"

/-- A path: its start and its components. -/
structure Path where
  root : PathRoot
  parts : List String
deriving DecidableEq

namespace Path

/-- The start of a path text. -/
def rootOf (cs : List Char) : PathRoot :=
  match (cs.takeWhile (· = '/')).length with
  | 0 => .relative
  | 2 => .double
  | _ => .single

/-- The path that a text denotes. -/
def ofText (s : String) : Path :=
  ⟨rootOf s.toList,
    ((Text.pieces '/' s.toList).map String.ofList).filter fun part => part ≠ "" && part ≠ "."⟩

/-- The text of a path.  The path without components that starts at the working
directory is a dot. -/
def text (p : Path) : String :=
  let s := p.root.text ++ Text.join "/" p.parts
  if s = "" then "." else s

/-- The last component, or nothing. -/
def name (p : Path) : String := p.parts.getLast?.getD ""

/-- A name cut before its last dot.  A dot at either end does not part a name. -/
def splitName (name : String) : String × String :=
  let suffix := '.' :: (name.toList.reverse.takeWhile (· ≠ '.')).reverse
  let stem := name.toList.take (name.length - suffix.length)
  if suffix.length < 2 || stem = [] || name.length < suffix.length then (name, "")
  else (String.ofList stem, String.ofList suffix)

/-- The last component without its suffix. -/
def stem (p : Path) : String := (splitName p.name).1

/-- The path of an entry of the directory that a path names. -/
def child (p : Path) (name : String) : Path := { p with parts := p.parts ++ [name] }

/-- The path without its last component. -/
def parent (p : Path) : Path := { p with parts := p.parts.dropLast }

/-- The path with the suffix of its last component replaced. -/
def withSuffix (p : Path) (suffix : String) : Path := p.parent.child (p.stem ++ suffix)

/-- Whether a path holds the character with code zero, which no file name can. -/
def hasNul (p : Path) : Bool := p.parts.any fun part => part.toList.contains (Char.ofNat 0)

end Path
end HackVM
