import HackVM.Asm.Line

/-! # Listings

The lines that a run of emissions has produced so far.  Lines are only ever
added at the end. -/
namespace HackVM.Asm

/-- A sequence of written lines. -/
structure Listing where
  lines : List String
deriving DecidableEq

namespace Listing

/-- The listing without lines. -/
def empty : Listing := ⟨[]⟩

/-- The number of lines. -/
def length (l : Listing) : Nat := l.lines.length

/-- The listing followed by written lines. -/
def add (l : Listing) (lines : List String) : Listing := ⟨l.lines ++ lines⟩

/-- The listing followed by code. -/
def append (l : Listing) (code : List Line) : Listing := l.add (code.map Line.text)

/-- The text of a listing: each line is ended by a line feed. -/
def text (l : Listing) : String := String.join (l.lines.map (· ++ "\n"))

@[simp] theorem lines_append (l : Listing) (code : List Line) :
    (l.append code).lines = l.lines ++ code.map Line.text := rfl

@[simp] theorem length_append (l : Listing) (code : List Line) :
    (l.append code).length = l.length + code.length := by
  simp [append, add, length]

end Listing
end HackVM.Asm
