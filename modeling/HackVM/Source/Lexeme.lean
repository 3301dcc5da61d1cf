/-! # Lexemes of a source line

A line is read from left to right as a sequence of lexemes, each as long as
possible: runs of blanks, runs of line feeds, words, and a comment.  A comment
starts at two slashes and runs to the end of the text, line feeds included.  A
word is a run of any other characters, and stops before two slashes. -/
namespace HackVM

/-- A piece of a source line. -/
inductive Lexeme where
  | word (text : List Char)
  | blank (text : List Char)
  | lineEnd (text : List Char)
  | comment (text : List Char)
deriving DecidableEq

namespace Lexeme

/-- Spaces and tabs are blanks. -/
def isBlank (c : Char) : Bool := c = ' ' || c = '\t'

/-- Blanks and line feeds belong to no word. -/
def isSeparator (c : Char) : Bool := isBlank c || c = '\n'

/-- Whether a comment starts here. -/
def startsComment : List Char → Bool
  | '/' :: '/' :: _ => true
  | _ => false

/-- The longest beginning of a text that can stand in one word, and what follows
it. -/
def spanWord : List Char → List Char × List Char
  | [] => ([], [])
  | c :: cs =>
    if isSeparator c || startsComment (c :: cs) then ([], c :: cs)
    else (c :: (spanWord cs).1, (spanWord cs).2)

theorem length_spanWord_le (cs : List Char) : (spanWord cs).2.length ≤ cs.length := by
  induction cs with
  | nil => simp [spanWord]
  | cons c cs ih =>
    rw [spanWord]
    split
    · exact Nat.le_refl _
    · exact Nat.le_succ_of_le ih

theorem length_dropWhile_le (p : Char → Bool) (cs : List Char) :
    (cs.dropWhile p).length ≤ cs.length :=
  (List.dropWhile_sublist p).length_le

/-- The lexemes of a text, from left to right. -/
def scan : List Char → List Lexeme
  | [] => []
  | c :: cs =>
    if startsComment (c :: cs) then [.comment (c :: cs)]
    else if isBlank c then
      .blank (c :: cs.takeWhile isBlank) :: scan (cs.dropWhile isBlank)
    else if c = '\n' then
      .lineEnd (c :: cs.takeWhile (· = '\n')) :: scan (cs.dropWhile (· = '\n'))
    else .word (c :: (spanWord cs).1) :: scan (spanWord cs).2
termination_by cs => cs.length
decreasing_by
  · exact Nat.lt_succ_of_le (length_dropWhile_le _ cs)
  · exact Nat.lt_succ_of_le (length_dropWhile_le _ cs)
  · exact Nat.lt_succ_of_le (length_spanWord_le cs)

/-- The text of a lexeme that is a word. -/
def word? : Lexeme → Option String
  | .word text => some (String.ofList text)
  | _ => none

end Lexeme
end HackVM
