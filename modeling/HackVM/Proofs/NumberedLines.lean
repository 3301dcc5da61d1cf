import HackVM.Proofs.Formatting
import HackVM.Proofs.PrintedInstructions

/-! # The numbers of instructions

A text is cut at its line feeds, and cutting is compatible with putting texts one below the
other: the lines of both are the lines of the first, followed by those of the second
(`Text.lines_append_feed`).  Which line has which number can be said without cutting: it is
one more than the line feeds that stand before the line (`Text.LineAt`).

So reading a text is compositional (`text_reading_is_compositional`): the lower of two
texts gives the instructions that it gives alone, with their numbers moved by the height of
the upper one.  The numbers increase strictly, and the instruction with a number is there
exactly when the line with that number has words. -/
namespace HackVM

namespace Text

/-! ## Cutting a text -/

theorem pieces_eq_splitOnP (separator : Char) (cs : List Char) :
    pieces separator cs = cs.splitOnP (· = separator) := by
  induction cs with
  | nil => rfl
  | cons c cs ih =>
    rw [pieces, List.splitOnP_cons_eq_if_modifyHead, ih]
    by_cases hc : c = separator
    · rw [if_pos hc, if_pos (decide_eq_true hc)]
    · obtain ⟨piece, rest, hsplit⟩ :=
        List.exists_cons_of_ne_nil (List.splitOnP_ne_nil (· = separator) cs)
      rw [if_neg hc, if_neg (by simpa using hc), hsplit]
      rfl

/-- **A text is cut at each of its separators.** -/
theorem pieces_append_cons (separator : Char) (left right : List Char) :
    pieces separator (left ++ separator :: right) =
      pieces separator left ++ pieces separator right := by
  simp only [pieces_eq_splitOnP]
  exact List.splitOnP_append_cons left right (decide_eq_true rfl)

/-- Any other character belongs to the piece that starts behind it. -/
theorem pieces_cons_of_ne {separator c : Char} (h : c ≠ separator) (cs : List Char) :
    pieces separator (c :: cs) = (pieces separator cs).modifyHead (c :: ·) := by
  simp only [pieces_eq_splitOnP]
  rw [List.splitOnP_cons_eq_if_modifyHead, if_neg (by simpa using h)]

theorem length_pieces (separator : Char) (cs : List Char) :
    (pieces separator cs).length = cs.count separator + 1 := by
  induction cs with
  | nil => rfl
  | cons c cs ih =>
    by_cases hc : c = separator
    · rw [pieces, if_pos hc, List.length_cons, ih, hc, List.count_cons_self]
    · rw [pieces_cons_of_ne hc, List.length_modifyHead, ih, List.count_cons_of_ne hc]

/-- **The lines of two texts, one below the other.** -/
theorem lines_append_feed (upper lower : String) :
    lines (upper ++ "\n" ++ lower) = lines upper ++ lines lower := by
  have htext : (upper ++ "\n" ++ lower).toList = upper.toList ++ '\n' :: lower.toList := by simp
  rw [lines, htext, pieces_append_cons, List.map_append]
  rfl

theorem length_lines (text : String) : (lines text).length = text.toList.count '\n' + 1 := by
  rw [lines, List.length_map, length_pieces]

/-! ## The line with a number -/

/-- A line of a text and its number, counted from one.  The line reaches from the start of the
text or a line feed to the next line feed or the end of the text, and its number is one more
than the line feeds before it. -/
def LineAt (text : String) (number : Int) (line : String) : Prop :=
  ∃ before after, text.toList = before ++ line.toList ++ after ∧ '\n' ∉ line.toList ∧
    (before = [] ∨ ['\n'] <:+ before) ∧ (after = [] ∨ ['\n'] <+: after) ∧
    number = before.count '\n' + 1

theorem getElem?_pieces_of_start {line after : List Char} (hline : '\n' ∉ line)
    (hafter : after = [] ∨ ['\n'] <+: after) : (pieces '\n' (line ++ after))[0]? = some line := by
  rcases hafter with rfl | ⟨rest, rfl⟩
  · rw [List.append_nil, pieces_of_notMem hline]
    rfl
  · rw [List.singleton_append, pieces_append hline]
    rfl

/-- The pieces of a text are found in it, below as many line feeds as there are pieces above
them. -/
theorem exists_around_piece {k : Nat} {cs piece : List Char}
    (h : (pieces '\n' cs)[k]? = some piece) :
    ∃ before after, cs = before ++ piece ++ after ∧ (before = [] ∨ ['\n'] <:+ before) ∧
      (after = [] ∨ ['\n'] <+: after) ∧ before.count '\n' = k := by
  induction k generalizing cs with
  | zero =>
    by_cases hfeed : '\n' ∈ cs
    · obtain ⟨first, rest, rfl, hfirst⟩ := List.eq_append_cons_of_mem hfeed
      rw [pieces_append hfirst, List.getElem?_cons_zero, Option.some_inj] at h
      subst h
      exact ⟨[], '\n' :: rest, rfl, .inl rfl, .inr ⟨rest, rfl⟩, rfl⟩
    · rw [pieces_of_notMem hfeed, List.getElem?_cons_zero, Option.some_inj] at h
      subst h
      exact ⟨[], [], by simp, .inl rfl, .inl rfl, rfl⟩
  | succ k ih =>
    by_cases hfeed : '\n' ∈ cs
    · obtain ⟨first, rest, rfl, hfirst⟩ := List.eq_append_cons_of_mem hfeed
      rw [pieces_append hfirst, List.getElem?_cons_succ] at h
      obtain ⟨before, after, rfl, hbefore, hafter, hcount⟩ := ih h
      refine ⟨first ++ '\n' :: before, after, by simp, .inr ?_, hafter, ?_⟩
      · rcases hbefore with rfl | ⟨start, rfl⟩
        · exact ⟨first, rfl⟩
        · exact ⟨first ++ '\n' :: start, by simp⟩
      · rw [List.count_append, List.count_eq_zero.mpr hfirst, List.count_cons_self, hcount,
          Nat.zero_add]
    · rw [pieces_of_notMem hfeed, List.getElem?_cons_succ, List.getElem?_nil] at h
      cases h

/-- **Cutting a text finds its lines in order.** -/
theorem lineAt_iff {text : String} {number : Int} {line : String} :
    LineAt text number line ↔ ∃ k : Nat, (lines text)[k]? = some line ∧ number = k + 1 := by
  constructor
  · rintro ⟨before, after, htext, hline, hbefore, hafter, hnumber⟩
    refine ⟨before.count '\n', ?_, hnumber⟩
    have hpiece : (pieces '\n' text.toList)[before.count '\n']? = some line.toList := by
      rw [htext, List.append_assoc]
      rcases hbefore with rfl | ⟨above, rfl⟩
      · exact getElem?_pieces_of_start hline hafter
      · rw [List.append_assoc, List.singleton_append, pieces_append_cons, List.count_append,
          List.count_singleton_self, ← length_pieces, List.getElem?_append_right (Nat.le_refl _),
          Nat.sub_self]
        exact getElem?_pieces_of_start hline hafter
    rw [lines, List.getElem?_map, hpiece, Option.map_some, String.ofList_toList]
  · rintro ⟨k, hk, hnumber⟩
    rw [lines, List.getElem?_map, Option.map_eq_some_iff] at hk
    obtain ⟨piece, hpiece, rfl⟩ := hk
    obtain ⟨before, after, htext, hbefore, hafter, hcount⟩ := exists_around_piece hpiece
    refine ⟨before, after, ?_, ?_, hbefore, hafter, by rw [hcount]; exact hnumber⟩
    · rw [String.toList_ofList]
      exact htext
    · rw [String.toList_ofList]
      exact notMem_of_mem_pieces (List.mem_of_getElem? hpiece)

end Text

/-! ## Instructions of numbered lines -/

namespace Instruction

/-- Numbering from another line on moves the instructions. -/
theorem ofLinesFrom_add (n d : Int) (lines : List String) :
    ofLinesFrom (n + d) lines = (ofLinesFrom n lines).map fun i => i.onLine (i.line + d) := by
  induction lines generalizing n with
  | nil => rfl
  | cons line lines ih =>
    have hline : (ofLine? line (n + d)).toList =
        (ofLine? line n).toList.map fun i => i.onLine (i.line + d) := by
      unfold ofLine?
      cases words line <;> rfl
    rw [ofLinesFrom, ofLinesFrom, List.map_append, hline, ← ih,
      show n + d + 1 = n + 1 + d by omega]

theorem mem_ofLinesFrom {n : Int} {lines : List String} {i : Instruction} :
    i ∈ ofLinesFrom n lines ↔
      ∃ (k : Nat) (line : String), lines[k]? = some line ∧ ofLine? line (n + k) = some i := by
  induction lines generalizing n with
  | nil => simp [ofLinesFrom]
  | cons line lines ih =>
    rw [ofLinesFrom, List.mem_append, Option.mem_toList, ih]
    constructor
    · rintro (h | ⟨k, below, hk, h⟩)
      · exact ⟨0, line, rfl, by simpa using h⟩
      · exact ⟨k + 1, below, hk, by rw [← h]; congr 1; omega⟩
    · rintro ⟨k, below, hk, h⟩
      cases k with
      | zero =>
        cases hk
        exact .inl (by simpa using h)
      | succ k => exact .inr ⟨k, below, hk, by rw [← h]; congr 1; omega⟩

/-- **Numbers increase from each instruction to the next.** -/
theorem pairwise_line_ofLinesFrom (n : Int) (lines : List String) :
    (ofLinesFrom n lines).Pairwise fun i j => i.line < j.line := by
  induction lines generalizing n with
  | nil => exact List.Pairwise.nil
  | cons line lines ih =>
    rw [ofLinesFrom, List.pairwise_append]
    refine ⟨?_, ih (n + 1), fun i hi j hj => ?_⟩
    · cases ofLine? line n with
      | none => exact List.Pairwise.nil
      | some i => exact List.pairwise_singleton _ i
    · rw [line_of_ofLine? (Option.mem_toList.mp hi)]
      have hnext := le_line_of_mem_ofLinesFrom hj
      omega

theorem ofText_append_feed (upper lower : String) :
    ofText (upper ++ "\n" ++ lower) =
      ofText upper ++ (ofText lower).map fun i =>
        i.onLine (i.line + (upper.toList.count '\n' + 1)) := by
  unfold ofText ofLines
  rw [Text.lines_append_feed, ofLinesFrom_append, ofLinesFrom_add, Text.length_lines]
  rfl

/-- An instruction of a text says what the words of its line say. -/
theorem mem_ofText_iff {text : String} {i : Instruction} :
    i ∈ ofText text ↔ ∃ line, Text.LineAt text i.line line ∧ words line = i.name :: i.arguments := by
  rw [ofText, ofLines, mem_ofLinesFrom]
  simp only [Text.lineAt_iff, ofLine?_eq_some_iff]
  constructor
  · rintro ⟨k, line, hk, hnumber, hwords⟩
    exact ⟨line, ⟨k, hk, by omega⟩, hwords⟩
  · rintro ⟨line, ⟨k, hk, hnumber⟩, hwords⟩
    exact ⟨k, line, hk, by omega, hwords⟩

end Instruction

open Instruction

/-- **Reading a text is compositional, with exact numbers.**  Two texts, one below the other,
give the instructions of the first, then those of the second with their numbers increased
by the line feeds of the first and one.  In every text the numbers increase strictly, and
an instruction is there exactly when the line with its number has words before its comment,
and these are its name and its arguments. -/
theorem text_reading_is_compositional :
    (∀ upper lower : String,
      ofText (upper ++ "\n" ++ lower) =
        ofText upper ++ (ofText lower).map fun i =>
          i.onLine (i.line + (upper.toList.count '\n' + 1))) ∧
    ∀ text : String,
      ((ofText text).map Instruction.line).Pairwise (· < ·) ∧
      ∀ i : Instruction, i ∈ ofText text ↔
        ∃ line code comment ending, Text.LineAt text i.line line ∧
          Divides line code comment ending ∧ plainWords code = i.name :: i.arguments := by
  refine ⟨ofText_append_feed, fun text => ⟨?_, fun i => ?_⟩⟩
  · exact List.pairwise_map.mpr (pairwise_line_ofLinesFrom 1 (Text.lines text))
  · rw [mem_ofText_iff]
    constructor
    · rintro ⟨line, hline, hwords⟩
      obtain ⟨code, comment, ending, hdivides⟩ := exists_divides line
      exact ⟨line, code, comment, ending, hline, hdivides, hdivides.words_eq ▸ hwords⟩
    · rintro ⟨line, code, comment, ending, hline, hdivides, hwords⟩
      exact ⟨line, hline, hdivides.words_eq.trans hwords⟩

end HackVM
