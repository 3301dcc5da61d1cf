/-! # Lines of a text

A text is cut at its line feeds, and at nothing else.  Texts that come from files
first have their line ends unified: a carriage return, alone or before a line
feed, counts as one line feed. -/
namespace HackVM.Text

/-- The pieces of a text between the occurrences of a separator.  There is always
one piece more than there are separators. -/
def pieces (separator : Char) : List Char → List (List Char)
  | [] => [[]]
  | c :: cs =>
    if c = separator then [] :: pieces separator cs
    else
      match pieces separator cs with
      | [] => [[c]]
      | piece :: rest => (c :: piece) :: rest

/-- The first piece ends at the first separator. -/
theorem pieces_append {separator : Char} {piece : List Char} (h : separator ∉ piece)
    (rest : List Char) :
    pieces separator (piece ++ separator :: rest) = piece :: pieces separator rest := by
  induction piece with
  | nil => simp [pieces]
  | cons c piece ih =>
    rw [List.mem_cons, not_or] at h
    rw [List.cons_append, pieces, if_neg (Ne.symm h.1), ih h.2]

/-- A text without separators is one piece. -/
theorem pieces_of_notMem {separator : Char} {piece : List Char} (h : separator ∉ piece) :
    pieces separator piece = [piece] := by
  induction piece with
  | nil => rfl
  | cons c piece ih =>
    rw [List.mem_cons, not_or] at h
    rw [pieces, if_neg (Ne.symm h.1), ih h.2]

/-- No piece holds the separator. -/
theorem notMem_of_mem_pieces {separator : Char} {cs piece : List Char}
    (h : piece ∈ pieces separator cs) : separator ∉ piece := by
  induction cs generalizing piece with
  | nil =>
    rw [List.mem_singleton.mp h]
    exact List.not_mem_nil
  | cons c cs ih =>
    rw [pieces] at h
    split at h
    · rcases List.mem_cons.mp h with rfl | h
      · exact List.not_mem_nil
      · exact ih h
    · rename_i hc
      have hpiece (rest : List Char) (hrest : separator ∉ rest) : separator ∉ c :: rest :=
        fun hmem => (List.mem_cons.mp hmem).elim (fun h => hc h.symm) hrest
      split at h
      · rw [List.mem_singleton.mp h]
        exact hpiece [] List.not_mem_nil
      · rename_i first rest hpieces
        rw [hpieces] at ih
        rcases List.mem_cons.mp h with rfl | h
        · exact hpiece first (ih (List.mem_cons_self ..))
        · exact ih (List.mem_cons_of_mem _ h)

/-- The lines of a text: its pieces between line feeds. -/
def lines (s : String) : List String := (pieces '\n' s.toList).map String.ofList

/-- Every line end, written in one of the three ways, becomes a line feed. -/
def unifyLineEnds : List Char → List Char
  | [] => []
  | '\r' :: '\n' :: cs => '\n' :: unifyLineEnds cs
  | c :: cs => (if c = '\r' then '\n' else c) :: unifyLineEnds cs

/-- Texts put one after the other with a separator between each two. -/
def join (separator : String) : List String → String
  | [] => ""
  | [s] => s
  | s :: rest => s ++ separator ++ join separator rest

/-- A separator that is one character stands behind the first of several texts. -/
theorem toList_join_cons {separator : String} {c : Char} (hc : separator.toList = [c]) {s : String}
    {rest : List String} (h : rest ≠ []) :
    (join separator (s :: rest)).toList = s.toList ++ c :: (join separator rest).toList := by
  obtain ⟨s', rest, rfl⟩ := List.exists_cons_of_ne_nil h
  simp [join, hc]

end HackVM.Text
