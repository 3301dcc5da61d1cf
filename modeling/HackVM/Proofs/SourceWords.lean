import HackVM.Source.Reading

/-! # The words of a source line

The lexemes of a line are a roundabout way to say something plain: what stands before
the first two slashes in a row, cut at blanks and line feeds, without the empty pieces
(`words_eq_wordsOf`).  On that description it is easy to see which changes to a line
leave its words alone: a comment after a blank (`words_append_comment`), and a run of
blanks in the place of another (`words_replace_blanks`).  Lines that hold blanks and a
comment at most have no words (`Idle.words_eq_nil`). -/
namespace HackVM

namespace Lexeme

/-- What stands in a text before its comment. -/
def beforeComment : List Char → List Char
  | [] => []
  | c :: cs => if startsComment (c :: cs) then [] else c :: beforeComment cs

/-- The pieces of a text between separators that are not empty. -/
def piecesOf (cs : List Char) : List (List Char) :=
  (cs.splitOnP isSeparator).filter fun piece => !piece.isEmpty

/-- The words of a text, as pieces of what stands before its comment. -/
def wordsOf (cs : List Char) : List (List Char) := piecesOf (beforeComment cs)

/-! ## Pieces -/

theorem piecesOf_nil : piecesOf [] = [] := rfl

theorem piecesOf_append {s : Char} (hs : isSeparator s = true) (left right : List Char) :
    piecesOf (left ++ s :: right) = piecesOf left ++ piecesOf right := by
  rw [piecesOf, List.splitOnP_append_cons left right hs, List.filter_append]
  rfl

theorem piecesOf_cons {s : Char} (hs : isSeparator s = true) (right : List Char) :
    piecesOf (s :: right) = piecesOf right := piecesOf_append hs [] right

/-- A text without separators is one piece. -/
theorem piecesOf_of_word {word : List Char} (hne : word ≠ [])
    (hword : ∀ c ∈ word, isSeparator c = false) : piecesOf word = [word] := by
  rw [piecesOf, List.splitOnP_eq_singleton hword]
  simpa using hne

/-! ## Comments -/

theorem isSeparator_ne_slash {s : Char} (hs : isSeparator s = true) : s ≠ '/' := by
  rintro rfl
  cases hs

theorem startsComment_of_ne {c : Char} (hc : c ≠ '/') (cs : List Char) :
    startsComment (c :: cs) = false := by
  unfold startsComment
  split
  · rename_i h
    exact absurd (List.cons.inj h).1 hc
  · rfl

/-- Whether a comment starts is seen before the next separator. -/
theorem startsComment_append {s : Char} (hs : isSeparator s = true) (c : Char)
    (left right : List Char) :
    startsComment (c :: (left ++ s :: right)) = startsComment (c :: left) := by
  by_cases hc : c = '/'
  · subst hc
    cases left with
    | nil =>
      show startsComment ('/' :: s :: right) = false
      unfold startsComment
      split
      · rename_i h
        exact absurd (List.cons.inj (List.cons.inj h).2).1 (isSeparator_ne_slash hs)
      · rfl
    | cons d left =>
      by_cases hd : d = '/'
      · subst hd
        rfl
      · simp [startsComment, hd]
  · rw [startsComment_of_ne hc, startsComment_of_ne hc]

theorem beforeComment_of_startsComment {cs : List Char} (h : startsComment cs = true) :
    beforeComment cs = [] := by
  cases cs with
  | nil => rfl
  | cons c cs => rw [beforeComment, if_pos h]

theorem beforeComment_cons {c : Char} {cs : List Char} (h : startsComment (c :: cs) = false) :
    beforeComment (c :: cs) = c :: beforeComment cs := by
  rw [beforeComment, if_neg (by simp [h])]

/-- No comment starts across a separator: what is left of it is cut, or else what is right
of it. -/
theorem beforeComment_append {s : Char} (hs : isSeparator s = true) (left right : List Char) :
    beforeComment (left ++ s :: right) =
      if beforeComment left = left then left ++ s :: beforeComment right
      else beforeComment left := by
  induction left with
  | nil => exact beforeComment_cons (startsComment_of_ne (isSeparator_ne_slash hs) right)
  | cons c left ih =>
    cases hc : startsComment (c :: left) with
    | true =>
      have hwhole : startsComment (c :: left ++ s :: right) = true :=
        (startsComment_append hs c left right).trans hc
      rw [beforeComment_of_startsComment hwhole, beforeComment_of_startsComment hc]
      exact (if_neg (List.cons_ne_nil c left).symm).symm
    | false =>
      have hwhole : startsComment (c :: (left ++ s :: right)) = false :=
        (startsComment_append hs c left right).trans hc
      rw [List.cons_append, beforeComment_cons hwhole, beforeComment_cons hc, ih]
      by_cases hleft : beforeComment left = left
      · rw [if_pos hleft, if_pos (by rw [hleft])]
        rfl
      · rw [if_neg hleft, if_neg fun h => hleft (List.cons.inj h).2]

/-! ## Words next to separators and comments -/

theorem wordsOf_of_startsComment {cs : List Char} (h : startsComment cs = true) :
    wordsOf cs = [] := by
  rw [wordsOf, beforeComment_of_startsComment h, piecesOf_nil]

/-- A text without separators and slashes is one word. -/
theorem wordsOf_of_word {word : List Char} (hne : word ≠ [])
    (hword : ∀ c ∈ word, isSeparator c = false) (hslash : '/' ∉ word) : wordsOf word = [word] := by
  have hcut (cs : List Char) (hcs : '/' ∉ cs) : beforeComment cs = cs := by
    induction cs with
    | nil => rfl
    | cons c cs ih =>
      rw [List.mem_cons, not_or] at hcs
      rw [beforeComment_cons (startsComment_of_ne (Ne.symm hcs.1) cs), ih hcs.2]
  rw [wordsOf, hcut word hslash, piecesOf_of_word hne hword]

/-- Separators in front do not matter. -/
theorem wordsOf_append_left {run : List Char} (hrun : ∀ c ∈ run, isSeparator c = true)
    (cs : List Char) : wordsOf (run ++ cs) = wordsOf cs := by
  induction run with
  | nil => rfl
  | cons s run ih =>
    have hs : isSeparator s = true := hrun s (List.mem_cons_self ..)
    rw [List.cons_append, wordsOf,
      beforeComment_cons (startsComment_of_ne (isSeparator_ne_slash hs) _), piecesOf_cons hs]
    exact ih fun c hc => hrun c (List.mem_cons_of_mem _ hc)

/-- **A run of separators parts the words left of it from those right of it**, unless it
stands in a comment. -/
theorem wordsOf_append_run {run : List Char} (hne : run ≠ [])
    (hrun : ∀ c ∈ run, isSeparator c = true) (left right : List Char) :
    wordsOf (left ++ (run ++ right)) =
      if beforeComment left = left then wordsOf left ++ wordsOf right else wordsOf left := by
  obtain ⟨s, run, rfl⟩ := List.exists_cons_of_ne_nil hne
  have hs : isSeparator s = true := hrun s (List.mem_cons_self ..)
  have hrest : wordsOf (run ++ right) = wordsOf right :=
    wordsOf_append_left (fun c hc => hrun c (List.mem_cons_of_mem _ hc)) right
  rw [List.cons_append, wordsOf, beforeComment_append hs]
  by_cases hleft : beforeComment left = left
  · rw [if_pos hleft, if_pos hleft, piecesOf_append hs, ← hrest, wordsOf, wordsOf, hleft]
  · rw [if_neg hleft, if_neg hleft]
    rfl

/-! ## Lexemes -/

/-- A word of the scanner holds no separator, and no comment starts in it. -/
theorem spanWord_spec (cs : List Char) :
    beforeComment cs = (spanWord cs).1 ++ beforeComment (spanWord cs).2 ∧
      (∀ c ∈ (spanWord cs).1, isSeparator c = false) ∧
      (beforeComment (spanWord cs).2 = [] ∨
        ∃ s rest, isSeparator s = true ∧ beforeComment (spanWord cs).2 = s :: rest) := by
  induction cs with
  | nil => exact ⟨rfl, List.forall_mem_nil _, .inl rfl⟩
  | cons c cs ih =>
    rw [spanWord]
    cases hcomment : startsComment (c :: cs) with
    | true =>
      rw [Bool.or_true, if_pos rfl]
      exact ⟨rfl, List.forall_mem_nil _, .inl (beforeComment_of_startsComment hcomment)⟩
    | false =>
      cases hs : isSeparator c with
      | true =>
        rw [Bool.true_or, if_pos rfl]
        exact ⟨rfl, List.forall_mem_nil _, .inr ⟨c, _, hs, beforeComment_cons hcomment⟩⟩
      | false =>
        obtain ⟨hcut, hword, hstop⟩ := ih
        rw [Bool.false_or, if_neg (by decide)]
        refine ⟨?_, ?_, hstop⟩
        · rw [beforeComment_cons hcomment, hcut]
          rfl
        · intro d hd
          rcases List.mem_cons.mp hd with rfl | hd
          · exact hs
          · exact hword d hd

/-- The first word of a text, and the words after it. -/
theorem wordsOf_word {c : Char} {cs : List Char} (hcomment : startsComment (c :: cs) = false)
    (hc : isSeparator c = false) :
    wordsOf (c :: cs) = (c :: (spanWord cs).1) :: wordsOf (spanWord cs).2 := by
  obtain ⟨hcut, hword, hstop⟩ := spanWord_spec cs
  have hfirst : ∀ d ∈ c :: (spanWord cs).1, isSeparator d = false := by
    intro d hd
    rcases List.mem_cons.mp hd with rfl | hd
    · exact hc
    · exact hword d hd
  have hpiece := piecesOf_of_word (List.cons_ne_nil c (spanWord cs).1) hfirst
  rw [wordsOf, wordsOf, beforeComment_cons hcomment, hcut, ← List.cons_append]
  rcases hstop with hend | ⟨s, rest, hs, hrest⟩
  · rw [hend, List.append_nil, hpiece, piecesOf_nil]
  · rw [hrest, piecesOf_append hs, piecesOf_cons hs, hpiece]
    rfl

/-- **The scanner finds the words of a text.** -/
theorem filterMap_word?_scan (cs : List Char) :
    (scan cs).filterMap word? = (wordsOf cs).map String.ofList := by
  -- skipping a run of blanks, or of line feeds, skips separators
  have hskip (p : Char → Bool) (hp : ∀ c, p c = true → isSeparator c = true) (c : Char)
      (cs : List Char) (hc : p c = true) : wordsOf (c :: cs) = wordsOf (cs.dropWhile p) := by
    have hrun : ∀ d ∈ c :: cs.takeWhile p, isSeparator d = true := by
      intro d hd
      rcases List.mem_cons.mp hd with rfl | hd
      · exact hp _ hc
      · exact hp _ (List.all_eq_true.mp List.all_takeWhile d hd)
    calc wordsOf (c :: cs)
      _ = wordsOf ((c :: cs.takeWhile p) ++ cs.dropWhile p) := by
          rw [List.cons_append, List.takeWhile_append_dropWhile]
      _ = wordsOf (cs.dropWhile p) := wordsOf_append_left hrun _
  fun_induction scan cs with
  | case1 => rfl
  | case2 c cs hcomment => rw [wordsOf_of_startsComment hcomment]; rfl
  | case3 c cs hcomment hblank ih =>
    rw [hskip isBlank (fun d hd => by simp [isSeparator, hd]) c cs hblank, ← ih]
    rfl
  | case4 cs hcomment hblank ih =>
    rw [hskip (· = '\n') (fun d hd => by simp [isSeparator, of_decide_eq_true hd]) '\n' cs rfl,
      ← ih]
    rfl
  | case5 c cs hcomment hblank hfeed ih =>
    have hc : isSeparator c = false := by simp [isSeparator, hblank, hfeed]
    rw [wordsOf_word (by simpa using hcomment) hc, List.map_cons, ← ih]
    rfl

end Lexeme

namespace Instruction

open Lexeme

/-! ## Lines -/

/-- **The words of a line** are the pieces of what stands before its comment, when the
line end has been taken off. -/
theorem words_eq_wordsOf (line : String) :
    words line = (wordsOf (trimLineEnd line)).map String.ofList := filterMap_word?_scan _

/-- A character that ends no line. -/
def KeepsLine (c : Char) : Prop := c ≠ '\r' ∧ c ≠ '\n'

/-- The line end is taken off behind the last character that ends no line. -/
theorem trimLineEnd_append {c : Char} (hc : KeepsLine c) (left right : List Char) :
    trimLineEnd (String.ofList (left ++ c :: right)) =
      left ++ c :: trimLineEnd (String.ofList right) := by
  have hstop : (c :: left.reverse).dropWhile (fun c => c = '\r' || c = '\n') =
      c :: left.reverse := List.dropWhile_cons_of_neg (by simp [hc.1, hc.2])
  unfold trimLineEnd
  rw [String.toList_ofList, String.toList_ofList, List.reverse_append, List.reverse_cons,
    List.append_assoc, List.singleton_append, List.dropWhile_append, hstop]
  split
  · rename_i hnone
    rw [List.isEmpty_iff.mp hnone]
    simp
  · simp

/-- A line that does not end in a carriage return or a line feed. -/
def EndsOpen (line : String) : Prop := ∀ c, line.toList.getLast? = some c → KeepsLine c

theorem trimLineEnd_of_endsOpen {line : String} (h : EndsOpen line) :
    trimLineEnd line = line.toList := by
  rcases List.eq_nil_or_concat line.toList with hnil | ⟨left, c, hline⟩
  · rw [trimLineEnd, hnil]
    rfl
  · have hc : KeepsLine c := h c (by rw [hline]; simp)
    have htrim := trimLineEnd_append hc left []
    rw [← String.ofList_toList (s := line), hline, List.concat_eq_append, htrim]
    simp [trimLineEnd]

/-! ## Changes that keep the words -/

/-- **A comment may be added behind a blank.** -/
theorem words_append_comment {line : String} (h : EndsOpen line) (comment : String) :
    words (line ++ " //" ++ comment) = words line := by
  have hline : line ++ " //" ++ comment =
      String.ofList ((line.toList ++ [' ', '/']) ++ '/' :: comment.toList) := by
    apply String.toList_injective
    simp
  have hslash : KeepsLine '/' := ⟨by decide, by decide⟩
  have htrim : trimLineEnd (line ++ " //" ++ comment) =
      line.toList ++ ([' '] ++ '/' :: '/' :: trimLineEnd comment) := by
    rw [hline, trimLineEnd_append hslash, String.ofList_toList]
    simp
  have hblank : ∀ c ∈ [' '], isSeparator c = true := by simp [isSeparator, isBlank]
  have hcomment : wordsOf ('/' :: '/' :: trimLineEnd comment) = [] := wordsOf_of_startsComment rfl
  rw [words_eq_wordsOf, words_eq_wordsOf, htrim, trimLineEnd_of_endsOpen h,
    wordsOf_append_run (List.cons_ne_nil _ _) hblank, hcomment, List.append_nil, ite_self]

/-- One or more spaces and tabs. -/
def IsBlanks (run : String) : Prop := run ≠ "" ∧ ∀ c ∈ run.toList, c = ' ' ∨ c = '\t'

/-- What the words of a line are, seen from a run of blanks in it. -/
theorem words_append_blanks {run : String} (h : IsBlanks run) (left right : String) :
    words (left ++ run ++ right) =
      (if beforeComment left.toList = left.toList then
        wordsOf left.toList ++ wordsOf (trimLineEnd right)
      else wordsOf left.toList).map String.ofList := by
  obtain ⟨hne, hblank⟩ := h
  have hlist : run.toList ≠ [] := fun hnil => hne (String.toList_eq_nil_iff.mp hnil)
  have hrun : ∀ c ∈ run.toList, isSeparator c = true := by
    intro c hc
    rcases hblank c hc with rfl | rfl <;> rfl
  -- the last blank of the run keeps the line end to the right of it
  obtain ⟨start, c, hrunList⟩ : ∃ start c, run.toList = start ++ [c] := by
    rcases List.eq_nil_or_concat run.toList with hnil | ⟨start, c, h⟩
    · exact absurd hnil hlist
    · exact ⟨start, c, by rw [h, List.concat_eq_append]⟩
  have hc : KeepsLine c := by
    rcases hblank c (by simp [hrunList]) with rfl | rfl <;> exact ⟨by decide, by decide⟩
  have hline : left ++ run ++ right =
      String.ofList ((left.toList ++ start) ++ c :: right.toList) := by
    apply String.toList_injective
    simp [hrunList]
  have htrim : trimLineEnd (left ++ run ++ right) =
      left.toList ++ (run.toList ++ trimLineEnd right) := by
    rw [hline, trimLineEnd_append hc, String.ofList_toList, hrunList]
    simp
  rw [words_eq_wordsOf, htrim, wordsOf_append_run hlist hrun]

/-- **A run of blanks may take the place of another.** -/
theorem words_replace_blanks {run run' : String} (h : IsBlanks run) (h' : IsBlanks run')
    (left right : String) : words (left ++ run ++ right) = words (left ++ run' ++ right) := by
  rw [words_append_blanks h, words_append_blanks h']

/-- A line that says nothing: blanks, and behind them the line end or a comment. -/
inductive Idle : String → Prop where
  | blank {space ending : String} (hspace : ∀ c ∈ space.toList, isSeparator c = true)
    (hending : ∀ c ∈ ending.toList, c = '\r' ∨ c = '\n') : Idle (space ++ ending)
  | comment {space : String} (hspace : ∀ c ∈ space.toList, isSeparator c = true)
    (text : String) : Idle (space ++ "//" ++ text)

theorem Idle.words_eq_nil {line : String} (h : Idle line) : words line = [] := by
  cases h with
  | @blank space ending hspace hending =>
    have hmem : ∀ c ∈ trimLineEnd (space ++ ending), isSeparator c = true := by
      intro c hc
      have hdrop : ∀ d ∈ ending.toList.reverse,
          (decide (d = '\r') || decide (d = '\n')) = true := by
        intro d hd
        simpa using hending d (List.mem_reverse.mp hd)
      rw [trimLineEnd, String.toList_append, List.reverse_append, List.mem_reverse,
        List.dropWhile_append_of_pos hdrop] at hc
      exact hspace c (List.mem_reverse.mp ((List.dropWhile_sublist _).subset hc))
    rw [words_eq_wordsOf, ← List.append_nil (trimLineEnd (space ++ ending)),
      wordsOf_append_left hmem]
    rfl
  | @comment space hspace text =>
    have hline : space ++ "//" ++ text =
        String.ofList ((space.toList ++ ['/']) ++ '/' :: text.toList) := by
      apply String.toList_injective
      simp
    have htrim : trimLineEnd (space ++ "//" ++ text) =
        space.toList ++ '/' :: '/' :: trimLineEnd text := by
      rw [hline, trimLineEnd_append ⟨by decide, by decide⟩, String.ofList_toList]
      simp
    rw [words_eq_wordsOf, htrim, wordsOf_append_left hspace, wordsOf_of_startsComment rfl]
    rfl

end Instruction
end HackVM
