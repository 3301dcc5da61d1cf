import HackVM.Proofs.SourceWords

/-! # Lines are read plainly

The lexemes of a line are those of a lexer that, from left to right, takes at each place
the longest text that one of four terminals matches (`Scans`).  At every place exactly one
terminal matches, so the lexer neither fails nor has a choice, and it finds what
`Lexeme.scan` finds (`scans_iff`).  Whether a word may go on is seen only by looking ahead
at each of its characters.

The reading of a line says the same without a lexer
(`line_reading_is_plain`).  A line divides in one way into its code, a comment from the
first two slashes on, and the carriage returns and line feeds at its end (`Divides`).  Its
words are the pieces of the code between spaces, tabs and line feeds. -/
namespace HackVM

namespace Lexeme

/-! ## The lexer -/

/-- What a lexeme can be. -/
inductive Terminal where
  | word
  | blank
  | lineEnd
  | comment
deriving DecidableEq

namespace Terminal

/-- The lexeme of a text that a terminal has matched. -/
def lexeme : Terminal → List Char → Lexeme
  | .word => .word
  | .blank => .blank
  | .lineEnd => .lineEnd
  | .comment => .comment

/-- Whether a character, given all that follows it in the line, may stand in a lexeme. -/
def Takes : Terminal → Char → List Char → Prop
  | .word, c, next => c ∉ [' ', '\t', '\n'] ∧ ¬ ['/', '/'] <+: c :: next
  | .blank, c, _ => c ∈ [' ', '\t']
  | .lineEnd, c, _ => c = '\n'
  | .comment, _, _ => True

/-- Every character of a text that `rest` follows may stand in a lexeme. -/
def TakesAll (t : Terminal) (rest : List Char) : List Char → Prop
  | [] => True
  | c :: text => t.Takes c (text ++ rest) ∧ TakesAll t rest text

/-- A terminal matches a text that `rest` follows. -/
def Matches (t : Terminal) (text rest : List Char) : Prop :=
  text ≠ [] ∧ t.TakesAll rest text ∧ (t = .comment → ['/', '/'] <+: text)

/-- A terminal matches a text, and no longer one from the same place on. -/
structure Longest (t : Terminal) (text rest : List Char) : Prop where
  matched : t.Matches text rest
  longest : ∀ text' rest', text' ++ rest' = text ++ rest → t.Matches text' rest' →
    text'.length ≤ text.length

end Terminal

open Terminal

/-- The lexemes of a text, each the longest match of some terminal. -/
inductive Scans : List Char → List Lexeme → Prop where
  | nil : Scans [] []
  | cons {t : Terminal} {text rest : List Char} {lexemes : List Lexeme}
    (first : Longest t text rest) (next : Scans rest lexemes) :
    Scans (text ++ rest) (t.lexeme text :: lexemes)

/-! ## One terminal at each place -/

theorem startsComment_iff {cs : List Char} : startsComment cs = true ↔ ['/', '/'] <+: cs := by
  constructor
  · intro h
    unfold startsComment at h
    split at h
    · exact ⟨_, rfl⟩
    · cases h
  · rintro ⟨rest, rfl⟩
    rfl

theorem isBlank_iff {c : Char} : isBlank c = true ↔ c ∈ [' ', '\t'] := by
  simp [isBlank]

theorem isSeparator_iff {c : Char} : isSeparator c = true ↔ c ∈ [' ', '\t', '\n'] := by
  simp [isSeparator, isBlank, or_assoc]

/-- The terminal that the beginning of a text calls for. -/
def terminalAt : List Char → Terminal
  | [] => .word
  | c :: cs =>
    if startsComment (c :: cs) then .comment
    else if isBlank c then .blank
    else if c = '\n' then .lineEnd
    else .word

theorem terminalAt_of_matches {t : Terminal} {text rest : List Char} (h : t.Matches text rest) :
    terminalAt (text ++ rest) = t := by
  obtain ⟨hne, htakes, hcomment⟩ := h
  obtain ⟨c, text, rfl⟩ := List.exists_cons_of_ne_nil hne
  have hopen : t.Takes c (text ++ rest) := htakes.1
  show (if startsComment (c :: (text ++ rest)) then _ else _) = t
  cases t with
  | comment =>
    have hstarts : startsComment (c :: (text ++ rest)) = true :=
      startsComment_iff.mpr ((hcomment rfl).trans (List.prefix_append ..))
    rw [if_pos hstarts]
  | word =>
    obtain ⟨hseparator, hslashes⟩ := hopen
    rw [if_neg (mt startsComment_iff.mp hslashes),
      if_neg fun h => hseparator (isSeparator_iff.mp (by rw [isSeparator, h, Bool.true_or])),
      if_neg fun h => hseparator (by rw [h]; decide)]
  | blank =>
    have hslash : c ≠ '/' := by
      rintro rfl
      exact absurd (isBlank_iff.mpr hopen) (by decide)
    rw [startsComment_of_ne hslash, if_neg (by decide), if_pos (isBlank_iff.mpr hopen)]
  | lineEnd =>
    have hfeed : c = '\n' := hopen
    rw [hfeed, startsComment_of_ne (by decide), if_neg (by decide), if_neg (by decide), if_pos rfl]

/-- **The longest match is unique**, its terminal included. -/
theorem Terminal.Longest.unique {t t' : Terminal} {text rest text' rest' : List Char}
    (h : Longest t text rest) (h' : Longest t' text' rest')
    (hsame : text ++ rest = text' ++ rest') : t = t' ∧ text = text' ∧ rest = rest' := by
  have hterminal : t = t' := by
    rw [← terminalAt_of_matches h.matched, ← terminalAt_of_matches h'.matched, hsame]
  subst hterminal
  have hle := h.longest text' rest' hsame.symm h'.matched
  have hge := h'.longest text rest hsame h.matched
  exact ⟨rfl, List.append_inj hsame (Nat.le_antisymm hge hle)⟩

/-! ## Runs of characters -/

/-- What follows a lexeme that can not be longer: nothing, or a character that may not stand
in it. -/
def Terminal.Stops (t : Terminal) (rest : List Char) : Prop :=
  ∀ c next, rest = c :: next → ¬ t.Takes c next

theorem Terminal.stops_nil (t : Terminal) : t.Stops [] := by
  intro c next h
  cases h

theorem Terminal.stops_cons {t : Terminal} {c : Char} {next : List Char} (h : ¬ t.Takes c next) :
    t.Stops (c :: next) := by
  intro d next' heq
  obtain ⟨rfl, rfl⟩ := List.cons.inj heq
  exact h

theorem Terminal.TakesAll.length_le {t : Terminal} {text rest text' rest' : List Char}
    (hstop : t.Stops rest) (h' : t.TakesAll rest' text') (hsame : text' ++ rest' = text ++ rest) :
    text'.length ≤ text.length := by
  induction text generalizing text' with
  | nil =>
    cases text' with
    | nil => exact Nat.le_refl _
    | cons c text' => exact absurd h'.1 (hstop c _ hsame.symm)
  | cons c text ih =>
    cases text' with
    | nil => exact Nat.zero_le _
    | cons c' text' => exact Nat.succ_le_succ (ih h'.2 (List.cons.inj hsame).2)

/-- A match is the longest when it is followed by a character that may not stand in it. -/
theorem Terminal.Matches.longest {t : Terminal} {text rest : List Char} (h : t.Matches text rest)
    (hstop : t.Stops rest) : Longest t text rest :=
  ⟨h, fun _ _ hsame h' => h'.2.1.length_le hstop hsame⟩

/-- The characters that a test admits, up to the first that it does not. -/
theorem takesAll_takeWhile {t : Terminal} {p : Char → Bool}
    (hp : ∀ c next, t.Takes c next ↔ p c = true) (cs : List Char) :
    t.TakesAll (cs.dropWhile p) (cs.takeWhile p) ∧ t.Stops (cs.dropWhile p) := by
  induction cs with
  | nil => exact ⟨trivial, t.stops_nil⟩
  | cons c cs ih =>
    cases hc : p c with
    | true =>
      rw [List.dropWhile_cons_of_pos hc, List.takeWhile_cons_of_pos hc]
      exact ⟨⟨(hp c _).mpr hc, ih.1⟩, ih.2⟩
    | false =>
      have hneg : ¬ p c = true := by rw [hc]; decide
      rw [List.dropWhile_cons_of_neg hneg, List.takeWhile_cons_of_neg hneg]
      exact ⟨trivial, Terminal.stops_cons (mt (hp c cs).mp hneg)⟩

theorem takes_word_iff {c : Char} {next : List Char} :
    Terminal.word.Takes c next ↔ (isSeparator c || startsComment (c :: next)) = false := by
  rw [Bool.or_eq_false_iff, Terminal.Takes, ← isSeparator_iff, ← startsComment_iff,
    Bool.not_eq_true, Bool.not_eq_true]

theorem takesAll_spanWord (cs : List Char) :
    Terminal.word.TakesAll (spanWord cs).2 (spanWord cs).1 ∧
      Terminal.word.Stops (spanWord cs).2 ∧ (spanWord cs).1 ++ (spanWord cs).2 = cs := by
  induction cs with
  | nil => exact ⟨trivial, Terminal.word.stops_nil, rfl⟩
  | cons c cs ih =>
    obtain ⟨htakes, hstop, hwhole⟩ := ih
    rw [spanWord]
    cases hc : isSeparator c || startsComment (c :: cs) with
    | true =>
      rw [if_pos rfl]
      refine ⟨trivial, Terminal.stops_cons ?_, rfl⟩
      rw [takes_word_iff, hc]
      decide
    | false =>
      rw [if_neg (by decide)]
      refine ⟨⟨?_, htakes⟩, hstop, ?_⟩
      · rw [takes_word_iff, hwhole]
        exact hc
      · rw [List.cons_append, hwhole]

/-! ## The lexer finds the lexemes of a line -/

/-- Longest matches of the terminals that are runs of one kind of character. -/
theorem longest_takeWhile {t : Terminal} {p : Char → Bool}
    (hp : ∀ c next, t.Takes c next ↔ p c = true) (ht : t ≠ .comment) {c : Char}
    (hc : p c = true) (cs : List Char) :
    Longest t (c :: cs.takeWhile p) (cs.dropWhile p) := by
  obtain ⟨htakes, hstop⟩ := takesAll_takeWhile hp cs
  have hmatches : t.Matches (c :: cs.takeWhile p) (cs.dropWhile p) :=
    ⟨List.cons_ne_nil _ _, ⟨(hp c _).mpr hc, htakes⟩, fun h => absurd h ht⟩
  exact hmatches.longest hstop

theorem longest_comment {cs : List Char} (h : startsComment cs = true) :
    Longest .comment cs [] := by
  have hslashes := startsComment_iff.mp h
  have hall (text : List Char) : Terminal.comment.TakesAll [] text := by
    induction text with
    | nil => trivial
    | cons c text ih => exact ⟨trivial, ih⟩
  have hmatches : Terminal.comment.Matches cs [] := by
    refine ⟨?_, hall cs, fun _ => hslashes⟩
    rintro rfl
    cases h
  exact hmatches.longest Terminal.comment.stops_nil

theorem longest_word {c : Char} {cs : List Char} (hcomment : startsComment (c :: cs) = false)
    (hc : isSeparator c = false) :
    Longest .word (c :: (spanWord cs).1) (spanWord cs).2 := by
  obtain ⟨htakes, hstop, hwhole⟩ := takesAll_spanWord cs
  have hfirst : Terminal.word.Takes c ((spanWord cs).1 ++ (spanWord cs).2) := by
    rw [takes_word_iff, hwhole, hc, hcomment]
    rfl
  have hmatches : Terminal.word.Matches (c :: (spanWord cs).1) (spanWord cs).2 :=
    ⟨List.cons_ne_nil _ _, ⟨hfirst, htakes⟩, fun h => by cases h⟩
  exact hmatches.longest hstop

/-- **The lexer never fails**: every text is scanned. -/
theorem scans_scan (cs : List Char) : Scans cs (scan cs) := by
  fun_induction scan cs with
  | case1 => exact .nil
  | case2 c cs hcomment =>
    have hscans := Scans.cons (longest_comment hcomment) .nil
    rwa [List.append_nil] at hscans
  | case3 c cs hcomment hblank ih =>
    have hscans := Scans.cons (longest_takeWhile (t := .blank) (fun c _ => isBlank_iff.symm)
      (by decide) hblank cs) ih
    rwa [List.cons_append, List.takeWhile_append_dropWhile] at hscans
  | case4 cs hcomment hblank ih =>
    have hscans := Scans.cons (longest_takeWhile (t := .lineEnd) (p := (· = '\n'))
      (fun _ _ => (decide_eq_true_iff (p := _ = '\n')).symm) (by decide) (decide_eq_true rfl) cs) ih
    rwa [List.cons_append, List.takeWhile_append_dropWhile] at hscans
  | case5 c cs hcomment hblank hfeed ih =>
    have hc : isSeparator c = false := by simp [isSeparator, hblank, hfeed]
    have hscans := Scans.cons (longest_word (by simpa using hcomment) hc) ih
    rwa [List.cons_append, (takesAll_spanWord cs).2.2] at hscans

/-- A text is scanned in one of two ways: it is empty, or it has a first lexeme. -/
theorem Scans.cases {cs : List Char} {lexemes : List Lexeme} (h : Scans cs lexemes) :
    (cs = [] ∧ lexemes = []) ∨ ∃ t text rest later, cs = text ++ rest ∧ Longest t text rest ∧
      Scans rest later ∧ lexemes = t.lexeme text :: later := by
  cases h with
  | nil => exact .inl ⟨rfl, rfl⟩
  | cons first next => exact .inr ⟨_, _, _, _, rfl, first, next, rfl⟩

theorem Scans.unique {cs : List Char} {lexemes lexemes' : List Lexeme} (h : Scans cs lexemes)
    (h' : Scans cs lexemes') : lexemes = lexemes' := by
  induction h generalizing lexemes' with
  | nil =>
    rcases h'.cases with ⟨-, rfl⟩ | ⟨t, text, rest, later, hnil, hfirst, -, -⟩
    · rfl
    · exact absurd (List.append_eq_nil_iff.mp hnil.symm).1 hfirst.matched.1
  | cons hfirst _ ih =>
    rcases h'.cases with ⟨hnil, -⟩ | ⟨t, text, rest, later, hsame, hfirst', hnext', rfl⟩
    · exact absurd (List.append_eq_nil_iff.mp hnil).1 hfirst.matched.1
    · obtain ⟨rfl, rfl, rfl⟩ := hfirst.unique hfirst' hsame
      rw [ih hnext']

/-- **The lexer finds the lexemes of a text and no others.** -/
theorem scans_iff {cs : List Char} {lexemes : List Lexeme} :
    Scans cs lexemes ↔ lexemes = scan cs := by
  constructor
  · intro h
    exact h.unique (scans_scan cs)
  · rintro rfl
    exact scans_scan cs

end Lexeme

/-! ## The parts of a line -/

/-- How a line divides: its code, a comment that starts at the first two slashes in a row and
runs to the end, and the carriage returns and line feeds that end the line. -/
structure Divides (line : String) (code comment ending : List Char) : Prop where
  whole : line.toList = code ++ comment ++ ending
  ends : ∀ c ∈ ending, c = '\r' ∨ c = '\n'
  last : ∀ c, (code ++ comment).getLast? = some c → c ≠ '\r' ∧ c ≠ '\n'
  opens : comment = [] ∨ ['/', '/'] <+: comment
  first : ∀ before after, code ++ comment = before ++ '/' :: '/' :: after →
    code.length ≤ before.length

namespace Lexeme

/-- What stands before the first two slashes is the code, whatever follows. -/
theorem beforeComment_eq {code comment : List Char}
    (hcomment : comment = [] ∨ ['/', '/'] <+: comment)
    (hfirst : ∀ before after, code ++ comment = before ++ '/' :: '/' :: after →
      code.length ≤ before.length) : beforeComment (code ++ comment) = code := by
  induction code with
  | nil =>
    rcases hcomment with rfl | hslashes
    · rfl
    · exact beforeComment_of_startsComment (startsComment_iff.mpr hslashes)
  | cons c code ih =>
    have hno : startsComment (c :: (code ++ comment)) = false := by
      rw [← Bool.not_eq_true, startsComment_iff]
      rintro ⟨after, hafter⟩
      exact absurd (hfirst [] after hafter.symm) (by simp)
    rw [List.cons_append, beforeComment_cons hno, ih]
    intro before after hsame
    have hle := hfirst (c :: before) after (by rw [List.cons_append, hsame]; rfl)
    exact Nat.le_of_succ_le_succ hle

/-- A text divides before its first two slashes. -/
theorem exists_comment (cs : List Char) : ∃ comment, cs = beforeComment cs ++ comment ∧
    (comment = [] ∨ ['/', '/'] <+: comment) ∧
    ∀ before after, cs = before ++ '/' :: '/' :: after →
      (beforeComment cs).length ≤ before.length := by
  induction cs with
  | nil =>
    refine ⟨[], rfl, .inl rfl, fun before after h => Nat.zero_le _⟩
  | cons c cs ih =>
    cases hc : startsComment (c :: cs) with
    | true =>
      rw [beforeComment_of_startsComment hc]
      exact ⟨c :: cs, rfl, .inr (startsComment_iff.mp hc), fun _ _ _ => Nat.zero_le _⟩
    | false =>
      obtain ⟨comment, hwhole, hcomment, hfirst⟩ := ih
      rw [beforeComment_cons hc]
      refine ⟨comment, by rw [List.cons_append, ← hwhole], hcomment, fun before after h => ?_⟩
      cases before with
      | nil =>
        have hstarts : startsComment (c :: cs) = true := by rw [h]; rfl
        rw [hc] at hstarts
        cases hstarts
      | cons d before => exact Nat.succ_le_succ (hfirst before after (List.cons.inj h).2)

end Lexeme

namespace Instruction

open Lexeme

theorem trimLineEnd_of_forall {ending : List Char} (h : ∀ c ∈ ending, c = '\r' ∨ c = '\n') :
    trimLineEnd (String.ofList ending) = [] := by
  have hall : ∀ c ∈ ending.reverse, (decide (c = '\r') || decide (c = '\n')) = true := by
    intro c hc
    simpa using h c (List.mem_reverse.mp hc)
  rw [trimLineEnd, String.toList_ofList, List.reverse_eq_nil_iff, ← List.append_nil ending.reverse,
    List.dropWhile_append_of_pos hall]
  rfl

/-- The line end is what stands behind the last character that ends no line. -/
theorem trimLineEnd_eq {line : String} {body ending : List Char}
    (hwhole : line.toList = body ++ ending) (hending : ∀ c ∈ ending, c = '\r' ∨ c = '\n')
    (hlast : ∀ c, body.getLast? = some c → c ≠ '\r' ∧ c ≠ '\n') : trimLineEnd line = body := by
  rw [← String.ofList_toList (s := line), hwhole]
  rcases List.eq_nil_or_concat body with rfl | ⟨left, c, rfl⟩
  · exact trimLineEnd_of_forall hending
  · have hc : KeepsLine c := hlast c (by simp)
    rw [List.concat_eq_append, List.append_assoc, List.singleton_append, trimLineEnd_append hc,
      trimLineEnd_of_forall hending]

theorem exists_ending (line : String) : ∃ ending, line.toList = trimLineEnd line ++ ending ∧
    (∀ c ∈ ending, c = '\r' ∨ c = '\n') ∧
    ∀ c, (trimLineEnd line).getLast? = some c → c ≠ '\r' ∧ c ≠ '\n' := by
  let p : Char → Bool := fun c => c = '\r' || c = '\n'
  refine ⟨(line.toList.reverse.takeWhile p).reverse, ?_, fun c hc => ?_, fun c hc => ?_⟩
  · have hsplit := congrArg List.reverse
      (List.takeWhile_append_dropWhile (p := p) (l := line.toList.reverse))
    rw [List.reverse_append, List.reverse_reverse] at hsplit
    exact hsplit.symm
  · have hp := List.all_eq_true.mp List.all_takeWhile c (List.mem_reverse.mp hc)
    simpa [p] using hp
  · have hhead := List.head?_dropWhile_not p line.toList.reverse
    rw [trimLineEnd, List.getLast?_reverse] at hc
    rw [hc] at hhead
    simpa [p] using hhead

end Instruction

open Lexeme Instruction

/-- **Every line divides.** -/
theorem exists_divides (line : String) :
    ∃ code comment ending, Divides line code comment ending := by
  obtain ⟨ending, hwhole, hending, hlast⟩ := exists_ending line
  obtain ⟨comment, hbody, hcomment, hfirst⟩ := exists_comment (trimLineEnd line)
  refine ⟨beforeComment (trimLineEnd line), comment, ending, ?_, hending, ?_, hcomment, ?_⟩
  · rw [← hbody, hwhole]
  · rwa [← hbody]
  · rwa [← hbody]

/-! ## Words -/

/-- The words of the code of a line: the pieces between spaces, tabs and line feeds that are
not empty. -/
def plainWords (code : List Char) : List String :=
  ((code.splitOnP fun c => c ∈ [' ', '\t', '\n']).filter fun piece => !piece.isEmpty).map
    String.ofList

theorem isSeparator_eq : isSeparator = fun c => decide (c ∈ [' ', '\t', '\n']) := by
  funext c
  rw [Bool.eq_iff_iff, decide_eq_true_iff, isSeparator_iff]

theorem plainWords_eq (code : List Char) :
    plainWords code = (piecesOf code).map String.ofList := by
  rw [plainWords, piecesOf, isSeparator_eq]

theorem flatten_piecesOf (cs : List Char) :
    (piecesOf cs).flatten = cs.filter fun c => !isSeparator c := by
  rw [piecesOf, List.flatten_filter_not_isEmpty]
  induction cs with
  | nil => rfl
  | cons c cs ih =>
    rw [List.splitOnP_cons_eq_if_modifyHead]
    cases hc : isSeparator c with
    | true => simpa [hc] using ih
    | false =>
      obtain ⟨piece, later, hsplit⟩ :=
        List.exists_cons_of_ne_nil (List.splitOnP_ne_nil isSeparator cs)
      rw [hsplit] at ih ⊢
      simpa [hc] using ih

/-- The words hold every character of the code but the spaces, tabs and line feeds. -/
theorem flatMap_plainWords (code : List Char) :
    (plainWords code).flatMap String.toList = code.filter (· ∉ [' ', '\t', '\n']) := by
  have hflat : (plainWords code).flatMap String.toList = (piecesOf code).flatten := by
    simp [plainWords_eq, List.flatMap_def, Function.comp_def]
  rw [hflat, flatten_piecesOf, isSeparator_eq]
  simp

section Divided

variable {line : String} {code comment ending : List Char} (h : Divides line code comment ending)
include h

/-- The scanner is given the code and the comment. -/
theorem Divides.trimLineEnd_eq : trimLineEnd line = code ++ comment :=
  Instruction.trimLineEnd_eq h.whole h.ends h.last

theorem Divides.beforeComment_eq : beforeComment (code ++ comment) = code :=
  Lexeme.beforeComment_eq h.opens h.first

/-- The words that the lexer finds are those of the code. -/
theorem Divides.filterMap_word?_scan :
    (scan (code ++ comment)).filterMap word? = plainWords code := by
  rw [Lexeme.filterMap_word?_scan, wordsOf, h.beforeComment_eq, plainWords_eq]

theorem Divides.words_eq : words line = plainWords code := by
  rw [words, h.trimLineEnd_eq, h.filterMap_word?_scan]

end Divided

theorem ofLine?_eq (line : String) (number : Int) : ofLine? line number =
    (words line).head?.map fun name => ⟨number, name, (words line).tail⟩ := by
  unfold ofLine?
  split
  · rename_i hwords
    rw [hwords]
    rfl
  · rename_i hwords
    rw [hwords]
    rfl

/-- **Lines are read plainly.**  Every line divides into code, comment and line end.  The
lexer goes through code and comment in exactly one way, and its words are the pieces of
the code between spaces, tabs and line feeds.  The first of them is the name of the
instruction and the others are its arguments, a line without words gives none, and no other
character of the code is lost. -/
theorem line_reading_is_plain (line : String) (number : Int) :
    (∃ code comment ending, Divides line code comment ending) ∧
    ∀ code comment ending, Divides line code comment ending →
      (∃ lexemes, (∀ other, Scans (code ++ comment) other ↔ other = lexemes) ∧
        lexemes.filterMap word? = plainWords code) ∧
      ofLine? line number =
        (plainWords code).head?.map (fun name => ⟨number, name, (plainWords code).tail⟩) ∧
      (plainWords code).flatMap String.toList = code.filter (· ∉ [' ', '\t', '\n']) := by
  refine ⟨exists_divides line, fun code comment ending h => ⟨?_, ?_, flatMap_plainWords code⟩⟩
  · exact ⟨scan (code ++ comment), fun other => scans_iff, h.filterMap_word?_scan⟩
  · rw [ofLine?_eq, h.words_eq]

/-- Single slashes, a carriage return and a form feed stay in words; three slashes end the
code at the first of them, and the line feed behind them is in the comment. -/
theorem line_reading_at_slashes :
    Divides "a/b\r\tc/ /\x0c///x\ny\r\n" "a/b\r\tc/ /\x0c".toList "///x\ny".toList "\r\n".toList ∧
    ofLine? "a/b\r\tc/ /\x0c///x\ny\r\n" 7 = some ⟨7, "a/b\r", ["c/", "/\x0c"]⟩ := by
  have hdivides : Divides "a/b\r\tc/ /\x0c///x\ny\r\n" "a/b\r\tc/ /\x0c".toList "///x\ny".toList
      "\r\n".toList := by
    obtain ⟨_, _, _, hfirst⟩ := exists_comment ("a/b\r\tc/ /\x0c".toList ++ "///x\ny".toList)
    have hcode : beforeComment ("a/b\r\tc/ /\x0c".toList ++ "///x\ny".toList) =
        "a/b\r\tc/ /\x0c".toList := by decide
    rw [hcode] at hfirst
    exact ⟨by decide, by simp, by simp, .inr ⟨"/x\ny".toList, by decide⟩, hfirst⟩
  refine ⟨hdivides, ?_⟩
  rw [((line_reading_is_plain _ 7).2 _ _ _ hdivides).2.1]
  decide

end HackVM
