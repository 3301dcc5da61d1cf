import HackVM.Proofs.PlainReading

/-! # Printing instructions and reading them back

An instruction is printed as its name and arguments with single spaces between them
(`Instruction.text`), and nothing in it is checked or escaped.  So the line may say
something else than the instruction did: an empty word disappears, a space or a comment
inside a word cuts it, and carriage returns at the end of the line are taken for a part of
the line end.  Nothing else can go wrong (`printed_instruction_reads_back_iff`).  A slash at
the end of one word and a slash at the beginning of the next are no comment, since the
space stands between them, and a carriage return is lost only behind the last word. -/
namespace HackVM

open Lexeme Instruction

/-- A text that is read as one word: it is not empty, and holds no space, no tab, no line feed
and no two slashes in a row. -/
structure IsPlainWord (t : String) : Prop where
  nonempty : t ≠ ""
  unbroken : ∀ c ∈ t.toList, c ∉ [' ', '\t', '\n']
  uncommented : ¬ ['/', '/'] <:+: t.toList

/-! ## Words of a line are plain -/

namespace Lexeme

/-- A match of the terminal for words holds no separator and no start of a comment, not even
one that goes on behind it. -/
theorem Terminal.TakesAll.plain {rest text : List Char}
    (h : Terminal.word.TakesAll rest text) :
    (∀ c ∈ text, c ∉ [' ', '\t', '\n']) ∧ ¬ ['/', '/'] <:+: text := by
  induction text with
  | nil => exact ⟨List.forall_mem_nil _, by simp⟩
  | cons c text ih =>
    obtain ⟨⟨hseparator, hslashes⟩, htext⟩ := h
    obtain ⟨hunbroken, hopen⟩ := ih htext
    refine ⟨List.forall_mem_cons.mpr ⟨hseparator, hunbroken⟩, ?_⟩
    rw [List.infix_cons_iff, not_or]
    refine ⟨fun hprefix => hslashes ?_, hopen⟩
    rw [← List.cons_append]
    exact hprefix.trans (List.prefix_append ..)

theorem Scans.plain {cs text : List Char} {lexemes : List Lexeme} (h : Scans cs lexemes)
    (hmem : .word text ∈ lexemes) : IsPlainWord (String.ofList text) := by
  induction h with
  | nil => cases hmem
  | @cons t text' rest lexemes first next ih =>
    rcases List.mem_cons.mp hmem with hfirst | hlater
    · cases t with
      | word =>
        obtain rfl : text = text' := Lexeme.word.inj hfirst
        obtain ⟨hne, htakes, -⟩ := first.matched
        obtain ⟨hunbroken, hopen⟩ := htakes.plain
        refine ⟨fun hempty => hne ?_, ?_, ?_⟩
        · rw [← String.toList_ofList (l := text), hempty]
          rfl
        · rwa [String.toList_ofList]
        · rwa [String.toList_ofList]
      | _ => cases hfirst
    · exact ih hlater

end Lexeme

theorem isPlainWord_of_mem_words {line t : String} (h : t ∈ words line) : IsPlainWord t := by
  obtain ⟨lexeme, hlexeme, hword⟩ := List.mem_filterMap.mp h
  cases lexeme with
  | word text =>
    obtain rfl : String.ofList text = t := Option.some.inj hword
    exact (scans_scan _).plain hlexeme
  | _ => cases hword

/-! ## Plain words are read back -/

namespace IsPlainWord

variable {t : String} (h : IsPlainWord t)
include h

theorem toList_ne_nil : t.toList ≠ [] := fun hnil => h.nonempty (String.toList_eq_nil_iff.mp hnil)

theorem isSeparator_eq_false : ∀ c ∈ t.toList, isSeparator c = false := by
  intro c hc
  rw [← Bool.not_eq_true, isSeparator_iff]
  exact h.unbroken c hc

/-- No comment starts in a plain word. -/
theorem beforeComment_eq_self : beforeComment t.toList = t.toList := by
  obtain ⟨comment, hwhole, hcomment, -⟩ := exists_comment t.toList
  rcases hcomment with rfl | hslashes
  · rw [List.append_nil] at hwhole
    exact hwhole.symm
  · refine absurd (hslashes.isInfix.trans ?_) h.uncommented
    exact ⟨beforeComment t.toList, [], by rw [List.append_nil, ← hwhole]⟩

theorem wordsOf_eq : wordsOf t.toList = [t.toList] := by
  rw [wordsOf, h.beforeComment_eq_self, piecesOf_of_word h.toList_ne_nil h.isSeparator_eq_false]

end IsPlainWord

section Printing

variable {ts : List String} (hts : ∀ t ∈ ts, IsPlainWord t)
include hts

/-- **Plain words with spaces between them are told apart again**, whatever slashes stand next
to the spaces. -/
theorem wordsOf_join : wordsOf (Text.join " " ts).toList = ts.map String.toList := by
  induction ts with
  | nil => rfl
  | cons t rest ih =>
    obtain ⟨ht, hrest⟩ := List.forall_mem_cons.mp hts
    by_cases hnil : rest = []
    · subst hnil
      exact ht.wordsOf_eq
    · have hspace : ∀ c ∈ [' '], isSeparator c = true := by simp [isSeparator, isBlank]
      rw [Text.toList_join_cons (c := ' ') rfl hnil, ← List.singleton_append,
        wordsOf_append_run (List.cons_ne_nil _ _) hspace, if_pos ht.beforeComment_eq_self,
        ht.wordsOf_eq, ih hrest]
      rfl

/-- The characters of plain words are those of their line, less the spaces between them. -/
theorem filter_join : (Text.join " " ts).toList.filter (fun c => !isSeparator c) =
    ts.flatMap String.toList := by
  induction ts with
  | nil => rfl
  | cons t rest ih =>
    obtain ⟨ht, hrest⟩ := List.forall_mem_cons.mp hts
    have hkept : t.toList.filter (fun c => !isSeparator c) = t.toList :=
      List.filter_eq_self.mpr fun c hc => by rw [ht.isSeparator_eq_false c hc]; rfl
    by_cases hnil : rest = []
    · subst hnil
      rw [List.flatMap_singleton]
      exact hkept
    · rw [Text.toList_join_cons (c := ' ') rfl hnil, List.filter_append, hkept, List.flatMap_cons,
        ← ih hrest]
      rfl

end Printing

/-- The last of some words ends their line. -/
theorem getLast_isSuffix_join {ts : List String} (hne : ts ≠ []) :
    (ts.getLast hne).toList <:+ (Text.join " " ts).toList := by
  induction ts with
  | nil => exact absurd rfl hne
  | cons t rest ih =>
    by_cases hnil : rest = []
    · subst hnil
      exact List.suffix_refl _
    · rw [List.getLast_cons hnil, Text.toList_join_cons (c := ' ') rfl hnil]
      exact ((ih hnil).trans (List.suffix_cons ..)).trans (List.suffix_append ..)

theorem getLast?_join {ts : List String} (hne : ts ≠ []) (hlast : ts.getLast hne ≠ "") :
    (Text.join " " ts).toList.getLast? = (ts.getLast hne).toList.getLast? := by
  obtain ⟨front, hfront⟩ := getLast_isSuffix_join hne
  have hchars : (ts.getLast hne).toList ≠ [] := fun hnil => hlast (String.toList_eq_nil_iff.mp hnil)
  rw [← hfront, List.getLast?_append, List.getLast?_eq_some_getLast hchars, Option.some_or]

/-! ## Line ends -/

/-- What of a line does not come into its words: separators, and what follows the code.  A
carriage return that ends the line is among the latter. -/
theorem exists_lost (line : String) : ∃ lost : List Char,
    line.toList.filter (fun c => !isSeparator c) =
        (words line).flatMap String.toList ++ lost.filter (fun c => !isSeparator c) ∧
      (line.toList.getLast? = some '\r' → '\r' ∈ lost) := by
  obtain ⟨ending, hwhole, -, hlast⟩ := exists_ending line
  obtain ⟨comment, hbody, -, -⟩ := exists_comment (trimLineEnd line)
  refine ⟨comment ++ ending, ?_, fun hreturn => List.mem_append_right _ ?_⟩
  · have hwords : (words line).flatMap String.toList =
        (beforeComment (trimLineEnd line)).filter fun c => !isSeparator c := by
      rw [words_eq_wordsOf, ← flatten_piecesOf, wordsOf]
      simp [List.flatMap_def, Function.comp_def]
    rw [hwords, ← List.filter_append, ← List.append_assoc, ← hbody, ← hwhole]
  · by_cases hnil : ending = []
    · rw [hwhole, hnil, List.append_nil] at hreturn
      exact absurd rfl (hlast '\r' hreturn).1
    · rw [hwhole, List.getLast?_append, List.getLast?_eq_some_getLast hnil, Option.some_or] at hreturn
      exact Option.some.inj hreturn ▸ List.getLast_mem hnil

/-- A line whose words hold all its characters but separators does not end in a carriage
return. -/
theorem getLast?_ne_return {line : String}
    (h : line.toList.filter (fun c => !isSeparator c) = (words line).flatMap String.toList) :
    line.toList.getLast? ≠ some '\r' := by
  intro hreturn
  obtain ⟨lost, hwhole, hmem⟩ := exists_lost line
  have hnone : lost.filter (fun c => !isSeparator c) = [] :=
    List.append_right_eq_self.mp (hwhole.symm.trans h)
  have hseparator := List.filter_eq_nil_iff.mp hnone '\r' (hmem hreturn)
  exact hseparator (by decide)

/-! ## Instructions -/

theorem ofLine?_eq_some_iff {line : String} {number : Int} {i : Instruction} :
    ofLine? line number = some i ↔ number = i.line ∧ words line = i.name :: i.arguments := by
  obtain ⟨n, name, arguments⟩ := i
  unfold ofLine?
  split
  · rename_i hwords
    simp [hwords]
  · rename_i hwords
    simp [hwords]

/-- **An instruction is read back from its line exactly when its words are plain** and the last
of them does not end in a carriage return. -/
theorem printed_instruction_reads_back_iff (i : Instruction) :
    ofLine? i.text i.line = some i ↔
      (∀ t ∈ i.name :: i.arguments, IsPlainWord t) ∧
        ((i.name :: i.arguments).getLast (List.cons_ne_nil _ _)).toList.getLast? ≠ some '\r' := by
  have hne : i.name :: i.arguments ≠ [] := List.cons_ne_nil _ _
  have hlast (hplain : ∀ t ∈ i.name :: i.arguments, IsPlainWord t) :
      i.text.toList.getLast? = ((i.name :: i.arguments).getLast hne).toList.getLast? :=
    getLast?_join hne (hplain _ (List.getLast_mem hne)).nonempty
  rw [ofLine?_eq_some_iff, and_iff_right rfl]
  constructor
  · intro hwords
    have hplain : ∀ t ∈ i.name :: i.arguments, IsPlainWord t := by
      rw [← hwords]
      exact fun t ht => isPlainWord_of_mem_words ht
    refine ⟨hplain, ?_⟩
    rw [← hlast hplain]
    apply getLast?_ne_return
    rw [hwords]
    exact filter_join hplain
  · rintro ⟨hplain, hreturn⟩
    have hends : EndsOpen i.text := by
      intro c hc
      rw [hlast hplain] at hc
      refine ⟨fun hr => hreturn (hr ▸ hc), fun hfeed => ?_⟩
      -- a line feed would be a separator in the last word
      exact (hplain _ (List.getLast_mem hne)).unbroken c (List.mem_of_getLast? hc) (by simp [hfeed])
    rw [words_eq_wordsOf, trimLineEnd_of_endsOpen hends, Instruction.text, wordsOf_join hplain]
    simp [Function.comp_def]

/-- Slashes next to a space are no comment, and a carriage return stays before a space. -/
example : ofLine? (text ⟨7, "a/", ["/b\r", "/"]⟩) 7 = some ⟨7, "a/", ["/b\r", "/"]⟩ := by
  decide +kernel

end HackVM
