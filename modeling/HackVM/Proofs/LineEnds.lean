import HackVM.Proofs.NumberedLines
import HackVM.Proofs.SourceFiles

/-! # Files with carriage returns

The carriage return of a line end is taken off at one of two places: when a file is read, it
becomes part of the line end, and when a line is read, it is trimmed.  In a text whose
carriage returns all stand before line feeds nothing else happens to them, so it does not
matter at which place they go: the lines of the text and the lines of the file are the same
when they are trimmed (`Text.trimmedLines_unifyLineEnds`).  So a file that holds such a text
is emitted as the text itself would be, with the same faults on the same lines
(`file_emitted_as_its_text`). -/
namespace HackVM

open Instruction

namespace Text

/-- Behind every carriage return stands a line feed. -/
def ReturnsBeforeFeeds (cs : List Char) : Prop :=
  ∀ k : Nat, cs[k]? = some '\r' → cs[k + 1]? = some '\n'

theorem ReturnsBeforeFeeds.tail {c : Char} {cs : List Char} (h : ReturnsBeforeFeeds (c :: cs)) :
    ReturnsBeforeFeeds cs := fun k => h (k + 1)

instance (cs : List Char) : Decidable (ReturnsBeforeFeeds cs) :=
  decidable_of_iff (∀ k < cs.length, cs[k]? = some '\r' → cs[k + 1]? = some '\n')
    ⟨fun h k hk => h k (List.getElem?_eq_some_iff.mp hk).1 hk, fun h k _ => h k⟩

/-! ## Trimmed lines -/

/-- The lines of a text without the carriage returns at their ends. -/
def trimmedLines (cs : List Char) : List (List Char) :=
  (pieces '\n' cs).map fun piece => trimLineEnd (String.ofList piece)

theorem trimmedLines_feed (cs : List Char) : trimmedLines ('\n' :: cs) = [] :: trimmedLines cs := rfl

theorem trimmedLines_return_feed (cs : List Char) :
    trimmedLines ('\r' :: '\n' :: cs) = [] :: trimmedLines cs := by
  rw [trimmedLines, pieces_cons_of_ne (by decide)]
  rfl

/-- A character that ends no line is kept at its place. -/
theorem trimmedLines_cons {c : Char} (hc : KeepsLine c) (cs : List Char) :
    trimmedLines (c :: cs) = (trimmedLines cs).modifyHead (c :: ·) := by
  rw [trimmedLines, trimmedLines, pieces_cons_of_ne hc.2]
  cases pieces '\n' cs with
  | nil => rfl
  | cons piece rest =>
    rw [List.modifyHead_cons, List.map_cons, List.map_cons, List.modifyHead_cons]
    exact congrArg (· :: _) (trimLineEnd_append hc [] piece)

/-- **Unifying the line ends of a text changes no trimmed line.** -/
theorem trimmedLines_unifyLineEnds {cs : List Char} (h : ReturnsBeforeFeeds cs) :
    trimmedLines (unifyLineEnds cs) = trimmedLines cs := by
  fun_induction unifyLineEnds cs with
  | case1 => rfl
  | case2 cs ih => rw [trimmedLines_feed, trimmedLines_return_feed, ih h.tail.tail]
  | case3 c cs hpair ih =>
    by_cases hreturn : c = '\r'
    · -- a carriage return that no line feed follows
      subst hreturn
      have hfeed : cs[0]? = some '\n' := h 0 rfl
      cases cs with
      | nil => cases hfeed
      | cons d cs =>
        cases hfeed
        exact (hpair cs rfl rfl).elim
    · rw [if_neg hreturn]
      by_cases hfeed : c = '\n'
      · rw [hfeed, trimmedLines_feed, trimmedLines_feed, ih h.tail]
      · rw [trimmedLines_cons ⟨hreturn, hfeed⟩, trimmedLines_cons ⟨hreturn, hfeed⟩, ih h.tail]

end Text

/-! ## Instructions -/

/-- Only what is left of a line when it is trimmed is read. -/
theorem Instruction.ofLinesFrom_congr {n : Int} {lines lines' : List String}
    (h : lines.map trimLineEnd = lines'.map trimLineEnd) :
    ofLinesFrom n lines = ofLinesFrom n lines' := by
  induction lines generalizing n lines' with
  | nil => rw [List.map_eq_nil_iff.mp h.symm]
  | cons line lines ih =>
    cases lines' with
    | nil => cases h
    | cons line' lines' =>
      obtain ⟨hline, hrest⟩ := List.cons_eq_cons.mp h
      have hwords : words line = words line' := by rw [words, words, hline]
      rw [ofLinesFrom, ofLinesFrom, ofLine?, ofLine?, hwords, ih hrest]

theorem Instruction.ofText_unifyLineEnds {text : String}
    (h : Text.ReturnsBeforeFeeds text.toList) :
    ofText (String.ofList (Text.unifyLineEnds text.toList)) = ofText text := by
  apply ofLinesFrom_congr
  rw [Text.lines, Text.lines, List.map_map, List.map_map, String.toList_ofList]
  exact Text.trimmedLines_unifyLineEnds h

/-! ## Files -/

/-- A module is emitted from the instructions of its lines. -/
theorem Emission.module_congr {m : String} {lines lines' : List String}
    (h : Instruction.ofLines lines = Instruction.ofLines lines') :
    module m lines = module m lines' := by
  unfold module
  rw [h]

/-- **A file is emitted as the text that it holds.**  Take any workbench and emitter, any path
and any text whose carriage returns all stand before line feeds.  If the file holds the text
in UTF-8, then emitting the file leaves the same workbench and the same emitter, adds the
same code and ends in the same way as emitting the lines of the text under the name of the
file: with the same fault, hence the same kind, line, module and message, or else with the
name of the module. -/
theorem file_emitted_as_its_text (t : FileTree) (b : Workbench) (w : Nat) {p : Path}
    {text : String} (hfile : t.readBytes p = .ok (Text.Utf8.encode text))
    (hreturns : Text.ReturnsBeforeFeeds text.toList) :
    (b.perform t w (.file p)).1 = (b.perform t w (.module p.stem (Text.lines text))).1 ∧
      (b.perform t w (.file p)).2 =
        { (b.perform t w (.module p.stem (Text.lines text))).2 with
          result := (b.perform t w (.module p.stem (Text.lines text))).2.result.map
            fun _ => .name p.stem } := by
  have hread := FileTree.readText_of_encode hfile
  have hmodule (e : Emitter) : (t.moduleAt p).emission e =
      Emission.module p.stem (Text.lines text) e := by
    rw [FileTree.moduleAt, FileTree.textOf_eq hread]
    exact congrFun (Emission.module_congr (ofText_unifyLineEnds hreturns)) e
  have houtcome (e : Emitter) : (Task.file p).emission t e =
      { (Task.module p.stem (Text.lines text)).emission t e with
        result := ((Task.module p.stem (Text.lines text)).emission t e).result.map
          fun _ => .name p.stem } := by
    rw [Task.emission_file, Emission.file_of_ok hread, hmodule, Task.emission_module]
    cases (Emission.module p.stem (Text.lines text) e).result <;> rfl
  constructor
  · apply Workbench.perform_congr
    · rw [houtcome]
    · rw [houtcome]
  · rw [Workbench.outcome_perform, Workbench.outcome_perform, houtcome]

/-- A text with carriage returns behind a comment, on a line of their own and behind an
instruction. -/
def textWithReturns : String := "add // one\r\n\r\n\t//two\r\npop heap 2\r\n"

/-- A tree with that text in the file `Main.vm`. -/
def fileWithReturns : FileTree :=
  (FileTree.bare []).insert ["Main.vm"] (.file (Text.Utf8.encode textWithReturns))

/-- The fault of the fourth line is found there, whether the text comes from a file or not. -/
theorem file_emitted_with_returns :
    fileWithReturns.readBytes ⟨.relative, ["Main.vm"]⟩ = .ok (Text.Utf8.encode textWithReturns) ∧
      Text.ReturnsBeforeFeeds textWithReturns.toList ∧
      ((Workbench.new 1 []).perform fileWithReturns 0 (.file ⟨.relative, ["Main.vm"]⟩)).1 =
        ((Workbench.new 1 []).perform fileWithReturns 0
          (.module "Main" (Text.lines textWithReturns))).1 ∧
      ((Workbench.new 1 []).perform fileWithReturns 0
          (.file ⟨.relative, ["Main.vm"]⟩)).2.result =
        .error (.refused ⟨.unknownSegment "heap" "pop heap 2", some 4, some "Main"⟩) := by
  have hread : fileWithReturns.readBytes ⟨.relative, ["Main.vm"]⟩ =
      .ok (Text.Utf8.encode textWithReturns) := rfl
  have hreturns : Text.ReturnsBeforeFeeds textWithReturns.toList := by decide +kernel
  have hstem : Path.stem ⟨.relative, ["Main.vm"]⟩ = "Main" := by decide
  have hlines : Instruction.ofLines (Text.lines textWithReturns) =
      [⟨1, "add", []⟩, ⟨4, "pop", ["heap", "2"]⟩] := by decide +kernel
  obtain ⟨hstate, houtcome⟩ :=
    file_emitted_as_its_text fileWithReturns (Workbench.new 1 []) 0 hread hreturns
  rw [hstem] at hstate houtcome
  refine ⟨hread, hreturns, hstate, ?_⟩
  rw [houtcome, Workbench.outcome_perform, Task.emission_module,
    Emission.module_of_name (by decide), hlines]
  rfl

end HackVM
