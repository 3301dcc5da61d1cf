import HackVM.Proofs.DeclaredNames
import HackVM.Proofs.Transcript

/-! # Labels belong to the nearest function

Which function a label belongs to is remembered by the emitter and is never written down, so
it could be left over from a module that failed midway.  It is not: the symbol of a label or
a jump is made of the name in the nearest `function` instruction before it in its own module,
or else of the name of the module, and of the label, and both can be read back from it
(`labels_scoped_to_nearest_function`).  The return label of a call has the same scope. -/
namespace HackVM

open Asm

namespace Passage

/-- The name in the nearest `function` instruction before an instruction, or that of its
module if there is none. -/
def scopeName (p : Passage) : String := (lastFunction? p.before).getD p.module

/-- An instruction that declares a label or jumps to one. -/
def IsFlow (p : Passage) : Prop := p.instruction.name ∈ ["label", "goto", "if-goto"]

instance (p : Passage) : Decidable p.IsFlow := inferInstanceAs (Decidable (_ ∈ _))

end Passage

/-- The lines of a label, a jump or a conditional jump that uses a symbol. -/
def flowLines (name symbol : String) : List String :=
  if name = "label" then ["(" ++ symbol ++ ")"]
  else if name = "goto" then ["@" ++ symbol, "0;JMP"]
  else ["@SP", "M=M-1", "A=M", "D=M", "@" ++ symbol, "D;JNE"]

/-- The symbol can be read back from the lines. -/
theorem flowLines_inj {name s s' : String} : flowLines name s = flowLines name s' ↔ s = s' := by
  unfold flowLines
  split_ifs <;> simp

namespace Passage

variable {p : Passage} {e : Emitter} (h : p.WrittenFrom e)
include h

theorem WrittenFrom.name_eq : e.scope.name p.module = p.scopeName := by
  rw [← Scope.name_owner h.valid, scopeName, ← h.scope]
  unfold Scope.owner
  cases e.scope.function <;> rfl

theorem WrittenFrom.isSymbolName_scopeName : isSymbolName p.scopeName = true := by
  rw [← h.name_eq]
  exact Scope.isSymbolName_name h.valid h.module

/-- What is written for a label or a jump. -/
theorem WrittenFrom.lines_of_isFlow (hflow : p.IsFlow) :
    isSymbolName p.instruction.first = true ∧
      p.lines = flowLines p.instruction.name
        (Symbol.labelText p.scopeName p.instruction.first) := by
  obtain ⟨c, hread, hcode⟩ := h.command
  have hname := Command.name_of_readFrom hread
  rw [IsFlow, hname] at hflow
  rw [← h.name_eq, hname]
  cases c with
  | label name | goto name | ifGoto name =>
    obtain ⟨-, harguments, hvalid⟩ := hread
    rw [Instruction.first_of_arguments harguments, lines, ← Except.ok.inj hcode]
    exact ⟨hvalid, rfl⟩
  | operate op => exact absurd hflow (Command.operationName_notMem (by decide) op)
  | push _ _ | pop _ _ | function _ _ | call _ _ | ret => simp [Command.instructionName] at hflow

/-- What is written for a call. -/
theorem WrittenFrom.exists_lines_of_call (hcall : p.instruction.name = "call") :
    ∃ name depth number, p.code = Code.callLines name depth p.scopeName number := by
  obtain ⟨c, hread, hcode⟩ := h.command
  obtain ⟨name, rfl⟩ := Command.exists_call_of_readFrom hread hcall
  rw [← h.name_eq]
  exact ⟨name, _, e.calls, Code.call_eq_ok hcode⟩

end Passage

/-- The text of a return label. -/
theorem text_returnSite (scope : String) (number : Nat) :
    (Symbol.returnSite scope number).text = scope ++ "$$ret." ++ Text.decimal number := by
  apply String.toList_injective
  simp [Symbol.text, Symbol.internalText]

/-- The first line of a call names the return label, and the last one defines it. -/
theorem ends_of_callLines (name : String) (depth : Int) (scope : String) (number : Nat) :
    ((Code.callLines name depth scope number).map Line.text).head? =
        some ("@" ++ (scope ++ "$$ret." ++ Text.decimal number)) ∧
      ((Code.callLines name depth scope number).map Line.text).getLast? =
        some ("(" ++ (scope ++ "$$ret." ++ Text.decimal number) ++ ")") := by
  rw [← text_returnSite]
  constructor
  · rfl
  · rw [Code.callLines, List.map_append, List.getLast?_append]
    rfl

/-- **Labels are scoped to the nearest function.**  Let a fresh emitter start programs and
translate modules in any order, and let any of them fail.  What it adds to the listing is
what the transcript says, and for the accepted instructions in it:

* a label, a jump or a conditional jump with the name `L` uses the symbol `P$L`, where `P` is
  the name in the nearest `function` instruction before it in the same module, or the name
  of the module if there is none;
* two of them, wherever they stand, use the same symbol exactly when they have the same `P`
  and the same `L`;
* the return label of a call, which its first line loads and its last line defines, starts
  with `P`. -/
theorem labels_scoped_to_nearest_function (t : FileTree) (prologue : List String)
    (jobs : List Job) :
    (Workbench.performAll t 0 (jobs.map Job.task) (.new 1 prologue)).listing.lines =
        prologue ++ (transcript jobs).flatMap Entry.lines ∧
      (∀ p, .instruction p ∈ transcript jobs → p.IsFlow →
        ∀ s, p.lines = flowLines p.instruction.name s ↔
          s = p.scopeName ++ "$" ++ p.instruction.first) ∧
      (∀ p p', .instruction p ∈ transcript jobs → p.IsFlow →
        .instruction p' ∈ transcript jobs → p'.IsFlow →
        ∀ s s', p.lines = flowLines p.instruction.name s →
          p'.lines = flowLines p'.instruction.name s' →
          (s = s' ↔ p.scopeName = p'.scopeName ∧ p.instruction.first = p'.instruction.first)) ∧
      (∀ p, .instruction p ∈ transcript jobs → p.instruction.name = "call" →
        ∃ n : Nat,
          p.lines.head? = some ("@" ++ (p.scopeName ++ "$$ret." ++ Text.decimal n)) ∧
          p.lines.getLast? = some ("(" ++ (p.scopeName ++ "$$ret." ++ Text.decimal n) ++ ")")) := by
  have hsymbol : ∀ p, .instruction p ∈ transcript jobs → p.IsFlow →
      ∀ s, p.lines = flowLines p.instruction.name s ↔
        s = Symbol.labelText p.scopeName p.instruction.first := by
    intro p hp hflow s
    obtain ⟨e, hwritten⟩ := exists_writtenFrom hp
    rw [(hwritten.lines_of_isFlow hflow).2, flowLines_inj, eq_comm]
  refine ⟨lines_performAll_new t prologue jobs, hsymbol, ?_, ?_⟩
  · intro p p' hp hflow hp' hflow' s s' hs hs'
    obtain ⟨e, hwritten⟩ := exists_writtenFrom hp
    obtain ⟨e', hwritten'⟩ := exists_writtenFrom hp'
    rw [(hsymbol p hp hflow s).mp hs, (hsymbol p' hp' hflow' s').mp hs']
    constructor
    · exact Symbol.labelText_injective hwritten.isSymbolName_scopeName
        hwritten'.isSymbolName_scopeName
    · rintro ⟨hscope, hlabel⟩
      rw [hscope, hlabel]
  · intro p hp hcall
    obtain ⟨e, hwritten⟩ := exists_writtenFrom hp
    obtain ⟨name, depth, number, hcode⟩ := hwritten.exists_lines_of_call hcall
    rw [Passage.lines, hcode]
    exact ⟨number, ends_of_callLines name depth p.scopeName number⟩

/-- A module that fails inside its function `f.g` leaves nothing behind: the jump at the
beginning of the next module goes to a label of that module.  A function of the same name in
the next module does share its labels with the failed one. -/
theorem labels_scoped_after_failed_module :
    ∃ (jobs : List Job) (p p' q : Passage),
      jobs = [.module "Foo" ["function f.g 0", "label L", "push heap 0"],
        .module "Bar" ["goto L", "function f.g 1", "if-goto L"]] ∧
      (.instruction p ∈ transcript jobs ∧ p.module = "Foo" ∧ p.instruction = ⟨2, "label", ["L"]⟩) ∧
      (.instruction p' ∈ transcript jobs ∧ p'.module = "Bar" ∧
        p'.instruction = ⟨1, "goto", ["L"]⟩) ∧
      (.instruction q ∈ transcript jobs ∧ q.module = "Bar" ∧
        q.instruction = ⟨3, "if-goto", ["L"]⟩) ∧
      p.lines = flowLines "label" "f.g$L" ∧ p'.lines = flowLines "goto" "Bar$L" ∧
      q.lines = flowLines "if-goto" "f.g$L" := by
  let p : Passage := ⟨"Foo", [⟨1, "function", ["f.g", "0"]⟩], ⟨2, "label", ["L"]⟩,
    [.label (.label "f.g" "L")]⟩
  let p' : Passage := ⟨"Bar", [], ⟨1, "goto", ["L"]⟩, Code.jumpTo (.label "Bar" "L")⟩
  let q : Passage := ⟨"Bar", [⟨1, "goto", ["L"]⟩, ⟨2, "function", ["f.g", "1"]⟩],
    ⟨3, "if-goto", ["L"]⟩, Code.jumpIf (.label "f.g" "L")⟩
  refine ⟨_, p, p', q, rfl, ?_⟩
  generalize hj : ([_, _] : List Job) = jobs
  obtain ⟨-, hsymbol, -⟩ := labels_scoped_to_nearest_function (.bare []) [] jobs
  have hp : .instruction p ∈ transcript jobs := by
    rw [← hj]
    decide +kernel
  have hp' : .instruction p' ∈ transcript jobs := by
    rw [← hj]
    decide +kernel
  have hq : .instruction q ∈ transcript jobs := by
    rw [← hj]
    decide +kernel
  exact ⟨⟨hp, rfl, rfl⟩, ⟨hp', rfl, rfl⟩, ⟨hq, rfl, rfl⟩,
    (hsymbol p hp (by decide) _).mpr (by decide), (hsymbol p' hp' (by decide) _).mpr (by decide),
    (hsymbol q hq (by decide) _).mpr (by decide)⟩

end HackVM
