import HackVM.Proofs.FirstRefusal
import HackVM.Proofs.SourceWords

/-! # The layout of a source text does not matter

A module is what its instructions say.  The number of a line is used for one thing
only, which is to report a fault: an instruction on another line does the same, and
fails with the same fault on that line (`Emission.instruction_onLine`).  So two texts
whose instructions say the same are emitted alike (`module_independent_of_formatting`):
the same code is added and the same is remembered, and if one fails then so does the
other, at the corresponding instruction and with the same diagnostic but for the line.
Comments, lines without instructions and the width of blanks are such differences
(`Reformatted.sameContent`). -/
namespace HackVM

open Asm

/-! ## An instruction on another line -/

namespace Instruction

/-- The instruction as it would stand on another line. -/
def onLine (n : Int) (i : Instruction) : Instruction := { i with line := n }

/-- What an instruction says, without the number of its line. -/
def content (i : Instruction) : String × List String := (i.name, i.arguments)

theorem eq_onLine_of_content {i i' : Instruction} (h : i.content = i'.content) :
    i' = i.onLine i'.line := by
  obtain ⟨hname, harguments⟩ := Prod.mk.inj h
  simp only [onLine, hname, harguments]

end Instruction

/-- The fault as it would be found on another line. -/
def Fault.onLine (n : Int) : Fault → Fault
  | .refused d => .refused { d with line := some n }
  | fault => fault

section OnLine

variable (n : Int) (i : Instruction)

theorem Instruction.readSegment_onLine (s : String) :
    (i.onLine n).readSegment s = (i.readSegment s).mapError (Fault.onLine n) := by
  unfold readSegment
  cases Segment.ofName? s <;> rfl

theorem Instruction.readIndex_onLine (s : String) :
    (i.onLine n).readIndex s = (i.readIndex s).mapError (Fault.onLine n) := by
  unfold readIndex
  split
  · split <;> rfl
  · rfl

theorem Instruction.readSymbol_onLine (s : String) :
    (i.onLine n).readSymbol s = (i.readSymbol s).mapError (Fault.onLine n) := by
  unfold readSymbol
  split <;> rfl

namespace Command

theorem ofStack_onLine : ofStack (i.onLine n) = (ofStack i).mapError (Fault.onLine n) := by
  have harguments : (i.onLine n).arguments = i.arguments := rfl
  unfold ofStack
  rw [harguments]
  split
  · rename_i s t _
    rw [i.readSegment_onLine, i.readIndex_onLine]
    cases i.readSegment s with
    | error fault => rfl
    | ok segment =>
      cases i.readIndex t with
      | error fault => rfl
      | ok index =>
        have hname : (i.onLine n).name = i.name := rfl
        simp only [mapError_ok, ok_bind, hname]
        cases segment.indexProblem? (i.name = "pop") index with
        | some problem => rfl
        | none =>
          by_cases hpush : i.name = "push"
          · simp only [if_pos hpush]; rfl
          · simp only [if_neg hpush]; rfl
  · rfl

theorem ofArithmetic_onLine :
    ofArithmetic (i.onLine n) = (ofArithmetic i).mapError (Fault.onLine n) := by
  have harguments : (i.onLine n).arguments = i.arguments := rfl
  have hname : (i.onLine n).name = i.name := rfl
  unfold ofArithmetic
  rw [harguments, hname]
  split
  · cases Operation.ofName? i.name <;> rfl
  · rfl

theorem ofFlow_onLine : ofFlow (i.onLine n) = (ofFlow i).mapError (Fault.onLine n) := by
  have harguments : (i.onLine n).arguments = i.arguments := rfl
  have hname : (i.onLine n).name = i.name := rfl
  unfold ofFlow
  rw [harguments]
  split
  · rename_i s _
    rw [i.readSymbol_onLine, hname]
    cases i.readSymbol s with
    | error fault => rfl
    | ok name =>
      by_cases hlabel : i.name = "label"
      · simp only [if_pos hlabel]; rfl
      · by_cases hgoto : i.name = "goto"
        · simp only [if_neg hlabel, if_pos hgoto]; rfl
        · simp only [if_neg hlabel, if_neg hgoto]; rfl
  · rfl

theorem ofFunction_onLine :
    ofFunction (i.onLine n) = (ofFunction i).mapError (Fault.onLine n) := by
  have harguments : (i.onLine n).arguments = i.arguments := rfl
  have hname : (i.onLine n).name = i.name := rfl
  unfold ofFunction
  rw [harguments, hname]
  split
  · split <;> rfl
  · split
    · rename_i s t _
      rw [i.readSymbol_onLine, i.readIndex_onLine]
      cases i.readSymbol s with
      | error fault => rfl
      | ok name =>
        cases i.readIndex t with
        | error fault => rfl
        | ok count =>
          by_cases hfunction : i.name = "function"
          · simp only [if_pos hfunction]; rfl
          · simp only [if_neg hfunction]; rfl
    · rfl

/-- Reading an instruction does the same on another line. -/
theorem ofInstruction_onLine :
    ofInstruction (i.onLine n) = (ofInstruction i).mapError (Fault.onLine n) := by
  have hname : (i.onLine n).name = i.name := rfl
  unfold ofInstruction
  rw [hname]
  split
  · rename_i family _
    cases family with
    | empty => rfl
    | stack => exact ofStack_onLine n i
    | arithmetic => exact ofArithmetic_onLine n i
    | flow => exact ofFlow_onLine n i
    | function => exact ofFunction_onLine n i
  · rfl

end Command

/-- A command that was read fails only when its code is beyond the limit on digits. -/
theorem Command.toClass_of_code_error {c : Command} {i : Instruction} (hc : c.ReadFrom i)
    {m : String} {e : Emitter} {fault : Fault} (h : c.code m e = .error fault) :
    fault.toClass = .beyondLimit := by
  have hdecides := Command.decides_code hc m e
  rw [h] at hdecides
  obtain ⟨hfirst, -⟩ := hdecides
  unfold Instruction.writingRequirements at hfirst
  generalize fault.toClass = k at hfirst ⊢
  split at hfirst
  · cases hfirst with
    | here => rfl
    | later _ hrest => cases hrest
  · cases hfirst

theorem Fault.onLine_of_beyondLimit {fault : Fault} (h : fault.toClass = .beyondLimit) :
    fault.onLine n = fault := by
  cases fault with
  | refused d => cases h
  | _ => rfl

/-- **An instruction does the same on another line**, but for the line of its fault. -/
theorem Emission.instruction_onLine (m : String) (e : Emitter) :
    instruction m (i.onLine n) e =
      ⟨(instruction m i e).result.mapError (Fault.onLine n), (instruction m i e).code,
        (instruction m i e).emitter⟩ := by
  have hread := Command.ofInstruction_onLine n i
  cases hc : Command.ofInstruction i with
  | error fault =>
    rw [hc] at hread
    rw [instruction_of_error hread, instruction_of_error hc]
    rfl
  | ok c =>
    rw [hc] at hread
    rw [instruction_of_ok hread, instruction_of_ok hc, command_apply]
    cases hl : c.code m e with
    | ok lines => rfl
    | error fault =>
      have hsame := Fault.onLine_of_beyondLimit n
        (Command.toClass_of_code_error (Command.readFrom_of_ofInstruction hc) hl)
      show _ = (⟨.error (fault.onLine n), [], c.next e⟩ : Outcome Unit)
      rw [hsame]

end OnLine

/-! ## Instructions that say the same -/

/-- The instruction at position `k` is refused, and all before it are accepted. -/
structure RefusedAt (is : List Instruction) (k : Nat) (i : Instruction) : Prop where
  here : is[k]? = some i
  accepted : ∀ j ∈ is.take k, j.Accepted
  refused : ¬ i.Accepted

theorem RefusedAt.head {i : Instruction} (h : ¬ i.Accepted) (is : List Instruction) :
    RefusedAt (i :: is) 0 i :=
  ⟨rfl, List.forall_mem_nil _, h⟩

theorem RefusedAt.cons {is : List Instruction} {k : Nat} {i j : Instruction}
    (h : RefusedAt is k i) (hj : j.Accepted) : RefusedAt (j :: is) (k + 1) i := by
  refine ⟨h.here, fun x hx => ?_, h.refused⟩
  rcases List.mem_cons.mp hx with rfl | hx
  · exact hj
  · exact h.accepted x hx

/-- How two runs of instructions end that say the same: both succeed, or both stop at the
same position, with one fault on two lines. -/
inductive AlikeResults (is is' : List Instruction) :
    Except Fault Unit → Except Fault Unit → Prop where
  | success : AlikeResults is is' (.ok ()) (.ok ())
  | failure {k : Nat} {i i' : Instruction} {fault : Fault} (h : RefusedAt is k i)
    (h' : RefusedAt is' k i') (hline : fault.LiesOn i.line) :
    AlikeResults is is' (.error fault) (.error (fault.onLine i'.line))

theorem AlikeResults.cons {is is' : List Instruction} {r r' : Except Fault Unit}
    (h : AlikeResults is is' r r') {j j' : Instruction} (hj : j.Accepted) (hj' : j'.Accepted) :
    AlikeResults (j :: is) (j' :: is') r r' := by
  cases h with
  | success => exact .success
  | failure h h' hline => exact .failure (h.cons hj) (h'.cons hj') hline

/-- **Instructions that say the same are emitted alike.** -/
theorem instructions_alike (m : String) {is is' : List Instruction}
    (h : is.map Instruction.content = is'.map Instruction.content) (e : Emitter) :
    (Emission.instructions m is e).code = (Emission.instructions m is' e).code ∧
      (Emission.instructions m is e).emitter = (Emission.instructions m is' e).emitter ∧
      AlikeResults is is' (Emission.instructions m is e).result
        (Emission.instructions m is' e).result := by
  induction is generalizing is' e with
  | nil =>
    cases is' with
    | nil => exact ⟨rfl, rfl, .success⟩
    | cons i' is' => cases h
  | cons i is ih =>
    cases is' with
    | nil => cases h
    | cons i' is' =>
      obtain ⟨hi, hrest⟩ := List.cons_eq_cons.mp h
      have honLine := Emission.instruction_onLine i'.line i m e
      rw [← Instruction.eq_onLine_of_content hi] at honLine
      rw [Emission.instructions, Emission.instructions]
      cases hr : (Emission.instruction m i e).result with
      | error fault =>
        have hr' : (Emission.instruction m i' e).result = .error (fault.onLine i'.line) := by
          rw [honLine, hr]
          rfl
        have hrefused : ¬ i.Accepted := by
          rw [Instruction.accepted_iff m e, hr]
          intro h
          cases h
        have hrefused' : ¬ i'.Accepted := by
          rw [Instruction.accepted_iff m e, hr']
          intro h
          cases h
        have hdecides := Emission.decides_instruction m i e
        rw [hr] at hdecides
        rw [Emission.bind_error hr, Emission.bind_error hr', honLine]
        exact ⟨rfl, rfl, .failure (.head hrefused is) (.head hrefused' is') hdecides.2⟩
      | ok _ =>
        have hr' : (Emission.instruction m i' e).result = .ok () := by
          rw [honLine, hr]
          rfl
        obtain ⟨hcode, hemitter, hresult⟩ := ih hrest (Emission.instruction m i e).emitter
        rw [Emission.bind_ok hr, Emission.bind_ok hr', honLine]
        refine ⟨congrArg ((Emission.instruction m i e).code ++ ·) hcode, hemitter, ?_⟩
        exact hresult.cons ((Instruction.accepted_iff m e).mpr hr)
          ((Instruction.accepted_iff m e).mpr hr')

/-! ## Source texts that say the same -/

/-- Two source texts whose instructions say the same, whatever lines they stand on. -/
def SameContent (lines lines' : List String) : Prop :=
  (Instruction.ofLines lines).map Instruction.content =
    (Instruction.ofLines lines').map Instruction.content

namespace Instruction

/-- What a line says, if it says anything. -/
def lineContent? (line : String) : Option (String × List String) :=
  match words line with
  | [] => none
  | name :: arguments => some (name, arguments)

theorem map_content_ofLine? (line : String) (n : Int) :
    (ofLine? line n).map content = lineContent? line := by
  unfold ofLine? lineContent?
  cases words line <;> rfl

theorem map_content_ofLinesFrom (n : Int) (lines : List String) :
    (ofLinesFrom n lines).map content = lines.filterMap lineContent? := by
  induction lines generalizing n with
  | nil => rfl
  | cons line lines ih =>
    rw [ofLinesFrom, List.map_append, ih, ← Option.toList_map, map_content_ofLine?,
      List.filterMap_cons]
    cases lineContent? line <;> rfl

theorem le_line_of_mem_ofLinesFrom {n : Int} {lines : List String} {i : Instruction}
    (h : i ∈ ofLinesFrom n lines) : n ≤ i.line := by
  induction lines generalizing n with
  | nil => cases h
  | cons line lines ih =>
    rw [ofLinesFrom, List.mem_append, Option.mem_toList] at h
    rcases h with h | h
    · exact Int.le_of_eq (line_of_ofLine? h).symm
    · have hnext := ih h
      omega

end Instruction

theorem sameContent_iff {lines lines' : List String} :
    SameContent lines lines' ↔
      lines.filterMap Instruction.lineContent? = lines'.filterMap Instruction.lineContent? := by
  rw [SameContent, Instruction.ofLines, Instruction.ofLines, Instruction.map_content_ofLinesFrom,
    Instruction.map_content_ofLinesFrom]

/-- A line may be written in another way that has the same words. -/
theorem sameContent_of_words {line line' : String}
    (h : Instruction.words line = Instruction.words line') (above below : List String) :
    SameContent (above ++ line :: below) (above ++ line' :: below) := by
  rw [sameContent_iff, List.filterMap_append, List.filterMap_append, List.filterMap_cons,
    List.filterMap_cons, Instruction.lineContent?, Instruction.lineContent?, h]

open Instruction in
/-- One source text is a reformatting of another: lines without instructions are added or
left out, comments are added to lines or left out, and runs of blanks are replaced by
others, any number of times. -/
inductive Reformatted : List String → List String → Prop where
  | insert {line : String} (h : Idle line) (above below : List String) :
    Reformatted (above ++ below) (above ++ line :: below)
  | comment {line : String} (h : EndsOpen line) (comment : String) (above below : List String) :
    Reformatted (above ++ line :: below) (above ++ (line ++ " //" ++ comment) :: below)
  | blanks {run run' : String} (h : IsBlanks run) (h' : IsBlanks run') (left right : String)
    (above below : List String) :
    Reformatted (above ++ (left ++ run ++ right) :: below)
      (above ++ (left ++ run' ++ right) :: below)
  | symm {lines lines' : List String} (h : Reformatted lines lines') : Reformatted lines' lines
  | trans {lines lines' lines'' : List String} (h : Reformatted lines lines')
    (h' : Reformatted lines' lines'') : Reformatted lines lines''

/-- **Reformatting changes nothing that a source text says.** -/
theorem Reformatted.sameContent {lines lines' : List String} (h : Reformatted lines lines') :
    SameContent lines lines' := by
  induction h with
  | insert h above below =>
    rw [sameContent_iff, List.filterMap_append, List.filterMap_append, List.filterMap_cons,
      Instruction.lineContent?, h.words_eq_nil]
  | comment h comment above below =>
    exact sameContent_of_words (Instruction.words_append_comment h comment).symm above below
  | blanks h h' left right above below =>
    exact sameContent_of_words (Instruction.words_replace_blanks h h' left right) above below
  | symm _ ih => exact ih.symm
  | trans _ _ ih ih' => exact ih.trans ih'

/-! ## Modules -/

/-- How two modules of one name end whose instructions say the same.  A diagnostic has the
same cause, hence the same kind and wording, and its text differs in the line only; any
other fault is the same. -/
inductive SameEnd (m : String) (is is' : List Instruction) :
    Except Fault Answer → Except Fault Answer → Prop where
  | success : SameEnd m is is' (.ok .done) (.ok .done)
  | refusedName (hm : ¬ Text.IsWord ['_', ':'] m) :
    SameEnd m is is' (.error (.refused ⟨.invalidModuleName m, none, none⟩))
      (.error (.refused ⟨.invalidModuleName m, none, none⟩))
  | diagnostic {k : Nat} {i i' : Instruction} {d d' : Diagnostic} (h : RefusedAt is k i)
    (h' : RefusedAt is' k i') (hcause : d.cause = d'.cause)
    (hrender : d.render = m ++ ":" ++ Text.decimal i.line ++ ": " ++ d.cause.message)
    (hrender' : d'.render = m ++ ":" ++ Text.decimal i'.line ++ ": " ++ d.cause.message) :
    SameEnd m is is' (.error (.refused d)) (.error (.refused d'))
  | other {k : Nat} {i i' : Instruction} {fault : Fault} (h : RefusedAt is k i)
    (h' : RefusedAt is' k i') (hfault : ∀ d, fault ≠ .refused d) :
    SameEnd m is is' (.error fault) (.error fault)

theorem RefusedAt.line_ne_zero {lines : List String} {k : Nat} {i : Instruction}
    (h : RefusedAt (Instruction.ofLines lines) k i) : i.line ≠ 0 := by
  have hline := Instruction.le_line_of_mem_ofLinesFrom (List.mem_of_getElem? h.here)
  omega

theorem SameEnd.of_alikeResults {m : String} (hm : m ≠ "") {lines lines' : List String}
    {r r' : Except Fault Unit}
    (h : AlikeResults (Instruction.ofLines lines) (Instruction.ofLines lines') r r') :
    SameEnd m (Instruction.ofLines lines) (Instruction.ofLines lines')
      ((r.mapError (Fault.inModule m)).map fun _ => .done)
      ((r'.mapError (Fault.inModule m)).map fun _ => .done) := by
  cases h with
  | success => exact .success
  | @failure k i i' fault h h' hline =>
    cases fault with
    | refused d =>
      obtain ⟨hlineOf, hmodule⟩ := hline
      have hin : (Fault.refused d).inModule m = .refused { d with module := some m } := by
        rw [Fault.inModule, Diagnostic.inModule, hmodule]
      have hin' : ((Fault.refused d).onLine i'.line).inModule m =
          .refused { d with line := some i'.line, module := some m } := by
        simp only [Fault.onLine, Fault.inModule, Diagnostic.inModule, hmodule]
      show SameEnd m _ _ (.error ((Fault.refused d).inModule m))
        (.error (((Fault.refused d).onLine i'.line).inModule m))
      rw [hin, hin']
      exact .diagnostic h h' rfl (Diagnostic.render_of_place hm h.line_ne_zero rfl hlineOf)
        (Diagnostic.render_of_place hm h'.line_ne_zero rfl rfl)
    | _ =>
      refine .other h h' fun d hd => ?_
      cases hd

/-- **A module does not depend on the layout of its text.**  Take any workbench and emitter
and any name, and two source texts whose instructions say the same, for one because the
second is a reformatting of the first.  Both leave the same workbench, so they add the same
lines and the emitter ends in the same scope with the same numbers; and both succeed, or
both fail in the same way at the corresponding instruction. -/
theorem module_independent_of_formatting (t : FileTree) (b : Workbench) (p : Nat) (m : String)
    {lines lines' : List String} (h : SameContent lines lines' ∨ Reformatted lines lines') :
    (b.perform t p (.module m lines)).1 = (b.perform t p (.module m lines')).1 ∧
      SameEnd m (Instruction.ofLines lines) (Instruction.ofLines lines')
        (b.perform t p (.module m lines)).2.result
        (b.perform t p (.module m lines')).2.result := by
  have hsame : SameContent lines lines' := h.elim id Reformatted.sameContent
  unfold Workbench.perform
  simp only [Task.emission_module]
  cases hm : isModuleName m with
  | true =>
    obtain ⟨hcode, hemitter, hresult⟩ :=
      instructions_alike m hsame { b.emitter p with scope := .outer }
    have hne : m ≠ "" := by
      rintro rfl
      cases hm
    rw [Emission.module_of_name hm, Emission.module_of_name hm]
    simp only [hcode, hemitter]
    exact ⟨trivial, .of_alikeResults hne hresult⟩
  | false =>
    have hword : ¬ Text.IsWord ['_', ':'] m := by
      rw [← isModuleName_iff_isWord, hm]
      decide
    rw [Emission.module_of_not_name hm, Emission.module_of_not_name hm]
    exact ⟨rfl, .refusedName hword⟩

/-- A comment line, wider blanks and a comment behind a segment that does not exist. -/
theorem module_with_comment_and_tab :
    Reformatted ["add", "pop heap 2"]
        ["// setup", "add", "pop \t heap 2 // none"] ∧
      ((Workbench.new 1 ["(START)"]).perform (.bare []) 0
          (.module "Main" ["add", "pop heap 2"])).1 =
        ((Workbench.new 1 ["(START)"]).perform (.bare []) 0
          (.module "Main" ["// setup", "add", "pop \t heap 2 // none"])).1 ∧
      SameEnd "Main" [⟨1, "add", []⟩, ⟨2, "pop", ["heap", "2"]⟩]
        [⟨2, "add", []⟩, ⟨3, "pop", ["heap", "2"]⟩]
        (.error (.refused ⟨.unknownSegment "heap" "pop heap 2", some 2, some "Main"⟩))
        (.error (.refused ⟨.unknownSegment "heap" "pop heap 2", some 3, some "Main"⟩)) := by
  have hinsert : Reformatted ["add", "pop heap 2"]
      ["// setup", "add", "pop heap 2"] :=
    .insert (@Instruction.Idle.comment "" nofun " setup") [] ["add", "pop heap 2"]
  have hblanks : Reformatted ["// setup", "add", "pop heap 2"]
      ["// setup", "add", "pop \t heap 2"] :=
    @Reformatted.blanks " " " \t " ⟨by decide, by simp⟩ ⟨by decide, by simp⟩ "pop" "heap 2"
      ["// setup", "add"] []
  have hcomment : Reformatted ["// setup", "add", "pop \t heap 2"]
      ["// setup", "add", "pop \t heap 2 // none"] :=
    @Reformatted.comment "pop \t heap 2" (by simp [Instruction.EndsOpen, Instruction.KeepsLine])
      " none" ["// setup", "add"] []
  have hall := (hinsert.trans hblanks).trans hcomment
  have hrun := module_independent_of_formatting (.bare []) (Workbench.new 1 ["(START)"]) 0 "Main"
    (.inr hall)
  have hlines : Instruction.ofLines ["add", "pop heap 2"] =
      [⟨1, "add", []⟩, ⟨2, "pop", ["heap", "2"]⟩] := by decide +kernel
  have hlines' : Instruction.ofLines ["// setup", "add", "pop \t heap 2 // none"] =
      [⟨2, "add", []⟩, ⟨3, "pop", ["heap", "2"]⟩] := by decide +kernel
  have hresult : ((Workbench.new 1 ["(START)"]).perform (.bare []) 0
      (.module "Main" ["add", "pop heap 2"])).2.result =
        .error (.refused ⟨.unknownSegment "heap" "pop heap 2", some 2, some "Main"⟩) := by
    rw [Workbench.outcome_perform, Task.emission_module, Emission.module_of_name (by decide),
      hlines]
    rfl
  have hresult' : ((Workbench.new 1 ["(START)"]).perform (.bare []) 0
      (.module "Main" ["// setup", "add", "pop \t heap 2 // none"])).2.result =
        .error (.refused ⟨.unknownSegment "heap" "pop heap 2", some 3, some "Main"⟩) := by
    rw [Workbench.outcome_perform, Task.emission_module, Emission.module_of_name (by decide),
      hlines']
    rfl
  refine ⟨hall, hrun.1, ?_⟩
  rw [← hlines, ← hlines', ← hresult, ← hresult']
  exact hrun.2

end HackVM
