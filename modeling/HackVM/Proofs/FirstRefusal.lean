import HackVM.Proofs.InstructionChecks
import HackVM.Workbench

/-! # A module stops at its first refused instruction

The instructions of a module are emitted one by one, each from the emitter that the
one before it left.  If all are accepted, the listing grows by the code of each, in
order.  Otherwise the module stops at the first that is refused
(`module_stops_at_first_refused`): the listing has grown by the code of those above
it, the scope is that of the last function above it, and a diagnostic names the module
and the source line, counted with the blank lines and comments.  A module whose name is
refused changes nothing. -/
namespace HackVM

open Asm

/-! ## Instructions one by one -/

/-- The emitter that instructions leave, each emitted by itself. -/
def afterEach (m : String) : List Instruction → Emitter → Emitter
  | [], e => e
  | i :: rest, e => afterEach m rest (Emission.instruction m i e).emitter

/-- The code of instructions, each emitted by itself from the emitter that the one
before it left. -/
def codeOfEach (m : String) : List Instruction → Emitter → List Line
  | [], _ => []
  | i :: rest, e =>
    (Emission.instruction m i e).code ++ codeOfEach m rest (Emission.instruction m i e).emitter

/-- Instructions that are accepted let those after them run. -/
theorem instructions_append_of_accepted {m : String} {is : List Instruction}
    (h : ∀ i ∈ is, i.Accepted) (rest : List Instruction) (e : Emitter) :
    Emission.instructions m (is ++ rest) e =
      ⟨(Emission.instructions m rest (afterEach m is e)).result,
        codeOfEach m is e ++ (Emission.instructions m rest (afterEach m is e)).code,
        (Emission.instructions m rest (afterEach m is e)).emitter⟩ := by
  induction is generalizing e with
  | nil => rfl
  | cons i is ih =>
    have hi : (Emission.instruction m i e).result = .ok () := h i (List.mem_cons_self ..) m e
    show (Emission.instruction m i >>= fun _ => Emission.instructions m (is ++ rest)) e = _
    rw [Emission.bind_ok hi, ih fun j hj => h j (List.mem_cons_of_mem _ hj)]
    simp only [afterEach, codeOfEach, List.append_assoc]

/-- An instruction that fails ends the run. -/
theorem instructions_cons_of_failure {m : String} {i : Instruction} {e : Emitter} {fault : Fault}
    (h : (Emission.instruction m i e).result = .error fault) (rest : List Instruction) :
    Emission.instructions m (i :: rest) e =
      ⟨.error fault, [], (Emission.instruction m i e).emitter⟩ := by
  show (Emission.instruction m i >>= fun _ => Emission.instructions m rest) e = _
  rw [Emission.bind_error h, (Emission.instruction_of_failure h).1]

/-! ## The scope in which instructions end -/

/-- The name that an instruction gives to a function. -/
def Instruction.functionName? (i : Instruction) : Option String :=
  if i.name = "function" then i.arguments.head? else none

/-- The name in the last of the instructions that begin a function. -/
def lastFunction? (is : List Instruction) : Option String :=
  (is.filterMap Instruction.functionName?).getLast?

theorem lastFunction?_cons (i : Instruction) (is : List Instruction) :
    lastFunction? (i :: is) = (lastFunction? is).or i.functionName? := by
  unfold lastFunction?
  cases h : i.functionName? with
  | none => rw [List.filterMap_cons_none h, Option.or_none]
  | some f =>
    rw [List.filterMap_cons_some h, List.getLast?_cons]
    cases (is.filterMap Instruction.functionName?).getLast? <;> rfl

theorem lastFunction?_concat (is : List Instruction) (i : Instruction) :
    lastFunction? (is ++ [i]) = i.functionName?.or (lastFunction? is) := by
  unfold lastFunction?
  rw [List.filterMap_append, List.getLast?_append]
  cases h : i.functionName? with
  | none => simp [h]
  | some f => simp [h]

/-- A command begins a function if the name of its instruction says so, and else stays
in its scope. -/
theorem Command.function_nextScope {c : Command} {i : Instruction} (hc : c.ReadFrom i)
    (s : Scope) : (c.nextScope s).function = i.functionName?.or s.function := by
  have hother (hn : i.name ≠ "function") : i.functionName?.or s.function = s.function := by
    rw [Instruction.functionName?, if_neg hn, Option.none_or]
  have hname := name_of_readFrom hc
  cases c with
  | function name locals =>
    obtain ⟨hn, -, t, ha, -⟩ := hc
    rw [Instruction.functionName?, if_pos hn, ha]
    rfl
  | operate op =>
    have hn : op.name ∉ ["function"] := operationName_notMem (by decide) op
    exact (hother fun heq => hn (List.mem_singleton.mpr (hname.symm.trans heq))).symm
  | push _ _ | pop _ _ | label _ | goto _ | ifGoto _ | call _ _ | ret =>
    exact (hother (by simp [hname, instructionName])).symm

theorem function_scope_instruction {m : String} {i : Instruction} {e : Emitter}
    (h : (Emission.instruction m i e).result = .ok ()) :
    (Emission.instruction m i e).emitter.scope.function =
      i.functionName?.or e.scope.function := by
  obtain ⟨c, code, hread, -, heq⟩ := Emission.exists_command_of_result h
  rw [heq]
  exact Command.function_nextScope hread e.scope

/-- Accepted instructions end in the last function that they begin. -/
theorem function_scope_afterEach {m : String} {is : List Instruction}
    (h : ∀ i ∈ is, i.Accepted) (e : Emitter) :
    (afterEach m is e).scope.function = (lastFunction? is).or e.scope.function := by
  induction is generalizing e with
  | nil => rfl
  | cons i is ih =>
    have hi : (Emission.instruction m i e).result = .ok () := h i (List.mem_cons_self ..) m e
    rw [afterEach, ih fun j hj => h j (List.mem_cons_of_mem _ hj), function_scope_instruction hi,
      lastFunction?_cons, Option.or_assoc]

/-! ## Source lines -/

namespace Instruction

theorem ofLinesFrom_append (n : Int) (above below : List String) :
    ofLinesFrom n (above ++ below) =
      ofLinesFrom n above ++ ofLinesFrom (n + above.length) below := by
  induction above generalizing n with
  | nil => simp [ofLinesFrom]
  | cons line above ih =>
    simp only [List.cons_append, ofLinesFrom, ih, List.append_assoc, List.length_cons]
    rw [show n + 1 + (above.length : Int) = n + ((above.length + 1 : Nat) : Int) by omega]

theorem line_of_ofLine? {line : String} {n : Int} {i : Instruction} (h : ofLine? line n = some i) :
    i.line = n := by
  unfold ofLine? at h
  split at h
  · cases h
  · cases h; rfl

/-- The instructions of lines, cut below a line. -/
theorem ofLines_append (above : List String) (line : String) (below : List String) :
    ofLines (above ++ line :: below) =
      ofLines above ++ (ofLine? line (above.length + 1)).toList
        ++ ofLinesFrom (above.length + 2) below := by
  unfold ofLines
  rw [ofLinesFrom_append, ofLinesFrom, show (1 : Int) + above.length = above.length + 1 by omega,
    show (above.length : Int) + 1 + 1 = above.length + 2 by omega, List.append_assoc]

theorem ofLines_concat (above : List String) (line : String) :
    ofLines (above ++ [line]) = ofLines above ++ (ofLine? line (above.length + 1)).toList := by
  rw [ofLines_append, ofLinesFrom, List.append_nil]

end Instruction

/-- The instruction of the first source line that is refused, below lines of which all
instructions are accepted. -/
structure FirstRefused (lines above : List String) (i : Instruction) : Prop where
  here : ∃ line below, lines = above ++ line :: below ∧
    Instruction.ofLine? line (above.length + 1) = some i
  accepted : ∀ j ∈ Instruction.ofLines above, j.Accepted
  refused : ¬ i.Accepted

theorem exists_firstRefused_append {below : List String} (above : List String)
    (haccepted : ∀ j ∈ Instruction.ofLines above, j.Accepted)
    (h : ¬ ∀ i ∈ Instruction.ofLines (above ++ below), i.Accepted) :
    ∃ above' i, FirstRefused (above ++ below) above' i := by
  -- induction on the lines that have not been looked at; those above are all accepted
  induction below generalizing above with
  | nil =>
    rw [List.append_nil] at h
    exact absurd haccepted h
  | cons line below ih =>
    have hnext (hline : ∀ i, Instruction.ofLine? line (above.length + 1) = some i → i.Accepted) :
        ∀ j ∈ Instruction.ofLines (above ++ [line]), j.Accepted := by
      intro j hj
      rw [Instruction.ofLines_concat, List.mem_append, Option.mem_toList] at hj
      rcases hj with hj | hj
      · exact haccepted j hj
      · exact hline j hj
    have happend : above ++ line :: below = above ++ [line] ++ below := by simp
    by_cases hline : ∀ i, Instruction.ofLine? line (above.length + 1) = some i → i.Accepted
    · rw [happend] at h ⊢
      exact ih (above ++ [line]) (hnext hline) h
    · obtain ⟨i, hi, hrefused⟩ : ∃ i, Instruction.ofLine? line (above.length + 1) = some i ∧
          ¬ i.Accepted := by
        simpa using hline
      exact ⟨above, i, ⟨line, below, rfl, hi⟩, haccepted, hrefused⟩

/-- If not all instructions of some lines are accepted, there is a first that is not. -/
theorem exists_firstRefused {lines : List String}
    (h : ¬ ∀ i ∈ Instruction.ofLines lines, i.Accepted) : ∃ above i, FirstRefused lines above i :=
  exists_firstRefused_append [] (fun _ hj => nomatch hj) h

/-! ## Diagnostics that name a module and a line -/

theorem Diagnostic.render_of_place {d : Diagnostic} {m : String} {n : Int} (hm : m ≠ "")
    (hn : n ≠ 0) (hmodule : d.module = some m) (hline : d.line = some n) :
    d.render = m ++ ":" ++ Text.decimal n ++ ": " ++ d.cause.message := by
  have hplace : d.place = m ++ ":" ++ Text.decimal n ++ ":" := by
    simp only [place, hmodule, hline, if_neg hm, if_neg hn, String.append_assoc]
  have hne : d.place ≠ "" := by
    rw [hplace]
    intro h
    have := congrArg String.length h
    simp at this
  rw [render, if_neg hne, hplace, show ": " = ":" ++ " " from rfl]
  simp only [String.append_assoc]

/-- A fault on the line of an instruction, reported for its module: the text of a
diagnostic starts with both. -/
theorem Fault.render_inModule {fault : Fault} {line : Int} {m : String} {d : Diagnostic}
    (hfault : fault.LiesOn line) (hd : fault.inModule m = .refused d) (hm : m ≠ "")
    (hline : line ≠ 0) :
    d.module = some m ∧ d.line = some line ∧
      d.render = m ++ ":" ++ Text.decimal line ++ ": " ++ d.cause.message := by
  cases fault with
  | refused d' =>
    obtain ⟨hl, hmodule⟩ := hfault
    have he : d'.inModule m = d := Fault.refused.inj hd
    have hin : d = { d' with module := some m } := by
      rw [← he, Diagnostic.inModule, hmodule]
    have hline' : d.line = some line := by rw [hin]; exact hl
    have hmodule' : d.module = some m := by rw [hin]
    exact ⟨hmodule', hline', Diagnostic.render_of_place hm hline hmodule' hline'⟩
  | _ => cases hd

/-! ## Modules on a workbench -/

section Module

variable {m : String} (hm : isModuleName m = true) {lines : List String} (e : Emitter)
include hm

/-- A module of which all instructions are accepted. -/
theorem module_of_accepted (h : ∀ i ∈ Instruction.ofLines lines, i.Accepted) :
    Emission.module m lines e =
      ⟨.ok (), codeOfEach m (Instruction.ofLines lines) { e with scope := .outer },
        afterEach m (Instruction.ofLines lines) { e with scope := .outer }⟩ := by
  have hrun := instructions_append_of_accepted (m := m) h [] { e with scope := .outer }
  rw [List.append_nil] at hrun
  rw [Emission.module_of_name hm, hrun]
  simp only [Emission.instructions, Emission.pure_apply, List.append_nil]
  rfl

/-- A module with a first refused instruction. -/
theorem module_of_firstRefused {above : List String} {i : Instruction}
    (h : FirstRefused lines above i) :
    ∃ fault,
      (Emission.instruction m i
        (afterEach m (Instruction.ofLines above) { e with scope := .outer })).result =
          .error fault ∧
      Emission.module m lines e =
        ⟨.error (fault.inModule m),
          codeOfEach m (Instruction.ofLines above) { e with scope := .outer },
          (Emission.instruction m i
            (afterEach m (Instruction.ofLines above) { e with scope := .outer })).emitter⟩ := by
  obtain ⟨line, below, rfl, hi⟩ := h.here
  cases hr : (Emission.instruction m i
      (afterEach m (Instruction.ofLines above) { e with scope := .outer })).result with
  | ok _ => exact absurd ((Instruction.accepted_iff _ _).mpr hr) h.refused
  | error fault =>
    refine ⟨fault, rfl, ?_⟩
    rw [Emission.module_of_name hm, Instruction.ofLines_append, hi, List.append_assoc,
      instructions_append_of_accepted h.accepted]
    simp only [Option.toList_some, List.cons_append, instructions_cons_of_failure hr,
      List.append_nil]
    rfl

end Module

/-- What is left when a module has stopped at the first refused instruction, emitted
from `e`: the fault is that of the instruction, the listing has the code of the
instructions above it, the scope is that of the last function among them, and a
diagnostic names the module and the line. -/
structure StoppedAt (m : String) (lines : List String) (e : Emitter) (before after : Listing)
    (outcome : Outcome Answer) (above : List String) (i : Instruction) : Prop where
  first : FirstRefused lines above i
  fault : ∃ fault,
    (Emission.instruction m i (afterEach m (Instruction.ofLines above) e)).result = .error fault ∧
      outcome.result = .error (fault.inModule m)
  listing : after.lines =
    before.lines ++ (codeOfEach m (Instruction.ofLines above) e).map Line.text
  scope : outcome.emitter.scope.function = lastFunction? (Instruction.ofLines above)
  diagnostic : ∀ d, outcome.result = .error (.refused d) →
    d.module = some m ∧ d.line = some (above.length + 1) ∧
      d.render = m ++ ":" ++ Text.decimal (above.length + 1) ++ ": " ++ d.cause.message

/-- The fault of a first refused instruction lies on the line below those above it. -/
theorem FirstRefused.liesOn {lines above : List String} {i : Instruction}
    (h : FirstRefused lines above i) {m : String} {e : Emitter} {fault : Fault}
    (hfault : (Emission.instruction m i e).result = .error fault) :
    fault.LiesOn (above.length + 1) := by
  obtain ⟨line, below, -, hi⟩ := h.here
  have hdecides := Emission.decides_instruction m i e
  rw [hfault] at hdecides
  exact Instruction.line_of_ofLine? hi ▸ hdecides.2

theorem stoppedAt_of_firstRefused {m : String} (hm : isModuleName m = true)
    {lines above : List String} {i : Instruction} (h : FirstRefused lines above i) (t : FileTree)
    (b : Workbench) (p : Nat) :
    StoppedAt m lines { b.emitter p with scope := .outer } b.listing
      (b.perform t p (.module m lines)).1.listing (b.perform t p (.module m lines)).2 above i := by
  obtain ⟨fault, hfault, hmodule⟩ := module_of_firstRefused hm (b.emitter p) h
  rw [Workbench.listing_perform_module, Workbench.outcome_perform, Task.emission_module, hmodule]
  refine ⟨h, ⟨fault, hfault, rfl⟩, rfl, ?_, fun d hd => ?_⟩
  · show (Emission.instruction m i _).emitter.scope.function = _
    rw [(Emission.instruction_of_failure hfault).2, function_scope_afterEach h.accepted]
    exact Option.or_none
  · have hne : m ≠ "" := by
      rintro rfl
      cases hm
    exact Fault.render_inModule (h.liesOn hfault) (Except.error.inj hd) hne (by omega)

/-- **A module stops at its first refused instruction.**  Whatever was emitted before
it: if all instructions of the lines are accepted, the module succeeds and its listing
grows by the code of each, and otherwise it stops at the first that is not.  A module
whose name is refused leaves the workbench as it was. -/
theorem module_stops_at_first_refused (t : FileTree) (b : Workbench) (p : Nat) (m : String)
    (lines : List String) :
    (Text.IsWord ['_', ':'] m →
      ((∀ i ∈ Instruction.ofLines lines, i.Accepted) →
        (b.perform t p (.module m lines)).2.result = .ok .done ∧
          (b.perform t p (.module m lines)).1.listing.lines =
            b.listing.lines ++ (codeOfEach m (Instruction.ofLines lines)
              { b.emitter p with scope := .outer }).map Line.text) ∧
      ((¬ ∀ i ∈ Instruction.ofLines lines, i.Accepted) →
        ∃ above i, StoppedAt m lines { b.emitter p with scope := .outer } b.listing
          (b.perform t p (.module m lines)).1.listing (b.perform t p (.module m lines)).2
          above i)) ∧
    (¬ Text.IsWord ['_', ':'] m →
      (b.perform t p (.module m lines)).1 = b ∧
        (b.perform t p (.module m lines)).2.result =
          .error (.refused ⟨.invalidModuleName m, none, none⟩)) := by
  rw [← isModuleName_iff_isWord, Bool.not_eq_true]
  refine ⟨fun hm => ⟨fun haccepted => ?_, fun hnot => ?_⟩, fun hm => ?_⟩
  · rw [Workbench.listing_perform_module, Workbench.outcome_perform, Task.emission_module,
      module_of_accepted hm _ haccepted]
    exact ⟨rfl, rfl⟩
  · obtain ⟨above, i, hfirst⟩ := exists_firstRefused hnot
    exact ⟨above, i, stoppedAt_of_firstRefused hm hfirst t b p⟩
  · have houtcome := Task.emission_module t m lines (b.emitter p)
    rw [Emission.module_of_not_name hm] at houtcome
    constructor
    · exact Workbench.perform_of_unchanged (by rw [houtcome]) (by rw [houtcome])
    · rw [Workbench.outcome_perform, houtcome]
      rfl

/-- A module with a blank line and a comment above a segment that does not exist, added
to a listing that is not empty. -/
theorem module_stops_below_comment :
    Text.IsWord ['_', ':'] "Main" ∧
      (¬ ∀ i ∈ Instruction.ofLines ["function f 1", "", "// none", "push heap 0"], i.Accepted) ∧
      ∃ above i, StoppedAt "Main" ["function f 1", "", "// none", "push heap 0"] ⟨.outer, 0, 0⟩
        ⟨["// first"]⟩
        ((Workbench.new 1 ["// first"]).perform (.bare []) 0
          (.module "Main" ["function f 1", "", "// none", "push heap 0"])).1.listing
        ((Workbench.new 1 ["// first"]).perform (.bare []) 0
          (.module "Main" ["function f 1", "", "// none", "push heap 0"])).2 above i := by
  have hm : Text.IsWord ['_', ':'] "Main" := isModuleName_iff_isWord.mp (by decide)
  have hnot : ¬ ∀ i ∈ Instruction.ofLines ["function f 1", "", "// none", "push heap 0"],
      i.Accepted := by
    intro h
    have hlast : (Emission.instruction "Main" ⟨4, "push", ["heap", "0"]⟩ Emitter.start).result =
        .ok () := h ⟨4, "push", ["heap", "0"]⟩ (by decide +kernel) "Main" Emitter.start
    cases hlast
  have hstop := module_stops_at_first_refused (.bare []) (Workbench.new 1 ["// first"]) 0 "Main"
    ["function f 1", "", "// none", "push heap 0"]
  exact ⟨hm, hnot, (hstop.1 hm).2 hnot⟩

end HackVM
