import HackVM.Proofs.GeneratedLabels
import HackVM.Proofs.LineValidity
import HackVM.Proofs.TextPatterns
import HackVM.Workbench

/-! # What was emitted before a module changes its numbers only

Nothing that an emitter remembers can be seen in the code of a module except the
numbers of its generated labels.  The proof compares every run with one from a fresh
emitter: that of an emitter which has given out more numbers is the same with all
numbers moved (`Emission.module_eq_shift`), since each command only counts on from where
it starts.  On texts, moving numbers means to rewrite what follows two dollar signs
(`renumber`), and so two runs of a module differ by that only
(`module_independent_of_history`). -/
namespace HackVM

open Asm

/-! ## Moving numbers -/

/-- The symbol with the numbers of comparisons moved on by `a`, and those of calls by
`c`. -/
def Symbol.shift (a c : Nat) : Symbol → Symbol
  | .compare m point number => .compare m point (a + number)
  | .returnSite scope number => .returnSite scope (c + number)
  | s => s

/-- The line with the numbers of its symbol moved on. -/
def Asm.Line.shift (a c : Nat) : Line → Line
  | .label s => .label (s.shift a c)
  | .address (.symbol s) => .address (.symbol (s.shift a c))
  | l => l

/-- The emitter that has given out more numbers. -/
def Emitter.shift (a c : Nat) (e : Emitter) : Emitter := ⟨e.scope, a + e.compares, c + e.calls⟩

/-- The outcome with all numbers moved on. -/
def Outcome.shift {α : Type} (a c : Nat) (o : Outcome α) : Outcome α :=
  ⟨o.result, o.code.map (Line.shift a c), o.emitter.shift a c⟩

section Shift

variable {a c : Nat}

@[simp] theorem Asm.Line.shift_label (s : Symbol) :
    (Line.label s).shift a c = .label (s.shift a c) := rfl

@[simp] theorem Asm.Line.shift_load (s : Symbol) : (load s).shift a c = load (s.shift a c) := rfl

@[simp] theorem Asm.Line.shift_loadRegister (r : Register) :
    (loadRegister r).shift a c = loadRegister r := rfl

@[simp] theorem Asm.Line.shift_store (dest : Dest) (comp : Comp) :
    (Line.store dest comp).shift a c = .store dest comp := rfl

@[simp] theorem Asm.Line.shift_jump (comp : Comp) (condition : Jump) :
    (Line.jump comp condition).shift a c = .jump comp condition := rfl

namespace Code

theorem map_shift_callLines (name : String) (depth : Int) (scope : String) (number : Nat) :
    (callLines name depth scope number).map (Line.shift a c) =
      callLines name depth scope (c + number) := rfl

theorem map_shift_compare (comparison : Comparison) (m : String) (number : Nat) :
    (compare comparison m number).map (Line.shift a c) = compare comparison m (a + number) := by
  unfold compare
  simp only [atTop, popD, List.cons_append, List.nil_append, List.map_cons, List.map_nil,
    Line.shift_label, Line.shift_load, Line.shift_loadRegister, Line.shift_store, Line.shift_jump,
    Symbol.shift]

theorem map_shift_function (name : String) (locals : Nat) :
    (function name locals).map (Line.shift a c) = function name locals := by
  rw [function, List.map_cons, List.map_flatten, List.map_replicate]
  rfl

theorem map_shift_push {segment : Segment} {index : Int} {m : String} {code : List Line}
    (h : push segment index m = .ok code) : code.map (Line.shift a c) = code := by
  obtain ⟨loading, hf, rfl⟩ := push_eq_ok h
  have hs := fetch_eq_ok hf
  cases segment with
  | pointer => obtain ⟨r, -, rfl⟩ := hs; rfl
  | _ => rw [hs]; rfl

theorem map_shift_pop {segment : Segment} {index : Int} {m : String} {code : List Line}
    (h : pop segment index m = .ok code) : code.map (Line.shift a c) = code := by
  have hs := pop_eq_ok h
  cases segment with
  | constant => exact hs.elim
  | pointer => obtain ⟨r, -, rfl⟩ := hs; rfl
  | _ => rw [hs]; rfl

end Code

/-- Code that names no numbers stays as it is. -/
theorem map_shift_of_ok {r : Except Fault (List Line)}
    (h : ∀ code, r = .ok code → code.map (Line.shift a c) = code) :
    r.map (List.map (Line.shift a c)) = r := by
  cases r with
  | error fault => rfl
  | ok code => exact congrArg Except.ok (h code rfl)

/-- **The code of a command counts on from the numbers of its emitter.** -/
theorem Command.code_shift (command : Command) (m : String) (e : Emitter) :
    command.code m (e.shift a c) = (command.code m e).map (List.map (Line.shift a c)) := by
  cases command with
  | push segment index => exact (map_shift_of_ok fun _ => Code.map_shift_push).symm
  | pop segment index => exact (map_shift_of_ok fun _ => Code.map_shift_pop).symm
  | operate op =>
    cases op with
    | binary op | unary op => rfl
    | compare comparison => exact congrArg Except.ok (Code.map_shift_compare ..).symm
  | label name | goto name | ifGoto name | ret => rfl
  | function name locals => exact congrArg Except.ok (Code.map_shift_function ..).symm
  | call name arguments =>
    show Code.call name arguments (e.scope.name m) (c + e.calls) =
      (Code.call name arguments (e.scope.name m) e.calls).map (List.map (Line.shift a c))
    rw [Code.call_eq, Code.call_eq]
    -- whether the call can be written does not depend on its number
    generalize Text.isWritable (arguments + Code.frameSize) = writable
    cases writable with
    | false => rfl
    | true => exact congrArg Except.ok (Code.map_shift_callLines ..).symm

theorem Command.next_shift (command : Command) (e : Emitter) :
    command.next (e.shift a c) = (command.next e).shift a c := by
  simp only [next, Emitter.shift, Nat.add_assoc]

namespace Emission

/-- The instructions of a module do the same from an emitter that has given out more
numbers, with all numbers moved on. -/
theorem instructions_shift (m : String) (is : List Instruction) (e : Emitter) :
    instructions m is (e.shift a c) = (instructions m is e).shift a c := by
  induction is generalizing e with
  | nil => rfl
  | cons i rest ih =>
    rw [instructions_cons, instructions_cons]
    cases Command.ofInstruction i with
    | error fault => rfl
    | ok command =>
      simp only [Command.code_shift, Command.next_shift, ih]
      cases command.code m e with
      | error fault => rfl
      | ok code => simp only [Except.map, Outcome.shift, List.map_append]

end Emission
end Shift

/-- **A module runs as from a fresh emitter**, with its numbers moved on. -/
theorem Emission.module_eq_shift {name : String} (hname : isModuleName name = true)
    (lines : List String) (e : Emitter) :
    Emission.module name lines e =
      (Emission.module name lines Emitter.start).shift e.compares e.calls := by
  have hrun := instructions_shift (a := e.compares) (c := e.calls) name
    (Instruction.ofLines lines) Emitter.start
  have hstart : ({ e with scope := .outer } : Emitter) =
      Emitter.start.shift e.compares e.calls := rfl
  rw [module_of_name hname, module_of_name hname, hstart, hrun]
  rfl

/-! ## Renumbering texts -/

/-- The parts of a text before and after its first two dollar signs in a row. -/
def Text.cutAtDollars : List Char → Option (List Char × List Char)
  | [] => none
  | '$' :: '$' :: cs => some ([], cs)
  | c :: cs => (cutAtDollars cs).map fun parts => (c :: parts.1, parts.2)

/-- The number that takes the place of `n` in a generated label of a kind, when the
emitter `e'` takes the place of `e`. -/
def newNumber? (e e' : Emitter) (kind : List Char) (n : Nat) : Option Int :=
  if "cmp_".toList.isPrefixOf kind then some (n - e.compares + e'.compares)
  else if kind = "ret".toList then some (n - e.calls + e'.calls)
  else none

/-- What follows the two dollar signs of a generated label: its kind, a dot, its number
and the rest of the text.  The number is replaced. -/
def renumberTail (e e' : Emitter) (tail : List Char) : List Char :=
  let kind := tail.takeWhile (· ≠ '.')
  let rest := tail.drop (kind.length + 1)
  let digits := rest.takeWhile Char.isDigit
  match newNumber? e e' kind (Nat.ofDigitChars 10 digits 0) with
  | some n => kind ++ '.' :: ((Text.decimal n).toList ++ rest.drop digits.length)
  | none => tail

/-- The text of a line with the number of its generated label replaced; all other text
stays as it is. -/
def renumber (e e' : Emitter) (t : String) : String :=
  match Text.cutAtDollars t.toList with
  | some (before, tail) => String.ofList (before ++ '$' :: '$' :: renumberTail e e' tail)
  | none => t

namespace Text

theorem cutAtDollars_append {before : List Char} (h : '$' ∉ before) (tail : List Char) :
    cutAtDollars (before ++ '$' :: '$' :: tail) = some (before, tail) := by
  induction before with
  | nil => rfl
  | cons c before ih =>
    rw [List.mem_cons, not_or] at h
    rw [List.cons_append, cutAtDollars, ih h.2]
    · rfl
    · -- a cut at once would need a dollar sign in front
      intro cs hc
      exact absurd hc.symm h.1

theorem eq_append_of_cutAtDollars {cs before tail : List Char}
    (h : cutAtDollars cs = some (before, tail)) : cs = before ++ '$' :: '$' :: tail := by
  fun_induction cutAtDollars cs generalizing before with
  | case1 => cases h
  | case2 cs => cases h; rfl
  | case3 c cs _ ih =>
    obtain ⟨⟨before', tail'⟩, hcut, hparts⟩ := Option.map_eq_some_iff.mp h
    cases hparts
    rw [List.cons_append, ← ih hcut]

end Text

section Renumber

variable (e e' : Emitter)

/-- A text with one dollar sign at most has no generated label. -/
theorem renumber_of_count_le_one {t : String} (h : t.toList.count '$' ≤ 1) :
    renumber e e' t = t := by
  unfold renumber
  cases hcut : Text.cutAtDollars t.toList with
  | none => rfl
  | some parts =>
    rw [Text.eq_append_of_cutAtDollars hcut, List.count_append, List.count_cons_self,
      List.count_cons_self] at h
    omega

/-- The number between a dot and what is no digit is replaced. -/
theorem renumberTail_append {kind closing : List Char} {n k : Nat} (hkind : '.' ∉ kind)
    (hclosing : closing.takeWhile Char.isDigit = [])
    (hnew : newNumber? e e' kind n = some (k : Int)) :
    renumberTail e e' (kind ++ '.' :: ((Text.decimal n).toList ++ closing)) =
      kind ++ '.' :: ((Text.decimal k).toList ++ closing) := by
  have htake : (kind ++ '.' :: ((Text.decimal n).toList ++ closing)).takeWhile (· ≠ '.') =
      kind := by
    rw [List.takeWhile_append_of_pos, List.takeWhile_cons_of_neg (by decide), List.append_nil]
    intro c hc
    exact decide_eq_true fun h => hkind (h ▸ hc)
  have hdigits : ((Text.decimal n).toList ++ closing).takeWhile Char.isDigit =
      (Text.decimal n).toList := by
    rw [List.takeWhile_append_of_pos fun c hc => isDigit_of_mem_decimal hc, hclosing,
      List.append_nil]
  have hvalue : Nat.ofDigitChars 10 (Text.decimal n).toList 0 = n := by
    rw [toList_decimal]
    simp
  unfold renumberTail
  simp only [htake, List.drop_length_add_append, List.drop_one, List.tail_cons, hdigits, hvalue,
    hnew, List.drop_left]

/-- A generated label gets its new number, whatever stands around it. -/
theorem renumber_internalText {opening closing scope kind : String} {n k : Nat}
    (hopening : '$' ∉ opening.toList) (hclosing : closing.toList.takeWhile Char.isDigit = [])
    (hscope : '$' ∉ scope.toList) (hkind : '.' ∉ kind.toList)
    (hnew : newNumber? e e' kind.toList n = some (k : Int)) :
    renumber e e' (opening ++ Symbol.internalText scope kind n ++ closing) =
      opening ++ Symbol.internalText scope kind k ++ closing := by
  have hbefore : '$' ∉ opening.toList ++ scope.toList := by
    rw [List.mem_append, not_or]
    exact ⟨hopening, hscope⟩
  have htext (j : Nat) : (opening ++ Symbol.internalText scope kind j ++ closing).toList =
      (opening.toList ++ scope.toList) ++ '$' :: '$' ::
        (kind.toList ++ '.' :: ((Text.decimal j).toList ++ closing.toList)) := by
    simp [Symbol.toList_internalText]
  rw [renumber, htext, Text.cutAtDollars_append hbefore]
  simp only [renumberTail_append e e' hkind hclosing hnew]
  rw [← htext, String.ofList_toList]

/-- **A symbol is renumbered by its text**, whatever stands around it. -/
theorem renumber_symbol {opening closing : String} (hopening : '$' ∉ opening.toList)
    (hclosing : '$' ∉ closing.toList) (hdigit : closing.toList.takeWhile Char.isDigit = [])
    {s : Symbol} (hv : s.Valid) :
    renumber e e' (opening ++ (s.shift e.compares e.calls).text ++ closing) =
      opening ++ (s.shift e'.compares e'.calls).text ++ closing := by
  have hother (hcount : s.text.toList.count '$' ≤ 1) :
      renumber e e' (opening ++ s.text ++ closing) = opening ++ s.text ++ closing := by
    refine renumber_of_count_le_one e e' ?_
    rw [String.toList_append, String.toList_append, List.count_append, List.count_append,
      List.count_eq_zero_of_not_mem hopening, List.count_eq_zero_of_not_mem hclosing]
    omega
  have hfree (hscope : ¬ s.HasScope) : s.text.toList.count '$' ≤ 1 := by
    rw [List.count_eq_zero_of_not_mem (mt (Symbol.dollar_mem_text_iff hv).mp hscope)]
    exact Nat.zero_le 1
  cases s with
  | register _ | static _ _ | entry _ => exact hother (hfree id)
  | label scope name => exact hother (Nat.le_of_eq (count_labelText hv.1 hv.2))
  | compare m point number =>
    have hkind : "cmp_".toList.isPrefixOf point.name.toList = true := by cases point <;> decide
    refine renumber_internalText e e' hopening hdigit
      (dollar_notMem_of_isSymbolName (isSymbolName_of_isModuleName hv))
      (Symbol.dot_notMem_pointName point) ?_
    rw [newNumber?, if_pos hkind]
    exact congrArg some (by omega)
  | returnSite scope number =>
    refine renumber_internalText e e' hopening hdigit (dollar_notMem_of_isSymbolName hv)
      (by decide) ?_
    rw [newNumber?, if_neg (by decide), if_pos rfl]
    exact congrArg some (by omega)

/-- **A line is renumbered by its text.** -/
theorem renumber_text {l : Line} (hv : l.Valid) :
    renumber e e' (l.shift e.compares e.calls).text = (l.shift e'.compares e'.calls).text := by
  have hfree {t : String} (h : '$' ∉ t.toList) : renumber e e' t = t := by
    refine renumber_of_count_le_one e e' ?_
    rw [List.count_eq_zero_of_not_mem h]
    exact Nat.zero_le 1
  have hdest (dest : Dest) : '$' ∉ dest.text.toList := by cases dest <;> decide
  have hcomp (comp : Comp) : '$' ∉ comp.text.toList := by cases comp <;> decide
  have hjump (condition : Jump) : '$' ∉ condition.text.toList := by cases condition <;> decide
  cases l with
  | label s => exact renumber_symbol e e' (by decide) (by decide) (by decide) hv
  | address o =>
    cases o with
    | symbol s =>
      have hs : renumber e e' ("@" ++ (s.shift e.compares e.calls).text ++ "") =
          "@" ++ (s.shift e'.compares e'.calls).text ++ "" :=
        renumber_symbol e e' (by decide) (by decide) (by decide) hv
      rwa [String.append_empty, String.append_empty] at hs
    | number n =>
      obtain ⟨k, rfl⟩ := Int.eq_ofNat_of_zero_le hv
      refine hfree fun (h : '$' ∈ ("@" ++ Text.decimal k).toList) => ?_
      rw [String.toList_append, List.mem_append] at h
      rcases h with h | h
      · exact absurd h (by decide)
      · exact absurd (isDigit_of_mem_decimal h) (by decide)
  | store dest comp =>
    refine hfree ?_
    simp [Line.shift, Line.text, hdest, hcomp]
  | jump comp condition =>
    refine hfree ?_
    simp [Line.shift, Line.text, hcomp, hjump]

end Renumber

/-! ## Modules after different histories -/

/-- The lines of a module, emitted from a fresh emitter. -/
theorem valid_of_mem_module {name : String} {lines : List String} :
    ∀ l ∈ (Emission.module name lines Emitter.start).code, l.Valid := by
  intro l hl
  have hprogram : l ∈ program [.module name lines] := List.mem_append_left _ hl
  exact valid_of_mem_program l hprogram

/-- **A module is independent of history up to the numbers of its labels.**  Take any two
workbenches, whatever was emitted on them, and let an emitter of each emit one module.
Both succeed, or both fail with the same fault.  The lines that the second run adds are
those of the first, renumbered; both give out equally many numbers, and unless the name
of the module is refused they end in the same scope. -/
theorem module_independent_of_history (t₁ t₂ : FileTree) (b₁ b₂ : Workbench) (p₁ p₂ : Nat)
    (name : String) (lines : List String) :
    (b₁.perform t₁ p₁ (.module name lines)).2.result =
        (b₂.perform t₂ p₂ (.module name lines)).2.result ∧
    (∃ added, (b₁.perform t₁ p₁ (.module name lines)).1.listing.lines = b₁.listing.lines ++ added ∧
      (b₂.perform t₂ p₂ (.module name lines)).1.listing.lines =
        b₂.listing.lines ++ added.map (renumber (b₁.emitter p₁) (b₂.emitter p₂))) ∧
    (∃ compares calls,
      (b₁.perform t₁ p₁ (.module name lines)).2.emitter.compares =
        (b₁.emitter p₁).compares + compares ∧
      (b₂.perform t₂ p₂ (.module name lines)).2.emitter.compares =
        (b₂.emitter p₂).compares + compares ∧
      (b₁.perform t₁ p₁ (.module name lines)).2.emitter.calls = (b₁.emitter p₁).calls + calls ∧
      (b₂.perform t₂ p₂ (.module name lines)).2.emitter.calls = (b₂.emitter p₂).calls + calls) ∧
    (Text.IsWord ['_', ':'] name →
      (b₁.perform t₁ p₁ (.module name lines)).2.emitter.scope =
        (b₂.perform t₂ p₂ (.module name lines)).2.emitter.scope) := by
  simp only [Workbench.listing_perform_module, Workbench.outcome_perform, Task.emission_module,
    Listing.lines_append]
  cases hname : isModuleName name with
  | true =>
    -- both runs are the run of a fresh emitter, each with its numbers moved on
    rw [Emission.module_eq_shift hname lines (b₁.emitter p₁),
      Emission.module_eq_shift hname lines (b₂.emitter p₂)]
    refine ⟨rfl, ⟨_, rfl, ?_⟩, ⟨_, _, rfl, rfl, rfl, rfl⟩, fun _ => rfl⟩
    simp only [Outcome.shift, List.map_map]
    refine congrArg _ (List.map_congr_left fun l hl => ?_)
    exact (renumber_text _ _ (valid_of_mem_module l hl)).symm
  | false =>
    rw [Emission.module_of_not_name hname, Emission.module_of_not_name hname]
    refine ⟨rfl, ⟨[], rfl, rfl⟩, ⟨0, 0, rfl, rfl, rfl, rfl⟩, fun hword => ?_⟩
    rw [isModuleName_iff_isWord.mpr hword] at hname
    cases hname

/-- A module that fails in its second line, emitted by a fresh emitter and after another
module that failed inside a function. -/
theorem module_after_failed_module :
    Text.IsWord ['_', ':'] "Main" ∧
      ((Workbench.new 1 []).perform (.bare []) 0
          (.module "Main" ["eq", "push heap 0"])).2.emitter.scope =
        (((Workbench.new 1 ["// first"]).perform (.bare []) 0
            (.module "Lib" ["function g 0", "lt", "pop constant 0"])).1.perform (.bare []) 0
          (.module "Main" ["eq", "push heap 0"])).2.emitter.scope ∧
      (((Workbench.new 1 ["// first"]).perform (.bare []) 0
            (.module "Lib" ["function g 0", "lt", "pop constant 0"])).1.perform (.bare []) 0
          (.module "Main" ["eq", "push heap 0"])).1.listing.lines.getLast? =
        some "(Main$$cmp_end.1)" := by
  have hname : Text.IsWord ['_', ':'] "Main" := isModuleName_iff_isWord.mp (by decide)
  have hruns := module_independent_of_history (.bare []) (.bare []) (Workbench.new 1 [])
    ((Workbench.new 1 ["// first"]).perform (.bare []) 0
      (.module "Lib" ["function g 0", "lt", "pop constant 0"])).1 0 0 "Main" ["eq", "push heap 0"]
  exact ⟨hname, hruns.2.2.2 hname, by decide +kernel⟩

end HackVM
