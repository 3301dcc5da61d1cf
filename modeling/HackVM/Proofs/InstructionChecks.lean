import HackVM.Proofs.BlockSymbols
import HackVM.Proofs.TextPatterns

/-! # The checks on one instruction

What has to hold of an instruction is a list of requirements, in the order in which
they are checked (`Instruction.requirements`), each with the class of the fault that
an instruction meets which falls short of it.  They speak of the texts of the
instruction only.

Emitting an instruction **decides** its requirements (`decides_instruction`): it
succeeds when all of them are met, and otherwise fails with the class of the first
that is not.  Each check decides the requirements that it stands for, and checks made
one after the other decide their requirements in that order (`Decides.bind`).  So
whether an instruction is accepted depends on nothing but the instruction
(`Instruction.accepted_iff`), and one that fails leaves no code behind
(`instruction_of_failure`). -/
namespace HackVM

open Asm

/-! ## Requirements -/

/-- What a fault is, seen from outside: a diagnostic of some kind, a number beyond the
limit on digits, or anything else. -/
inductive FaultClass where
  | refused (kind : Kind)
  | beyondLimit
  | other
deriving DecidableEq

/-- The class of a fault. -/
def Fault.toClass : Fault → FaultClass
  | .refused d => .refused d.kind
  | .numeralTooLong _ | .numberTooLarge => .beyondLimit
  | _ => .other

/-- A requirement, and the class of the fault if it is not met. -/
structure Requirement where
  met : Prop
  otherwise : FaultClass

/-- The class that belongs to the first requirement that is not met. -/
inductive FirstUnmet : List Requirement → FaultClass → Prop where
  | here {r : Requirement} {rest : List Requirement} (h : ¬ r.met) :
    FirstUnmet (r :: rest) r.otherwise
  | later {r : Requirement} {rest : List Requirement} {k : FaultClass} (h : r.met)
    (hrest : FirstUnmet rest k) : FirstUnmet (r :: rest) k

theorem FirstUnmet.append_right {rs : List Requirement} {k : FaultClass} (h : FirstUnmet rs k)
    (rs' : List Requirement) : FirstUnmet (rs ++ rs') k := by
  induction h with
  | here h => exact .here h
  | later h _ ih => exact .later h ih

theorem FirstUnmet.append_left {rs rs' : List Requirement} {k : FaultClass}
    (h : ∀ r ∈ rs, r.met) (h' : FirstUnmet rs' k) : FirstUnmet (rs ++ rs') k := by
  induction rs with
  | nil => exact h'
  | cons r rs ih =>
    exact .later (h r (List.mem_cons_self ..)) (ih fun q hq => h q (List.mem_cons_of_mem _ hq))

theorem FirstUnmet.not_all {rs : List Requirement} {k : FaultClass} (h : FirstUnmet rs k) :
    ¬ ∀ r ∈ rs, r.met := by
  induction h with
  | here h => exact fun hall => h (hall _ (List.mem_cons_self ..))
  | later _ _ ih => exact fun hall => ih fun q hq => hall q (List.mem_cons_of_mem _ hq)

theorem FirstUnmet.unique {rs : List Requirement} {k k' : FaultClass} (h : FirstUnmet rs k)
    (h' : FirstUnmet rs k') : k = k' := by
  induction h with
  | here hr =>
    cases h' with
    | here => rfl
    | later hmet => exact absurd hmet hr
  | later hmet _ ih =>
    cases h' with
    | here hr => exact absurd hmet hr
    | later _ hrest => exact ih hrest

theorem FirstUnmet.exists_mem {rs : List Requirement} {k : FaultClass} (h : FirstUnmet rs k) :
    ∃ r ∈ rs, r.otherwise = k := by
  induction h with
  | here _ => exact ⟨_, List.mem_cons_self .., rfl⟩
  | later _ _ ih =>
    obtain ⟨r, hr, hk⟩ := ih
    exact ⟨r, List.mem_cons_of_mem _ hr, hk⟩

/-! ## What is required of an instruction -/

/-- The names of the segments. -/
def segmentNames : List String :=
  ["constant", "local", "argument", "this", "that", "pointer", "temp", "static"]

/-- The names of the operations. -/
def operationNames : List String := ["add", "sub", "neg", "eq", "gt", "lt", "and", "or", "not"]

/-- The marks that may stand in the name of a label or a function. -/
def nameMarks : List Char := ['_', '.', ':']

namespace Instruction

variable (i : Instruction)

/-- The first argument. -/
def first : String := i.arguments.getD 0 ""

/-- The second argument. -/
def second : String := i.arguments.getD 1 ""

variable {i} in
theorem first_of_arguments {s : String} {rest : List String} (h : i.arguments = s :: rest) :
    i.first = s := by
  rw [first, h]
  rfl

variable {i} in
theorem second_of_arguments {s t : String} {rest : List String}
    (h : i.arguments = s :: t :: rest) : i.second = t := by
  rw [second, h]
  rfl

/-- The number of arguments is right. -/
def countRequirement (count : Nat) : Requirement :=
  ⟨i.arguments.length = count, .refused .malformed⟩

/-- A text may name a label or a function. -/
def nameRequirement (t : String) : Requirement :=
  ⟨Text.IsWord nameMarks t, .refused .malformed⟩

/-- A text names a segment. -/
def segmentRequirement (t : String) : Requirement :=
  ⟨t ∈ segmentNames, .refused .unknownSegment⟩

/-- A text is a numeral that can be read. -/
def indexRequirements (t : String) : List Requirement :=
  [⟨Text.IsDigits t, .refused .malformedIndex⟩, ⟨t.length ≤ 4300, .beyondLimit⟩]

/-- The segment allows the index: constants are pushed only and have fifteen bits, and
two segments have a fixed size. -/
def rangeRequirement : Requirement :=
  ⟨(i.first = "constant" → i.name = "push" ∧ Text.numeralValue i.second ≤ 32767) ∧
    (i.first = "pointer" → Text.numeralValue i.second ≤ 1) ∧
    (i.first = "temp" → Text.numeralValue i.second ≤ 7), .refused .invalidIndex⟩

/-- What is required for an instruction to be read. -/
def readingRequirements : List Requirement :=
  if i.name ∈ ["push", "pop"] then
    i.countRequirement 2 :: segmentRequirement i.first :: indexRequirements i.second
      ++ [i.rangeRequirement]
  else if i.name ∈ operationNames then [i.countRequirement 0]
  else if i.name ∈ ["label", "goto", "if-goto"] then
    [i.countRequirement 1, nameRequirement i.first]
  else if i.name = "return" then [i.countRequirement 0]
  else if i.name ∈ ["function", "call"] then
    i.countRequirement 2 :: nameRequirement i.first :: indexRequirements i.second
  else [⟨False, .refused .unknownInstruction⟩]

/-- What is required for the code of an instruction to be written: a call writes the
number of its arguments plus the five cells of the frame. -/
def writingRequirements : List Requirement :=
  if i.name = "call" then
    [⟨(Nat.toDigits 10 (Text.numeralValue i.second + 5)).length ≤ 4300, .beyondLimit⟩]
  else []

/-- All that is required of an instruction, in the order of the checks. -/
def requirements : List Requirement := i.readingRequirements ++ i.writingRequirements

end Instruction

/-! ## Checks that decide requirements -/

/-- A diagnostic of the fault, if it is one, names the line and leaves the module
open. -/
def Fault.LiesOn (line : Int) : Fault → Prop
  | .refused d => d.line = some line ∧ d.module = none
  | _ => True

/-- A check on an instruction decides requirements: it succeeds when all are met, and
otherwise fails with the class of the first that is not, on the line of the
instruction. -/
def Decides {α : Type} (i : Instruction) (rs : List Requirement) : Except Fault α → Prop
  | .ok _ => ∀ r ∈ rs, r.met
  | .error fault => FirstUnmet rs fault.toClass ∧ fault.LiesOn i.line

namespace Decides

variable {α β : Type} {i : Instruction} {rs rs' : List Requirement} {x : Except Fault α}

theorem ok (a : α) : Decides i [] (.ok a : Except Fault α) := fun _ hr => nomatch hr

/-- Checks made one after the other decide their requirements in that order. -/
theorem bind {f : α → Except Fault β} (hx : Decides i rs x)
    (hf : ∀ a, x = .ok a → Decides i rs' (f a)) : Decides i (rs ++ rs') (x >>= f) := by
  cases x with
  | error fault => exact ⟨hx.1.append_right rs', hx.2⟩
  | ok a =>
    show Decides i (rs ++ rs') (f a)
    have ha := hf a rfl
    cases hfa : f a with
    | error fault =>
      rw [hfa] at ha
      exact ⟨ha.1.append_left hx, ha.2⟩
    | ok b =>
      rw [hfa] at ha
      intro r hr
      rcases List.mem_append.mp hr with h | h
      · exact hx r h
      · exact ha r h

/-- Checks after which nothing can fail. -/
theorem bind_ok {f : α → Except Fault β} (hx : Decides i rs x)
    (hf : ∀ a, x = .ok a → ∃ b, f a = .ok b) : Decides i rs (x >>= f) := by
  rw [← List.append_nil rs]
  refine hx.bind fun a ha => ?_
  obtain ⟨b, hb⟩ := hf a ha
  rw [hb]
  exact .ok b

theorem map (g : α → β) (hx : Decides i rs x) : Decides i rs (x.map g) := by
  cases x <;> exact hx

/-- A requirement that is met comes before those that a check decides. -/
theorem cons {r : Requirement} (hr : r.met) (hx : Decides i rs x) : Decides i (r :: rs) x := by
  cases x with
  | error fault => exact ⟨.later hr hx.1, hx.2⟩
  | ok a =>
    intro q hq
    rcases List.mem_cons.mp hq with rfl | h
    · exact hr
    · exact hx q h

/-- A failure on the line of the instruction, when the first requirement is not met. -/
theorem error {r : Requirement} {fault : Fault} (hr : ¬ r.met) (hk : fault.toClass = r.otherwise)
    (hl : fault.LiesOn i.line) : Decides i (r :: rs) (.error fault : Except Fault α) := by
  refine ⟨?_, hl⟩
  rw [hk]
  exact .here hr

/-- A test decides the requirement that it tests. -/
theorem ite {b : Bool} {r : Requirement} {a : α} {fault : Fault} (hb : b = true ↔ r.met)
    (hk : fault.toClass = r.otherwise) (hl : fault.LiesOn i.line) :
    Decides i [r] (if b then .ok a else .error fault : Except Fault α) := by
  cases b with
  | true => exact .cons (hb.mp rfl) (.ok a)
  | false => exact .error (fun h => nomatch hb.mpr h) hk hl

theorem isOk_iff (hx : Decides i rs x) : (∃ a, x = .ok a) ↔ ∀ r ∈ rs, r.met := by
  cases x with
  | error fault =>
    refine iff_of_false ?_ hx.1.not_all
    rintro ⟨a, ha⟩
    cases ha
  | ok a => exact iff_of_true ⟨a, rfl⟩ hx

end Decides

/-! ## Each check -/

theorem Instruction.liesOn_refuse (i : Instruction) (cause : Cause) :
    (i.refuse cause).LiesOn i.line := ⟨rfl, rfl⟩

theorem Segment.ofName?_eq_none_iff {t : String} : ofName? t = none ↔ t ∉ segmentNames := by
  rw [ofName?, List.find?_eq_none]
  simp [all, name, segmentNames, eq_comm]

theorem Segment.name_of_ofName? {t : String} {segment : Segment} (h : ofName? t = some segment) :
    segment.name = t := by
  have := List.find?_some h
  simpa using this

namespace Instruction

variable (i : Instruction)

theorem decides_readSegment (t : String) :
    Decides i [segmentRequirement t] (i.readSegment t) := by
  unfold readSegment
  cases h : Segment.ofName? t with
  | none => exact .error (Segment.ofName?_eq_none_iff.mp h) rfl (i.liesOn_refuse _)
  | some segment =>
    refine .cons ?_ (.ok segment)
    show t ∈ segmentNames
    apply Decidable.of_not_not
    intro hn
    rw [Segment.ofName?_eq_none_iff.mpr hn] at h
    cases h

theorem decides_readSymbol (t : String) : Decides i [nameRequirement t] (i.readSymbol t) :=
  Decides.ite isSymbolName_iff_isWord rfl (i.liesOn_refuse _)

theorem decides_readIndex (t : String) : Decides i (indexRequirements t) (i.readIndex t) := by
  unfold readIndex
  split
  · have hd := Text.isNumeral_iff_isDigits.mp ‹_›
    split
    · exact .cons hd (.cons ‹_› (.ok _))
    · refine .cons hd (.error ?_ rfl trivial)
      exact ‹¬ t.length ≤ Text.digitLimit›
  · exact .error (fun h => ‹¬ _› (Text.isNumeral_iff_isDigits.mpr h)) rfl (i.liesOn_refuse _)

theorem met_of_readIndex {i : Instruction} {t : String} {n : Nat} (h : i.readIndex t = .ok n) :
    ∀ r ∈ indexRequirements t, r.met := by
  have hd := i.decides_readIndex t
  rw [h] at hd
  exact hd

theorem isDigits_of_readIndex {i : Instruction} {t : String} {n : Nat}
    (h : i.readIndex t = .ok n) : Text.IsDigits t :=
  met_of_readIndex h _ (List.mem_cons_self ..)

theorem readIndex_eq_ok {i : Instruction} {t : String} {n : Nat} (h : i.readIndex t = .ok n) :
    n = Text.numeralValue t ∧ Text.isWritable n = true := by
  have hn : n = Text.numeralValue t := by
    unfold readIndex at h
    split at h
    · split at h
      · exact (Except.ok.inj h).symm
      · cases h
    · cases h
  refine ⟨hn, hn ▸ Text.isWritable_numeralValue (isDigits_of_readIndex h) ?_⟩
  exact met_of_readIndex h ⟨t.length ≤ 4300, _⟩ (List.mem_cons_of_mem _ (List.mem_cons_self ..))

end Instruction

/-- An index has no problem exactly when the segment allows it. -/
theorem Segment.indexProblem?_eq_none_iff {segment : Segment} {pop : Bool} {index : Nat} :
    segment.indexProblem? pop index = none ↔
      (segment.name = "constant" → pop = false ∧ index ≤ 32767) ∧
        (segment.name = "pointer" → index ≤ 1) ∧ (segment.name = "temp" → index ≤ 7) := by
  cases segment with
  | constant => cases pop <;> simp [indexProblem?, name, maxConstant]
  | base b => cases b <;> simp [indexProblem?, name]
  | pointer =>
    by_cases h : index < 2
    · simp [indexProblem?, name, h, Nat.le_of_lt_succ h]
    · simp [indexProblem?, name, h, mt Nat.lt_succ_of_le h]
  | temp =>
    by_cases h : index < 8
    · simp [indexProblem?, name, tempSize, h, Nat.le_of_lt_succ h]
    · simp [indexProblem?, name, tempSize, h, mt Nat.lt_succ_of_le h]
  | static => simp [indexProblem?, name]

namespace Code

theorem numberOperand_of_isWritable {n : Int} (h : Text.isWritable n = true) :
    numberOperand n = .ok (.number n) := if_pos h

theorem staticOperand_of_isWritable {n : Int} (m : String) (h : Text.isWritable n = true) :
    staticOperand m n = .ok (.symbol (.static m n)) := if_pos h

theorem exists_pointerRegister {index : Nat} (h : index < 2) :
    ∃ r, pointerRegister index = .ok r := by
  unfold pointerRegister
  split
  · exact ⟨_, rfl⟩
  · rw [if_pos (by omega)]
    exact ⟨_, rfl⟩

theorem isWritable_temp {index : Nat} (h : index < Segment.tempSize) :
    Text.isWritable (Segment.tempBase + index : Int) = true := by
  refine Text.isWritable_of_lt_pow (n := 5 + index) (k := 2) (by decide) ?_
  have h : index < 8 := h
  show 5 + index < 100
  omega

/-- An index that was read and that the segment allows can be pushed. -/
theorem exists_push {segment : Segment} {index : Nat} {m : String}
    (hw : Text.isWritable index = true) (hp : segment.indexProblem? false index = none) :
    ∃ lines, push segment index m = .ok lines := by
  suffices h : ∃ lines, fetch segment index m = .ok lines by
    obtain ⟨lines, hl⟩ := h
    exact ⟨lines ++ pushD, by rw [push, hl]; rfl⟩
  cases segment with
  | constant | base b =>
    simp only [fetch, numberOperand_of_isWritable hw]
    exact ⟨_, rfl⟩
  | pointer =>
    have hlt : index < 2 := by simpa [Segment.indexProblem?] using hp
    obtain ⟨r, hr⟩ := exists_pointerRegister hlt
    simp only [fetch, hr]
    exact ⟨_, rfl⟩
  | temp =>
    have hlt : index < Segment.tempSize := by simpa [Segment.indexProblem?] using hp
    have ht := isWritable_temp hlt
    simp only [fetch, numberOperand_of_isWritable ht]
    exact ⟨_, rfl⟩
  | static =>
    simp only [fetch, staticOperand_of_isWritable m hw]
    exact ⟨_, rfl⟩

/-- An index that was read and that the segment allows can be popped into. -/
theorem exists_pop {segment : Segment} {index : Nat} {m : String}
    (hw : Text.isWritable index = true) (hp : segment.indexProblem? true index = none) :
    ∃ lines, pop segment index m = .ok lines := by
  cases segment with
  | constant => simp [Segment.indexProblem?] at hp
  | base b =>
    simp only [pop, numberOperand_of_isWritable hw]
    exact ⟨_, rfl⟩
  | pointer =>
    have hlt : index < 2 := by simpa [Segment.indexProblem?] using hp
    obtain ⟨r, hr⟩ := exists_pointerRegister hlt
    simp only [pop, hr]
    exact ⟨_, rfl⟩
  | temp =>
    have hlt : index < Segment.tempSize := by simpa [Segment.indexProblem?] using hp
    have ht := isWritable_temp hlt
    simp only [pop, numberOperand_of_isWritable ht]
    exact ⟨_, rfl⟩
  | static =>
    simp only [pop, staticOperand_of_isWritable m hw]
    exact ⟨_, rfl⟩

end Code

/-- The families by the names of their instructions. -/
theorem Family.ofName?_eq (name : String) :
    ofName? name =
      if name ∈ ["push", "pop"] then some .stack
      else if name ∈ operationNames then some .arithmetic
      else if name ∈ ["label", "goto", "if-goto"] then some .flow
      else if name ∈ ["function", "call", "return"] then some .function
      else none := by
  have hmem (f : Family) : f.recognizes name = true ↔ name ∈ f.names := List.contains_iff_mem
  have hop : name ∈ names .arithmetic ↔ name ∈ operationNames := by
    constructor
    · exact (by decide : ∀ n ∈ names .arithmetic, n ∈ operationNames) name
    · exact (by decide : ∀ n ∈ operationNames, n ∈ names .arithmetic) name
  have hskip (f : Family) (rest : List Family) (h : name ∉ f.names) :
      (f :: rest).find? (fun f => f.recognizes name) = rest.find? fun f => f.recognizes name :=
    List.find?_cons_of_neg (mt (hmem f).mp h)
  unfold ofName? all
  split
  · exact List.find?_cons_of_pos ((hmem .stack).mpr ‹_›)
  rw [hskip .stack _ ‹_›]
  split
  · exact List.find?_cons_of_pos ((hmem .arithmetic).mpr (hop.mpr ‹_›))
  rw [hskip .arithmetic _ (mt hop.mp ‹_›)]
  split
  · exact List.find?_cons_of_pos ((hmem .flow).mpr ‹_›)
  rw [hskip .flow _ ‹_›]
  split
  · exact List.find?_cons_of_pos ((hmem .function).mpr ‹_›)
  · rw [hskip .function _ ‹_›, List.find?_nil]

namespace Command

variable {i : Instruction}

theorem decides_ofStack (hn : i.name = "push" ∨ i.name = "pop") :
    Decides i (i.countRequirement 2 :: Instruction.segmentRequirement i.first ::
      Instruction.indexRequirements i.second ++ [i.rangeRequirement]) (ofStack i) := by
  obtain ⟨line, name, arguments⟩ := i
  unfold ofStack
  split
  · rename_i s t ha
    cases ha
    refine .cons rfl ?_
    refine (Instruction.decides_readSegment _ s).bind fun segment hsegment => ?_
    refine (Instruction.decides_readIndex _ t).bind fun index hindex => ?_
    have hs := Segment.name_of_ofName? (Instruction.readSegment_eq_ok hsegment)
    obtain ⟨rfl, -⟩ := Instruction.readIndex_eq_ok hindex
    have hpop : decide (name = "pop") = false ↔ name = "push" := by
      rcases hn with rfl | rfl <;> decide
    -- what the reader calls a problem is what the requirement on ranges excludes
    have hrange : segment.indexProblem? (decide (name = "pop")) (Text.numeralValue t) = none ↔
        (Instruction.rangeRequirement ⟨line, name, [s, t]⟩).met := by
      rw [Segment.indexProblem?_eq_none_iff, hs, hpop]
      rfl
    split
    · rename_i problem hp
      refine .error (fun h => ?_) rfl (Instruction.liesOn_refuse _ _)
      rw [hrange.mpr h] at hp
      cases hp
    · split
      · exact .cons (hrange.mp ‹_›) (.ok _)
      · exact .cons (hrange.mp ‹_›) (.ok _)
  · rename_i hne
    refine .error (fun h => ?_) rfl (Instruction.liesOn_refuse _ _)
    match arguments, h with
    | [s, t], _ => exact hne s t rfl

theorem decides_ofArithmetic (hn : i.name ∈ operationNames) :
    Decides i [i.countRequirement 0] (ofArithmetic i) := by
  unfold ofArithmetic
  split
  · rename_i ha
    refine .cons (by rw [Instruction.countRequirement, ha]; rfl) ?_
    have hop : ∀ name ∈ operationNames, (Operation.ofName? name).isSome = true := by decide
    obtain ⟨op, ho⟩ := Option.isSome_iff_exists.mp (hop _ hn)
    rw [ho]
    exact .ok _
  · rename_i hne
    exact .error (fun h => hne (List.length_eq_zero_iff.mp h)) rfl (i.liesOn_refuse _)

theorem decides_ofFlow :
    Decides i [i.countRequirement 1, Instruction.nameRequirement i.first] (ofFlow i) := by
  obtain ⟨line, name, arguments⟩ := i
  unfold ofFlow
  split
  · rename_i t ha
    cases ha
    refine .cons rfl ((Instruction.decides_readSymbol _ t).bind_ok fun l _ => ?_)
    split
    · exact ⟨_, rfl⟩
    · split <;> exact ⟨_, rfl⟩
  · rename_i hne
    refine .error (fun h => ?_) rfl (Instruction.liesOn_refuse _ _)
    obtain ⟨t, rfl⟩ := List.length_eq_one_iff.mp h
    exact hne t rfl

theorem decides_ofFunction_return (hn : i.name = "return") :
    Decides i [i.countRequirement 0] (ofFunction i) := by
  unfold ofFunction
  rw [if_pos hn]
  split
  · rename_i ha
    exact .cons (by rw [Instruction.countRequirement, ha]; rfl) (.ok _)
  · rename_i hne
    exact .error (fun h => hne (List.length_eq_zero_iff.mp h)) rfl (i.liesOn_refuse _)

theorem decides_ofFunction (hn : i.name ≠ "return") :
    Decides i (i.countRequirement 2 :: Instruction.nameRequirement i.first ::
      Instruction.indexRequirements i.second) (ofFunction i) := by
  obtain ⟨line, name, arguments⟩ := i
  unfold ofFunction
  rw [if_neg hn]
  split
  · rename_i s t ha
    cases ha
    refine .cons rfl ((Instruction.decides_readSymbol _ s).bind fun f _ => ?_)
    refine (Instruction.decides_readIndex _ t).bind_ok fun count _ => ?_
    split <;> exact ⟨_, rfl⟩
  · rename_i hne
    refine .error (fun h => ?_) rfl (Instruction.liesOn_refuse _ _)
    match arguments, h with
    | [s, t], _ => exact hne s t rfl

/-- Reading an instruction decides what is required for it. -/
theorem decides_ofInstruction (i : Instruction) :
    Decides i i.readingRequirements (ofInstruction i) := by
  unfold ofInstruction Instruction.readingRequirements
  rw [Family.ofName?_eq]
  by_cases hstack : i.name ∈ ["push", "pop"]
  · rw [if_pos hstack, if_pos hstack]
    exact decides_ofStack (by simpa using hstack)
  rw [if_neg hstack, if_neg hstack]
  by_cases hop : i.name ∈ operationNames
  · rw [if_pos hop, if_pos hop]
    exact decides_ofArithmetic hop
  rw [if_neg hop, if_neg hop]
  by_cases hflow : i.name ∈ ["label", "goto", "if-goto"]
  · rw [if_pos hflow, if_pos hflow]
    exact decides_ofFlow
  rw [if_neg hflow, if_neg hflow]
  by_cases hret : i.name = "return"
  · rw [if_pos hret, if_pos (by simp [hret])]
    exact decides_ofFunction_return hret
  rw [if_neg hret]
  by_cases hfun : i.name ∈ ["function", "call"]
  · rw [if_pos hfun, if_pos (by simpa [hret] using hfun)]
    exact decides_ofFunction hret
  · rw [if_neg hfun, if_neg (by simpa [hret] using hfun)]
    exact .error id rfl (i.liesOn_refuse _)

/-- Only a call is read from an instruction of that name. -/
theorem exists_call_of_readFrom {c : Command} (hc : c.ReadFrom i) (hn : i.name = "call") :
    ∃ name, c = .call name (Text.numeralValue i.second) := by
  have hname := hn.symm.trans (name_of_readFrom hc)
  cases c with
  | call name arguments =>
    obtain ⟨-, -, t, ha, ht⟩ := hc
    rw [(Instruction.readIndex_eq_ok ht).1, Instruction.second_of_arguments ha]
    exact ⟨name, rfl⟩
  | operate op =>
    have hmem : op.name ∈ ["call"] := List.mem_singleton.mpr hname.symm
    exact absurd hmem (operationName_notMem (by decide) op)
  | push _ _ | pop _ _ | label _ | goto _ | ifGoto _ | function _ _ | ret =>
    simp [instructionName] at hname

/-- Only a push or a pop is read from an instruction of such a name, and its arguments are a
segment and an index. -/
theorem exists_segment_of_readFrom {c : Command} (hc : c.ReadFrom i)
    (hn : i.name ∈ ["push", "pop"]) :
    ∃ segment, Segment.ofName? i.first = some segment ∧ Text.IsDigits i.second ∧
      (i.name = "push" ∧ c = .push segment (Text.numeralValue i.second) ∨
        i.name = "pop" ∧ c = .pop segment (Text.numeralValue i.second)) := by
  rw [name_of_readFrom hc] at hn ⊢
  cases c with
  | push segment index | pop segment index =>
    obtain ⟨s, t, -, ha, hs, ht, -⟩ := hc
    obtain ⟨rfl, -⟩ := Instruction.readIndex_eq_ok ht
    rw [Instruction.first_of_arguments ha, Instruction.second_of_arguments ha]
    exact ⟨segment, hs, Instruction.isDigits_of_readIndex ht, by simp [instructionName]⟩
  | operate op => exact absurd hn (operationName_notMem (by decide) op)
  | label _ | goto _ | ifGoto _ | function _ _ | call _ _ | ret => simp [instructionName] at hn

/-- The code of a command other than a call can always be written. -/
theorem exists_code {c : Command} (hc : c.ReadFrom i) (hn : i.name ≠ "call") (m : String)
    (e : Emitter) : ∃ lines, c.code m e = .ok lines := by
  cases c with
  | push segment index =>
    obtain ⟨s, t, -, -, -, ht, hp⟩ := hc
    exact Code.exists_push (Instruction.readIndex_eq_ok ht).2 hp
  | pop segment index =>
    obtain ⟨s, t, -, -, -, ht, hp⟩ := hc
    exact Code.exists_pop (Instruction.readIndex_eq_ok ht).2 hp
  | operate op => cases op <;> exact ⟨_, rfl⟩
  | label name | goto name | ifGoto name | function name locals | ret => exact ⟨_, rfl⟩
  | call name arguments => exact absurd hc.1 hn

/-- Writing the code of an instruction that was read decides what is required for it:
only the code of a call can be beyond the limit. -/
theorem decides_code {c : Command} (hc : c.ReadFrom i) (m : String) (e : Emitter) :
    Decides i i.writingRequirements (c.code m e) := by
  unfold Instruction.writingRequirements
  by_cases hn : i.name = "call"
  · rw [if_pos hn]
    obtain ⟨name, hcall⟩ := exists_call_of_readFrom hc hn
    have hcode : c.code m e =
        Code.call name (Text.numeralValue i.second) (e.scope.name m) e.calls := by
      rw [hcall]
      rfl
    have hdepth : ((Text.numeralValue i.second : Int) + Code.frameSize) =
        ((Text.numeralValue i.second + 5 : Nat) : Int) := rfl
    have hw := Text.isWritable_iff (n := Text.numeralValue i.second + 5)
    rw [hcode, Code.call_eq, hdepth]
    generalize Text.isWritable (Text.numeralValue i.second + 5 : Nat) = b at hw ⊢
    exact Decides.ite hw rfl trivial
  · rw [if_neg hn]
    obtain ⟨lines, hl⟩ := exists_code hc hn m e
    rw [hl]
    exact .ok lines

end Command

/-! ## Emitting an instruction -/

namespace Emission

/-- An instruction is read, and then its code is written. -/
theorem result_instruction (m : String) (i : Instruction) (e : Emitter) :
    (instruction m i e).result =
      (Command.ofInstruction i >>= fun c => c.code m e).map fun _ => () := by
  cases hc : Command.ofInstruction i with
  | error fault => rw [instruction_of_error hc]; rfl
  | ok c =>
    rw [instruction_of_ok hc, command_apply]
    show _ = (c.code m e).map fun _ => ()
    generalize c.code m e = r
    cases r <;> rfl

/-- **Emitting an instruction decides what is required of it.** -/
theorem decides_instruction (m : String) (i : Instruction) (e : Emitter) :
    Decides i i.requirements (instruction m i e).result := by
  rw [result_instruction]
  refine ((Command.decides_ofInstruction i).bind fun c hc => ?_).map _
  exact Command.decides_code (Command.readFrom_of_ofInstruction hc) m e

/-- An instruction that succeeds is read as a command, and leaves the code of the command. -/
theorem exists_command_of_result {m : String} {i : Instruction} {e : Emitter}
    (h : (instruction m i e).result = .ok ()) :
    ∃ (c : Command) (code : List Line), c.ReadFrom i ∧ c.code m e = .ok code ∧
      instruction m i e = ⟨.ok (), code, c.next e⟩ := by
  cases hc : Command.ofInstruction i with
  | error fault =>
    rw [instruction_of_error hc] at h
    cases h
  | ok c =>
    rw [instruction_of_ok hc, command_apply] at h ⊢
    cases hl : c.code m e with
    | error fault =>
      rw [hl] at h
      cases h
    | ok code => exact ⟨c, code, Command.readFrom_of_ofInstruction hc, hl, rfl⟩

/-- An instruction that fails leaves no code behind, and stays in its scope. -/
theorem instruction_of_failure {m : String} {i : Instruction} {e : Emitter} {fault : Fault}
    (h : (instruction m i e).result = .error fault) :
    (instruction m i e).code = [] ∧ (instruction m i e).emitter.scope = e.scope := by
  cases hc : Command.ofInstruction i with
  | error fault' =>
    rw [instruction_of_error hc]
    exact ⟨rfl, rfl⟩
  | ok c =>
    rw [instruction_of_ok hc, command_apply] at h ⊢
    cases hl : c.code m e with
    | error fault' =>
      refine ⟨rfl, ?_⟩
      -- only a function changes the scope, and its code can always be written
      cases c with
      | function name locals => cases hl
      | _ => rfl
    | ok lines =>
      rw [hl] at h
      cases h

end Emission

/-- An instruction is accepted when it can be emitted, whatever the module and the
emitter are. -/
def Instruction.Accepted (i : Instruction) : Prop :=
  ∀ m e, (Emission.instruction m i e).result = .ok ()

/-- **Whether an instruction is accepted depends on nothing but the instruction**: one
module and one emitter that can emit it stand for all. -/
theorem Instruction.accepted_iff {i : Instruction} (m : String) (e : Emitter) :
    i.Accepted ↔ (Emission.instruction m i e).result = .ok () := by
  refine ⟨fun h => h m e, fun h m' e' => ?_⟩
  have hmet := (Emission.decides_instruction m i e).isOk_iff.mp ⟨(), h⟩
  obtain ⟨_, hok⟩ := (Emission.decides_instruction m' i e').isOk_iff.mpr hmet
  exact hok

theorem Instruction.accepted_iff_requirements {i : Instruction} :
    i.Accepted ↔ ∀ r ∈ i.requirements, r.met := by
  rw [i.accepted_iff "" Emitter.start, ← (Emission.decides_instruction "" i Emitter.start).isOk_iff]
  exact ⟨fun h => ⟨(), h⟩, fun ⟨_, h⟩ => h⟩

end HackVM
