import HackVM.Proofs.InstructionChecks

/-! # The grammar of instructions

Which instructions are accepted, as a grammar over the texts of names and arguments
(`WellFormed`), and which class of fault refuses the others.  The grammar is exact
(`instruction_emitted_iff_wellFormed`): in every module and from every emitter, the
instructions that can be emitted are the well-formed ones, and any other fails with
the class of the first requirement that it does not meet, leaving no code. -/
namespace HackVM

open Text

/-- A numeral that can be read. -/
def IsIndex (t : String) : Prop := IsDigits t ∧ t.length ≤ 4300

/-- The instructions of the language, by the texts of their names and arguments. -/
inductive WellFormed : Instruction → Prop where
  | push {line : Int} {segment index : String} (hsegment : segment ∈ segmentNames)
    (hindex : IsIndex index) (constant : segment = "constant" → numeralValue index ≤ 32767)
    (pointer : segment = "pointer" → numeralValue index ≤ 1)
    (temp : segment = "temp" → numeralValue index ≤ 7) :
    WellFormed ⟨line, "push", [segment, index]⟩
  /-- A constant can not be popped into. -/
  | pop {line : Int} {segment index : String} (hsegment : segment ∈ segmentNames)
    (hindex : IsIndex index) (constant : segment ≠ "constant")
    (pointer : segment = "pointer" → numeralValue index ≤ 1)
    (temp : segment = "temp" → numeralValue index ≤ 7) :
    WellFormed ⟨line, "pop", [segment, index]⟩
  | operation {line : Int} {name : String} (hname : name ∈ operationNames) :
    WellFormed ⟨line, name, []⟩
  | flow {line : Int} {name label : String} (hname : name ∈ ["label", "goto", "if-goto"])
    (hlabel : IsWord nameMarks label) : WellFormed ⟨line, name, [label]⟩
  | ret {line : Int} : WellFormed ⟨line, "return", []⟩
  | function {line : Int} {function locals : String} (hfunction : IsWord nameMarks function)
    (hlocals : IsIndex locals) : WellFormed ⟨line, "function", [function, locals]⟩
  /-- The number of arguments plus the five cells of the frame can be written. -/
  | call {line : Int} {function arguments : String} (hfunction : IsWord nameMarks function)
    (harguments : IsIndex arguments)
    (depth : (Nat.toDigits 10 (numeralValue arguments + 5)).length ≤ 4300) :
    WellFormed ⟨line, "call", [function, arguments]⟩

namespace Instruction

/-! ## The requirements of each kind of instruction -/

variable {i : Instruction}

/-- The requirements of a stack instruction say that it is well formed as one. -/
theorem met_stack_iff (hname : i.name = "push" ∨ i.name = "pop") :
    (∀ r ∈ i.requirements, r.met) ↔ i.arguments.length = 2 ∧ i.first ∈ segmentNames ∧
      IsIndex i.second ∧ i.rangeRequirement.met := by
  have hn : i.name ∈ ["push", "pop"] := by simpa using hname
  have hcall : i.name ≠ "call" := by rcases hname with h | h <;> rw [h] <;> decide
  unfold requirements readingRequirements writingRequirements
  rw [if_pos hn, if_neg hcall]
  simp [countRequirement, segmentRequirement, indexRequirements, IsIndex, and_assoc]

theorem met_operation_iff (hname : i.name ∈ operationNames) :
    (∀ r ∈ i.requirements, r.met) ↔ i.arguments.length = 0 := by
  have hstack : i.name ∉ ["push", "pop"] :=
    (by decide : ∀ n ∈ operationNames, n ∉ ["push", "pop"]) _ hname
  have hcall : i.name ≠ "call" := (by decide : ∀ n ∈ operationNames, n ≠ "call") _ hname
  unfold requirements readingRequirements writingRequirements
  rw [if_neg hstack, if_pos hname, if_neg hcall]
  simp [countRequirement]

theorem met_flow_iff (hname : i.name ∈ ["label", "goto", "if-goto"]) :
    (∀ r ∈ i.requirements, r.met) ↔ i.arguments.length = 1 ∧ IsWord nameMarks i.first := by
  unfold requirements readingRequirements writingRequirements
  have hother : ∀ n ∈ ["label", "goto", "if-goto"],
      n ∉ ["push", "pop"] ∧ n ∉ operationNames ∧ n ≠ "call" := by decide
  obtain ⟨hstack, hop, hcall⟩ := hother _ hname
  rw [if_neg hstack, if_neg hop, if_pos hname, if_neg hcall]
  simp [countRequirement, nameRequirement]

theorem met_return_iff (hname : i.name = "return") :
    (∀ r ∈ i.requirements, r.met) ↔ i.arguments.length = 0 := by
  unfold requirements readingRequirements writingRequirements
  simp [hname, operationNames, countRequirement]

theorem met_function_iff (hname : i.name = "function") :
    (∀ r ∈ i.requirements, r.met) ↔
      i.arguments.length = 2 ∧ IsWord nameMarks i.first ∧ IsIndex i.second := by
  unfold requirements readingRequirements writingRequirements
  simp [hname, operationNames, countRequirement, nameRequirement, indexRequirements, IsIndex]

theorem met_call_iff (hname : i.name = "call") :
    (∀ r ∈ i.requirements, r.met) ↔ i.arguments.length = 2 ∧ IsWord nameMarks i.first ∧
      IsIndex i.second ∧ (Nat.toDigits 10 (numeralValue i.second + 5)).length ≤ 4300 := by
  unfold requirements readingRequirements writingRequirements
  simp [hname, operationNames, countRequirement, nameRequirement, indexRequirements, IsIndex,
    and_assoc]

/-- No other name is that of an instruction. -/
theorem not_met_of_other (hstack : ¬ (i.name = "push" ∨ i.name = "pop"))
    (hop : i.name ∉ operationNames) (hflow : i.name ∉ ["label", "goto", "if-goto"])
    (hret : i.name ≠ "return") (hfun : i.name ≠ "function") (hcall : i.name ≠ "call") :
    ¬ ∀ r ∈ i.requirements, r.met := by
  unfold requirements readingRequirements writingRequirements
  rw [if_neg (by simpa using hstack), if_neg hop, if_neg hflow, if_neg hret,
    if_neg (by simp [hfun, hcall])]
  exact fun h => h _ (List.mem_cons_self ..)

/-! ## The grammar -/

theorem met_of_wellFormed (h : WellFormed i) : ∀ r ∈ i.requirements, r.met := by
  cases h with
  | push hsegment hindex constant pointer temp =>
    refine (met_stack_iff (.inl rfl)).mpr ⟨rfl, hsegment, hindex, ?_⟩
    exact ⟨fun h => ⟨rfl, constant h⟩, pointer, temp⟩
  | pop hsegment hindex constant pointer temp =>
    refine (met_stack_iff (.inr rfl)).mpr ⟨rfl, hsegment, hindex, ?_⟩
    exact ⟨fun h => absurd h constant, pointer, temp⟩
  | operation hname => exact (met_operation_iff hname).mpr rfl
  | flow hname hlabel => exact (met_flow_iff hname).mpr ⟨rfl, hlabel⟩
  | ret => exact (met_return_iff rfl).mpr rfl
  | function hfunction hlocals =>
    exact (met_function_iff rfl).mpr ⟨rfl, hfunction, hlocals⟩
  | call hfunction harguments depth =>
    exact (met_call_iff rfl).mpr ⟨rfl, hfunction, harguments, depth⟩

theorem wellFormed_of_met (h : ∀ r ∈ i.requirements, r.met) : WellFormed i := by
  obtain ⟨line, name, arguments⟩ := i
  by_cases hstack : name = "push" ∨ name = "pop"
  · obtain ⟨hlength, hsegment, hindex, hrange⟩ := (met_stack_iff hstack).mp h
    match arguments, hlength with
    | [segment, index], _ =>
      obtain ⟨hconstant, hpointer, htemp⟩ := hrange
      rcases hstack with rfl | rfl
      · exact .push hsegment hindex (fun h => (hconstant h).2) hpointer htemp
      · refine .pop hsegment hindex (fun h => ?_) hpointer htemp
        have hname : "pop" = "push" := (hconstant h).1
        exact absurd hname (by decide)
  by_cases hop : name ∈ operationNames
  · have hnil : arguments = [] := List.length_eq_zero_iff.mp ((met_operation_iff hop).mp h)
    exact hnil ▸ .operation hop
  by_cases hflow : name ∈ ["label", "goto", "if-goto"]
  · obtain ⟨hlength, hlabel⟩ := (met_flow_iff hflow).mp h
    match arguments, hlength with
    | [label], _ => exact .flow hflow hlabel
  by_cases hret : name = "return"
  · subst hret
    have hnil : arguments = [] := List.length_eq_zero_iff.mp ((met_return_iff rfl).mp h)
    exact hnil ▸ .ret
  by_cases hfun : name = "function"
  · subst hfun
    obtain ⟨hlength, hfunction, hlocals⟩ := (met_function_iff rfl).mp h
    match arguments, hlength with
    | [function, locals], _ => exact .function hfunction hlocals
  by_cases hcall : name = "call"
  · subst hcall
    obtain ⟨hlength, hfunction, harguments, hdepth⟩ := (met_call_iff rfl).mp h
    match arguments, hlength with
    | [function, count], _ => exact .call hfunction harguments hdepth
  exact absurd h (not_met_of_other hstack hop hflow hret hfun hcall)

/-- The well-formed instructions are those that meet all requirements. -/
theorem wellFormed_iff : WellFormed i ↔ ∀ r ∈ i.requirements, r.met :=
  ⟨met_of_wellFormed, wellFormed_of_met⟩

end Instruction

/-- **The instructions that can be emitted are the well-formed ones**, in every module
and from every emitter.  Any other fails with the class of the first requirement that
it does not meet, and leaves no code. -/
theorem instruction_emitted_iff_wellFormed (m : String) (i : Instruction) (e : Emitter) :
    ((Emission.instruction m i e).result = .ok () ↔ WellFormed i) ∧
      ∀ fault, (Emission.instruction m i e).result = .error fault →
        FirstUnmet i.requirements fault.toClass ∧ (Emission.instruction m i e).code = [] := by
  constructor
  · rw [← Instruction.accepted_iff, Instruction.accepted_iff_requirements,
      Instruction.wellFormed_iff]
  · intro fault h
    have hd := Emission.decides_instruction m i e
    rw [h] at hd
    exact ⟨hd.1, (Emission.instruction_of_failure h).1⟩

/-- An index that is no numeral is found before the pop into a constant. -/
theorem pop_of_malformed_constant :
    ∃ fault, (Emission.instruction "Main" ⟨7, "pop", ["constant", "0x1"]⟩ Emitter.start).result =
        .error fault ∧
      fault.toClass = .refused .malformedIndex ∧
      FirstUnmet (Instruction.requirements ⟨7, "pop", ["constant", "0x1"]⟩)
        (.refused .malformedIndex) := by
  have hfault : (Emission.instruction "Main" ⟨7, "pop", ["constant", "0x1"]⟩ Emitter.start).result =
      .error (.refused ⟨.malformedIndex "0x1" "pop constant 0x1", some 7, none⟩) := by
    rfl
  refine ⟨_, hfault, rfl, ?_⟩
  exact ((instruction_emitted_iff_wellFormed "Main" _ Emitter.start).2 _ hfault).1

end HackVM
