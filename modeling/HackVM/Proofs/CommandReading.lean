import HackVM.Command.Reading

/-! # What an accepted instruction looks like

Reading an instruction makes a chain of checks.  Seen from its result the chain is
simple: each command tells the name and the arguments of the instruction that it
was read from, and which checks these have passed (`Command.ReadFrom`). -/
namespace HackVM

theorem exists_of_bind_eq_ok {ε α β : Type} {x : Except ε α} {f : α → Except ε β} {b : β}
    (h : x >>= f = .ok b) : ∃ a, x = .ok a ∧ f a = .ok b := by
  cases x with
  | error fault => cases h
  | ok a => exact ⟨a, rfl, h⟩

theorem ok_bind {ε α β : Type} (a : α) (f : α → Except ε β) : (Except.ok a >>= f) = f a := rfl

theorem mapError_ok {ε ε' α : Type} (f : ε → ε') (a : α) :
    (Except.ok a : Except ε α).mapError f = .ok a := rfl

namespace Instruction

theorem readSymbol_eq_ok {i : Instruction} {argument name : String}
    (h : i.readSymbol argument = .ok name) : name = argument ∧ isSymbolName name = true := by
  unfold readSymbol at h
  split at h
  · cases h
    exact ⟨rfl, ‹_›⟩
  · cases h

theorem readSegment_eq_ok {i : Instruction} {argument : String} {segment : Segment}
    (h : i.readSegment argument = .ok segment) : Segment.ofName? argument = some segment := by
  unfold readSegment at h
  split at h
  · cases h
    assumption
  · cases h

end Instruction

/-- **The names of the operations.** -/
theorem Operation.ofName?_eq_some_iff {name : String} {op : Operation} :
    ofName? name = some op ↔
      (name, op) ∈ [("add", .binary .add), ("sub", .binary .sub), ("and", .binary .and),
        ("or", .binary .or), ("neg", .unary .neg), ("not", .unary .not), ("eq", .compare .eq),
        ("gt", .compare .gt), ("lt", .compare .lt)] := by
  constructor
  · intro h
    have hname := List.find?_some h
    rw [← of_decide_eq_true hname]
    cases op with
    | binary op | unary op | compare op => cases op <;> decide
  · simp only [List.mem_cons, Prod.mk.injEq, List.not_mem_nil, or_false]
    rintro (⟨rfl, rfl⟩ | ⟨rfl, rfl⟩ | ⟨rfl, rfl⟩ | ⟨rfl, rfl⟩ | ⟨rfl, rfl⟩ | ⟨rfl, rfl⟩ |
      ⟨rfl, rfl⟩ | ⟨rfl, rfl⟩ | ⟨rfl, rfl⟩) <;> rfl

namespace Command

/-- The instruction that a command was read from. -/
def ReadFrom (i : Instruction) : Command → Prop
  | .push segment index => ∃ s t, i.name = "push" ∧ i.arguments = [s, t] ∧
      Segment.ofName? s = some segment ∧ i.readIndex t = .ok index ∧
      segment.indexProblem? false index = none
  | .pop segment index => ∃ s t, i.name = "pop" ∧ i.arguments = [s, t] ∧
      Segment.ofName? s = some segment ∧ i.readIndex t = .ok index ∧
      segment.indexProblem? true index = none
  | .operate (.binary .add) => i.name = "add" ∧ i.arguments = []
  | .operate (.binary .sub) => i.name = "sub" ∧ i.arguments = []
  | .operate (.binary .and) => i.name = "and" ∧ i.arguments = []
  | .operate (.binary .or) => i.name = "or" ∧ i.arguments = []
  | .operate (.unary .neg) => i.name = "neg" ∧ i.arguments = []
  | .operate (.unary .not) => i.name = "not" ∧ i.arguments = []
  | .operate (.compare .eq) => i.name = "eq" ∧ i.arguments = []
  | .operate (.compare .gt) => i.name = "gt" ∧ i.arguments = []
  | .operate (.compare .lt) => i.name = "lt" ∧ i.arguments = []
  | .label name => i.name = "label" ∧ i.arguments = [name] ∧ isSymbolName name = true
  | .goto name => i.name = "goto" ∧ i.arguments = [name] ∧ isSymbolName name = true
  | .ifGoto name => i.name = "if-goto" ∧ i.arguments = [name] ∧ isSymbolName name = true
  | .function name locals => i.name = "function" ∧ isSymbolName name = true ∧
      ∃ t, i.arguments = [name, t] ∧ i.readIndex t = .ok locals
  | .call name arguments => i.name = "call" ∧ isSymbolName name = true ∧
      ∃ t, i.arguments = [name, t] ∧ i.readIndex t = .ok arguments
  | .ret => i.name = "return" ∧ i.arguments = []

variable {i : Instruction} {c : Command}

theorem readFrom_of_ofStack (hn : i.name = "push" ∨ i.name = "pop") (h : ofStack i = .ok c) :
    c.ReadFrom i := by
  unfold ofStack at h
  split at h
  · rename_i s t ha
    obtain ⟨segment, hs, h⟩ := exists_of_bind_eq_ok h
    obtain ⟨index, ht, h⟩ := exists_of_bind_eq_ok h
    have hs := Instruction.readSegment_eq_ok hs
    split at h
    · cases h
    · rename_i hp
      rcases hn with hn | hn
      · rw [if_pos hn] at h
        cases h
        exact ⟨s, t, hn, ha, hs, ht, by simpa [hn] using hp⟩
      · rw [if_neg (by rw [hn]; decide)] at h
        cases h
        exact ⟨s, t, hn, ha, hs, ht, by simpa [hn] using hp⟩
  · cases h

theorem readFrom_of_ofArithmetic (h : ofArithmetic i = .ok c) : c.ReadFrom i := by
  unfold ofArithmetic at h
  split at h
  · rename_i ha
    split at h
    · rename_i op hop
      cases h
      have hentry := Operation.ofName?_eq_some_iff.mp hop
      simp only [List.mem_cons, Prod.mk.injEq, List.not_mem_nil, or_false] at hentry
      rcases hentry with ⟨hn, rfl⟩ | ⟨hn, rfl⟩ | ⟨hn, rfl⟩ | ⟨hn, rfl⟩ | ⟨hn, rfl⟩ | ⟨hn, rfl⟩ |
        ⟨hn, rfl⟩ | ⟨hn, rfl⟩ | ⟨hn, rfl⟩ <;> exact ⟨hn, ha⟩
    · cases h
  · cases h

theorem readFrom_of_ofFlow (hn : i.name = "label" ∨ i.name = "goto" ∨ i.name = "if-goto")
    (h : ofFlow i = .ok c) : c.ReadFrom i := by
  unfold ofFlow at h
  split at h
  · rename_i t ha
    obtain ⟨name, hs, hc⟩ := exists_of_bind_eq_ok h
    obtain ⟨rfl, hv⟩ := Instruction.readSymbol_eq_ok hs
    rcases hn with hn | hn | hn
    · rw [if_pos hn] at hc
      cases hc
      exact ⟨hn, ha, hv⟩
    · rw [if_neg (by rw [hn]; decide), if_pos hn] at hc
      cases hc
      exact ⟨hn, ha, hv⟩
    · rw [if_neg (by rw [hn]; decide), if_neg (by rw [hn]; decide)] at hc
      cases hc
      exact ⟨hn, ha, hv⟩
  · cases h

theorem readFrom_of_ofFunction
    (hn : i.name = "function" ∨ i.name = "call" ∨ i.name = "return") (h : ofFunction i = .ok c) :
    c.ReadFrom i := by
  unfold ofFunction at h
  split at h
  · rename_i hr
    split at h
    · cases h
      exact ⟨hr, ‹_›⟩
    · cases h
  · rename_i hr
    split at h
    · rename_i s t ha
      obtain ⟨name, hs, hn'⟩ := exists_of_bind_eq_ok h
      obtain ⟨count, ht, hc⟩ := exists_of_bind_eq_ok hn'
      obtain ⟨rfl, hv⟩ := Instruction.readSymbol_eq_ok hs
      rcases hn with hn | hn | hn
      · rw [if_pos hn] at hc
        cases hc
        exact ⟨hn, hv, t, ha, ht⟩
      · rw [if_neg (by rw [hn]; decide)] at hc
        cases hc
        exact ⟨hn, hv, t, ha, ht⟩
      · exact absurd hn hr
    · cases h

/-- **Each command tells the instruction that it was read from.** -/
theorem readFrom_of_ofInstruction (h : ofInstruction i = .ok c) : c.ReadFrom i := by
  unfold ofInstruction at h
  split at h
  · rename_i f hf
    have hr : f.recognizes i.name = true := by
      have := List.find?_some hf
      simpa using this
    cases f with
    | empty => cases h
    | stack => exact readFrom_of_ofStack (by simpa [Family.recognizes, Family.names] using hr) h
    | arithmetic => exact readFrom_of_ofArithmetic h
    | flow => exact readFrom_of_ofFlow (by simpa [Family.recognizes, Family.names] using hr) h
    | function =>
      exact readFrom_of_ofFunction (by simpa [Family.recognizes, Family.names] using hr) h
  · cases h

/-- The name of the instructions that a command is read from. -/
def instructionName : Command → String
  | .push .. => "push"
  | .pop .. => "pop"
  | .operate op => op.name
  | .label _ => "label"
  | .goto _ => "goto"
  | .ifGoto _ => "if-goto"
  | .function .. => "function"
  | .call .. => "call"
  | .ret => "return"

/-- An operation does not have a name that no operation has. -/
theorem operationName_notMem {names : List String} (h : ∀ n ∈ names, Operation.ofName? n = none)
    (op : Operation) : op.name ∉ names := by
  intro hmem
  have hname : Operation.ofName? op.name = some op := by
    cases op with
    | binary op | unary op | compare op => cases op <;> rfl
  exact absurd ((h _ hmem).symm.trans hname) (by simp)

theorem name_of_readFrom (h : c.ReadFrom i) : i.name = c.instructionName := by
  cases c with
  | push segment index | pop segment index =>
    obtain ⟨s, t, hn, -⟩ := h
    exact hn
  | operate op =>
    cases op with
    | binary op | unary op | compare op => cases op <;> exact h.1
  | label _ | goto _ | ifGoto _ | function _ _ | call _ _ | ret => exact h.1

/-- The command has passed the checks on indices and on names. -/
def Valid : Command → Prop
  | .push segment index => segment.indexProblem? false index = none
  | .pop segment index => segment.indexProblem? true index = none
  | .label name | .goto name | .ifGoto name | .function name _ | .call name _ =>
    isSymbolName name = true
  | _ => True

theorem valid_of_readFrom (h : c.ReadFrom i) : c.Valid := by
  cases c with
  | push segment index | pop segment index =>
    obtain ⟨s, t, -, -, -, -, hp⟩ := h
    exact hp
  | label name | goto name | ifGoto name => exact h.2.2
  | function name locals | call name arguments => exact h.2.1
  | operate op | ret => trivial

end Command
end HackVM
