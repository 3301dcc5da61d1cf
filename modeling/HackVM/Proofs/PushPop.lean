import HackVM.Proofs.CallFrames
import HackVM.Proofs.InstructionGrammar
import HackVM.Proofs.NumericAddresses

/-! # A push undone by a pop

The addresses of a segment are computed twice, in one way by a push and in another way by a
pop, and a pop computes them after the push has moved the stack pointer and has written a
cell that may be a cell of the segment.  Nevertheless both reach the same cell, so a push and
a pop of it leave memory as it was, but for the cell above the stack and one scratch cell
(`push_then_pop_restores`).  All that is needed is that the cell above the stack is not one of
the registers. -/
namespace HackVM

open Asm Hack Text

/-! ## Cells -/

/-- The address of a cell of a segment that does not hold constants, where the cell of a static
variable is given. -/
def cellAddress (static : Word) (m : Memory) (segment : String) (index : Nat) : Word :=
  if segment = "local" then m 1 + BitVec.ofNat 16 index
  else if segment = "argument" then m 2 + BitVec.ofNat 16 index
  else if segment = "this" then m 3 + BitVec.ofNat 16 index
  else if segment = "that" then m 4 + BitVec.ofNat 16 index
  else if segment = "pointer" then 3 + BitVec.ofNat 16 index
  else if segment = "temp" then 5 + BitVec.ofNat 16 index
  else static

theorem Stack.cell?_eq_cellAddress (link : Stack.Linkage) (module : String) (m : Memory)
    {segment : Segment} (h : segment ≠ .constant) (index : Nat) :
    Stack.cell? link module m segment index =
      some (cellAddress (link.static module index) m segment.name index) := by
  cases segment with
  | constant => exact absurd rfl h
  | base b => cases b <;> rfl
  | pointer | temp =>
    rw [Stack.cell?, BitVec.ofNat_add]
    rfl
  | static => rfl

/-- One memory is another after the value of a cell was put on the stack and taken back. -/
structure PutBack (segment : String) (cell : Word) (m m' : Memory) : Prop where
  /-- The stack pointer is where it was. -/
  pointer : m' 0 = m 0
  /-- The cell has its value, also if it is the cell above the stack. -/
  restored : m' cell = m cell
  /-- The value is left in the cell above the stack. -/
  above : m' (m 0) = m cell
  /-- Nothing else is changed, but for one scratch cell by some segments. -/
  others : ∀ x, x ≠ m 0 → (x = 13 → segment ∉ baseNames) → m' x = m x

/-! ## Memory -/

namespace Hack.Memory

variable {m : Memory} {segment : Segment} {a v : Word}

theorem awaiting_of_kept {x : Word} (hx : x = 13 → segment.name ∉ baseNames) :
    m.awaiting segment a x = m x := by
  cases segment with
  | base b =>
    have hbase : (Segment.base b).name ∈ baseNames := by cases b <;> decide
    exact set_of_ne m a fun heq => hx heq hbase
  | _ => rfl

/-- The address that waits does not lie where the stack pointer does. -/
theorem drop_awaiting : (m.awaiting segment a).drop = m.drop.awaiting segment a := by
  cases segment with
  | base b => exact set_comm m _ _ (by decide)
  | _ => rfl

/-- A value that is pushed stays above the stack when the stack pointer moves back. -/
theorem drop_push : (m.push v).drop = m.set (m Register.sp.cell) v := by
  unfold push drop
  rw [set_self, set_set, BitVec.add_sub_cancel]
  funext x
  by_cases hx : x = Register.sp.cell
  · rw [hx, set_self]
  · rw [set_of_ne _ _ hx]

theorem popped_awaiting_push (h : Above (m Register.sp.cell)) :
    ((m.push v).awaiting segment a).popped = v := by
  have hkept : m Register.sp.cell = 13 → segment.name ∉ baseNames :=
    fun heq => absurd heq (h.ne_cell .r13)
  have hsp : (m.set (m Register.sp.cell) v).awaiting segment a Register.sp.cell =
      m Register.sp.cell := by
    rw [awaiting_of_kept fun heq => absurd heq (by decide), set_of_ne _ _ (h.ne_cell .sp).symm]
  rw [popped, drop_awaiting, drop_push, hsp, awaiting_of_kept hkept, set_self]

/-- **What a push and a pop of one cell do to memory.** -/
theorem putBack (h : Above (m Register.sp.cell)) (segment : Segment) (a : Word) :
    PutBack segment.name a m (((m.push (m a)).awaiting segment a).drop.set a
      ((m.push (m a)).awaiting segment a).popped) := by
  rw [popped_awaiting_push h, drop_awaiting, drop_push]
  have hothers : ∀ x, x ≠ m 0 → (x = 13 → segment.name ∉ baseNames) →
      ((m.set (m Register.sp.cell) (m a)).awaiting segment a).set a (m a) x = m x := by
    intro x hx hscratch
    by_cases hxa : x = a
    · rw [hxa, set_self]
    · rw [set_of_ne _ _ hxa, awaiting_of_kept hscratch]
      exact set_of_ne _ _ hx
  refine ⟨hothers 0 (h.ne_cell .sp).symm fun heq => absurd heq (by decide), set_self .., ?_, hothers⟩
  by_cases htop : m 0 = a
  · rw [htop, set_self]
  · have hkept : m 0 = 13 → segment.name ∉ baseNames := fun heq => absurd heq (h.ne_cell .r13)
    rw [set_of_ne _ _ htop, awaiting_of_kept hkept]
    exact set_self ..

end Hack.Memory

/-- A push that does not reach the registers leaves the addresses of segments as they are. -/
theorem Stack.cell?_push {link : Stack.Linkage} {module : String} {m : Memory} {v : Word}
    (h : Above (m Register.sp.cell)) (segment : Segment) (index : Nat) :
    Stack.cell? link module (m.push v) segment index =
      Stack.cell? link module m segment index := by
  cases segment with
  | base b =>
    have hregister : b.register ≠ .sp := by cases b <;> decide
    rw [Stack.cell?, Memory.push_of_ne (cell_ne_sp hregister) (h.ne_cell _).symm]
    rfl
  | _ => rfl

/-! ## Code -/

section Stretch

variable {segment : Segment} {index : Nat} {module : String} {push pop : List Line}
  (hpush : Code.push segment index module = .ok push)
  (hpop : Code.pop segment index module = .ok pop)
include hpush hpop

/-- **A push and a pop of one cell**, one after the other. -/
theorem putBack_follow (program : List Line) (s : State) (hsp : Above (s.memory Register.sp.cell))
    {static : Word}
    (hstatic : static = BitVec.ofNat 16 (symbolValue program (Symbol.staticText module index))) :
    PutBack segment.name (cellAddress static s.memory segment.name index) s.memory
      (s.follow program (push ++ pop)).memory := by
  let link : Stack.Linkage := ⟨fun _ _ => static, fun _ => 0⟩
  have hlink : segment = .static → BitVec.ofNat 16 (symbolValue program
      (Symbol.static module index).text) = link.static module index := fun _ => hstatic.symm
  have hsegment : segment ≠ .constant := by
    rintro rfl
    exact Code.pop_eq_ok hpop
  have hcell := Stack.cell?_eq_cellAddress link module s.memory hsegment index
  have hpushed := s.memory_follow_push link hlink hpush
  rw [Stack.read, hcell] at hpushed
  obtain ⟨a, ha, hpopped⟩ := (s.follow program push).memory_follow_pop_eq link hlink hpop
  rw [hpushed, Stack.cell?_push hsp, hcell] at ha
  obtain rfl := Option.some.inj ha
  rw [State.follow_append, hpopped, hpushed]
  exact Memory.putBack hsp segment _

theorem installed_push_pop {program before after : List Line}
    (hprogram : program = before ++ (push ++ pop) ++ after) :
    Installed program (size before) (push ++ pop) := by
  have hdefined : defined (push ++ pop) = [] := by
    rw [defined_append, Code.defined_push hpush, Code.defined_pop hpop]
    rfl
  refine installed_of_append hprogram ?_ ?_ ?_ <;> rw [hdefined]
  · exact List.forall_mem_nil _
  · exact List.forall_mem_nil _
  · exact List.nodup_nil

end Stretch

/-! ## Instructions -/

/-- What can be pushed can be popped, if it is not a constant. -/
theorem Instruction.Accepted.pop {line : Int} {s t : String} (hs : s ≠ "constant")
    (h : Accepted ⟨line, "push", [s, t]⟩) (line' : Int) : Accepted ⟨line', "pop", [s, t]⟩ := by
  rw [accepted_iff_requirements, met_stack_iff (.inl rfl)] at h
  rw [accepted_iff_requirements, met_stack_iff (.inr rfl)]
  obtain ⟨hlength, hsegment, hindex, -, hpointer, htemp⟩ := h
  exact ⟨hlength, hsegment, hindex, fun hconstant => absurd hconstant hs, hpointer, htemp⟩

/-- What is emitted for an accepted push or pop. -/
theorem Instruction.Accepted.exists_stack {line : Int} {name s t : String}
    (hname : name ∈ ["push", "pop"]) (h : Accepted ⟨line, name, [s, t]⟩) (m : String)
    (e : Emitter) :
    ∃ segment code, Segment.ofName? s = some segment ∧
      (name = "push" ∧ Code.push segment (numeralValue t) m = .ok code ∨
        name = "pop" ∧ Code.pop segment (numeralValue t) m = .ok code) ∧
      Emission.instruction m ⟨line, name, [s, t]⟩ e = ⟨.ok (), code, e⟩ := by
  obtain ⟨c, code, hread, hcode, heq⟩ := Emission.exists_command_of_result (h m e)
  obtain ⟨segment, hsegment, -, hcommand⟩ := Command.exists_segment_of_readFrom hread hname
  refine ⟨segment, code, hsegment, ?_⟩
  rcases hcommand with ⟨hpush, rfl⟩ | ⟨hpop, rfl⟩
  · exact ⟨.inl ⟨hpush, hcode⟩, heq⟩
  · exact ⟨.inr ⟨hpop, hcode⟩, heq⟩

/-- **A push and a pop of the same cell is the identity.**  Let `s` be a segment other than
`constant` and `t` an index that is accepted for it.  In every module and from every emitter,
both instructions are emitted.  Let a program hold their code, one after the other, between any
other code, and let the machine be at its first instruction, with the cell above the stack at
an address of 16 or more.  Then the machine runs through the code, without leaving it on the
way, to the instruction behind it, and leaves the stack pointer and every cell as they were,
except the cell above the stack, which holds the value that was moved, and `R13` for the four
segments that lie behind a base register.  The cell of the segment has its value back also
when it is the cell above the stack.  A static variable is named by the same symbol in
both. -/
theorem push_then_pop_restores {s t : String} (hs : s ≠ "constant") {line : Int}
    (h : Instruction.Accepted ⟨line, "push", [s, t]⟩) (line' : Int) (m : String) (e : Emitter) :
    ∃ push pop : List Line,
      Emission.instruction m ⟨line, "push", [s, t]⟩ e = ⟨.ok (), push, e⟩ ∧
      Emission.instruction m ⟨line', "pop", [s, t]⟩ e = ⟨.ok (), pop, e⟩ ∧
      (s = "static" → load (.static m (numeralValue t)) ∈ push ∧
        load (.static m (numeralValue t)) ∈ pop) ∧
      ∀ before after program : List Line, program = before ++ (push ++ pop) ++ after →
        ∀ u : State, u.pc = size before → 16 ≤ (u.memory 0).toNat →
          ∃ v, State.Passes (assemble program) (size before) (size (before ++ (push ++ pop))) u v ∧
            v.pc = size (before ++ (push ++ pop)) ∧
            PutBack s
              (cellAddress
                (BitVec.ofNat 16 (symbolValue program (m ++ "." ++ decimal (numeralValue t))))
                u.memory s (numeralValue t))
              u.memory v.memory := by
  obtain ⟨segment, push, hsegment, hpush, hpushed⟩ := h.exists_stack (by decide) m e
  obtain ⟨segment', pop, hsegment', hpop, hpopped⟩ :=
    (h.pop hs line').exists_stack (by decide) m e
  obtain rfl := Option.some.inj (hsegment.symm.trans hsegment')
  have hpush : Code.push segment (numeralValue t) m = .ok push := by simpa using hpush
  have hpop : Code.pop segment (numeralValue t) m = .ok pop := by simpa using hpop
  have hname := Segment.name_of_ofName? hsegment
  refine ⟨push, pop, hpushed, hpopped, ?_, ?_⟩
  · rintro rfl
    obtain rfl : .static = segment := Option.some.inj hsegment
    exact ⟨Code.load_mem_push_static hpush, Code.load_mem_pop_static hpop⟩
  · intro before after program hprogram u hpc hsp
    have hinstalled := installed_push_pop hpush hpop hprogram
    have hstraight : isStraight (push ++ pop) = true := by
      rw [isStraight_append, State.isStraight_push hpush, State.isStraight_pop hpop]
      rfl
    rw [← hpc] at hinstalled
    obtain ⟨hforward, hend⟩ := State.forward_follow hinstalled hstraight
    rw [hpc, ← size_append] at hend
    refine ⟨_, .of_forward hpc hforward hend, hend, ?_⟩
    rw [← hname]
    exact putBack_follow hpush hpop program u hsp rfl

/-- The cell of the segment is the cell above the stack, so the push overwrites the cell that
the pop restores, and the index is written with leading zeros. -/
theorem push_then_pop_of_cell_above_stack :
    ∃ (push pop : List Line) (u v : State),
      Emission.instruction "Main" ⟨1, "push", ["local", "003"]⟩ .start = ⟨.ok (), push, .start⟩ ∧
      Emission.instruction "Main" ⟨2, "pop", ["local", "003"]⟩ .start = ⟨.ok (), pop, .start⟩ ∧
      (u.memory 0 = 256 ∧ u.memory 1 = 253 ∧ u.memory 256 = 7) ∧
      State.Passes (assemble (push ++ pop)) 0 (size (push ++ pop)) u v ∧
      PutBack "local" 256 u.memory v.memory ∧ v.memory 256 = 7 := by
  let memory : Memory := fun x => if x = 0 then 256 else if x = 1 then 253 else 7
  have haccepted : Instruction.Accepted ⟨1, "push", ["local", "003"]⟩ :=
    Instruction.accepted_iff_requirements.mpr (Instruction.met_of_wellFormed
      (.push (by decide) ⟨isNumeral_iff_isDigits.mp (by decide), by decide⟩ (by decide) (by decide)
        (by decide)))
  obtain ⟨push, pop, hpush, hpop, -, hrun⟩ :=
    push_then_pop_restores (by decide) haccepted 2 "Main" .start
  obtain ⟨v, hpasses, -, hback⟩ :=
    hrun [] [] (push ++ pop) (by simp) ⟨0, 0, memory, 0⟩ rfl (by decide)
  have hcell (static : Word) : cellAddress static memory "local" (numeralValue "003") = 256 := by
    rw [cellAddress, if_pos rfl]
    decide
  rw [hcell] at hback
  exact ⟨push, pop, _, v, hpush, hpop, ⟨rfl, rfl, rfl⟩, hpasses, hback, hback.restored⟩

end HackVM
