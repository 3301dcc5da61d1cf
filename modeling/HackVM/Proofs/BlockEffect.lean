import HackVM.Proofs.StackMachine
import HackVM.Proofs.StraightLine

/-! # What the code of a command does

The effects of the pieces that code is made of, and of the code of each command, on
the registers and the memory of the machine.  They hold in every program and in
every state: only the values of the symbols that the code names depend on the
program.  Code that uses scratch cells has the effect of its command outside these
cells, provided that it does not also reach them through the stack pointer or a base
register. -/
namespace HackVM

open Asm Hack

/-- Memory while a value is popped: the address of a cell of a base segment waits in a scratch
cell. -/
def Hack.Memory.awaiting (m : Memory) : Segment → Word → Memory
  | .base _, a => m.set Register.r13.cell a
  | _, _ => m

theorem Hack.Memory.agree_awaiting (m : Memory) (segment : Segment) (a : Word) :
    (m.awaiting segment a).Agree m := by
  cases segment with
  | base b => exact (Agree.refl m).set_scratch (by decide) a
  | _ => exact .refl m

namespace Hack.State

variable {program : List Line} (s : State)

/-! ## Pieces of code -/

theorem follow_pushD :
    s.follow program pushD = ⟨Register.sp.cell, s.d, s.memory.push s.d, s.pc + 5⟩ := by
  simp only [pushD, follow_loadRegister, follow_store, follow_nil]
  rfl

theorem follow_popD :
    s.follow program popD =
      ⟨s.memory.drop Register.sp.cell, s.memory.popped, s.memory.drop, s.pc + 4⟩ := by
  simp only [popD, follow_loadRegister, follow_store, follow_nil]
  rfl

theorem follow_atTop :
    s.follow program Code.atTop = ⟨s.memory Register.sp.cell - 1, s.d, s.memory, s.pc + 2⟩ := by
  simp only [Code.atTop, follow_loadRegister, follow_store, follow_nil]
  rfl

theorem follow_saveRegister (r : Register) :
    s.follow program (Code.saveRegister r) =
      ⟨Register.sp.cell, s.memory r.cell, s.memory.push (s.memory r.cell), s.pc + 7⟩ := by
  simp only [Code.saveRegister, follow_append, follow_pushD, follow_loadRegister, follow_store,
    follow_nil]
  rfl

/-! ## Operations -/

theorem memory_follow_binary (op : BinaryOp) :
    (s.follow program (Code.binary op)).memory = s.memory.combine op.value := by
  simp only [Code.binary, follow_append, follow_popD, follow_atTop, follow_store, follow_nil]
  cases op with
  | add =>
    show s.memory.drop.set _ (_ + _) = _
    rw [BitVec.add_comm]
    rfl
  | sub => rfl
  | and =>
    show s.memory.drop.set _ (_ &&& _) = _
    rw [BitVec.and_comm]
    rfl
  | or =>
    show s.memory.drop.set _ (_ ||| _) = _
    rw [BitVec.or_comm]
    rfl

theorem memory_follow_unary (op : UnaryOp) :
    (s.follow program (Code.unary op)).memory = s.memory.replace op.value := by
  simp only [Code.unary, follow_append, follow_atTop, follow_store, follow_nil]
  cases op <;> rfl

/-! ## Pushes and pops -/

theorem cell_of_pointerRegister {index : Nat} {r : Register}
    (h : Code.pointerRegister index = .ok r) : r.cell = BitVec.ofNat 16 (3 + index) := by
  unfold Code.pointerRegister at h
  split at h
  · rename_i hindex
    cases h
    rw [show index = 0 by omega]
    rfl
  · split at h
    · rename_i hindex
      cases h
      rw [show index = 1 by omega]
      rfl
    · cases h

/-- The address that code computes for a cell of a base segment. -/
theorem cell?_base (link : Stack.Linkage) (module : String) (m : Memory) (b : BaseSegment)
    (index : Nat) : Stack.cell? link module m (.base b) index =
      some (BitVec.ofNat 16 index + m (Code.baseRegister b).cell) := by
  rw [Stack.cell?, Code.baseRegister_eq, BitVec.add_comm]

section Segments

variable (link : Stack.Linkage) {module : String} {segment : Segment} {index : Nat}
  {code : List Line}
  (hstatic : segment = .static → BitVec.ofNat 16 (symbolValue program
    (Symbol.static module index).text) = link.static module index)
include hstatic

theorem follow_fetch (h : Code.fetch segment index module = .ok code) :
    (s.follow program code).d = Stack.read link module s.memory segment index ∧
      (s.follow program code).memory = s.memory := by
  have hcode := Code.fetch_eq_ok h
  cases segment with
  | constant =>
    rw [hcode]
    exact ⟨rfl, rfl⟩
  | base b =>
    rw [hcode, Stack.read, cell?_base]
    simp only [follow_loadNumber, follow_store, follow_loadRegister, follow_nil]
    exact ⟨rfl, rfl⟩
  | pointer =>
    obtain ⟨r, hr, rfl⟩ := hcode
    simp only [follow_loadRegister, follow_store, follow_nil]
    refine ⟨?_, rfl⟩
    show s.memory r.cell = s.memory (BitVec.ofNat 16 (3 + index))
    rw [cell_of_pointerRegister hr]
  | temp =>
    rw [hcode, Segment.tempBase_eq]
    exact ⟨rfl, rfl⟩
  | static =>
    rw [hcode]
    simp only [follow_load, follow_store, follow_nil]
    rw [hstatic rfl]
    exact ⟨rfl, rfl⟩

omit hstatic in
theorem isStraight_push (h : Code.push segment index module = .ok code) :
    isStraight code = true := by
  obtain ⟨loading, hloading, rfl⟩ := Code.push_eq_ok h
  have hcode := Code.fetch_eq_ok hloading
  cases segment with
  | pointer =>
    obtain ⟨r, -, rfl⟩ := hcode
    rfl
  | _ => rw [hcode]; rfl

omit hstatic in
theorem isStraight_pop (h : Code.pop segment index module = .ok code) :
    isStraight code = true := by
  have hcode := Code.pop_eq_ok h
  cases segment with
  | constant => exact hcode.elim
  | pointer =>
    obtain ⟨r, -, rfl⟩ := hcode
    rfl
  | _ => rw [hcode]; rfl

theorem memory_follow_push (h : Code.push segment index module = .ok code) :
    (s.follow program code).memory =
      s.memory.push (Stack.read link module s.memory segment index) := by
  obtain ⟨loading, hloading, rfl⟩ := Code.push_eq_ok h
  obtain ⟨hd, hm⟩ := s.follow_fetch link hstatic hloading
  rw [follow_append, follow_pushD, hd, hm]

/-- **What a pop does**, scratch cells included. -/
theorem memory_follow_pop_eq (h : Code.pop segment index module = .ok code) :
    ∃ a, Stack.cell? link module s.memory segment index = some a ∧
      (s.follow program code).memory =
        (s.memory.awaiting segment a).drop.set a (s.memory.awaiting segment a).popped := by
  have hcode := Code.pop_eq_ok h
  cases segment with
  | constant => exact hcode.elim
  | base b =>
    refine ⟨_, cell?_base .., ?_⟩
    rw [hcode]
    simp only [follow_append, follow_popD, follow_loadNumber, follow_store, follow_loadRegister,
      follow_nil]
    rfl
  | pointer =>
    obtain ⟨r, hr, rfl⟩ := hcode
    refine ⟨_, rfl, ?_⟩
    rw [← cell_of_pointerRegister hr, Code.popInto, follow_append, follow_popD]
    show (State.follow program _ [loadRegister r, .store .m .d]).memory = _
    rw [follow_loadRegister]
    rfl
  | temp =>
    refine ⟨_, rfl, ?_⟩
    rw [hcode, Segment.tempBase_eq]
    simp only [Code.popInto, follow_append, follow_popD]
    rfl
  | static =>
    refine ⟨_, rfl, ?_⟩
    rw [hcode, ← hstatic rfl]
    simp only [Code.popInto, follow_append, follow_popD]
    rfl

theorem memory_follow_pop (h : Code.pop segment index module = .ok code)
    (htop : s.memory Register.sp.cell - 1 ∉ Stack.scratch) :
    ∃ a, Stack.cell? link module s.memory segment index = some a ∧
      Memory.Agree (s.follow program code).memory (s.memory.drop.set a s.memory.popped) := by
  obtain ⟨a, ha, hmemory⟩ := s.memory_follow_pop_eq link hstatic h
  have hkept := s.memory.agree_awaiting segment a
  exact ⟨a, ha, hmemory ▸ hkept.drop.set a (hkept.popped htop)⟩

end Segments

/-! ## Functions -/

theorem isStraight_clearing (k : Nat) :
    isStraight (List.replicate k (.store .d .zero :: pushD)).flatten = true := by
  induction k with
  | zero => rfl
  | succ k ih =>
    rw [List.replicate_succ, List.flatten_cons, isStraight_append, ih]
    rfl

theorem memory_follow_clearing (k : Nat) :
    (s.follow program (List.replicate k (.store .d .zero :: pushD)).flatten).memory =
      s.memory.pushZeros k := by
  induction k generalizing s with
  | zero => rfl
  | succ k ih =>
    rw [List.replicate_succ, List.flatten_cons, follow_append, ih, follow_store, follow_pushD]
    rfl

theorem memory_follow_saveRegisters (rs : List Register) :
    (s.follow program (rs.flatMap Code.saveRegister)).memory = s.memory.save rs := by
  induction rs generalizing s with
  | nil => rfl
  | cons r rs ih => rw [List.flatMap_cons, follow_append, ih, follow_saveRegister]; rfl

theorem memory_follow_setFrame (depth : Int) :
    ((s.follow program [loadRegister .sp, .store .d .m, loadNumber depth, .store .d .dMinusA,
        loadRegister .arg, .store .m .d]).follow program
        [loadRegister .sp, .store .d .m, loadRegister .lcl, .store .m .d]).memory =
      let framed := s.memory.set Register.arg.cell
        (s.memory Register.sp.cell - BitVec.ofNat 16 depth.toNat)
      framed.set Register.lcl.cell (framed Register.sp.cell) := by
  simp only [follow_loadRegister, follow_loadNumber, follow_store, follow_nil]
  rfl

/-- **What a call does** before it jumps. -/
theorem memory_follow_frameLines (n : Nat) (site : Symbol) :
    (s.follow program (Code.frameLines (n + Code.frameSize) site)).memory =
      s.memory.enter (BitVec.ofNat 16 (symbolValue program site.text)) n := by
  rw [Code.frameLines, Code.savedRegisters_eq, Code.frameSize_eq, follow_append, follow_append,
    follow_append, follow_append, memory_follow_setFrame, memory_follow_saveRegisters, follow_pushD]
  rfl

/-! ## Returns -/

theorem follow_restoreRegister (r : Register) {frame : Word}
    (hframe : s.memory Register.r13.cell = frame) :
    s.follow program (Code.restoreRegister r) =
      ⟨r.cell, s.memory.set Register.r13.cell (frame - 1) (frame - 1),
        (s.memory.set Register.r13.cell (frame - 1)).set r.cell
          (s.memory.set Register.r13.cell (frame - 1) (frame - 1)), s.pc + 5⟩ := by
  subst hframe
  simp only [Code.restoreRegister, follow_loadRegister, follow_store, follow_nil]
  rfl

/-- Registers are restored from the cells below the address in the first scratch cell,
and the second scratch cell is kept. -/
theorem agree_follow_restoreRegisters {rs : List Register} {m : Memory} {frame : Word}
    (h : Memory.Agree s.memory m) (hframe : s.memory Register.r13.cell = frame)
    (hrs : ∀ r ∈ rs, r.cell ∉ Stack.scratch)
    (hcells : ∀ a ∈ Stack.cellsBelow frame rs.length, a ∉ Stack.scratch) :
    Memory.Agree (s.follow program (rs.flatMap Code.restoreRegister)).memory (m.restore frame rs) ∧
      (s.follow program (rs.flatMap Code.restoreRegister)).memory Register.r14.cell =
        s.memory Register.r14.cell := by
  induction rs generalizing s m frame with
  | nil => exact ⟨h, rfl⟩
  | cons r rs ih =>
    have hr := hrs r (List.mem_cons_self ..)
    have hne13 : Register.r13.cell ≠ r.cell := fun heq => hr (heq ▸ by decide)
    have hne14 : Register.r14.cell ≠ r.cell := fun heq => hr (heq ▸ by decide)
    have hmoved : Memory.Agree (s.memory.set Register.r13.cell (frame - 1)) m :=
      h.set_scratch (by decide) _
    have h13 : s.memory.set Register.r13.cell (frame - 1) Register.r13.cell = frame - 1 :=
      Memory.set_self ..
    have h14 : s.memory.set Register.r13.cell (frame - 1) Register.r14.cell =
        s.memory Register.r14.cell := Memory.set_of_ne _ _ (by decide)
    rw [List.flatMap_cons, follow_append, follow_restoreRegister _ r hframe, ← h14]
    generalize s.memory.set Register.r13.cell (frame - 1) = moved at hmoved h13 ⊢
    have hsaved := hmoved _ (hcells _ (List.mem_cons_self ..))
    have hrest := ih ⟨r.cell, moved (frame - 1), moved.set r.cell (moved (frame - 1)), s.pc + 5⟩
      (hmoved.set r.cell hsaved) ((Memory.set_of_ne _ _ hne13).trans h13)
      (fun r' hr' => hrs r' (List.mem_cons_of_mem _ hr'))
      (fun a ha => hcells a (List.mem_cons_of_mem _ ha))
    exact ⟨hrest.1, hrest.2.trans (Memory.set_of_ne _ _ hne14)⟩

/-- Code of a return up to the restoring of registers. -/
def dropFrame : List Line :=
  [loadRegister .lcl, .store .d .m, loadRegister .r13, .store .m .d]
    ++ [loadNumber Code.frameSize, .store .a .dMinusA, .store .d .m]
    ++ [loadRegister .r14, .store .m .d]
    ++ popD ++ [loadRegister .arg, .store .a .m, .store .m .d]
    ++ [loadRegister .arg, .store .d .mPlusOne, loadRegister .sp, .store .m .d]

/-- Memory in which the scratch cells hold the address of the current frame and where
to return from it. -/
def keepFrame (m : Memory) : Memory :=
  (m.set Register.r13.cell (m Register.lcl.cell)).set Register.r14.cell m.returnAddress

theorem agree_keepFrame (m : Memory) : Memory.Agree (keepFrame m) m :=
  ((Memory.Agree.refl m).set_scratch (by decide) _).set_scratch (by decide) _

theorem keepFrame_r13 (m : Memory) : keepFrame m Register.r13.cell = m Register.lcl.cell :=
  (Memory.set_of_ne _ _ (by decide)).trans (Memory.set_self ..)

theorem keepFrame_r14 (m : Memory) : keepFrame m Register.r14.cell = m.returnAddress :=
  Memory.set_self ..

/-- The frame is kept before it is unwound. -/
theorem memory_follow_dropFrame
    (hsite : s.memory Register.lcl.cell - 5 ∉ Stack.scratch) :
    (s.follow program dropFrame).memory = (keepFrame s.memory).unwind := by
  have hframe :
      Memory.Agree (s.memory.set Register.r13.cell (s.memory Register.lcl.cell)) s.memory :=
    (Memory.Agree.refl _).set_scratch (by decide) _
  have hread : _ = s.memory.returnAddress := hframe _ hsite
  unfold keepFrame
  rw [← hread]
  simp only [dropFrame, Code.frameSize_eq, follow_append, follow_loadRegister, follow_loadNumber,
    follow_store, follow_nil, follow_popD]
  rfl

/-- A frame whose first argument is no scratch cell leaves the scratch cells alone. -/
theorem unwind_scratch {m : Memory} {a : Word} (harg : m Register.arg.cell ∉ Stack.scratch)
    (ha : a ∈ Stack.scratch) : m.unwind a = m a := by
  have hsp : a ≠ Register.sp.cell := fun heq => absurd (heq ▸ ha) (by decide)
  have hdrop : m.drop Register.arg.cell = m Register.arg.cell := Memory.set_of_ne _ _ (by decide)
  have hne : a ≠ m.drop Register.arg.cell := fun heq => harg (hdrop ▸ heq ▸ ha)
  unfold Memory.unwind
  rw [Memory.set_of_ne _ _ hsp, Memory.set_of_ne _ _ hne]
  exact Memory.set_of_ne _ _ hsp

variable (program) in
/-- **What a return does** before it jumps.  The return address waits in a scratch
cell, so it is not lost when the value is stored. -/
theorem agree_follow_leave (htop : s.memory Register.sp.cell - 1 ∉ Stack.scratch)
    (harg : s.memory Register.arg.cell ∉ Stack.scratch)
    (hcells : ∀ a ∈ Stack.cellsBelow (s.memory Register.lcl.cell) 5, a ∉ Stack.scratch) :
    Memory.Agree (s.follow program (dropFrame ++
        Code.savedRegisters.reverse.flatMap Code.restoreRegister)).memory s.memory.leave ∧
      (s.follow program (dropFrame ++
        Code.savedRegisters.reverse.flatMap Code.restoreRegister)).memory Register.r14.cell =
        s.memory.returnAddress := by
  have hreverse : Code.savedRegisters.reverse = [.that, .this, .arg, .lcl] := by
    rw [Code.savedRegisters_eq]
    rfl
  have hkept := agree_keepFrame s.memory
  have harg' : keepFrame s.memory Register.arg.cell ∉ Stack.scratch := by rwa [hkept.arg]
  have hdropped : (s.follow program dropFrame).memory = (keepFrame s.memory).unwind :=
    s.memory_follow_dropFrame (hcells _ (Stack.sub_five_mem_cellsBelow _))
  rw [follow_append, hreverse]
  generalize s.follow program dropFrame = t at hdropped ⊢
  have hagree : Memory.Agree t.memory s.memory.unwind := hdropped ▸ hkept.unwind htop
  have hframe : t.memory Register.r13.cell = s.memory Register.lcl.cell := by
    rw [hdropped, unwind_scratch harg' (by decide), keepFrame_r13]
  have hsite : t.memory Register.r14.cell = s.memory.returnAddress := by
    rw [hdropped, unwind_scratch harg' (by decide), keepFrame_r14]
  refine (t.agree_follow_restoreRegisters hagree hframe (by decide) ?_).imp_right (·.trans hsite)
  exact fun a ha => hcells a (Stack.mem_cellsBelow_of_le (by decide) ha)

end Hack.State
end HackVM
