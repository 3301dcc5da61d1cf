import HackVM.Proofs.Layout

/-! # The stack machine

What the commands of a session mean, without their code.  A state is a place
between two commands and a memory; commands act on the memory through the stack
pointer and the base registers, and nothing is kept elsewhere.  The effects are
given as sequences of reads and writes, so that they are defined for every memory,
also where a stack cell and a register are the same cell.

Registers, frames and scopes are written out here and not taken from the code of
commands; that the code uses the same ones is for the lemmas to say
(`Code.baseRegister_eq`, `Code.savedRegisters_eq`, `Scope.label_eq`).  Two things are
left to the linkage: the cells of static variables, and the words that stand for
places, since a call puts a place on the stack. -/
namespace HackVM

open Asm Hack

/-! ## Effects on memory -/

namespace Hack.Memory

variable (m : Memory)

/-- Puts a value on the stack. -/
def push (v : Word) : Memory :=
  let m' := m.set (m Register.sp.cell) v
  m'.set Register.sp.cell (m' Register.sp.cell + 1)

/-- Moves the stack pointer down. -/
def drop : Memory := m.set Register.sp.cell (m Register.sp.cell - 1)

/-- The value that is taken from the stack when the stack pointer is moved down. -/
def popped : Word := m.drop (m.drop Register.sp.cell)

/-- Replaces the topmost value. -/
def replace (f : Word → Word) : Memory :=
  m.set (m Register.sp.cell - 1) (f (m (m Register.sp.cell - 1)))

/-- Replaces the two topmost values by one. -/
def combine (f : Word → Word → Word) : Memory := m.drop.replace fun x => f x m.popped

/-- Puts a number of zeros on the stack. -/
def pushZeros : Memory → Nat → Memory
  | m, 0 => m
  | m, k + 1 => pushZeros (m.push 0) k

/-- Puts registers on the stack. -/
def save : Memory → List Register → Memory
  | m, [] => m
  | m, r :: rest => save (m.push (m r.cell)) rest

/-- Enters a function with `n` arguments: puts the return address, `LCL`, `ARG`, `THIS`
and `THAT` on the stack, in this order, and sets `ARG` to `SP - n - 5` and `LCL` to
`SP`. -/
def enter (site : Word) (n : Nat) : Memory :=
  let saved := (m.push site).save [.lcl, .arg, .this, .that]
  let framed := saved.set Register.arg.cell (saved Register.sp.cell - BitVec.ofNat 16 (n + 5))
  framed.set Register.lcl.cell (framed Register.sp.cell)

/-- The return address of the current frame. -/
def returnAddress : Word := m (m Register.lcl.cell - 5)

/-- Restores registers from the cells below an address, downwards. -/
def restore : Memory → Word → List Register → Memory
  | m, _, [] => m
  | m, frame, r :: rest => restore (m.set r.cell (m (frame - 1))) (frame - 1) rest

/-- Stores the value of a function over its first argument and takes its frame off the
stack. -/
def unwind : Memory :=
  let stored := m.drop.set (m.drop Register.arg.cell) m.popped
  stored.set Register.sp.cell (stored Register.arg.cell + 1)

/-- Leaves a function, with its value, and restores the registers of the caller: `THAT`,
`THIS`, `ARG` and `LCL` from the four cells below the local variables, downwards. -/
def leave : Memory := m.unwind.restore (m Register.lcl.cell) [.that, .this, .arg, .lcl]

end Hack.Memory

/-- The register that holds the address of a base segment. -/
def BaseSegment.register : BaseSegment → Register
  | .locals => .lcl
  | .arguments => .arg
  | .this => .this
  | .that => .that

/-- The value of a binary operation. -/
def BinaryOp.value : BinaryOp → Word → Word → Word
  | .add, x, y => x + y
  | .sub, x, y => x - y
  | .and, x, y => x &&& y
  | .or, x, y => x ||| y

/-- The value of a unary operation. -/
def UnaryOp.value : UnaryOp → Word → Word
  | .neg, x => -x
  | .not, x => ~~~x

/-- Whether a comparison of signed numbers holds. -/
def Comparison.holds : Comparison → Word → Word → Bool
  | .eq, x, y => x.toInt = y.toInt
  | .gt, x, y => x.toInt > y.toInt
  | .lt, x, y => x.toInt < y.toInt

/-- The value of a comparison: all bits set if it holds, and none if not. -/
def Comparison.value (c : Comparison) (x y : Word) : Word := if c.holds x y then -1 else 0

/-- The effect of an operation. -/
def Operation.effect : Operation → Memory → Memory
  | .binary op, m => m.combine op.value
  | .unary op, m => m.replace op.value
  | .compare c, m => m.combine c.value

/-! ## Steps -/

namespace Stack

/-- How a program is linked: the cells of its static variables, and the words that
stand for its places. -/
structure Linkage where
  static : String → Nat → Word
  address : Nat → Word

/-- A state of the stack machine. -/
structure State where
  /-- The number of commands before the current one. -/
  position : Nat
  memory : Memory

/-- The cell of a segment, unless it holds constants. -/
def cell? (link : Linkage) (module : String) (m : Memory) : Segment → Nat → Option Word
  | .constant, _ => none
  | .base b, index => some (m b.register.cell + BitVec.ofNat 16 index)
  | .pointer, index => some (BitVec.ofNat 16 (3 + index))
  | .temp, index => some (BitVec.ofNat 16 (5 + index))
  | .static, index => some (link.static module index)

/-- The value that a segment holds at an index. -/
def read (link : Linkage) (module : String) (m : Memory) (segment : Segment) (index : Nat) : Word :=
  match cell? link module m segment index with
  | none => BitVec.ofNat 16 index
  | some a => m a

/-- Where a symbol is declared. -/
def place? (code : List Block) (s : Symbol) : Option Nat := code.findIdx? fun b => s ∈ b.declared

/-- The first place that a word stands for. -/
def resume? (code : List Block) (link : Linkage) (w : Word) : Option Nat :=
  (List.range (code.length + 1)).find? fun p => link.address p = w

theorem address_of_resume? {code : List Block} {link : Linkage} {w : Word} {p : Nat}
    (h : resume? code link w = some p) : link.address p = w := by
  have hfound := List.find?_some h
  exact of_decide_eq_true hfound

/-- What a block does at a place, if it has somewhere to go. -/
def act? (code : List Block) (link : Linkage) (p : Nat) (m : Memory) : Block → Option State
  | .start _ =>
    (place? code (.entry "Sys.init")).map fun q =>
      ⟨q, (m.set Register.sp.cell 256).enter (link.address (p + 1)) 0⟩
  | .command module _ (.push segment index) =>
    some ⟨p + 1, m.push (read link module m segment index)⟩
  | .command module _ (.pop segment index) =>
    (cell? link module m segment index).map fun a => ⟨p + 1, m.drop.set a m.popped⟩
  | .command _ _ (.operate op) => some ⟨p + 1, op.effect m⟩
  | .command _ _ (.label _) => some ⟨p + 1, m⟩
  | .command module e (.goto name) =>
    (place? code (.label (e.scope.function.getD module) name)).map fun q => ⟨q, m⟩
  | .command module e (.ifGoto name) =>
    if m.popped = 0 then some ⟨p + 1, m.drop⟩
    else (place? code (.label (e.scope.function.getD module) name)).map fun q => ⟨q, m.drop⟩
  | .command _ _ (.function _ locals) => some ⟨p + 1, m.pushZeros locals⟩
  | .command _ _ (.call name arguments) =>
    (place? code (.entry name)).map fun q => ⟨q, m.enter (link.address (p + 1)) arguments⟩
  | .command _ _ .ret => (resume? code link m.returnAddress).map fun q => ⟨q, m.leave⟩

/-- One step, if there is a command at the current place and it has somewhere to
go. -/
def step? (code : List Block) (link : Linkage) (v : State) : Option State :=
  (code[v.position]?).bind (act? code link v.position v.memory)

/-! ## Scratch cells -/

/-- The cells that the code of a command keeps values in while it runs. -/
def scratch : List Word := [Register.r13.cell, Register.r14.cell]

/-- The cells below an address, downwards. -/
def cellsBelow (a : Word) : Nat → List Word
  | 0 => []
  | k + 1 => (a - 1) :: cellsBelow (a - 1) k

theorem mem_cellsBelow {a x : Word} {k : Nat} :
    x ∈ cellsBelow a k ↔ ∃ i < k, x = a - BitVec.ofNat 16 (i + 1) := by
  induction k generalizing a with
  | zero => simp [cellsBelow]
  | succ k ih =>
    have hshift : ∀ i, a - 1 - BitVec.ofNat 16 (i + 1) = a - BitVec.ofNat 16 (i + 1 + 1) := by
      intro i
      bv_omega
    simp only [cellsBelow, List.mem_cons, ih, hshift]
    constructor
    · rintro (hx | ⟨i, hi, hx⟩)
      · exact ⟨0, Nat.succ_pos k, hx⟩
      · exact ⟨i + 1, Nat.succ_lt_succ hi, hx⟩
    · rintro ⟨i, hi, hx⟩
      cases i with
      | zero => exact .inl hx
      | succ i => exact .inr ⟨i, Nat.lt_of_succ_lt_succ hi, hx⟩

theorem mem_cellsBelow_of_le {a x : Word} {j k : Nat} (h : j ≤ k) (hx : x ∈ cellsBelow a j) :
    x ∈ cellsBelow a k := by
  obtain ⟨i, hi, hx⟩ := mem_cellsBelow.mp hx
  exact mem_cellsBelow.mpr ⟨i, Nat.lt_of_lt_of_le hi h, hx⟩

theorem sub_five_mem_cellsBelow (a : Word) : a - 5 ∈ cellsBelow a 5 :=
  mem_cellsBelow.mpr ⟨4, by decide, rfl⟩

/-- The cells, found through the stack pointer or a base register, whose contents
the code of a command relies on. -/
def relied (m : Memory) : Command → List Word
  | .push (.base b) index => [m b.register.cell + BitVec.ofNat 16 index]
  | .pop .. | .operate (.unary _) | .ifGoto _ => [m Register.sp.cell - 1]
  | .operate _ => cellsBelow (m Register.sp.cell) 2
  | .ret => (m Register.sp.cell - 1) :: m Register.arg.cell :: cellsBelow (m Register.lcl.cell) 5
  | _ => []

/-- The cell that a comparison puts its value in. -/
def compared (m : Memory) : Command → List Word
  | .operate (.compare _) => [m Register.sp.cell - 1 - 1]
  | _ => []

/-- A command does not rely on a scratch cell, and a comparison does not put its value
over the stack pointer. -/
def Clear (m : Memory) : Block → Prop
  | .start _ => True
  | .command _ _ c =>
    (∀ a ∈ relied m c, a ∉ scratch) ∧ ∀ a ∈ compared m c, a ≠ Register.sp.cell

instance (m : Memory) (b : Block) : Decidable (Clear m b) :=
  match b with
  | .start _ => .isTrue trivial
  | .command _ _ c =>
    -- the cells are looked through one by one, rather than all words
    @instDecidableAnd _ _ (List.decidableBAll _ (relied m c)) (List.decidableBAll _ (compared m c))

/-- The state after a number of steps, if all of them can be made and are clear. -/
def run? (code : List Block) (link : Linkage) : Nat → State → Option State
  | 0, v => some v
  | n + 1, v =>
    match code[v.position]? with
    | none => none
    | some b =>
      if Clear v.memory b then (act? code link v.position v.memory b).bind (run? code link n)
      else none

end Stack

/-! ## Memories that agree outside the scratch cells -/

namespace Hack.Memory

@[simp] theorem set_self (m : Memory) (a v : Word) : m.set a v a = v := by
  simp [set]

theorem set_of_ne (m : Memory) {a x : Word} (v : Word) (h : x ≠ a) : m.set a v x = m x := by
  simp [set, h]

theorem set_set (m : Memory) (a v w : Word) : (m.set a v).set a w = m.set a w := by
  funext x
  by_cases h : x = a <;> simp [set, h]

theorem set_comm (m : Memory) {a b : Word} (v w : Word) (h : a ≠ b) :
    (m.set a v).set b w = (m.set b w).set a v := by
  funext x
  by_cases ha : x = a
  · subst ha
    simp [set, h]
  · simp [set, ha]

@[simp] theorem drop_sp (m : Memory) : m.drop Register.sp.cell = m Register.sp.cell - 1 :=
  set_self ..

/-- Two memories agree outside the scratch cells. -/
def Agree (m m' : Memory) : Prop := ∀ a, a ∉ Stack.scratch → m a = m' a

namespace Agree

variable {m m' : Memory}

theorem refl (m : Memory) : Agree m m := fun _ _ => rfl

theorem trans {m'' : Memory} (h : Agree m m') (h' : Agree m' m'') : Agree m m'' :=
  fun a ha => (h a ha).trans (h' a ha)

theorem set (h : Agree m m') (a : Word) {v v' : Word} (hv : v = v') :
    Agree (m.set a v) (m'.set a v') := by
  intro x hx
  by_cases hxa : x = a
  · rw [hxa, set_self, set_self, hv]
  · rw [set_of_ne m v hxa, set_of_ne m' v' hxa, h x hx]

theorem set_scratch (h : Agree m m') {a : Word} (ha : a ∈ Stack.scratch) (v : Word) :
    Agree (m.set a v) m' := by
  intro x hx
  have hxa : x ≠ a := fun heq => hx (heq ▸ ha)
  rw [set_of_ne m v hxa, h x hx]

theorem sp (h : Agree m m') : m Register.sp.cell = m' Register.sp.cell := h _ (by decide)

theorem lcl (h : Agree m m') : m Register.lcl.cell = m' Register.lcl.cell := h _ (by decide)

theorem arg (h : Agree m m') : m Register.arg.cell = m' Register.arg.cell := h _ (by decide)

theorem push (h : Agree m m') {v v' : Word} (hv : v = v') : Agree (m.push v) (m'.push v') := by
  have hstored : Agree (m.set (m Register.sp.cell) v) (m'.set (m' Register.sp.cell) v') := by
    rw [h.sp]
    exact h.set _ hv
  exact hstored.set _ (by rw [hstored.sp])

theorem drop (h : Agree m m') : Agree m.drop m'.drop := h.set _ (by rw [h.sp])

theorem popped (h : Agree m m') (htop : m' Register.sp.cell - 1 ∉ Stack.scratch) :
    m.popped = m'.popped := by
  unfold Memory.popped
  rw [h.drop.sp]
  exact h.drop _ (by rwa [drop_sp])

theorem replace (h : Agree m m') (htop : m' Register.sp.cell - 1 ∉ Stack.scratch)
    {f f' : Word → Word} (hf : f = f') : Agree (m.replace f) (m'.replace f') := by
  unfold Memory.replace
  rw [h.sp, h _ htop, hf]
  exact h.set _ rfl

theorem combine (h : Agree m m') (f : Word → Word → Word)
    (hcells : ∀ a ∈ Stack.cellsBelow (m' Register.sp.cell) 2, a ∉ Stack.scratch) :
    Agree (m.combine f) (m'.combine f) := by
  have htop := hcells _ (List.mem_cons_self ..)
  have hnext := hcells (m' Register.sp.cell - 1 - 1) (by simp [Stack.cellsBelow])
  refine h.drop.replace (by rwa [drop_sp]) ?_
  rw [h.popped htop]

theorem pushZeros (h : Agree m m') (k : Nat) : Agree (m.pushZeros k) (m'.pushZeros k) := by
  induction k generalizing m m' with
  | zero => exact h
  | succ k ih => exact ih (h.push rfl)

theorem save (h : Agree m m') {rs : List Register} (hrs : ∀ r ∈ rs, r.cell ∉ Stack.scratch) :
    Agree (m.save rs) (m'.save rs) := by
  induction rs generalizing m m' with
  | nil => exact h
  | cons r rs ih =>
    have hr := h _ (hrs r (List.mem_cons_self ..))
    exact ih (h.push hr) fun r' hr' => hrs r' (List.mem_cons_of_mem _ hr')

theorem enter (h : Agree m m') (site : Word) (n : Nat) :
    Agree (m.enter site n) (m'.enter site n) := by
  have hsaved : Agree ((m.push site).save [.lcl, .arg, .this, .that])
      ((m'.push site).save [.lcl, .arg, .this, .that]) := (h.push rfl).save (by decide)
  have hframed := hsaved.set Register.arg.cell
    (congrArg (· - BitVec.ofNat 16 (n + 5)) hsaved.sp)
  exact hframed.set _ hframed.sp

theorem returnAddress (h : Agree m m')
    (hcells : ∀ a ∈ Stack.cellsBelow (m' Register.lcl.cell) 5, a ∉ Stack.scratch) :
    m.returnAddress = m'.returnAddress := by
  unfold Memory.returnAddress
  rw [h.lcl]
  exact h _ (hcells _ (Stack.sub_five_mem_cellsBelow _))

theorem restore (h : Agree m m') {frame : Word} {rs : List Register}
    (hcells : ∀ a ∈ Stack.cellsBelow frame rs.length, a ∉ Stack.scratch) :
    Agree (m.restore frame rs) (m'.restore frame rs) := by
  induction rs generalizing m m' frame with
  | nil => exact h
  | cons r rs ih =>
    have hsaved := h _ (hcells _ (List.mem_cons_self ..))
    exact ih (h.set r.cell hsaved) fun a ha => hcells a (List.mem_cons_of_mem _ ha)

theorem unwind (h : Agree m m') (htop : m' Register.sp.cell - 1 ∉ Stack.scratch) :
    Agree m.unwind m'.unwind := by
  have hstored : Agree (m.drop.set (m.drop Register.arg.cell) m.popped)
      (m'.drop.set (m'.drop Register.arg.cell) m'.popped) := by
    rw [h.drop.arg]
    exact h.drop.set _ (h.popped htop)
  exact hstored.set Register.sp.cell (congrArg (· + 1) hstored.arg)

theorem leave (h : Agree m m') (htop : m' Register.sp.cell - 1 ∉ Stack.scratch)
    (hcells : ∀ a ∈ Stack.cellsBelow (m' Register.lcl.cell) 5, a ∉ Stack.scratch) :
    Agree m.leave m'.leave := by
  unfold Memory.leave
  rw [h.lcl]
  refine (h.unwind htop).restore fun a ha => hcells a ?_
  exact Stack.mem_cellsBelow_of_le (by decide) ha

end Agree

end Hack.Memory

/-! ## The tables of the code -/

theorem Code.baseRegister_eq (b : BaseSegment) : baseRegister b = b.register := by
  cases b <;> rfl

theorem Code.savedRegisters_eq : savedRegisters = [.lcl, .arg, .this, .that] := rfl

theorem Code.frameSize_eq : frameSize = 5 := rfl

theorem Code.stackBase_eq : stackBase = 256 := rfl

theorem Code.entryFunction_eq : entryFunction = "Sys.init" := rfl

theorem Segment.tempBase_eq : tempBase = 5 := rfl

/-- A label belongs to the function that has begun, and else to the module. -/
theorem Scope.label_eq {s : Scope} (h : s.Valid) (name module : String) :
    s.label name module = .label (s.function.getD module) name := by
  unfold label Scope.name
  cases hf : s.function with
  | none => rfl
  | some f =>
    have hne : f ≠ "" := by
      rintro rfl
      exact absurd (h "" hf) (by decide)
    simp only [if_neg hne, Option.getD_some]

end HackVM
