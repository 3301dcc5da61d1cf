import HackVM.Proofs.CallFrames

/-! # Nested calls

A run of the machine from a call to the matching return, with calls nested in it to any
depth.  The calls that are still active form a chain: the registers hold the frame of the
innermost one, and the memory that it was called in holds the frame of the next.  Each
step of the run keeps this (`Chain`), if no command but calls and returns changes the
registers of the frame, and the saved cells of the active calls are left alone.  So every
return goes to the place after its own call, with the registers as they were there. -/
namespace HackVM

open Asm Hack

/-! ## Frames and runs -/

/-- A call that is active. -/
structure Frame where
  /-- The place of the call. -/
  position : Nat
  arguments : Nat
  /-- The memory at the call. -/
  memory : Memory

namespace Frame

/-- The top of the stack at the call. -/
def base (f : Frame) : Word := f.memory Register.sp.cell

/-- The cells that the call saves the return address and the registers in. -/
def cell (f : Frame) (i : Nat) : Word := f.base + BitVec.ofNat 16 i

/-- The cell of the first argument. -/
def firstArgument (f : Frame) : Word := f.base - BitVec.ofNat 16 f.arguments

/-- The saved cells and the first argument lie above the registers. -/
structure Placed (f : Frame) : Prop where
  saved : ∀ i < 5, Above (f.cell i)
  first : Above f.firstArgument

instance (f : Frame) : Decidable f.Placed :=
  decidable_of_iff ((∀ i < 5, Above (f.cell i)) ∧ Above f.firstArgument)
    ⟨fun ⟨h, h'⟩ => ⟨h, h'⟩, fun ⟨h, h'⟩ => ⟨h, h'⟩⟩

/-- The saved cells hold the same in two memories.  This is all that is asked of the
stores of a command: one that puts back what a cell holds does no harm. -/
def Kept (f : Frame) (m m' : Memory) : Prop := ∀ i < 5, m' (f.cell i) = m (f.cell i)

instance (f : Frame) (m m' : Memory) : Decidable (f.Kept m m') :=
  inferInstanceAs (Decidable (∀ i < 5, _))

end Frame

/-- The frame that a block opens: calls open one, and so does the start of a program,
which calls the first function on a new stack. -/
def Block.frame? (p : Nat) (m : Memory) : Block → Option Frame
  | .start _ => some ⟨p, 0, m.set Register.sp.cell 256⟩
  | .command _ _ (.call _ arguments) => some ⟨p, arguments, m⟩
  | _ => none

/-- A frame is opened with the registers that the block is reached with. -/
theorem Block.memory_of_frame? {b : Block} {p : Nat} {m : Memory} {f : Frame}
    (hframe : b.frame? p m = some f) {r : Register} (hr : r ≠ .sp) :
    f.memory r.cell = m r.cell := by
  cases b with
  | start e =>
    cases hframe
    exact Memory.set_of_ne _ _ (cell_ne_sp hr)
  | command module e c =>
    cases c with
    | call name arguments =>
      cases hframe
      rfl
    | _ => cases hframe

/-- Whether a block is a return. -/
def Block.isReturn : Block → Bool
  | .command _ _ .ret => true
  | _ => false

/-- The machine passes through a block, from its first instruction to that of another. -/
structure Goes (jobs : List Job) (p : Nat) (s : State) (q : Nat) (t : State) : Prop where
  passes : State.Passes (assemble (program jobs)) (address jobs p) (address jobs (p + 1)) s t
  pc : t.pc = address jobs q

/-- The machine passes through a block in a number of steps. -/
def GoesIn (jobs : List Job) (p : Nat) (s : State) (q k : Nat) : Prop :=
  s.pc = address jobs p ∧ (k = 0 ↔ address jobs p = address jobs (p + 1)) ∧
    (∀ i < k, 0 < i → State.Inside (address jobs p) (address jobs (p + 1))
      (s.run (assemble (program jobs)) i)) ∧
    (s.run (assemble (program jobs)) k).pc = address jobs q

instance (jobs : List Job) (p : Nat) (s : State) (q k : Nat) : Decidable (GoesIn jobs p s q k) :=
  inferInstanceAs (Decidable (_ ∧ (_ ↔ _) ∧ (∀ i < k, _ → _) ∧ _))

theorem GoesIn.goes {jobs : List Job} {p : Nat} {s : State} {q k : Nat} (h : GoesIn jobs p s q k) :
    Goes jobs p s q (s.run (assemble (program jobs)) k) := by
  obtain ⟨hpc, hzero, hinside, hend⟩ := h
  refine ⟨⟨hpc, k, rfl, hzero, ?_, not_inside_of_pc_eq_address hend p⟩, hend⟩
  exact fun i hi hik => hinside i hik hi

/-- The machine has run from a call, which is `origin`, and not yet made the matching
return: the calls that are active, the innermost one first, the place that the run has
got to, and the state there. -/
inductive Nested (jobs : List Job) (origin : Frame) : List Frame → Nat → State → Prop where
  /-- The run begins with the call. -/
  | first {p q : Nat} {s t : State} {b : Block} (hb : (blocks jobs)[p]? = some b)
      (hframe : b.frame? p s.memory = some origin) (hplaced : origin.Placed)
      (hgoes : Goes jobs p s q t) : Nested jobs origin [origin] q t
  /-- A call in the run, which writes to no saved cell of the active calls. -/
  | call {frames : List Frame} {f : Frame} {p q : Nat} {s t : State} {b : Block}
      (hrun : Nested jobs origin frames p s) (hb : (blocks jobs)[p]? = some b)
      (hframe : b.frame? p s.memory = some f) (hplaced : f.Placed) (hgoes : Goes jobs p s q t)
      (hkept : ∀ g ∈ frames, g.Kept s.memory t.memory) : Nested jobs origin (f :: frames) q t
  /-- A return in the run, which writes to no saved cell of the calls that stay active. -/
  | ret {frames : List Frame} {f g : Frame} {p q : Nat} {s t : State} {b : Block}
      (hrun : Nested jobs origin (f :: g :: frames) p s) (hb : (blocks jobs)[p]? = some b)
      (hreturn : b.isReturn = true) (htop : Above (s.memory Register.sp.cell - 1))
      (hgoes : Goes jobs p s q t) (hkept : ∀ f' ∈ g :: frames, f'.Kept s.memory t.memory) :
      Nested jobs origin (g :: frames) q t
  /-- Any other command, which leaves the frame and all saved cells alone. -/
  | other {frames : List Frame} {p q : Nat} {s t : State} {b : Block}
      (hrun : Nested jobs origin frames p s) (hb : (blocks jobs)[p]? = some b)
      (hframe : b.frame? p s.memory = none) (hreturn : b.isReturn = false)
      (hgoes : Goes jobs p s q t)
      (hlcl : t.memory Register.lcl.cell = s.memory Register.lcl.cell)
      (harg : t.memory Register.arg.cell = s.memory Register.arg.cell)
      (hkept : ∀ f ∈ frames, f.Kept s.memory t.memory) : Nested jobs origin frames q t

/-! ## The chain of frames -/

/-- What the saved cells of a frame hold while the call is active. -/
structure Frame.Holds (jobs : List Job) (f : Frame) (m : Memory) : Prop extends f.Placed where
  small : f.arguments + 5 < 65536
  contents : ∀ i w,
    (f.memory.frameContents ((linkage jobs).address (f.position + 1)))[i]? = some w →
      m (f.cell i) = w

theorem Frame.Holds.of_kept {jobs : List Job} {f : Frame} {m m' : Memory} (h : f.Holds jobs m)
    (hkept : f.Kept m m') : f.Holds jobs m' := by
  refine { h with contents := fun i w hw => ?_ }
  rw [hkept i (List.getElem?_eq_some_iff.mp hw).1]
  exact h.contents i w hw

/-- The registers hold the innermost frame, the memory that it was called in holds the
next one, and so on. -/
def Linked : Memory → List Frame → Prop
  | _, [] => True
  | m, f :: frames =>
    m Register.lcl.cell = f.base + 5 ∧
      m Register.arg.cell = f.firstArgument ∧ Linked f.memory frames

theorem Linked.of_eq {frames : List Frame} {m m' : Memory} (h : Linked m frames)
    (hlcl : m' Register.lcl.cell = m Register.lcl.cell)
    (harg : m' Register.arg.cell = m Register.arg.cell) : Linked m' frames := by
  cases frames with
  | nil => trivial
  | cons f frames => exact ⟨hlcl.trans h.1, harg.trans h.2.1, h.2.2⟩

/-- **The invariant of a run**: the active calls are linked, and their saved cells hold
what the calls have saved. -/
structure Chain (jobs : List Job) (origin : Frame) (frames : List Frame) (m : Memory) : Prop where
  linked : Linked m frames
  holds : ∀ f ∈ frames, f.Holds jobs m
  last : frames.getLast? = some origin

section Session

variable {jobs : List Job} (h : Loadable jobs) {p q : Nat} {b : Block} {s t : State}
  (hb : (blocks jobs)[p]? = some b)
include h hb

/-- The number of arguments of a call is bounded, as the program loads it. -/
theorem arguments_lt {f : Frame} (hframe : b.frame? p s.memory = some f) :
    f.arguments + 5 < 65536 := by
  cases b with
  | start e =>
    cases hframe
    show 0 + 5 < 65536
    decide
  | command m e c =>
    cases c with
    | call name arguments =>
      cases hframe
      have hmem := List.mem_of_getElem? hb
      obtain ⟨-, -, -, lines, hl⟩ := sound_of_mem_blocks jobs _ hmem
      have hcode := Block.code_command hl
      rw [Code.call_eq_ok hl] at hcode
      have hload : loadNumber (arguments + Code.frameSize) ∈ program jobs := by
        rw [program_eq_flatMap, List.mem_flatMap]
        refine ⟨_, hmem, ?_⟩
        rw [hcode]
        simp [Code.callLines, Code.frameLines]
      have hbounded := h.bounded _ (List.mem_filterMap.mpr ⟨_, hload, rfl⟩)
      rw [Code.frameSize_eq] at hbounded
      show arguments + 5 < 65536
      omega
    | _ => cases hframe

/-- **A call opens its frame.** -/
theorem memory_of_call (hgoes : Goes jobs p s q t) {f : Frame}
    (hframe : b.frame? p s.memory = some f) :
    t.memory = f.memory.enter ((linkage jobs).address (f.position + 1)) f.arguments := by
  have hmem := List.mem_of_getElem? hb
  have hpc : s.pc = address jobs p := hgoes.passes.1
  cases b with
  | start e =>
    cases hframe
    obtain ⟨q', hq⟩ :=
      exists_place h hmem (List.mem_singleton_self (Symbol.entry "Sys.init"))
    obtain ⟨t', hpasses, -, hmemory⟩ := passes_start h hb hpc hq
    rw [hgoes.passes.deterministic hpasses, hmemory]
  | command m e c =>
    cases c with
    | call name arguments =>
      cases hframe
      obtain ⟨q', hq⟩ := exists_place h hmem (List.mem_singleton_self (Symbol.entry name))
      obtain ⟨t', hpasses, -, hmemory⟩ := passes_call h hb hpc hq
      rw [hgoes.passes.deterministic hpasses, hmemory]
    | _ => cases hframe

/-- **A new frame holds what the call saves.** -/
theorem holds_of_call (hgoes : Goes jobs p s q t) {f : Frame}
    (hframe : b.frame? p s.memory = some f) (hplaced : f.Placed) :
    t.memory Register.lcl.cell = f.base + 5 ∧
      t.memory Register.arg.cell = f.firstArgument ∧ f.Holds jobs t.memory := by
  have hroom : f.memory.Room 5 := hplaced.saved
  rw [memory_of_call h hb hgoes hframe]
  refine ⟨Memory.enter_lcl _ _ hroom, Memory.enter_arg _ _ hroom, hplaced, ?_, ?_⟩
  · exact arguments_lt h hb hframe
  · intro i w hw
    exact Memory.enter_saved _ _ hroom hw

/-- **A return from a frame** that holds what the call has saved: the machine goes on
after the call, the registers are those of the caller, and the value of the function has
taken the place of its arguments. -/
theorem passes_return (hreturn : b.isReturn = true) (hpc : s.pc = address jobs p) {f : Frame}
    (hholds : f.Holds jobs s.memory)
    (hlcl : s.memory Register.lcl.cell = f.base + 5)
    (harg : s.memory Register.arg.cell = f.firstArgument)
    (htop : Above (s.memory Register.sp.cell - 1)) :
    ∃ t, Goes jobs p s (f.position + 1) t ∧
      (∀ r ∈ [Register.lcl, .arg, .this, .that], t.memory r.cell = f.memory r.cell) ∧
      t.memory Register.sp.cell = f.firstArgument + 1 ∧
      t.memory f.firstArgument = s.memory (s.memory Register.sp.cell - 1) := by
  have hfirst : Above (s.memory Register.arg.cell) := harg ▸ hholds.first
  have hsite := Memory.returnAddress_of_frame hlcl hholds.contents
  have hcode : b.code = Code.ret := by
    cases b with
    | start e => cases hreturn
    | command module e c =>
      cases c with
      | ret => exact Block.code_command rfl
      | _ => cases hreturn
  have hcells : ∀ a ∈ Stack.cellsBelow (s.memory Register.lcl.cell) 5,
      a ∉ Stack.scratch := by
    intro a ha
    obtain ⟨i, hi, rfl⟩ := Stack.mem_cellsBelow.mp ha
    have hcell : s.memory Register.lcl.cell - BitVec.ofNat 16 (i + 1) =
        f.cell (5 - (i + 1)) := by
      rw [hlcl, Frame.cell]
      bv_omega
    rw [hcell]
    exact (hholds.saved _ (Nat.sub_lt_self (Nat.succ_pos i) hi)).notMem_scratch
  obtain ⟨t, hpasses, htarget, hagree⟩ := passes_leave h hb hpc hcode htop.notMem_scratch
    hfirst.notMem_scratch hcells hsite
  refine ⟨t, ⟨hpasses, htarget⟩, ?_, ?_, ?_⟩
  · intro r hr
    have hscratch : ∀ r ∈ [Register.lcl, .arg, .this, .that], r.cell ∉ Stack.scratch := by decide
    rw [hagree _ (hscratch r hr)]
    exact Memory.leave_register_of_frame hlcl hholds.contents harg hholds.small hholds.first
      hholds.saved hr
  · rw [hagree.sp, Memory.leave_sp hfirst, harg]
  · rw [hagree _ hholds.first.notMem_scratch, ← harg, Memory.leave_value hfirst htop]

end Session

/-! ## What a run keeps -/

section Steps

variable {jobs : List Job} (h : Loadable jobs) {origin f : Frame} {frames : List Frame} {p q : Nat}
  {b : Block} {s t : State} (hb : (blocks jobs)[p]? = some b)
include h hb

/-- A call puts its frame in front of the chain. -/
theorem Chain.call (hchain : Chain jobs origin frames s.memory)
    (hframe : b.frame? p s.memory = some f) (hplaced : f.Placed) (hgoes : Goes jobs p s q t)
    (hkept : ∀ g ∈ frames, g.Kept s.memory t.memory) :
    Chain jobs origin (f :: frames) t.memory := by
  obtain ⟨hlcl, harg, hholds⟩ := holds_of_call h hb hgoes hframe hplaced
  have hcaller : Linked f.memory frames := hchain.linked.of_eq
    (Block.memory_of_frame? hframe (by decide)) (Block.memory_of_frame? hframe (by decide))
  -- the rest of the chain hangs on the memory at the call, which the frame keeps
  refine ⟨⟨hlcl, harg, hcaller⟩, ?_, ?_⟩
  · intro g hg
    rcases List.mem_cons.mp hg with rfl | hg
    · exact hholds
    · exact (hchain.holds g hg).of_kept (hkept g hg)
  · rw [List.getLast?_cons, hchain.last]
    rfl

/-- A return takes the innermost frame off the chain. -/
theorem Chain.ret {g : Frame} (hchain : Chain jobs origin (f :: g :: frames) s.memory)
    (hreturn : b.isReturn = true) (htop : Above (s.memory Register.sp.cell - 1))
    (hgoes : Goes jobs p s q t) (hkept : ∀ f' ∈ g :: frames, f'.Kept s.memory t.memory) :
    Chain jobs origin (g :: frames) t.memory := by
  obtain ⟨hlcl, harg, hcaller⟩ := hchain.linked
  obtain ⟨t', ht', hregisters, -⟩ := passes_return h hb hreturn hgoes.passes.1
    (hchain.holds f (List.mem_cons_self ..)) hlcl harg htop
  cases hgoes.passes.deterministic ht'.passes
  -- the restored registers hold the frame of the caller again
  refine ⟨hcaller.of_eq (hregisters .lcl (by decide)) (hregisters .arg (by decide)), ?_, ?_⟩
  · intro f' hf'
    exact (hchain.holds f' (List.mem_cons_of_mem _ hf')).of_kept (hkept f' hf')
  · rw [← hchain.last, List.getLast?_cons_cons]

end Steps

/-- **The active calls of a run form a chain.** -/
theorem Nested.chain {jobs : List Job} (h : Loadable jobs) {origin : Frame} {frames : List Frame}
    {p : Nat} {s : State} (hrun : Nested jobs origin frames p s) :
    s.pc = address jobs p ∧ Chain jobs origin frames s.memory := by
  -- by induction on the run; only calls and returns change the chain
  induction hrun with
  | first hb hframe hplaced hgoes =>
    obtain ⟨hlcl, harg, hholds⟩ := holds_of_call h hb hgoes hframe hplaced
    refine ⟨hgoes.pc, ⟨hlcl, harg, trivial⟩, ?_, rfl⟩
    intro f hf
    rwa [List.mem_singleton.mp hf]
  | call hrun hb hframe hplaced hgoes hkept ih =>
    exact ⟨hgoes.pc, ih.2.call h hb hframe hplaced hgoes hkept⟩
  | ret hrun hb hreturn htop hgoes hkept ih =>
    exact ⟨hgoes.pc, ih.2.ret h hb hreturn htop hgoes hkept⟩
  | other hrun hb hframe hreturn hgoes hlcl harg hkept ih =>
    refine ⟨hgoes.pc, ih.2.linked.of_eq hlcl harg, ?_, ih.2.last⟩
    intro f hf
    exact (ih.2.holds f hf).of_kept (hkept f hf)

/-- **Every return resumes after its own call.**  In a run from a call to the matching
return, with calls nested to any depth: a return goes to the first instruction after the
innermost active call; the registers of the caller are as they were at that call; the
stack pointer is behind the first argument of the call, whose cell holds the value that
was on top of the stack; and when only one call is active, it is the one that the run
began with. -/
theorem return_resumes_after_call (jobs : List Job) (h : Loadable jobs) (origin f : Frame)
    (frames : List Frame) (p : Nat) (s : State) (hrun : Nested jobs origin (f :: frames) p s)
    (b : Block) (hb : (blocks jobs)[p]? = some b) (hreturn : b.isReturn = true)
    (htop : Above (s.memory Register.sp.cell - 1)) :
    (∃ t, Goes jobs p s (f.position + 1) t ∧
      (∀ r ∈ [Register.lcl, .arg, .this, .that], t.memory r.cell = f.memory r.cell) ∧
      t.memory Register.sp.cell = f.base - BitVec.ofNat 16 f.arguments + 1 ∧
      t.memory (f.base - BitVec.ofNat 16 f.arguments) = s.memory (s.memory Register.sp.cell - 1)) ∧
    (frames = [] → f = origin) := by
  obtain ⟨hpc, hchain⟩ := hrun.chain h
  obtain ⟨hlcl, harg, -⟩ := hchain.linked
  refine ⟨?_, ?_⟩
  · exact passes_return h hb hreturn hpc (hchain.holds f (List.mem_cons_self ..)) hlcl harg htop
  · rintro rfl
    exact Option.some.inj hchain.last

/-- A call within a call, both without arguments: the inner return goes back into the
outer function, and the outer one, with the value in place of its return address, to the
place after the first call. -/
theorem return_resumes_after_nested_call :
    ∃ jobs : List Job, jobs = [.module "Main" ["call Main.f 0", "function Main.f 0",
        "call Main.g 0", "return", "function Main.g 0", "push constant 7", "return"]] ∧
      Loadable jobs ∧
      ∃ origin s, Nested jobs origin [origin] 3 s ∧ (origin.position, origin.base) = (0, 256) ∧
        ∃ t, Goes jobs 3 s 1 t ∧
          (∀ r ∈ [Register.lcl, .arg, .this, .that], t.memory r.cell = origin.memory r.cell) ∧
          (t.memory 0, t.memory 256) = (257, 7) := by
  refine ⟨_, rfl, ?_⟩
  generalize hj : ([_] : List Job) = jobs
  have hload : Loadable jobs := by
    rw [← hj]
    decide +kernel
  have hat : ∀ {p : Nat} {b : Block},
      [Block.command "Main" ⟨⟨none⟩, 0, 0⟩ (.call "Main.f" 0),
        .command "Main" ⟨⟨none⟩, 0, 1⟩ (.function "Main.f" 0),
        .command "Main" ⟨⟨some "Main.f"⟩, 0, 1⟩ (.call "Main.g" 0),
        .command "Main" ⟨⟨some "Main.f"⟩, 0, 2⟩ .ret,
        .command "Main" ⟨⟨some "Main.f"⟩, 0, 2⟩ (.function "Main.g" 0),
        .command "Main" ⟨⟨some "Main.g"⟩, 0, 2⟩ (.push .constant 7),
        .command "Main" ⟨⟨some "Main.g"⟩, 0, 2⟩ .ret][p]? = some b →
      (blocks jobs)[p]? = some b := by
    intro p b h
    rw [← h]
    refine congrArg (·[p]?) ?_
    rw [← hj]
    decide +kernel
  obtain ⟨state, hstate⟩ : ∃ state : Nat → State, state = fun k =>
      State.run (assemble (program jobs)) k ⟨0, 0, fun a => if a = 0 then 256 else 0, 0⟩ := ⟨_, rfl⟩
  have hgoes : ∀ {p q : Nat} (j k : Nat), GoesIn jobs p (state j) q k →
      Goes jobs p (state j) q (state (j + k)) := by
    intro p q j k h
    have hrun : state (j + k) = (state j).run (assemble (program jobs)) k := by
      rw [hstate]
      exact State.run_add ..
    exact hrun ▸ h.goes
  have hpath : GoesIn jobs 0 (state 0) 1 47 ∧ GoesIn jobs 1 (state 47) 2 0 ∧
      GoesIn jobs 2 (state 47) 4 47 ∧ GoesIn jobs 4 (state 94) 5 0 ∧
      GoesIn jobs 5 (state 94) 6 7 ∧ GoesIn jobs 6 (state 101) 3 43 := by
    rw [hstate, ← hj]
    decide +kernel
  have hcells : (Frame.Placed ⟨0, 0, (state 0).memory⟩ ∧ Frame.Placed ⟨2, 0, (state 47).memory⟩) ∧
      Frame.Kept ⟨0, 0, (state 0).memory⟩ (state 47).memory (state 94).memory ∧
      Frame.Kept ⟨0, 0, (state 0).memory⟩ (state 94).memory (state 101).memory ∧
      Frame.Kept ⟨2, 0, (state 47).memory⟩ (state 94).memory (state 101).memory ∧
      Frame.Kept ⟨0, 0, (state 0).memory⟩ (state 101).memory (state 144).memory := by
    rw [hstate, ← hj]
    decide +kernel
  have hregisters : (state 101).memory Register.lcl.cell = (state 94).memory Register.lcl.cell ∧
      (state 101).memory Register.arg.cell = (state 94).memory Register.arg.cell ∧
      (state 0).memory Register.sp.cell = 256 := by
    rw [hstate, ← hj]
    decide +kernel
  have htops : Above ((state 101).memory Register.sp.cell - 1) ∧
      Above ((state 144).memory Register.sp.cell - 1) ∧
      (state 144).memory ((state 144).memory Register.sp.cell - 1) = 7 := by
    rw [hstate, ← hj]
    decide +kernel
  obtain ⟨⟨houter, hinner⟩, hkept, hkept', hinner', hkept''⟩ := hcells
  obtain ⟨hlcl, harg, hbase⟩ := hregisters
  obtain ⟨htop, htop', hvalue⟩ := htops
  obtain ⟨h₀, h₁, h₂, h₄, h₅, h₆⟩ := hpath
  have hrun := Nested.first (hat rfl) rfl houter (hgoes 0 47 h₀)
  have hrun := hrun.other (hat rfl) rfl rfl (hgoes 47 0 h₁) rfl rfl fun f _ i _ => rfl
  have hrun := hrun.call (hat rfl) rfl hinner (hgoes 47 47 h₂) (by simpa using hkept)
  have hrun := hrun.other (hat rfl) rfl rfl (hgoes 94 0 h₄) rfl rfl fun f _ i _ => rfl
  have hrun := hrun.other (hat rfl) rfl rfl (hgoes 94 7 h₅) hlcl harg
    (by simpa using ⟨hinner', hkept'⟩)
  have hrun := hrun.ret (hat rfl) rfl htop (hgoes 101 43 h₆) (by simpa using hkept'')
  obtain ⟨⟨t, hreturns, hrestored, hsp, hresult⟩, -⟩ :=
    return_resumes_after_call jobs hload _ _ _ _ _ hrun _ (hat rfl) rfl htop'
  simp only [Frame.base, hbase, hvalue] at hsp hresult
  refine ⟨hload, _, _, hrun, ?_, t, hreturns, hrestored, ?_⟩
  · exact Prod.ext rfl hbase
  · exact Prod.ext hsp hresult

end HackVM
