import HackVM.Proofs.BlockExecution

/-! # Frames on the stack

What entering and leaving a function do to memory when the cells of the frame lie above
the registers.  Then nothing that a call saves is lost: the saved cells hold the return
address and the registers of the caller (`enter_saved`), and leaving the frame gives the
registers back (`leave_register`), also when there are no arguments and the value is
stored over the return address. -/
namespace HackVM

open Asm Hack

namespace Hack

theorem cell_ne_sp {r : Register} (hr : r ≠ .sp) : r.cell ≠ Register.sp.cell := by
  revert hr
  cases r <;> decide

/-- A cell above the registers. -/
def Above (a : Word) : Prop := firstVariable ≤ a.toNat

instance (a : Word) : Decidable (Above a) := inferInstanceAs (Decidable (_ ≤ _))

theorem Above.ne_cell {a : Word} (h : Above a) (r : Register) : a ≠ r.cell := by
  rintro rfl
  cases r <;> exact absurd h (by unfold Above; decide)

theorem Above.notMem_scratch {a : Word} (h : Above a) : a ∉ Stack.scratch := by
  intro hmem
  rcases List.mem_cons.mp hmem with heq | hmem
  · exact h.ne_cell .r13 heq
  · exact h.ne_cell .r14 (List.mem_singleton.mp hmem)

theorem add_one_add (a : Word) (i : Nat) :
    a + 1 + BitVec.ofNat 16 i = a + BitVec.ofNat 16 (i + 1) := by
  bv_omega

namespace Memory

variable {m : Memory} {v : Word} {k : Nat}

/-! ## Pushing above the registers -/

theorem push_of_ne {x : Word} (hsp : x ≠ Register.sp.cell) (hx : x ≠ m Register.sp.cell) :
    m.push v x = m x := by
  unfold push
  rw [set_of_ne _ _ hsp, set_of_ne _ _ hx]

theorem push_sp (h : Above (m Register.sp.cell)) :
    m.push v Register.sp.cell = m Register.sp.cell + 1 := by
  unfold push
  rw [set_self, set_of_ne _ _ (h.ne_cell .sp).symm]

theorem push_top (h : Above (m Register.sp.cell)) : m.push v (m Register.sp.cell) = v := by
  unfold push
  rw [set_of_ne _ _ (h.ne_cell .sp), set_self]

/-- The next cells of the stack lie above the registers. -/
def Room (m : Memory) (k : Nat) : Prop := ∀ i < k, Above (m Register.sp.cell + BitVec.ofNat 16 i)

theorem Room.above (h : m.Room (k + 1)) : Above (m Register.sp.cell) := by
  have hfirst := h 0 (Nat.succ_pos k)
  rwa [BitVec.add_zero] at hfirst

theorem Room.push (h : m.Room (k + 1)) : (m.push v).Room k := by
  intro i hi
  rw [push_sp h.above, add_one_add]
  exact h (i + 1) (Nat.succ_lt_succ hi)

/-- Puts values on the stack, one after the other. -/
def pushAll (m : Memory) (vs : List Word) : Memory := vs.foldl push m

theorem pushAll_cons (m : Memory) (v : Word) (vs : List Word) :
    m.pushAll (v :: vs) = (m.push v).pushAll vs := rfl

theorem pushAll_sp {vs : List Word} (h : m.Room vs.length) :
    m.pushAll vs Register.sp.cell = m Register.sp.cell + BitVec.ofNat 16 vs.length := by
  induction vs generalizing m with
  | nil => simp [pushAll]
  | cons v vs ih =>
    rw [pushAll_cons, ih h.push, push_sp h.above, add_one_add]
    rfl

theorem pushAll_of_ne {vs : List Word} (h : m.Room vs.length) {x : Word}
    (hsp : x ≠ Register.sp.cell)
    (hx : ∀ i < vs.length, x ≠ m Register.sp.cell + BitVec.ofNat 16 i) : m.pushAll vs x = m x := by
  induction vs generalizing m with
  | nil => rfl
  | cons v vs ih =>
    rw [pushAll_cons, ih h.push, push_of_ne hsp]
    · have hfirst := hx 0 (Nat.succ_pos _)
      rwa [BitVec.add_zero] at hfirst
    · intro i hi
      rw [push_sp h.above, add_one_add]
      exact hx (i + 1) (Nat.succ_lt_succ hi)

/-- Each value stays where it was put. -/
theorem pushAll_get {vs : List Word} (h : m.Room vs.length) (hlength : vs.length < 65536) {i : Nat}
    {w : Word} (hw : vs[i]? = some w) :
    m.pushAll vs (m Register.sp.cell + BitVec.ofNat 16 i) = w := by
  induction vs generalizing m i with
  | nil => cases hw
  | cons v vs ih =>
    rw [pushAll_cons]
    cases i with
    | zero =>
      -- the values that come after the first one lie above it
      cases hw
      rw [BitVec.add_zero, pushAll_of_ne h.push (h.above.ne_cell .sp),
        push_top h.above]
      intro i hi
      rw [push_sp h.above]
      rw [List.length_cons] at hlength
      bv_omega
    | succ i =>
      rw [← add_one_add, ← push_sp h.above (v := v)]
      exact ih h.push (Nat.lt_of_succ_lt hlength) hw

theorem save_eq_pushAll {rs : List Register} (h : m.Room rs.length) (hrs : .sp ∉ rs) :
    m.save rs = m.pushAll (rs.map fun r => m r.cell) := by
  induction rs generalizing m with
  | nil => rfl
  | cons r rs ih =>
    have hrest : ∀ r' ∈ rs, (m.push (m r.cell)) r'.cell = m r'.cell := by
      intro r' hr'
      refine push_of_ne ?_ (h.above.ne_cell r').symm
      exact cell_ne_sp fun heq => hrs (heq ▸ List.mem_cons_of_mem _ hr')
    show (m.push (m r.cell)).save rs = (m.push (m r.cell)).pushAll (rs.map fun r' => m r'.cell)
    rw [ih h.push fun hmem => hrs (List.mem_cons_of_mem _ hmem), List.map_congr_left hrest]

/-! ## Entering a function -/

/-- What a call saves: the return address and the registers of the caller. -/
def frameContents (m : Memory) (site : Word) : List Word :=
  site :: [Register.lcl, .arg, .this, .that].map fun r => m r.cell

theorem length_frameContents (m : Memory) (site : Word) :
    (m.frameContents site).length = 5 := rfl

section Enter

variable (site : Word) (n : Nat) (h : m.Room 5)
include h

theorem save_eq_frameContents :
    (m.push site).save [Register.lcl, .arg, .this, .that] = m.pushAll (m.frameContents site) := by
  have hroom : (m.push site).Room 4 := Room.push h
  have hregisters : ∀ r ∈ [Register.lcl, .arg, .this, .that], m.push site r.cell = m r.cell := by
    intro r hr
    refine push_of_ne (cell_ne_sp ?_) (h.above.ne_cell r).symm
    revert r
    decide
  rw [save_eq_pushAll hroom (by decide), List.map_congr_left hregisters, frameContents,
    pushAll_cons]

/-- Entering a function puts the contents of its frame on the stack and sets up two
registers. -/
theorem enter_eq :
    m.enter site n = ((m.pushAll (m.frameContents site)).set
      Register.arg.cell (m Register.sp.cell - BitVec.ofNat 16 n)).set
        Register.lcl.cell (m Register.sp.cell + 5) := by
  have hsp : m.pushAll (m.frameContents site) Register.sp.cell = m Register.sp.cell + 5 := by
    rw [pushAll_sp (by rwa [length_frameContents]), length_frameContents]
    rfl
  have harg : m Register.sp.cell + 5 - BitVec.ofNat 16 (n + 5) =
      m Register.sp.cell - BitVec.ofNat 16 n := by
    bv_omega
  simp only [enter, save_eq_frameContents site h, hsp, harg,
    set_of_ne _ _ (by decide : Register.sp.cell ≠ Register.arg.cell)]

theorem enter_lcl :
    m.enter site n Register.lcl.cell = m Register.sp.cell + 5 := by
  rw [enter_eq site n h, set_self]

theorem enter_arg :
    m.enter site n Register.arg.cell = m Register.sp.cell - BitVec.ofNat 16 n := by
  rw [enter_eq site n h, set_of_ne _ _ (by decide), set_self]

/-- **The cells of a new frame hold what the call saves.** -/
theorem enter_saved {i : Nat} {w : Word} (hw : (m.frameContents site)[i]? = some w) :
    m.enter site n (m Register.sp.cell + BitVec.ofNat 16 i) = w := by
  have habove : Above (m Register.sp.cell + BitVec.ofNat 16 i) :=
    h i (List.getElem?_eq_some_iff.mp hw).1
  rw [enter_eq site n h, set_of_ne _ _ (habove.ne_cell .lcl), set_of_ne _ _ (habove.ne_cell .arg)]
  refine pushAll_get (by rwa [length_frameContents]) ?_ hw
  rw [length_frameContents]
  decide

end Enter

/-! ## Leaving a function -/

section Leave

variable (m)

theorem restore_of_ne {x frame : Word} {rs : List Register} (hx : ∀ r ∈ rs, x ≠ r.cell) :
    m.restore frame rs x = m x := by
  induction rs generalizing m frame with
  | nil => rfl
  | cons r rs ih =>
    rw [restore, ih _ fun r' hr' => hx r' (List.mem_cons_of_mem _ hr'),
      set_of_ne _ _ (hx r (List.mem_cons_self ..))]

/-- A register is restored from its own cell below the frame. -/
theorem restore_get {frame : Word} {rs : List Register} (hrs : (rs.map Register.cell).Nodup)
    (hcells : ∀ i < rs.length, Above (frame - BitVec.ofNat 16 (i + 1))) {i : Nat} {r : Register}
    (hr : rs[i]? = some r) :
    m.restore frame rs r.cell = m (frame - BitVec.ofNat 16 (i + 1)) := by
  induction rs generalizing m frame i with
  | nil => cases hr
  | cons r' rs ih =>
    have hfirst : Above (frame - BitVec.ofNat 16 1) := hcells 0 (Nat.succ_pos _)
    have hshift (j : Nat) :
        frame - 1 - BitVec.ofNat 16 (j + 1) = frame - BitVec.ofNat 16 (j + 1 + 1) := by
      bv_omega
    rw [List.map_cons, List.nodup_cons] at hrs
    rw [restore]
    cases i with
    | zero =>
      -- the registers after it are other ones
      cases hr
      rw [restore_of_ne, set_self]
      · rfl
      · intro r' hr' heq
        exact hrs.1 (heq ▸ List.mem_map_of_mem hr')
    | succ i =>
      rw [List.getElem?_cons_succ] at hr
      have hlt : i < rs.length := (List.getElem?_eq_some_iff.mp hr).1
      have hrest : ∀ j < rs.length, Above (frame - 1 - BitVec.ofNat 16 (j + 1)) := by
        intro j hj
        rw [hshift]
        exact hcells (j + 1) (Nat.succ_lt_succ hj)
      rw [ih _ hrs.2 hrest hr, set_of_ne _ _ (Above.ne_cell (hrest i hlt) r'), hshift]

variable {m} (hfirst : Above (m Register.arg.cell))
include hfirst

theorem unwind_eq :
    m.unwind = (m.drop.set (m Register.arg.cell) m.popped).set Register.sp.cell
      (m Register.arg.cell + 1) := by
  have harg : m.drop Register.arg.cell = m Register.arg.cell := set_of_ne _ _ (by decide)
  simp only [unwind, harg, set_of_ne _ _ (hfirst.ne_cell .arg).symm]

theorem unwind_of_ne {x : Word} (hsp : x ≠ Register.sp.cell) (hx : x ≠ m Register.arg.cell) :
    m.unwind x = m x := by
  rw [unwind_eq hfirst, set_of_ne _ _ hsp, set_of_ne _ _ hx]
  exact set_of_ne _ _ hsp

/-- Leaving a function moves the stack pointer behind the first argument. -/
theorem leave_sp : m.leave Register.sp.cell = m Register.arg.cell + 1 := by
  rw [leave, restore_of_ne _ (by decide), unwind_eq hfirst, set_self]

/-- The value of a function takes the place of its first argument. -/
theorem leave_value (htop : Above (m Register.sp.cell - 1)) :
    m.leave (m Register.arg.cell) = m (m Register.sp.cell - 1) := by
  rw [leave, restore_of_ne _ fun r _ => hfirst.ne_cell r, unwind_eq hfirst,
    set_of_ne _ _ (hfirst.ne_cell .sp), set_self, popped, drop_sp]
  exact set_of_ne _ _ (htop.ne_cell .sp)

/-- **Leaving a function restores the registers of the caller from the frame**, when the
first argument is not one of the cells that they are saved in. -/
theorem leave_register
    (hcells : ∀ i < 4, Above (m Register.lcl.cell - BitVec.ofNat 16 (i + 1)) ∧
        m Register.lcl.cell - BitVec.ofNat 16 (i + 1) ≠ m Register.arg.cell)
    {i : Nat} {r : Register} (hr : [Register.that, .this, .arg, .lcl][i]? = some r) :
    m.leave r.cell = m (m Register.lcl.cell - BitVec.ofNat 16 (i + 1)) := by
  have hlt : i < 4 := (List.getElem?_eq_some_iff.mp hr).1
  obtain ⟨habove, hne⟩ := hcells i hlt
  have hsaved : ∀ j < [Register.that, .this, .arg, .lcl].length,
      Above (m Register.lcl.cell - BitVec.ofNat 16 (j + 1)) := fun j hj => (hcells j hj).1
  have hrestored := m.unwind.restore_get (by decide) hsaved hr
  rw [leave, hrestored, unwind_of_ne hfirst (habove.ne_cell .sp) hne]

end Leave

/-! ## A frame that is left as it was entered -/

section Frame

variable {caller : Memory} {site base : Word} {n : Nat}
  (hlcl : m Register.lcl.cell = base + 5)
  (hsaved : ∀ i w, (caller.frameContents site)[i]? = some w → m (base + BitVec.ofNat 16 i) = w)
include hlcl hsaved

theorem returnAddress_of_frame : m.returnAddress = site := by
  have hfirst : base + 5 - 5 = base + BitVec.ofNat 16 0 := by bv_omega
  rw [returnAddress, hlcl, hfirst]
  exact hsaved 0 site rfl

/-- **A frame whose cells are as the call left them gives the registers of the caller
back.**  The number of arguments is bounded, so the value is not stored over one of the
saved registers. -/
theorem leave_register_of_frame (harg : m Register.arg.cell = base - BitVec.ofNat 16 n)
    (hn : n + 5 < 65536) (hfirst : Above (base - BitVec.ofNat 16 n))
    (hcells : ∀ i < 5, Above (base + BitVec.ofNat 16 i)) {r : Register}
    (hr : r ∈ [Register.lcl, .arg, .this, .that]) : m.leave r.cell = caller r.cell := by
  have hbelow : ∀ i < 4,
      m Register.lcl.cell - BitVec.ofNat 16 (i + 1) = base + BitVec.ofNat 16 (4 - i) := by
    intro i hi
    rw [hlcl]
    bv_omega
  -- registers are restored in the opposite order, from the top of the frame downwards
  obtain ⟨i, hi⟩ := List.getElem?_of_mem (List.mem_reverse.mpr hr)
  have hlt : i < 4 := (List.getElem?_eq_some_iff.mp hi).1
  have hindex : 4 - i = 3 - i + 1 := by omega
  rw [leave_register (harg ▸ hfirst) ?_ hi, hbelow i hlt]
  · refine hsaved _ _ ?_
    rw [List.getElem?_reverse hlt] at hi
    rw [hindex, frameContents, List.getElem?_cons_succ, List.getElem?_map]
    exact congrArg (Option.map _) hi
  · intro j hj
    rw [hbelow j hj, harg]
    refine ⟨hcells _ (Nat.lt_succ_of_le (Nat.sub_le ..)), ?_⟩
    bv_omega

end Frame

end Memory
end Hack
end HackVM
