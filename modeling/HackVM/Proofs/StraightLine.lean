import HackVM.Proofs.Layout

/-! # Running through code

The code of a block is left at its end or by its last jump; every other jump in it
goes forward.  `Forward` says that the machine gets from one state to another by
steps that all go forward, and composes.  `Passes` says that the machine, started at
the first instruction of a block, leaves it in a certain state, and that it does so
the first time that it leaves (`Passes.deterministic`).  Code without jumps goes
forward to its end, and what it does there is computed by `State.follow`. -/
namespace HackVM

open Asm Hack

/-! ## Runs -/

namespace Hack.State

variable {program : List Instr} {s t u : State}

theorem run_succ (h : s.step? program = some t) (k : Nat) :
    s.run program (k + 1) = t.run program k := by
  rw [run, h]

theorem run_of_step?_eq_none (h : s.step? program = none) (k : Nat) : s.run program k = s := by
  cases k with
  | zero => rfl
  | succ k => rw [run, h]

theorem run_add (program : List Instr) (s : State) (j k : Nat) :
    s.run program (j + k) = (s.run program j).run program k := by
  induction j generalizing s with
  | zero => rw [Nat.zero_add]; rfl
  | succ j ih =>
    cases h : s.step? program with
    | none => simp only [run_of_step?_eq_none h]
    | some t => rw [Nat.add_right_comm, run_succ h, run_succ h, ih]

/-- The machine gets from one state to another by steps that all go forward. -/
inductive Forward (program : List Instr) : State → State → Prop where
  | refl (s : State) : Forward program s s
  | step {s t u : State} (hstep : s.step? program = some t) (hpc : s.pc < t.pc)
      (hrest : Forward program t u) : Forward program s u

theorem Forward.trans (h : Forward program s t) (h' : Forward program t u) :
    Forward program s u := by
  induction h with
  | refl s => exact h'
  | step hstep hpc hrest ih => exact .step hstep hpc (ih h')

theorem Forward.le (h : Forward program s t) : s.pc ≤ t.pc := by
  induction h with
  | refl s => exact Nat.le_refl _
  | step hstep hpc hrest ih => omega

/-- The states on the way lie strictly between the ends. -/
theorem Forward.exists_run (h : Forward program s t) :
    ∃ k, s.run program k = t ∧ (k = 0 ↔ s.pc = t.pc) ∧
      ∀ j, 0 < j → j < k → s.pc < (s.run program j).pc ∧ (s.run program j).pc < t.pc := by
  induction h with
  | refl s => exact ⟨0, rfl, by simp, by omega⟩
  | @step s t u hstep hpc hrest ih =>
    obtain ⟨k, hk, hzero, hbetween⟩ := ih
    have hle := hrest.le
    refine ⟨k + 1, by rw [run_succ hstep, hk], by omega, ?_⟩
    intro j hj hjk
    obtain ⟨i, rfl⟩ : ∃ i, j = i + 1 := ⟨j - 1, by omega⟩
    rw [run_succ hstep]
    cases i with
    | zero =>
      show s.pc < t.pc ∧ t.pc < u.pc
      omega
    | succ i =>
      obtain ⟨hlow, hhigh⟩ := hbetween (i + 1) (by omega) (by omega)
      omega

/-- A state inside a block, past its first instruction. -/
def Inside (first last : Nat) (s : State) : Prop := first < s.pc ∧ s.pc < last

instance (first last : Nat) (s : State) : Decidable (s.Inside first last) :=
  inferInstanceAs (Decidable (_ ∧ _))

/-- From the first instruction of a block, the machine runs until it leaves the
block, and is then in a certain state.  A block without instructions is left at
once. -/
def Passes (program : List Instr) (first last : Nat) (s t : State) : Prop :=
  s.pc = first ∧ ∃ k, s.run program k = t ∧ (k = 0 ↔ first = last) ∧
    (∀ j, 0 < j → j < k → (s.run program j).Inside first last) ∧ ¬ t.Inside first last

/-- A block is left in one state only. -/
theorem Passes.deterministic {first last : Nat} (h : Passes program first last s t)
    (h' : Passes program first last s u) : t = u := by
  obtain ⟨-, k, hk, hzero, hinside, hout⟩ := h
  obtain ⟨-, k', hk', hzero', hinside', hout'⟩ := h'
  -- the shorter run ends outside, so the longer one has ended there as well
  rcases Nat.lt_trichotomy k k' with hlt | heq | hgt
  · have hpos : 0 < k := by omega
    exact absurd (hk ▸ hinside' k hpos hlt) hout
  · rw [← hk, ← hk', heq]
  · have hpos : 0 < k' := by omega
    exact absurd (hk' ▸ hinside k' hpos hgt) hout'

/-- A block that is left at its end. -/
theorem Passes.of_forward {first last : Nat} (hfirst : s.pc = first) (h : Forward program s t)
    (hlast : t.pc = last) : Passes program first last s t := by
  subst hfirst hlast
  obtain ⟨k, hk, hzero, hbetween⟩ := h.exists_run
  exact ⟨rfl, k, hk, hzero, hbetween, fun hinside => Nat.lt_irrefl _ hinside.2⟩

/-- A block that is left by a jump. -/
theorem Passes.of_jump {first last : Nat} (hfirst : s.pc = first) (h : Forward program s t)
    (hlast : t.pc < last) (hstep : t.step? program = some u) (hout : ¬ u.Inside first last) :
    Passes program first last s u := by
  subst hfirst
  obtain ⟨k, hk, hzero, hbetween⟩ := h.exists_run
  have hle := h.le
  refine ⟨rfl, k + 1, ?_, by omega, ?_, hout⟩
  · rw [run_add, hk]
    exact run_succ hstep 0
  · intro j hj hjk
    by_cases hlt : j < k
    · obtain ⟨hlow, hhigh⟩ := hbetween j hj hlt
      exact ⟨hlow, Nat.lt_trans hhigh hlast⟩
    · -- the state before the jump
      have heq : j = k := by omega
      rw [heq, hk]
      exact ⟨by omega, hlast⟩

theorem Passes.exists_run {first last : Nat} (h : Passes program first last s t) :
    ∃ k, s.run program k = t := by
  obtain ⟨-, k, hk, -⟩ := h
  exact ⟨k, hk⟩

end Hack.State

/-! ## Code without jumps -/

/-- Whether code holds no jump. -/
def Asm.isStraight (code : List Line) : Bool :=
  code.all fun
    | .jump .. => false
    | _ => true

@[simp] theorem Asm.isStraight_append (a b : List Line) :
    isStraight (a ++ b) = (isStraight a && isStraight b) :=
  List.all_append

/-- The state after the instructions of code, one after the other. -/
def Hack.State.follow (program : List Line) (s : State) (code : List Line) : State :=
  (code.filterMap (instr? program)).foldl State.exec s

namespace Hack.State

variable {program : List Line}

@[simp] theorem follow_nil (s : State) : s.follow program [] = s := rfl

@[simp] theorem follow_append (s : State) (a b : List Line) :
    s.follow program (a ++ b) = (s.follow program a).follow program b := by
  simp [follow]

@[simp] theorem follow_store (s : State) (dest : Dest) (comp : Comp) (code : List Line) :
    s.follow program (.store dest comp :: code) = (s.exec (.store dest comp)).follow program code :=
  rfl

@[simp] theorem follow_load (s : State) (x : Symbol) (code : List Line) :
    s.follow program (load x :: code) =
      State.follow program
        { s with a := BitVec.ofNat 16 (symbolValue program x.text), pc := s.pc + 1 } code :=
  rfl

@[simp] theorem follow_loadNumber (s : State) (n : Int) (code : List Line) :
    s.follow program (loadNumber n :: code) =
      State.follow program { s with a := BitVec.ofNat 16 n.toNat, pc := s.pc + 1 } code :=
  rfl

@[simp] theorem follow_loadRegister (s : State) (r : Register) (code : List Line) :
    s.follow program (loadRegister r :: code) =
      State.follow program { s with a := r.cell, pc := s.pc + 1 } code := by
  rw [follow, List.filterMap_cons_some (instr?_loadRegister program r)]
  rfl

theorem step?_of_getElem? {instrs : List Instr} {s : State} {i : Instr}
    (h : instrs[s.pc]? = some i) : s.step? instrs = some (s.exec i) := by
  rw [step?, h]
  rfl

/-- **Code without jumps goes forward to its end.** -/
theorem forward_follow {code : List Line} {s : State} (hcode : Installed program s.pc code)
    (hstraight : isStraight code = true) :
    Forward (assemble program) s (s.follow program code) ∧
      (s.follow program code).pc = s.pc + size code := by
  induction code generalizing s with
  | nil => exact ⟨.refl s, rfl⟩
  | cons l code ih =>
    cases l with
    | label x => exact ih hcode.2 hstraight
    | jump comp condition => cases hstraight
    | address o =>
      have hrest := ih (s := s.exec (.load (BitVec.ofNat 16 (operandValue program o)))) hcode.2
        hstraight
      exact ⟨.step (step?_of_getElem? hcode.1) (Nat.lt_succ_self _) hrest.1,
        hrest.2.trans (Nat.add_right_comm ..)⟩
    | store dest comp =>
      have hrest := ih (s := s.exec (.store dest comp)) hcode.2 hstraight
      exact ⟨.step (step?_of_getElem? hcode.1) (Nat.lt_succ_self _) hrest.1,
        hrest.2.trans (Nat.add_right_comm ..)⟩

/-- A jump that stands at the current position is made. -/
theorem step?_of_jump {code : List Line} {s : State} {comp : Comp} {condition : Jump}
    (hcode : Installed program s.pc (.jump comp condition :: code)) :
    s.step? (assemble program) = some (s.exec (.jump comp condition)) :=
  step?_of_getElem? hcode.1

end Hack.State
end HackVM
