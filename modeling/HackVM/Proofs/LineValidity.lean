import HackVM.Proofs.Layout

/-! # The lines of a session are valid

Every line that an emitter writes is made of checked names and of numbers that are not
negative (`Block.valid_of_mem_code`). -/
namespace HackVM

open Asm

/-- The names in a line have passed the checks, and its number is not negative. -/
def Asm.Line.Valid : Line → Prop
  | .label s | .address (.symbol s) => s.Valid
  | .address (.number n) => 0 ≤ n
  | .store .. | .jump .. => True

/-! ## Numbers -/

section Numbers

variable (s : Symbol) (n : Int) (r : Register) (dest : Dest) (c : Comp) (j : Jump)
  (code : List Line)

@[simp] theorem Asm.numbers_nil : numbers [] = [] := rfl

@[simp] theorem Asm.numbers_label : numbers (.label s :: code) = numbers code := rfl

@[simp] theorem Asm.numbers_load : numbers (load s :: code) = numbers code := rfl

@[simp] theorem Asm.numbers_symbol : numbers (.address (.symbol s) :: code) = numbers code := rfl

@[simp] theorem Asm.numbers_number : numbers (.address (.number n) :: code) = n :: numbers code :=
  rfl

@[simp] theorem Asm.numbers_loadRegister : numbers (loadRegister r :: code) = numbers code := rfl

@[simp] theorem Asm.numbers_loadNumber : numbers (loadNumber n :: code) = n :: numbers code := rfl

@[simp] theorem Asm.numbers_store : numbers (.store dest c :: code) = numbers code := rfl

@[simp] theorem Asm.numbers_jump : numbers (.jump c j :: code) = numbers code := rfl

end Numbers

@[simp] theorem Asm.numbers_append (a b : List Line) : numbers (a ++ b) = numbers a ++ numbers b :=
  List.filterMap_append

namespace Code

theorem numbers_callLines (name : String) (depth : Int) (scope : String) (number : Nat) :
    numbers (callLines name depth scope number) = [depth] := by
  simp [callLines, frameLines, savedRegisters, saveRegister, jumpTo, pushD]

theorem numbers_compare (comparison : Comparison) (m : String) (number : Nat) :
    numbers (compare comparison m number) = [] := by
  unfold compare
  simp only [atTop, popD, List.cons_append, List.nil_append, numbers_label, numbers_load,
    numbers_loadRegister, numbers_store, numbers_jump, numbers_nil]

theorem numbers_clearing (k : Nat) :
    numbers (List.replicate k (.store .d .zero :: pushD)).flatten = [] := by
  induction k with
  | zero => rfl
  | succ k ih =>
    rw [List.replicate_succ, List.flatten_cons, numbers_append, ih]
    rfl

end Code

namespace Block

/-- No block loads a negative number. -/
theorem nonneg_of_mem_numbers {b : Block} (h : b.Sound) : ∀ n ∈ numbers b.code, 0 ≤ n := by
  cases b with
  | start e =>
    show ∀ n ∈ numbers (Emission.bootstrap e).code, 0 ≤ n
    rw [Emission.bootstrap_apply]
    simp [Code.startStack, Code.numbers_callLines]
  | command m e c =>
    obtain ⟨-, -, -, lines, hl⟩ := h
    rw [code_command hl]
    cases c with
    | push segment index =>
      obtain ⟨loading, hf, rfl⟩ := Code.push_eq_ok hl
      have hs := Code.fetch_eq_ok hf
      cases segment with
      | pointer =>
        obtain ⟨r, -, rfl⟩ := hs
        simp [pushD]
      | temp => simp [hs, pushD, Int.add_nonneg]
      | _ => simp [hs, pushD]
    | pop segment index =>
      have hs := Code.pop_eq_ok hl
      cases segment with
      | constant => exact hs.elim
      | pointer =>
        obtain ⟨r, -, rfl⟩ := hs
        simp [Code.popInto, popD]
      | temp => simp [hs, Code.popInto, popD, Int.add_nonneg]
      | _ => simp [hs, Code.popInto, popD]
    | operate op =>
      cases op with
      | binary op | unary op =>
        simp only [Command.code, Except.ok.injEq] at hl
        simp [← hl, Code.binary, Code.unary, Code.atTop, popD]
      | compare comparison =>
        rw [← Except.ok.inj hl, Code.numbers_compare]
        simp
    | label name | goto name | ifGoto name =>
      simp only [Command.code, Except.ok.injEq] at hl
      simp [← hl, Code.jumpTo, Code.jumpIf, popD]
    | function name locals =>
      simp only [Command.code, Except.ok.injEq] at hl
      simp [← hl, Code.function, Code.numbers_clearing]
    | call name arguments =>
      rw [Code.call_eq_ok hl, Code.numbers_callLines]
      simp [Int.add_nonneg]
    | ret =>
      simp only [Command.code, Except.ok.injEq] at hl
      simp [← hl, Code.ret, Code.savedRegisters, Code.restoreRegister, popD]

/-- **Every line of a block is made of checked names and numbers.** -/
theorem valid_of_mem_code {b : Block} (h : b.Sound) : ∀ l ∈ b.code, l.Valid := by
  intro l hl
  cases l with
  | label s => exact valid_of_mem_defined h s (mem_defined.mpr hl)
  | address o =>
    cases o with
    | symbol s => exact valid_of_mem_referred h s (mem_referred.mpr hl)
    | number n => exact nonneg_of_mem_numbers h n (List.mem_filterMap.mpr ⟨_, hl, rfl⟩)
  | store dest comp | jump comp condition => trivial

end Block

theorem valid_of_mem_program {jobs : List Job} : ∀ l ∈ program jobs, l.Valid := by
  intro l hl
  rw [program_eq_flatMap, List.mem_flatMap] at hl
  obtain ⟨b, hb, hl⟩ := hl
  exact Block.valid_of_mem_code (sound_of_mem_blocks jobs b hb) l hl

end HackVM
