import HackVM.Proofs.ComparisonCode
import HackVM.Proofs.TextPatterns

/-! # A comparison anywhere in a program

The code of a comparison may stand between any other code, as long as its four labels
are defined nowhere else.  It then runs from its first instruction to the one behind its
last, and what it leaves in memory is said by `Compared`: the stack is one cell lower, the
value of the comparison of signed words stands over the left operand, the right operand
in one scratch cell, and every other cell is as it was
(`comparison_exact_with_minimal_footprint`).  The stack may lie anywhere, also across the
end of memory, except where its cells would be the stack pointer or the scratch cell. -/
namespace HackVM

open Asm Hack

/-- The places inside a comparison. -/
def ComparePoint.all : List ComparePoint := [.leftNegative, .sameSign, .decide, .finish]

/-- The labels of a comparison, as texts. -/
def compareLabels (m : String) (number : Nat) : List String :=
  ComparePoint.all.map fun point => (Symbol.compare m point number).text

/-! ## The code in a program -/

section Placing

variable {m : String} {number : Nat} (hm : isModuleName m = true)
include hm

theorem nodup_compareLabels : (compareLabels m number).Nodup := by
  have hpoints : ComparePoint.all.Nodup := by decide
  refine List.pairwise_map.mpr (hpoints.imp ?_)
  intro point point' hne htext
  have hsame : Symbol.compare m point number = .compare m point' number :=
    Symbol.eq_of_text_eq hm hm trivial htext
  exact hne (Symbol.compare.inj hsame).2.1

omit hm in
/-- The labels of a comparison are no names of the machine's own, which hold no dollar
sign. -/
theorem lookup_predefined_compareLabels {t : String} (ht : t ∈ compareLabels m number) :
    predefined.lookup t = none := by
  obtain ⟨point, -, rfl⟩ := List.mem_map.mp ht
  have hdollar : ∀ t ∈ predefined.map Prod.fst, '$' ∉ t.toList := by decide
  refine lookup_eq_none_of_notMem fun hmem => hdollar _ hmem ?_
  exact Symbol.dollar_mem_internalText m point.name number

/-- **The code of a comparison is installed between any other code** that defines none of
its labels. -/
theorem installed_compare {c : Comparison} {before code after program : List Line}
    (hcode : code = Code.compare c m number) (hprogram : program = before ++ code ++ after)
    (hlabels : ∀ t ∈ compareLabels m number, t ∉ (defined (before ++ after)).map Symbol.text) :
    Installed program (size before) code := by
  have htexts : (defined code).map Symbol.text = compareLabels m number := by
    rw [hcode, Code.defined_compare]
    rfl
  have hmem : ∀ s ∈ defined code, s.text ∈ compareLabels m number := by
    intro s hs
    rw [← htexts]
    exact List.mem_map_of_mem hs
  refine installed_of_append hprogram ?_ ?_ ?_
  · intro s hs
    exact lookup_predefined_compareLabels (hmem s hs)
  · intro s hs hbefore
    refine hlabels _ (hmem s hs) ?_
    rw [defined_append, List.map_append]
    exact List.mem_append_left _ hbefore
  · rw [htexts]
    exact nodup_compareLabels hm

end Placing

/-! ## What is left in memory -/

/-- What a comparison of `x`, which stood at `a`, and `y`, which stood above it, leaves of a
memory. -/
structure Compared (c : Comparison) (a x y : Word) (before after : Memory) : Prop where
  pointer : after 0 = a + 1
  value : after a = if c.holds x y then -1 else 0
  scratch : after 13 = y
  elsewhere : ∀ cell, cell ≠ 0 → cell ≠ a → cell ≠ 13 → after cell = before cell

namespace Hack.Memory

variable {m : Memory} {a : Word} (hsp : m 0 = a + 2)
include hsp

/-- The stack pointer, when the right operand has been taken. -/
theorem sp_sub_one : m Register.sp.cell - 1 = a + 1 := by
  show m 0 - 1 = a + 1
  rw [hsp]
  bv_omega

theorem sp_sub_two : m Register.sp.cell - 1 - 1 = a := by
  rw [sp_sub_one hsp]
  bv_omega

/-- The right operand is popped, since the cell that it stands in is not the stack
pointer. -/
theorem popped_eq (hright : a + 1 ≠ 0) : m.popped = m (a + 1) := by
  show m.drop (m.drop Register.sp.cell) = _
  rw [drop_sp, sp_sub_one hsp]
  exact set_of_ne m _ hright

theorem compared (c : Comparison) (hleft : a ≠ 0) (hright : a + 1 ≠ 0) (hscratch : a ≠ 13) :
    Compared c a (m a) (m (a + 1)) m
      ((m.combine c.value).set Register.r13.cell m.popped) := by
  have hcombine : m.combine c.value = m.drop.set a (c.value (m a) (m (a + 1))) := by
    show m.drop.set (m.drop Register.sp.cell - 1)
      (c.value (m.drop (m.drop Register.sp.cell - 1)) m.popped) = _
    have hdrop : m.drop a = m a := set_of_ne m _ hleft
    rw [drop_sp, sp_sub_two hsp, popped_eq hsp hright, hdrop]
  rw [hcombine, popped_eq hsp hright]
  constructor
  · rw [set_of_ne _ _ (by decide), set_of_ne _ _ hleft.symm]
    exact (m.drop_sp).trans (sp_sub_one hsp)
  · exact (set_of_ne _ _ hscratch).trans (set_self ..)
  · exact set_self ..
  · intro cell hzero ha hthirteen
    have hkept : m.drop cell = m cell := set_of_ne m _ hzero
    exact (set_of_ne _ _ hthirteen).trans ((set_of_ne _ _ ha).trans hkept)

end Hack.Memory

/-- **Comparisons are exact, with a minimal footprint.**  Let a program of at most 32768
instructions hold the code of a comparison between any other code that defines none of its
labels, and let the machine be at its first instruction, with `x` and `y` on top of the
stack.  Then the machine runs through the code, without leaving it on the way, to the
instruction behind it, and all that it has changed in memory is the stack pointer, the cell
of `x` and one scratch cell. -/
theorem comparison_exact_with_minimal_footprint {c : Comparison} {m : String} {number : Nat}
    {before code after program : List Line} (hm : Text.IsWord ['_', ':'] m)
    (hcode : code = Code.compare c m number) (hprogram : program = before ++ code ++ after)
    (hlabels : ∀ t ∈ compareLabels m number, t ∉ (defined (before ++ after)).map Symbol.text)
    (hfits : (assemble program).length ≤ 32768) {a x y : Word} (hleft : a ≠ 0)
    (hright : a + 1 ≠ 0) (hscratch : a ≠ 13) {s : State} (hpc : s.pc = size before)
    (hsp : s.memory 0 = a + 2) (hx : s.memory a = x) (hy : s.memory (a + 1) = y) :
    ∃ t, State.Passes (assemble program) (size before) (size (before ++ code)) s t ∧
      t.pc = size (before ++ code) ∧ Compared c a x y s.memory t.memory := by
  have hinstalled := installed_compare (isModuleName_iff_isWord.mpr hm) hcode hprogram hlabels
  have hend : size (before ++ code) = s.pc + 38 := by
    rw [size_append, hcode, Code.size_compare, hpc]
  have hroom : s.pc + 38 < 65536 := by
    have hlength : (assemble program).length = size (before ++ code) + size after := by
      rw [← size_append, ← hprogram]
      exact length_filterMap_instr? _ _
    omega
  rw [← hpc] at hinstalled ⊢
  obtain ⟨t, hforward, htpc, hmemory⟩ := State.forward_compare hcode hinstalled hroom
    (by rw [Memory.sp_sub_two hsp]; exact hleft) (by rw [Memory.sp_sub_two hsp]; exact hscratch)
  refine ⟨t, .of_forward rfl hforward (htpc.trans hend.symm), htpc.trans hend.symm, ?_⟩
  rw [hmemory, ← hx, ← hy]
  exact Memory.compared hsp c hleft hright hscratch

/-- The least word is below one, though their difference overflows; the operands are the
last two cells of memory, so that the stack pointer is zero. -/
theorem comparison_at_end_of_memory :
    ∃ (program : List Line) (s t : State),
      program = Code.binary .add ++ Code.compare .lt "Main" 3 ++
        [.label (.entry "Main.run"), .store .d .zero] ∧
      (s.memory 0 = 0 ∧ s.memory 65534 = 32768 ∧ s.memory 65535 = 1) ∧
      State.Passes (assemble program) 7 45 s t ∧ t.pc = 45 ∧ t.memory 65534 = -1 ∧
      Compared .lt 65534 32768 1 s.memory t.memory := by
  let memory : Memory := fun cell => if cell = 65534 then 32768 else if cell = 65535 then 1 else 0
  have hlabels : ∀ t ∈ compareLabels "Main" 3,
      t ∉ (defined (Code.binary .add ++ [.label (.entry "Main.run"), .store .d .zero])).map
        Symbol.text := by
    decide +kernel
  generalize hcode : Code.compare .lt "Main" 3 = code
  obtain ⟨t, hpasses, hpc, hcompared⟩ := comparison_exact_with_minimal_footprint
    (s := ⟨0, 0, memory, 7⟩) (a := 65534) (x := 32768) (y := 1) (c := .lt) (m := "Main")
    (isModuleName_iff_isWord.mp (by decide)) hcode.symm rfl hlabels
    (by rw [← hcode]; decide +kernel) (by decide) (by decide) (by decide) rfl rfl rfl rfl
  have hend : size (Code.binary .add ++ code) = 45 := by rw [← hcode]; decide +kernel
  rw [hend] at hpasses hpc
  exact ⟨_, _, t, rfl, ⟨rfl, rfl, rfl⟩, hpasses, hpc, hcompared.value, hcompared⟩

end HackVM
