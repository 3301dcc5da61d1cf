import HackVM.Proofs.BlockEffect

/-! # What the code of a comparison does

A comparison first looks at the signs of its operands.  If they differ, the sign of
the left operand decides; if not, the difference of the operands cannot overflow, and
its sign decides.  So the value is that of the comparison of signed numbers for all
words (`forward_compare`).  Of the memory, only the operands, the stack pointer and
one scratch cell change. -/
namespace HackVM

open Asm Hack

/-! ## The parts of the code -/

namespace Code

/-- Code that takes the right operand into a scratch cell and the left one into `D`. -/
def takeOperands : List Line := popD ++ [loadRegister .r13, .store .m .d] ++ atTop ++ [.store .d .m]

/-- Code that takes the right operand into `D`. -/
def takeRight : List Line := [loadRegister .r13, .store .d .m]

/-- Code that goes to `sameSign` if the right operand satisfies a condition, and else
to `decided` with a number in `D`. -/
def lookRight (condition : Jump) (number : Comp) (sameSign decided : Symbol) : List Line :=
  (takeRight ++ [load sameSign]) ++ .jump .d condition ::
    ([.store .d number, load decided] ++ [.jump .zero .always])

/-- Code that goes to `sameSign` if the operands have the same sign, and else to
`decided` with a number in `D` that has the sign of the left operand. -/
def compareSigns (leftNegative sameSign decided : Symbol) : List Line :=
  (takeOperands ++ [load leftNegative]) ++ .jump .d .lt ::
    (lookRight .ge .one sameSign decided ++
      .label leftNegative :: lookRight .lt .minusOne sameSign decided)

/-- Code that subtracts the right operand from the left one. -/
def subtract : List Line := takeRight ++ atTop ++ [.store .d .mMinusD]

/-- Code that puts the value of a comparison on the stack, by the sign of `D`. -/
def conclude (comparison : Comparison) (finish : Symbol) : List Line :=
  (atTop ++ [.store .m .minusOne, load finish]) ++ .jump .d (compareJump comparison) ::
    ((atTop ++ [.store .m .zero]) ++ [.label finish])

theorem compare_eq (c : Comparison) (m : String) (n : Nat) :
    compare c m n =
      compareSigns (.compare m .leftNegative n) (.compare m .sameSign n) (.compare m .decide n) ++
        (.label (.compare m .sameSign n) :: subtract ++
        .label (.compare m .decide n) :: conclude c (.compare m .finish n)) := by
  unfold compare compareSigns lookRight takeOperands subtract takeRight conclude
  simp only [List.append_assoc, List.cons_append, List.nil_append]

theorem size_compare (c : Comparison) (m : String) (n : Nat) : size (compare c m n) = 38 := by
  rw [compare_eq]
  rfl

end Code

namespace Hack.State

variable {program : List Line} (s : State)

theorem follow_takeOperands :
    s.follow program Code.takeOperands =
      let kept := s.memory.drop.set Register.r13.cell s.memory.popped
      ⟨kept Register.sp.cell - 1, kept (kept Register.sp.cell - 1), kept, s.pc + 9⟩ := by
  simp only [Code.takeOperands, follow_append, follow_popD, follow_atTop, follow_loadRegister,
    follow_store, follow_nil]
  rfl

theorem follow_takeRight :
    s.follow program Code.takeRight =
      ⟨Register.r13.cell, s.memory Register.r13.cell, s.memory, s.pc + 2⟩ := by
  simp only [Code.takeRight, follow_loadRegister, follow_store, follow_nil]
  rfl

/-- The word of a position that fits is the position. -/
theorem toNat_ofNat_of_lt {n : Nat} (h : n < 65536) : (BitVec.ofNat 16 n).toNat = n := by
  rw [BitVec.toNat_ofNat, Nat.mod_eq_of_lt h]

variable {s}

section Jumps

variable {code rest : List Line} {comp : Comp} {condition : Jump} {a d : Word} {m : Memory}
  {n target : Nat} (hcode : Installed program s.pc (code ++ .jump comp condition :: rest))
  (hstraight : isStraight code = true) (hfollow : s.follow program code = ⟨a, d, m, n⟩)
include hcode hstraight hfollow

theorem forward_step?_jump :
    Forward (assemble program) s ⟨a, d, m, n⟩ ∧
      State.step? (assemble program) ⟨a, d, m, n⟩ =
        some (State.exec ⟨a, d, m, n⟩ (.jump comp condition)) := by
  obtain ⟨hcode, hjump⟩ := installed_append.mp hcode
  obtain ⟨hforward, hpc⟩ := forward_follow hcode hstraight
  rw [← hpc] at hjump
  have hstep := step?_of_jump hjump
  rw [hfollow] at hforward hstep
  exact ⟨hforward, hstep⟩

/-- Code without jumps, then a jump that goes forward. -/
theorem forward_jump_taken (hj : jumps (compValue a d (m a) comp) condition = true)
    (htarget : a.toNat = target) (hlt : n < target) :
    Forward (assemble program) s ⟨a, d, m, target⟩ := by
  obtain ⟨hforward, hstep⟩ := forward_step?_jump hcode hstraight hfollow
  have hexec : State.exec ⟨a, d, m, n⟩ (.jump comp condition) = ⟨a, d, m, target⟩ := by
    show (⟨a, d, m, if jumps (compValue a d (m a) comp) condition then _ else _⟩ : State) = _
    rw [if_pos hj, htarget]
  rw [hexec] at hstep
  exact hforward.trans (.step hstep hlt (.refl _))

/-- Code without jumps, then a jump that is not made. -/
theorem forward_jump_passed (hj : jumps (compValue a d (m a) comp) condition = false) :
    Forward (assemble program) s ⟨a, d, m, n + 1⟩ := by
  obtain ⟨hforward, hstep⟩ := forward_step?_jump hcode hstraight hfollow
  have hexec : State.exec ⟨a, d, m, n⟩ (.jump comp condition) = ⟨a, d, m, n + 1⟩ := by
    show (⟨a, d, m, if jumps (compValue a d (m a) comp) condition then _ else _⟩ : State) = _
    rw [if_neg (by rw [hj]; decide)]
  rw [hexec] at hstep
  exact hforward.trans (.step hstep (Nat.lt_succ_self n) (.refl _))

end Jumps

section Labels

variable {sameSign decided : Symbol} {same dec : Nat}
  (hsame : symbolValue program sameSign.text = same)
  (hdec : symbolValue program decided.text = dec) (hmid : same ≤ dec) (hhigh : dec < 65536)
include hsame hdec hmid hhigh

omit hsame hmid in
theorem forward_decided {number : Comp} {v : Word} (hnumber : ∀ a d m, compValue a d m number = v)
    (hcode : Installed program s.pc ([.store .d number, load decided] ++ [.jump .zero .always]))
    (hlow : s.pc + 2 < dec) :
    Forward (assemble program) s ⟨BitVec.ofNat 16 dec, v, s.memory, dec⟩ := by
  have hfollow : s.follow program [.store .d number, load decided] =
      ⟨BitVec.ofNat 16 dec, v, s.memory, s.pc + 2⟩ := by
    rw [follow_store, follow_load, hdec, ← hnumber s.a s.d (s.memory s.a)]
    rfl
  exact forward_jump_taken hcode rfl hfollow rfl (toNat_ofNat_of_lt hhigh) hlow

theorem forward_lookRight {condition : Jump} {number : Comp} {v : Word}
    (hnumber : ∀ a d m, compValue a d m number = v)
    (hcode : Installed program s.pc (Code.lookRight condition number sameSign decided))
    (hlow : s.pc + 7 ≤ same) :
    ∃ t, Forward (assemble program) s t ∧ t.memory = s.memory ∧
      ((jumps (s.memory Register.r13.cell) condition = true ∧ t.pc = same) ∨
        (jumps (s.memory Register.r13.cell) condition = false ∧ t.pc = dec ∧ t.d = v)) := by
  have hright : s.follow program (Code.takeRight ++ [load sameSign]) =
      ⟨BitVec.ofNat 16 same, s.memory Register.r13.cell, s.memory, s.pc + 3⟩ := by
    rw [follow_append, follow_takeRight, follow_load, hsame, follow_nil]
  cases hj : jumps (s.memory Register.r13.cell) condition with
  | true =>
    have hforward := forward_jump_taken hcode rfl hright hj (toNat_ofNat_of_lt (by omega))
      (show s.pc + 3 < same by omega)
    exact ⟨_, hforward, rfl, .inl ⟨rfl, rfl⟩⟩
  | false =>
    have hforward := forward_jump_passed hcode rfl hright hj
    have hdecided := forward_decided hdec hhigh hnumber
      (s := ⟨BitVec.ofNat 16 same, s.memory Register.r13.cell, s.memory, s.pc + 4⟩)
      (installed_append.mp hcode).2.2 (show s.pc + 6 < dec by omega)
    exact ⟨_, hforward.trans hdecided, rfl, .inr ⟨rfl, rfl, rfl⟩⟩

/-- Where the look at the signs of two operands can end. -/
def SignsSeen (same dec : Nat) (x y : Word) (t : State) : Prop :=
  ((0 ≤ x.toInt ↔ 0 ≤ y.toInt) ∧ t.pc = same) ∨
    (0 ≤ x.toInt ∧ y.toInt < 0 ∧ t.pc = dec ∧ t.d = 1) ∨
    (x.toInt < 0 ∧ 0 ≤ y.toInt ∧ t.pc = dec ∧ t.d = -1)

theorem forward_compareSigns {leftNegative : Symbol} {kept : Memory}
    (hcode : Installed program s.pc (Code.compareSigns leftNegative sameSign decided))
    (hlow : s.pc + 25 ≤ same)
    (hkept : kept = s.memory.drop.set Register.r13.cell s.memory.popped) :
    ∃ t, Forward (assemble program) s t ∧ t.memory = kept ∧
      SignsSeen same dec (kept (kept Register.sp.cell - 1)) (kept Register.r13.cell) t := by
  obtain ⟨-, -, hlook⟩ := installed_append.mp hcode
  obtain ⟨hnonnegative, hlabel, hnegative⟩ := installed_append.mp hlook
  generalize hx : kept (kept Register.sp.cell - 1) = x
  have htake : s.follow program (Code.takeOperands ++ [load leftNegative]) =
      ⟨BitVec.ofNat 16 (s.pc + 18), x, kept, s.pc + 10⟩ := by
    rw [follow_append, follow_takeOperands, follow_load, hlabel, follow_nil, ← hx, hkept]
    rfl
  -- the sign of the left operand decides which look at the right one is taken
  by_cases hneg : x.toInt < 0
  · have hforward := forward_jump_taken hcode rfl htake (decide_eq_true hneg)
      (toNat_ofNat_of_lt (by omega)) (Nat.add_lt_add_left (by decide) _)
    obtain ⟨t, ht, hmemory, hcase⟩ := forward_lookRight hsame hdec hmid hhigh
      (s := ⟨BitVec.ofNat 16 (s.pc + 18), x, kept, s.pc + 18⟩) (fun _ _ _ => rfl) hnegative hlow
    refine ⟨t, hforward.trans ht, hmemory, ?_⟩
    rcases hcase with ⟨hj, hpc⟩ | ⟨hj, hpc, hd⟩
    · have hright : (kept Register.r13.cell).toInt < 0 := of_decide_eq_true hj
      exact .inl ⟨by omega, hpc⟩
    · have hright : ¬ (kept Register.r13.cell).toInt < 0 := of_decide_eq_false hj
      exact .inr (.inr ⟨hneg, by omega, hpc, hd⟩)
  · have hforward := forward_jump_passed hcode rfl htake (decide_eq_false hneg)
    obtain ⟨t, ht, hmemory, hcase⟩ := forward_lookRight hsame hdec hmid hhigh
      (s := ⟨BitVec.ofNat 16 (s.pc + 18), x, kept, s.pc + 11⟩) (fun _ _ _ => rfl) hnonnegative
      (show s.pc + 18 ≤ same by omega)
    refine ⟨t, hforward.trans ht, hmemory, ?_⟩
    rcases hcase with ⟨hj, hpc⟩ | ⟨hj, hpc, hd⟩
    · have hright : 0 ≤ (kept Register.r13.cell).toInt := of_decide_eq_true hj
      exact .inl ⟨by omega, hpc⟩
    · have hright : ¬ 0 ≤ (kept Register.r13.cell).toInt := of_decide_eq_false hj
      exact .inr (.inl ⟨by omega, by omega, hpc, hd⟩)

end Labels

theorem follow_subtract :
    s.follow program Code.subtract =
      ⟨s.memory Register.sp.cell - 1,
        s.memory (s.memory Register.sp.cell - 1) - s.memory Register.r13.cell, s.memory,
        s.pc + 5⟩ := by
  rw [Code.subtract, follow_append, follow_append, follow_takeRight, follow_atTop]
  rfl

/-- The value of a comparison is stored over the left operand, which is not the cell
of the stack pointer. -/
theorem forward_conclude {comparison : Comparison} {finish : Symbol}
    (hcode : Installed program s.pc (Code.conclude comparison finish))
    (hhigh : s.pc + 8 < 65536)
    (hleft : s.memory Register.sp.cell - 1 ≠ Register.sp.cell) :
    ∃ t, Forward (assemble program) s t ∧ t.pc = s.pc + 8 ∧
      t.memory = s.memory.set (s.memory Register.sp.cell - 1)
        (if jumps s.d (Code.compareJump comparison) then -1 else 0) := by
  obtain ⟨-, -, hzero⟩ := installed_append.mp hcode
  obtain ⟨hzero, hlabel, -⟩ := installed_append.mp hzero
  have htrue : s.follow program (Code.atTop ++ [.store .m .minusOne, load finish]) =
      ⟨BitVec.ofNat 16 (s.pc + 8), s.d, s.memory.set (s.memory Register.sp.cell - 1) (-1),
        s.pc + 4⟩ := by
    rw [follow_append, follow_atTop, follow_store, follow_load, hlabel]
    rfl
  cases hj : jumps s.d (Code.compareJump comparison) with
  | true =>
    have hforward := forward_jump_taken hcode rfl htrue hj (toNat_ofNat_of_lt hhigh)
      (Nat.add_lt_add_left (by decide) _)
    exact ⟨_, hforward, rfl, rfl⟩
  | false =>
    have hforward := forward_jump_passed hcode rfl htrue hj
    obtain ⟨hlast, hpc⟩ := forward_follow
      (s := ⟨BitVec.ofNat 16 (s.pc + 8), s.d, s.memory.set (s.memory Register.sp.cell - 1) (-1),
        s.pc + 5⟩) hzero rfl
    refine ⟨_, hforward.trans hlast, hpc, ?_⟩
    -- the stack pointer is read again, and has not changed
    rw [follow_append, follow_atTop]
    show (s.memory.set (s.memory Register.sp.cell - 1) (-1)).set
      (s.memory.set (s.memory Register.sp.cell - 1) (-1) Register.sp.cell - 1) 0 = _
    rw [Memory.set_of_ne _ _ hleft.symm, Memory.set_set]
    rfl

/-- Words of the same sign have a difference that does not overflow. -/
theorem toInt_sub_of_same_sign {x y : Word} (h : 0 ≤ x.toInt ↔ 0 ≤ y.toInt) :
    (x - y).toInt = x.toInt - y.toInt := by
  have hx := BitVec.le_toInt x
  have hx' := BitVec.toInt_lt (x := x)
  have hy := BitVec.le_toInt y
  have hy' := BitVec.toInt_lt (x := y)
  rw [BitVec.toInt_sub]
  exact Int.bmod_eq_of_le (by omega) (by omega)

/-- The jump that concludes a comparison is made when the comparison holds. -/
theorem jumps_compareJump {comparison : Comparison} {x y d : Word}
    (h : (0 ≤ x.toInt ↔ 0 ≤ y.toInt) ∧ d = x - y ∨ 0 ≤ x.toInt ∧ y.toInt < 0 ∧ d = 1 ∨
      x.toInt < 0 ∧ 0 ≤ y.toInt ∧ d = -1) :
    jumps d (Code.compareJump comparison) = comparison.holds x y := by
  -- `d` has the sign of the difference, taken without overflow
  have hd : (d.toInt = 0 ↔ x.toInt = y.toInt) ∧ (0 < d.toInt ↔ x.toInt > y.toInt) ∧
      (d.toInt < 0 ↔ x.toInt < y.toInt) := by
    rcases h with ⟨hsame, rfl⟩ | ⟨hx, hy, rfl⟩ | ⟨hx, hy, rfl⟩
    · rw [toInt_sub_of_same_sign hsame]
      omega
    · have hone : (1 : Word).toInt = 1 := by decide
      omega
    · have hone : (-1 : Word).toInt = -1 := by decide
      omega
  cases comparison with
  | eq => exact decide_eq_decide.mpr hd.1
  | gt => exact decide_eq_decide.mpr hd.2.1
  | lt => exact decide_eq_decide.mpr hd.2.2

/-- **Comparisons are exact.**  The code of a comparison runs to its end and puts the
value of the comparison of signed numbers over the left operand; besides the stack
pointer it changes one scratch cell, in which it leaves the right operand. -/
theorem forward_compare {comparison : Comparison} {m : String} {number : Nat} {code : List Line}
    (hcompare : code = Code.compare comparison m number) (hcode : Installed program s.pc code)
    (hfits : s.pc + 38 < 65536)
    (hsp : s.memory Register.sp.cell - 1 - 1 ≠ Register.sp.cell)
    (hscratch : s.memory Register.sp.cell - 1 - 1 ≠ Register.r13.cell) :
    ∃ t, Forward (assemble program) s t ∧ t.pc = s.pc + 38 ∧
      t.memory = (s.memory.combine comparison.value).set Register.r13.cell s.memory.popped := by
  rw [hcompare, Code.compare_eq] at hcode
  obtain ⟨hsigns, hrest⟩ := installed_append.mp hcode
  obtain ⟨⟨hsame, hsubtract⟩, hdec, hconclude⟩ := installed_append.mp hrest
  have hsame : _ = s.pc + 25 := hsame
  have hdec : _ = s.pc + 30 := hdec
  have hsubtract : Installed program (s.pc + 25) Code.subtract := hsubtract
  have hconclude : Installed program (s.pc + 30) (Code.conclude comparison _) := hconclude
  generalize hkept : s.memory.drop.set Register.r13.cell s.memory.popped = kept
  -- after the look at the signs, and the subtraction if there is one, the sign of `D` decides
  obtain ⟨t, ht, hmemory, hpc, hd⟩ : ∃ t, Forward (assemble program) s t ∧ t.memory = kept ∧
      t.pc = s.pc + 30 ∧ jumps t.d (Code.compareJump comparison) =
        comparison.holds (kept (kept Register.sp.cell - 1)) (kept Register.r13.cell) := by
    obtain ⟨t, ht, hmemory, hcase⟩ :=
      forward_compareSigns hsame hdec (by omega) (by omega) hsigns (Nat.le_refl _) hkept.symm
    rcases hcase with ⟨hsign, hpc⟩ | ⟨hx, hy, hpc, hd⟩ | ⟨hx, hy, hpc, hd⟩
    · obtain ⟨hforward, -⟩ := forward_follow (s := t) (hpc ▸ hsubtract) rfl
      rw [follow_subtract, hmemory, hpc] at hforward
      exact ⟨_, ht.trans hforward, rfl, rfl, jumps_compareJump (.inl ⟨hsign, rfl⟩)⟩
    · exact ⟨t, ht, hmemory, hpc, jumps_compareJump (.inr (.inl ⟨hx, hy, hd⟩))⟩
    · exact ⟨t, ht, hmemory, hpc, jumps_compareJump (.inr (.inr ⟨hx, hy, hd⟩))⟩
  have hpointer : kept Register.sp.cell = s.memory Register.sp.cell - 1 := by
    rw [← hkept, Memory.set_of_ne _ _ (by decide), Memory.drop_sp]
  obtain ⟨u, hu, hupc, humemory⟩ := forward_conclude (s := t) (hpc ▸ hconclude) (by omega)
    (by rw [hmemory, hpointer]; exact hsp)
  refine ⟨u, ht.trans hu, by omega, ?_⟩
  rw [humemory, hmemory, hd, hpointer, ← hkept, Memory.set_self, Memory.set_of_ne _ _ hscratch,
    Memory.set_comm _ _ _ hscratch.symm]
  show _ = (s.memory.drop.set (s.memory.drop Register.sp.cell - 1) _).set _ _
  rw [Memory.drop_sp]
  rfl

end Hack.State
end HackVM
