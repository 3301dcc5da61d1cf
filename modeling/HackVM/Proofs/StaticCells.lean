import HackVM.Proofs.Layout
import HackVM.Proofs.Transcript
import Mathlib.Data.List.Basic

/-! # Static variables belong to modules

The symbol of a static variable is the name of its module, a dot and its index in decimal.
A module's name holds no dot, and the index is written without the zeros that may lead it in
the source, so the symbol tells the module and the number and nothing else
(`Symbol.staticText_inj`, `Text.numeralValue_eq_iff`).  Symbols that are no labels get cells
from `firstVariable` on, one for each.  So two instructions share a cell exactly when they
stand in modules of one name and their indices are one number
(`static_cells_per_module_and_index`). -/
namespace HackVM

open Asm Hack Text

/-! ## Numerals -/

namespace Text

/-- The digits of a numeral behind the zeros that lead it. -/
def significant (t : String) : List Char := t.toList.dropWhile (· = '0')

theorem ofDigitChars_cons_zero (c : Char) (cs : List Char) :
    Nat.ofDigitChars 10 (c :: cs) 0 =
      Nat.pow 10 cs.length * (c.toNat - 48) + Nat.ofDigitChars 10 cs 0 := by
  rw [Nat.ofDigitChars_cons, Nat.ofDigitChars_eq_ofDigitChars_zero, Nat.mul_zero, Nat.zero_add]
  rfl

/-- Leading zeros do not change the number. -/
theorem ofDigitChars_dropWhile (cs : List Char) :
    Nat.ofDigitChars 10 (cs.dropWhile (· = '0')) 0 = Nat.ofDigitChars 10 cs 0 := by
  induction cs with
  | nil => rfl
  | cons c cs ih =>
    by_cases hc : c = '0'
    · subst hc
      rw [List.dropWhile_cons_of_pos (by decide), ih, ofDigitChars_cons_zero]
      simp
    · rw [List.dropWhile_cons_of_neg (by simpa using hc)]

/-- Two rows of digits of one length denote different numbers. -/
theorem eq_of_ofDigitChars_eq {cs cs' : List Char} (hcs : ∀ c ∈ cs, IsDigit c)
    (hcs' : ∀ c ∈ cs', IsDigit c) (hlength : cs.length = cs'.length)
    (h : Nat.ofDigitChars 10 cs 0 = Nat.ofDigitChars 10 cs' 0) : cs = cs' := by
  induction cs generalizing cs' with
  | nil => exact (List.eq_nil_of_length_eq_zero hlength.symm).symm
  | cons c cs ih =>
    obtain ⟨c', cs', rfl⟩ := List.exists_cons_of_length_eq_add_one hlength.symm
    have hrest := List.forall_mem_cons.mp hcs
    have hrest' := List.forall_mem_cons.mp hcs'
    have hlength : cs.length = cs'.length := Nat.succ.inj hlength
    have hlt := ofDigitChars_lt hrest.2
    have hlt' := ofDigitChars_lt hrest'.2
    rw [ofDigitChars_cons_zero, ofDigitChars_cons_zero, ← hlength] at h
    rw [← hlength] at hlt'
    -- the first digit is the quotient by the power of ten, the others are the remainder
    have hpos : 0 < Nat.pow 10 cs.length := Nat.pow_pos (by decide)
    have hquotient := congrArg (· / Nat.pow 10 cs.length) h
    simp only [Nat.mul_add_div hpos, Nat.div_eq_of_lt hlt, Nat.div_eq_of_lt hlt', Nat.add_zero]
      at hquotient
    have hremainder := congrArg (· % Nat.pow 10 cs.length) h
    simp only [Nat.mul_add_mod, Nat.mod_eq_of_lt hlt, Nat.mod_eq_of_lt hlt'] at hremainder
    have hlow : 48 ≤ c.toNat := hrest.1.1
    have hlow' : 48 ≤ c'.toNat := hrest'.1.1
    have hfirst : c = c' := Char.toNat_inj.mp (by omega)
    rw [hfirst, ih hrest.2 hrest'.2 hlength hremainder]

/-- A row of digits that starts with no zero denotes a number that has as many digits. -/
theorem pow_le_ofDigitChars {c : Char} (hc : IsDigit c) (hne : c ≠ '0') (cs : List Char) :
    Nat.pow 10 cs.length ≤ Nat.ofDigitChars 10 (c :: cs) 0 := by
  have hlow : 48 ≤ c.toNat := hc.1
  have hpositive : c.toNat ≠ 48 := fun h => hne (Char.toNat_inj.mp h)
  rw [ofDigitChars_cons_zero]
  exact Nat.le_add_right_of_le (Nat.le_mul_of_pos_right _ (by omega))

theorem length_le_of_ofDigitChars_le {cs cs' : List Char} (hcs : ∀ c ∈ cs, IsDigit c)
    (hcs' : ∀ c ∈ cs', IsDigit c) (hhead : cs.head? ≠ some '0')
    (h : Nat.ofDigitChars 10 cs 0 ≤ Nat.ofDigitChars 10 cs' 0) : cs.length ≤ cs'.length := by
  cases cs with
  | nil => exact Nat.zero_le _
  | cons c cs =>
    have hc : c ≠ '0' := by simpa using hhead
    have hlow := pow_le_ofDigitChars (hcs c List.mem_cons_self) hc cs
    have hhigh := ofDigitChars_lt hcs'
    exact (Nat.pow_lt_pow_iff_right (by decide)).mp
      (Nat.lt_of_le_of_lt (Nat.le_trans hlow h) hhigh)

/-- **Two numerals denote the same number exactly when they differ in leading zeros only.** -/
theorem numeralValue_eq_iff {t t' : String} (ht : IsDigits t) (ht' : IsDigits t') :
    numeralValue t = numeralValue t' ↔ significant t = significant t' := by
  have hdigits : ∀ {u : String}, IsDigits u → ∀ c ∈ significant u, IsDigit c :=
    fun hu c hc => hu.2 c ((List.dropWhile_sublist _).mem hc)
  have hhead : ∀ u : String, (significant u).head? ≠ some '0' := by
    intro u hu
    have := List.head?_dropWhile_not (· = '0') u.toList
    rw [significant] at hu
    simp [hu] at this
  have hvalue : ∀ u : String, numeralValue u = Nat.ofDigitChars 10 (significant u) 0 :=
    fun u => (ofDigitChars_dropWhile u.toList).symm
  rw [hvalue, hvalue]
  constructor
  · intro h
    refine eq_of_ofDigitChars_eq (hdigits ht) (hdigits ht') (Nat.le_antisymm ?_ ?_) h
    · exact length_le_of_ofDigitChars_le (hdigits ht) (hdigits ht') (hhead t) (Nat.le_of_eq h)
    · exact length_le_of_ofDigitChars_le (hdigits ht') (hdigits ht) (hhead t')
        (Nat.le_of_eq h.symm)
  · intro h
    rw [h]

end Text

/-! ## Symbols -/

theorem dot_notMem_of_isModuleName {m : String} (h : isModuleName m = true) :
    '.' ∉ m.toList := by
  obtain ⟨c, cs, heq, hc, hcs⟩ := isModuleName_iff.mp h
  rw [heq, List.mem_cons]
  rintro (rfl | hmem)
  · exact absurd hc (by decide)
  · exact absurd (hcs _ hmem) (by decide)

/-- **The symbol of a static variable tells its module and its index.** -/
theorem Symbol.staticText_inj {m m' : String} {n n' : Nat} (hm : isModuleName m = true)
    (hm' : isModuleName m' = true) : staticText m n = staticText m' n' ↔ m = m' ∧ n = n' := by
  constructor
  · intro h
    have hlist := congrArg String.toList h
    rw [toList_staticText, toList_staticText] at hlist
    obtain ⟨hmodule, hindex⟩ := eq_and_eq_of_append_cons (dot_notMem_of_isModuleName hm)
      (dot_notMem_of_isModuleName hm') hlist
    exact ⟨String.toList_inj.mp hmodule, decimal_injective (String.toList_inj.mp hindex)⟩
  · rintro ⟨rfl, rfl⟩
    rfl

/-! ## What is written for a static variable -/

/-- The lines of a push or a pop of the cell that a symbol stands for. -/
def cellLines (name symbol : String) : List String :=
  if name = "push" then ["@" ++ symbol, "D=M", "@SP", "A=M", "M=D", "@SP", "M=M+1"]
  else ["@SP", "M=M-1", "A=M", "D=M", "@" ++ symbol, "M=D"]

/-- The symbol can be read back from the lines. -/
theorem cellLines_inj {name s s' : String} : cellLines name s = cellLines name s' ↔ s = s' := by
  unfold cellLines
  split_ifs <;> simp

namespace Passage

/-- A push or a pop of a static variable. -/
def IsStatic (p : Passage) : Prop :=
  p.instruction.name ∈ ["push", "pop"] ∧ p.instruction.first = "static"

instance (p : Passage) : Decidable p.IsStatic := inferInstanceAs (Decidable (_ ∧ _))

/-- The number that the index of an instruction denotes. -/
def index (p : Passage) : Nat := numeralValue p.instruction.second

/-- What is written for a push or a pop of a static variable. -/
structure WritesStatic (p : Passage) : Prop where
  module : isModuleName p.module = true
  digits : IsDigits p.instruction.second
  refers : load (.static p.module p.index) ∈ p.code
  lines : p.lines = cellLines p.instruction.name (Symbol.staticText p.module p.index)

theorem WrittenFrom.writesStatic {p : Passage} {e : Emitter} (h : p.WrittenFrom e)
    (hstatic : p.IsStatic) : p.WritesStatic := by
  obtain ⟨c, hread, hcode⟩ := h.command
  obtain ⟨hname, hfirst⟩ := hstatic
  obtain ⟨segment, hsegment, hdigits, hcommand⟩ := Command.exists_segment_of_readFrom hread hname
  rw [hfirst] at hsegment
  obtain rfl : .static = segment := Option.some.inj hsegment
  rcases hcommand with ⟨hpush, rfl⟩ | ⟨hpop, rfl⟩
  · have hpushed : Code.push .static p.index p.module = .ok p.code := hcode
    refine ⟨h.module, hdigits, Code.load_mem_push_static hpushed, ?_⟩
    obtain ⟨loading, hloading, hcode⟩ := Code.push_eq_ok hpushed
    rw [lines, hcode, Code.fetch_eq_ok hloading, hpush]
    rfl
  · have hpopped : Code.pop .static p.index p.module = .ok p.code := hcode
    refine ⟨h.module, hdigits, Code.load_mem_pop_static hpopped, ?_⟩
    rw [lines, Code.pop_eq_ok hpopped, hpop]
    rfl

end Passage

/-! ## Cells -/

/-- A name that a program uses and that is neither a label nor a name of the machine's own is
one of its variables, and has a cell by its place among them. -/
theorem variable_of_mem_referred {code : List Line} {s : Symbol} (hs : s ∈ referred code)
    (hpredefined : predefined.lookup s.text = none)
    (hlabels : s.text ∉ (labels code).map Prod.fst) :
    s.text ∈ variableNames code ∧
      symbolValue code s.text = firstVariable + (variableNames code).idxOf s.text := by
  have hlookup := lookup_eq_none_of_notMem hlabels
  constructor
  · rw [variableNames, filterMap_reference?, List.mem_eraseDups, List.mem_filter]
    refine ⟨List.mem_map_of_mem hs, ?_⟩
    rw [isVariable, hpredefined, hlookup]
    rfl
  · rw [symbolValue, hpredefined, hlookup]

/-- Two static symbols share a cell only if they are one symbol. -/
theorem symbolValue_static_inj {code : List Line} {m m' : String} {n n' : Nat}
    (hs : .static m n ∈ referred code) (hs' : .static m' n' ∈ referred code)
    (hlabels : Symbol.staticText m n ∉ (labels code).map Prod.fst)
    (hlabels' : Symbol.staticText m' n' ∉ (labels code).map Prod.fst) :
    symbolValue code (Symbol.staticText m n) = symbolValue code (Symbol.staticText m' n') ↔
      Symbol.staticText m n = Symbol.staticText m' n' := by
  obtain ⟨hmem, hvalue⟩ := variable_of_mem_referred hs (lookup_predefined_static m n) hlabels
  obtain ⟨-, hvalue'⟩ := variable_of_mem_referred hs' (lookup_predefined_static m' n') hlabels'
  rw [Symbol.text] at hmem hvalue hvalue'
  rw [hvalue, hvalue', Nat.add_left_cancel_iff, List.idxOf_inj hmem]

/-! ## Sessions -/

/-- A session wrote a push or a pop of a static variable, and wrote it with a symbol. -/
structure UsesStatic (jobs : List Job) (p : Passage) (s : String) : Prop where
  mem : .instruction p ∈ transcript jobs
  isStatic : p.IsStatic
  lines : p.lines = cellLines p.instruction.name s

namespace UsesStatic

variable {jobs : List Job} {p : Passage} {s : String} (h : UsesStatic jobs p s)
include h

theorem writesStatic : p.WritesStatic := by
  obtain ⟨e, hwritten⟩ := exists_writtenFrom h.mem
  exact hwritten.writesStatic h.isStatic

theorem symbol_eq : s = Symbol.staticText p.module p.index :=
  cellLines_inj.mp (h.lines.symm.trans h.writesStatic.lines)

theorem mem_referred : .static p.module p.index ∈ referred (program jobs) :=
  Asm.mem_referred.mpr (mem_program_of_mem_code h.mem h.writesStatic.refers)

end UsesStatic

/-- **Static cells are per module and per index.**  Let a fresh emitter start programs and
translate modules in any order, and let any of them fail.  The listing is what the transcript
says, and for the accepted pushes and pops of static variables in it:

* each uses the symbol made of the name of its module, a dot and its index in decimal;
* two of them use the same symbol exactly when their modules have one name and their indices
  are one number, which is to say that the digits agree behind the leading zeros;
* if none of these symbols is defined as a label, then the assembler gives two of them the
  same cell exactly when this holds, and every such cell lies at address 16 or above. -/
theorem static_cells_per_module_and_index (t : FileTree) (jobs : List Job) :
    ((Workbench.performAll t 0 (jobs.map Job.task) (.new 1 [])).listing.lines =
          (transcript jobs).flatMap Entry.lines ∧
        (program jobs).map Line.text = (transcript jobs).flatMap Entry.lines) ∧
      (∀ p, .instruction p ∈ transcript jobs → p.IsStatic →
        UsesStatic jobs p (p.module ++ "." ++ decimal p.index)) ∧
      (∀ p p' s s', UsesStatic jobs p s → UsesStatic jobs p' s' →
        (s = s' ↔ p.module = p'.module ∧ p.index = p'.index) ∧
          (p.index = p'.index ↔
            significant p.instruction.second = significant p'.instruction.second)) ∧
      ((∀ p s, UsesStatic jobs p s → s ∉ (labels (program jobs)).map Prod.fst) →
        ∀ p p' s s', UsesStatic jobs p s → UsesStatic jobs p' s' →
          (symbolValue (program jobs) s = symbolValue (program jobs) s' ↔
            p.module = p'.module ∧ p.index = p'.index) ∧
          16 ≤ symbolValue (program jobs) s) := by
  have hsame : ∀ {p p' s s'}, UsesStatic jobs p s → UsesStatic jobs p' s' →
      (s = s' ↔ p.module = p'.module ∧ p.index = p'.index) := by
    intro p p' s s' hp hp'
    rw [hp.symbol_eq, hp'.symbol_eq]
    exact Symbol.staticText_inj hp.writesStatic.module hp'.writesStatic.module
  refine ⟨⟨lines_performAll_new t [] jobs, ?_⟩, ?_, ?_, ?_⟩
  · rw [program, sessionCode_eq_flatMap_entries, List.map_flatMap]
    rfl
  · intro p hp hstatic
    obtain ⟨e, hwritten⟩ := exists_writtenFrom hp
    exact ⟨hp, hstatic, (hwritten.writesStatic hstatic).lines⟩
  · intro p p' s s' hp hp'
    exact ⟨hsame hp hp', numeralValue_eq_iff hp.writesStatic.digits hp'.writesStatic.digits⟩
  · intro hlabels p p' s s' hp hp'
    have hlabel := hlabels p s hp
    have hlabel' := hlabels p' s' hp'
    rw [← hsame hp hp']
    obtain rfl := hp.symbol_eq
    obtain rfl := hp'.symbol_eq
    refine ⟨symbolValue_static_inj hp.mem_referred hp'.mem_referred hlabel hlabel', ?_⟩
    have hvalue := (variable_of_mem_referred hp.mem_referred
      (lookup_predefined_static p.module p.index) hlabel).2
    rw [Symbol.text] at hvalue
    rw [hvalue]
    exact Nat.le_add_right firstVariable _

/-- A module named `Foo` fails and is translated once more: the static variables that it calls
`003` and `3` are one cell, which is not the cell of the variable `3` of `Bar`. -/
theorem static_cells_of_repeated_module :
    ∃ (jobs : List Job) (p p' q : Passage),
      jobs = [.module "Foo" ["push static 003", "push heap 0"], .module "Bar" ["pop static 3"],
        .module "Foo" ["pop static 3"]] ∧
      (p.instruction = ⟨1, "push", ["static", "003"]⟩ ∧ UsesStatic jobs p "Foo.3") ∧
      (p'.instruction = ⟨1, "pop", ["static", "3"]⟩ ∧ UsesStatic jobs p' "Bar.3") ∧
      (q.instruction = ⟨1, "pop", ["static", "3"]⟩ ∧ UsesStatic jobs q "Foo.3") ∧
      symbolValue (program jobs) "Foo.3" ≠ symbolValue (program jobs) "Bar.3" ∧
      16 ≤ symbolValue (program jobs) "Foo.3" ∧ 16 ≤ symbolValue (program jobs) "Bar.3" := by
  let p : Passage := ⟨"Foo", [], ⟨1, "push", ["static", "003"]⟩,
    [load (.static "Foo" 3), .store .d .m] ++ pushD⟩
  let p' : Passage := ⟨"Bar", [], ⟨1, "pop", ["static", "3"]⟩,
    Code.popInto (.symbol (.static "Bar" 3))⟩
  let q : Passage := ⟨"Foo", [], ⟨1, "pop", ["static", "3"]⟩,
    Code.popInto (.symbol (.static "Foo" 3))⟩
  refine ⟨_, p, p', q, rfl, ?_⟩
  generalize hj : ([_, _, _] : List Job) = jobs
  obtain ⟨-, hsymbol, -, hcells⟩ := static_cells_per_module_and_index (.bare []) jobs
  have hp : UsesStatic jobs p "Foo.3" := by
    rw [← show p.module ++ "." ++ decimal p.index = "Foo.3" by decide +kernel]
    refine hsymbol p ?_ (by decide)
    rw [← hj]
    decide +kernel
  have hp' : UsesStatic jobs p' "Bar.3" := by
    rw [← show p'.module ++ "." ++ decimal p'.index = "Bar.3" by decide +kernel]
    refine hsymbol p' ?_ (by decide)
    rw [← hj]
    decide +kernel
  have hq : UsesStatic jobs q "Foo.3" := by
    rw [← show q.module ++ "." ++ decimal q.index = "Foo.3" by decide +kernel]
    refine hsymbol q ?_ (by decide)
    rw [← hj]
    decide +kernel
  have hlabels : (labels (program jobs)).map Prod.fst = [] := by
    rw [← hj]
    decide +kernel
  obtain ⟨hsame, hlow⟩ := hcells (by simp [hlabels]) p p' _ _ hp hp'
  obtain ⟨-, hlow'⟩ := hcells (by simp [hlabels]) p' p _ _ hp' hp
  refine ⟨⟨rfl, hp⟩, ⟨rfl, hp'⟩, ⟨rfl, hq⟩, ?_, hlow, hlow'⟩
  intro heq
  exact absurd (hsame.mp heq).1 (by decide)

end HackVM
