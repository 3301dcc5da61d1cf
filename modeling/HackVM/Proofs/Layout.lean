import HackVM.Hack.Assembly
import HackVM.Proofs.BlockSymbols

/-! # Where code is placed

Assembling drops the labels and resolves every name over the whole program.  What
the code of one block needs of that is said by `Installed`: its instructions stand
in the program one after the other, and each label in it stands for the place of
the instruction after it.  A block of a program whose labels are distinct and are
no names of the machine's own is installed where the code before it ends
(`installed_of_append`), and so are all blocks of a session (`installed_block`). -/
namespace HackVM

open Asm Hack

/-! ## Sizes -/

/-- The number of instructions of code. -/
def Asm.size : List Line → Nat
  | [] => 0
  | .label _ :: code => size code
  | _ :: code => size code + 1

section Sizes

variable (s : Symbol) (o : Operand) (dest : Dest) (c : Comp) (j : Jump) (code : List Line)

@[simp] theorem Asm.size_nil : size [] = 0 := rfl

@[simp] theorem Asm.size_label : size (.label s :: code) = size code := rfl

@[simp] theorem Asm.size_address : size (.address o :: code) = size code + 1 := rfl

@[simp] theorem Asm.size_store : size (.store dest c :: code) = size code + 1 := rfl

@[simp] theorem Asm.size_jump : size (.jump c j :: code) = size code + 1 := rfl

end Sizes

@[simp] theorem Asm.size_append (a b : List Line) : size (a ++ b) = size a + size b := by
  induction a with
  | nil => simp
  | cons l a ih => cases l <;> simp [ih] <;> omega

theorem length_filterMap_instr? (program code : List Line) :
    (code.filterMap (instr? program)).length = size code := by
  induction code with
  | nil => rfl
  | cons l code ih => cases l <;> simp [List.filterMap_cons, instr?, ih]

/-- An instruction stands at the position that counts the instructions before it. -/
theorem getElem?_assemble {program before after : List Line} {l : Line} {i : Instr}
    (hprogram : program = before ++ l :: after) (hi : instr? program l = some i) :
    (assemble program)[size before]? = some i := by
  have hsplit : assemble program =
      before.filterMap (instr? program) ++ i :: after.filterMap (instr? program) := by
    have hlines := congrArg (List.filterMap (instr? program)) hprogram
    rw [List.filterMap_append, List.filterMap_cons_some hi] at hlines
    exact hlines
  rw [hsplit, ← length_filterMap_instr? program before, List.getElem?_append_right (Nat.le_refl _),
    Nat.sub_self]
  rfl

theorem labelsFrom_append (n : Nat) (a b : List Line) :
    labelsFrom n (a ++ b) = labelsFrom n a ++ labelsFrom (n + size a) b := by
  induction a generalizing n with
  | nil => rfl
  | cons l a ih =>
    cases l with
    | label s => simp [labelsFrom, ih]
    | _ => simp only [List.cons_append, labelsFrom, ih, size]; rw [Nat.add_right_comm n 1]; rfl

theorem map_fst_labelsFrom (n : Nat) (code : List Line) :
    (labelsFrom n code).map Prod.fst = (defined code).map Symbol.text := by
  induction code generalizing n with
  | nil => rfl
  | cons l code ih => cases l <;> simp [labelsFrom, ih]

/-! ## Installed code -/

/-- Code stands in a program from a position on: each instruction at its place, and
each label resolved to the place of the instruction after it. -/
def Installed (program : List Line) : Nat → List Line → Prop
  | _, [] => True
  | n, .label s :: code => symbolValue program s.text = n ∧ Installed program n code
  | n, l :: code => (assemble program)[n]? = instr? program l ∧ Installed program (n + 1) code

theorem installed_append {program : List Line} {n : Nat} {a b : List Line} :
    Installed program n (a ++ b) ↔ Installed program n a ∧ Installed program (n + size a) b := by
  induction a generalizing n with
  | nil => simp [Installed]
  | cons l a ih =>
    cases l with
    | label s => simp [Installed, ih, and_assoc]
    | _ =>
      simp only [List.cons_append, Installed, ih, size, and_assoc]
      rw [Nat.add_right_comm n 1]
      rfl

theorem lookup_eq_none_of_notMem {l : List (String × Nat)} {t : String}
    (h : t ∉ l.map Prod.fst) : l.lookup t = none := by
  rw [List.lookup_eq_none_iff]
  intro e he
  have hne : t ≠ e.1 := fun heq => h (heq ▸ List.mem_map_of_mem he)
  simpa using hne

theorem symbolValue_of_label {program : List Line} {s : Symbol} {before after : List Line}
    (hprogram : program = before ++ .label s :: after)
    (hpredefined : predefined.lookup s.text = none)
    (hfresh : s.text ∉ (defined before).map Symbol.text) :
    symbolValue program s.text = size before := by
  have hbefore : (labelsFrom 0 before).lookup s.text = none :=
    lookup_eq_none_of_notMem (by rwa [map_fst_labelsFrom])
  have hlookup : (labels program).lookup s.text = some (size before) := by
    rw [labels, hprogram, labelsFrom_append, List.lookup_append, hbefore, Nat.zero_add]
    simp [labelsFrom]
  rw [symbolValue, hpredefined, hlookup]

/-- **Code is installed where the code before it ends**, if its labels are defined
nowhere else and are no names of the machine's own. -/
theorem installed_of_append {program before code after : List Line}
    (hprogram : program = before ++ code ++ after)
    (hpredefined : ∀ s ∈ defined code, predefined.lookup s.text = none)
    (hbefore : ∀ s ∈ defined code, s.text ∉ (defined before).map Symbol.text)
    (hnodup : ((defined code).map Symbol.text).Nodup) :
    Installed program (size before) code := by
  induction code generalizing before with
  | nil => trivial
  | cons l code ih =>
    have hsplit : program = before ++ l :: (code ++ after) := by simp [hprogram]
    have hnext : program = before ++ [l] ++ code ++ after := by simp [hprogram]
    cases l with
    | label s =>
      simp only [defined_label, List.mem_cons, List.map_cons, List.nodup_cons] at *
      refine ⟨symbolValue_of_label hsplit (hpredefined s (.inl rfl)) (hbefore s (.inl rfl)), ?_⟩
      have hrest := ih hnext (fun s' hs' => hpredefined s' (.inr hs')) ?_ hnodup.2
      · simpa using hrest
      · -- the labels still to come are not the one in front
        intro s' hs' hmem
        simp only [defined_append, defined_label, defined_nil, List.map_append, List.map_cons,
          List.map_nil, List.mem_append, List.mem_singleton] at hmem
        rcases hmem with hmem | heq
        · exact hbefore s' (.inr hs') hmem
        · exact hnodup.1 (heq ▸ List.mem_map_of_mem hs')
    | address o | store dest comp | jump comp condition =>
      refine ⟨getElem?_assemble hsplit rfl, ?_⟩
      have hrest := ih hnext hpredefined (by simpa using hbefore) hnodup
      simpa using hrest

/-! ## Operands -/

/-- The cell of a register. -/
def Register.cell : Register → Word
  | .sp => 0
  | .lcl => 1
  | .arg => 2
  | .this => 3
  | .that => 4
  | .r13 => 13
  | .r14 => 14

/-- The cell of a register is the same in every program. -/
theorem instr?_loadRegister (program : List Line) (r : Register) :
    instr? program (loadRegister r) = some (.load r.cell) := by
  have hvalue : symbolValue program (Symbol.register r).text = r.cell.toNat := by
    unfold symbolValue
    cases r <;> rfl
  show some (Instr.load (BitVec.ofNat 16 (symbolValue program (Symbol.register r).text))) = _
  rw [hvalue, BitVec.ofNat_toNat, BitVec.setWidth_eq]

/-! ## The layout of a session -/

/-- The number that a line loads. -/
def Asm.Line.number? : Line → Option Int
  | .address (.number n) => some n
  | _ => none

/-- The numbers that code loads, in order. -/
def Asm.numbers (code : List Line) : List Int := code.filterMap Line.number?

/-- What is assumed of the program of a session: its labels are distinct, and are
neither names of the machine's own nor static variables; the places that it jumps to
are defined; and its numbers and its size fit the machine. -/
structure Loadable (jobs : List Job) : Prop where
  assemblable : Assemblable (program jobs)
  apart : ∀ s ∈ defined (program jobs), s.text ∉ staticVariables jobs
  closed : ∀ b ∈ blocks jobs, ∀ s ∈ b.targets, s ∈ defined (program jobs)
  bounded : ∀ n ∈ numbers (program jobs), n ≤ 32767
  fits : (assemble (program jobs)).length ≤ 32768

instance (jobs : List Job) : Decidable (Loadable jobs) :=
  decidable_of_iff (Assemblable (program jobs) ∧
      (∀ s ∈ defined (program jobs), s.text ∉ staticVariables jobs) ∧
      (∀ b ∈ blocks jobs, ∀ s ∈ b.targets, s ∈ defined (program jobs)) ∧
      (∀ n ∈ numbers (program jobs), n ≤ 32767) ∧
      (assemble (program jobs)).length ≤ 32768)
    ⟨fun ⟨h₁, h₂, h₃, h₄, h₅⟩ => ⟨h₁, h₂, h₃, h₄, h₅⟩,
      fun ⟨h₁, h₂, h₃, h₄, h₅⟩ => ⟨h₁, h₂, h₃, h₄, h₅⟩⟩

/-- The position of the first instruction of a block, of which `p` come before it. -/
def address (jobs : List Job) (p : Nat) : Nat := size (((blocks jobs).take p).flatMap Block.code)

section Session

variable {jobs : List Job}

theorem address_succ {p : Nat} {b : Block} (hb : (blocks jobs)[p]? = some b) :
    address jobs (p + 1) = address jobs p + size b.code := by
  simp [address, List.take_add_one, hb]

theorem address_le_succ (jobs : List Job) (p : Nat) : address jobs p ≤ address jobs (p + 1) := by
  cases hb : (blocks jobs)[p]? with
  | none => simp [address, List.take_add_one, hb]
  | some b => rw [address_succ hb]; exact Nat.le_add_right _ _

theorem address_mono {p q : Nat} (h : p ≤ q) : address jobs p ≤ address jobs q := by
  induction h with
  | refl => exact Nat.le_refl _
  | step _ ih => exact Nat.le_trans ih (address_le_succ jobs _)

theorem length_assemble_program (jobs : List Job) :
    (assemble (program jobs)).length = size (program jobs) :=
  length_filterMap_instr? _ _

theorem address_length (jobs : List Job) :
    address jobs (blocks jobs).length = (assemble (program jobs)).length := by
  rw [length_assemble_program, address, List.take_length, program_eq_flatMap]

theorem address_le_length (jobs : List Job) (p : Nat) :
    address jobs p ≤ (assemble (program jobs)).length := by
  rw [← address_length]
  -- past the last block, addresses stay at the end of the program
  by_cases h : p ≤ (blocks jobs).length
  · exact address_mono h
  · have hpast : address jobs p = address jobs (blocks jobs).length := by
      rw [address, List.take_of_length_le (by omega), address, List.take_length]
    exact Nat.le_of_eq hpast

/-- **All blocks of a session are installed**, one after the other. -/
theorem installed_block (h : Loadable jobs) {p : Nat} {b : Block}
    (hb : (blocks jobs)[p]? = some b) : Installed (program jobs) (address jobs p) b.code := by
  obtain ⟨hlt, hget⟩ := List.getElem?_eq_some_iff.mp hb
  have hsplit : blocks jobs = (blocks jobs).take p ++ b :: (blocks jobs).drop (p + 1) := by
    rw [← hget, List.getElem_cons_drop, List.take_append_drop]
  have hprogram : program jobs = ((blocks jobs).take p).flatMap Block.code ++ b.code ++
      ((blocks jobs).drop (p + 1)).flatMap Block.code := by
    have hcode := congrArg (List.flatMap Block.code) hsplit
    rw [List.flatMap_append, List.flatMap_cons, ← List.append_assoc] at hcode
    exact (program_eq_flatMap jobs).trans hcode
  obtain ⟨hnodup, hfree⟩ := h.assemblable
  rw [labels, map_fst_labelsFrom] at hnodup hfree
  have hmem : ∀ s ∈ defined b.code, s ∈ defined (program jobs) := by
    intro s hs
    rw [hprogram, defined_append, defined_append]
    exact List.mem_append_left _ (List.mem_append_right _ hs)
  rw [hprogram, defined_append, defined_append, List.map_append, List.map_append,
    List.nodup_append, List.nodup_append] at hnodup
  -- of the labels being distinct, the part about the blocks after this one is not needed
  obtain ⟨⟨-, hb, hdisjoint⟩, -, -⟩ := hnodup
  refine installed_of_append hprogram ?_ ?_ hb
  · intro s hs
    exact lookup_eq_none_of_notMem (hfree s.text (List.mem_map_of_mem (hmem s hs)))
  · intro s hs hbefore
    exact hdisjoint _ hbefore _ (List.mem_map_of_mem hs) rfl

/-! ## Static variables -/

theorem filterMap_reference? (code : List Line) :
    code.filterMap reference? = (referred code).map Symbol.text := by
  induction code with
  | nil => rfl
  | cons l code ih =>
    cases l with
    | address o => cases o <;> simp [List.filterMap_cons, reference?, ih]
    | _ => simp [List.filterMap_cons, reference?, ih]

/-- A name that is defined does not stand for a variable. -/
theorem isVariable_eq_false_of_mem_defined {code : List Line} {s : Symbol}
    (hs : s ∈ defined code) : isVariable code s.text = false := by
  have hmem : s.text ∈ (labels code).map Prod.fst := by
    rw [labels, map_fst_labelsFrom]
    exact List.mem_map_of_mem hs
  cases hl : (labels code).lookup s.text with
  | some n => simp [isVariable, hl]
  | none =>
    obtain ⟨e, he, heq⟩ := List.mem_map.mp hmem
    have hne := List.lookup_eq_none_iff.mp hl e he
    simp [heq] at hne

theorem lookup_predefined_static (m : String) (index : Int) :
    predefined.lookup (Symbol.static m index).text = none := by
  -- the machine's own names hold no dot
  have hdot : ∀ t ∈ predefined.map Prod.fst, '.' ∉ t.toList := by decide
  refine lookup_eq_none_of_notMem fun hmem => hdot _ hmem ?_
  show '.' ∈ (Symbol.staticText m index).toList
  simp [Symbol.staticText]

/-- Of the names that a session uses, the variables are the static ones. -/
theorem isVariable_program (h : Loadable jobs) {s : Symbol} (hs : s ∈ referred (program jobs)) :
    isVariable (program jobs) s.text = decide s.IsStatic := by
  have hs' := hs
  rw [program_eq_flatMap, referred_flatMap, List.mem_flatMap] at hs'
  obtain ⟨b, hb, hsb⟩ := hs'
  have hsound := sound_of_mem_blocks jobs b hb
  rcases Block.mem_referred_code hsound s hsb with ⟨r, rfl⟩ | hstatic | htarget | hgenerated
  · cases r <;> rfl
  · obtain ⟨m, index, rfl⟩ := Block.exists_of_mem_statics hstatic
    have hlabels : (labels (program jobs)).lookup (Symbol.static m index).text = none := by
      refine lookup_eq_none_of_notMem fun hmem => ?_
      rw [labels, map_fst_labelsFrom] at hmem
      obtain ⟨s', hs', htext⟩ := List.mem_map.mp hmem
      refine h.apart s' hs' ?_
      rw [htext]
      exact List.mem_map_of_mem (List.mem_filter.mpr ⟨hs, rfl⟩)
    rw [isVariable, lookup_predefined_static, hlabels]
    rfl
  · rw [isVariable_eq_false_of_mem_defined (h.closed b hb s htarget)]
    have hdeclared := Block.isDeclared_of_mem_targets htarget
    refine (decide_eq_false ?_).symm
    cases s with
    | static m index => exact hdeclared.elim
    | _ => exact id
  · have hdefined : s ∈ defined (program jobs) := by
      rw [defined_program, List.mem_flatMap]
      exact ⟨b, hb, List.mem_append_right _ hgenerated⟩
    rw [isVariable_eq_false_of_mem_defined hdefined]
    refine (decide_eq_false ?_).symm
    rcases Block.cases_of_mem_generated hgenerated with ⟨_, _, _, _, -, rfl, -⟩ | ⟨_, rfl, -, -⟩ <;>
      exact id

/-- **The variables of a session are its static variables.** -/
theorem variableNames_program (h : Loadable jobs) :
    variableNames (program jobs) = (staticVariables jobs).eraseDups := by
  rw [variableNames, filterMap_reference?, List.filter_map, staticVariables]
  have hfilter : (referred (program jobs)).filter (isVariable (program jobs) ∘ Symbol.text) =
      (referred (program jobs)).filter (·.IsStatic) :=
    List.filter_congr fun s hs => isVariable_program h hs
  rw [hfilter]

/-- The cell of a static variable: the cells from `firstVariable` on are given to
the static variables of a session in the order in which they are first used. -/
def staticCell (jobs : List Job) (m : String) (index : Int) : Nat :=
  firstVariable + (staticVariables jobs).eraseDups.idxOf (Symbol.staticText m index)

theorem symbolValue_static (h : Loadable jobs) {m : String} {index : Int}
    (hs : Symbol.static m index ∈ referred (program jobs)) :
    symbolValue (program jobs) (Symbol.static m index).text = staticCell jobs m index := by
  have hvariable := isVariable_program h hs
  rw [isVariable, decide_eq_true (show (Symbol.static m index).IsStatic from trivial),
    Bool.and_eq_true, Option.isNone_iff_eq_none, Option.isNone_iff_eq_none] at hvariable
  rw [symbolValue, hvariable.1, hvariable.2, variableNames_program h]
  rfl

theorem length_eraseDups_le {α : Type} [BEq α] (l : List α) : l.eraseDups.length ≤ l.length := by
  match l with
  | [] => simp
  | a :: l =>
    rw [List.eraseDups_cons, List.length_cons, List.length_cons]
    have hrec := length_eraseDups_le (l.filter fun b => !b == a)
    have hfilter := List.length_filter_le (fun b => !b == a) l
    omega
termination_by l.length
decreasing_by
  have hfilter := List.length_filter_le (fun b => !b == a) l
  simp only [List.length_cons]
  omega

theorem length_referred_le_size (code : List Line) : (referred code).length ≤ size code := by
  induction code with
  | nil => simp
  | cons l code ih =>
    cases l with
    | label s => exact ih
    | address o =>
      cases o with
      | symbol s => exact Nat.succ_le_succ ih
      | number n => exact Nat.le_succ_of_le ih
    | store dest comp | jump comp condition => exact Nat.le_succ_of_le ih

/-- Static variables lie above the registers. -/
theorem staticCell_bounds (h : Loadable jobs) {m : String} {index : Int}
    (hs : Symbol.static m index ∈ referred (program jobs)) :
    firstVariable ≤ staticCell jobs m index ∧ staticCell jobs m index < 65536 := by
  have hmem : Symbol.staticText m index ∈ (staticVariables jobs).eraseDups :=
    List.mem_eraseDups.mpr (List.mem_map.mpr ⟨_, List.mem_filter.mpr ⟨hs, rfl⟩, rfl⟩)
  -- there are at most as many variables as lines that refer to one
  have hindex := List.idxOf_lt_length_iff.mpr hmem
  have hdups := length_eraseDups_le (staticVariables jobs)
  have hlength : (staticVariables jobs).length ≤ (referred (program jobs)).length := by
    rw [staticVariables, List.length_map]
    exact List.length_filter_le ..
  have hsize := length_referred_le_size (program jobs)
  have hfits := h.fits
  rw [length_assemble_program] at hfits
  rw [staticCell, firstVariable]
  omega

end Session

end HackVM
