import HackVM.Proofs.BlockExecution
import HackVM.Proofs.FirstRefusal
import Mathlib.Data.List.Forall2

/-! # What source instructions mean

The stack machine once more, now on the instructions of the source: names and arguments
as they stand in the text, the registers `SP`, `LCL`, `ARG`, `THIS` and `THAT`, and labels
that belong to the last function begun before them in their module, or else to the module.
Neither the reading of commands nor their code has a part in this.

That both machines go the same way is a theorem (`Source.step?_eq`): in a session that
succeeds, the instructions of the source and the blocks of the session stand one beside
the other (`forall₂_items`), and an instruction does what its block does. -/
namespace HackVM

open Asm Hack

namespace Source

/-- Something that a program does, as its source has it. -/
inductive Item where
  /-- The start of the program, which has no text of its own. -/
  | start
  /-- An instruction of a module, behind others. -/
  | instruction (module : String) (before : List Instruction) (instruction : Instruction)
deriving DecidableEq

/-- Instructions that stand behind others in a module. -/
def itemsFrom (module : String) : List Instruction → List Instruction → List Item
  | _, [] => []
  | before, i :: rest => .instruction module before i :: itemsFrom module (before ++ [i]) rest

end Source

/-- What a job asks a program to do. -/
def Job.items : Job → List Source.Item
  | .bootstrap => [.start]
  | .module name lines => Source.itemsFrom name [] (Instruction.ofLines lines)

namespace Source

/-- What a session asks a program to do. -/
def items (jobs : List Job) : List Item := jobs.flatMap Job.items

/-! ## Names -/

/-- The number that digits denote. -/
def value (digits : String) : Nat := Nat.ofDigitChars 10 digits.toList 0

/-- The name of a label behind instructions of a module. -/
def labelName (module : String) (before : List Instruction) (label : String) : String :=
  (lastFunction? before).getD module ++ "$" ++ label

/-- The name that an item declares for its place. -/
def Item.declared? : Item → Option String
  | .start => none
  | .instruction module before i =>
    match i.name, i.arguments with
    | "label", [label] => some (labelName module before label)
    | "function", [name, _] => some name
    | _, _ => none

/-- Where a name is declared. -/
def place? (program : List Item) (name : String) : Option Nat :=
  program.findIdx? fun item => item.declared? = some name

/-! ## Steps -/

/-- The cell of a segment at an index, unless the segment has no cells. -/
def cell? (link : Stack.Linkage) (module : String) (m : Memory) (segment : String) (index : Nat) :
    Option Word :=
  match segment with
  | "local" => some (m Register.lcl.cell + BitVec.ofNat 16 index)
  | "argument" => some (m Register.arg.cell + BitVec.ofNat 16 index)
  | "this" => some (m Register.this.cell + BitVec.ofNat 16 index)
  | "that" => some (m Register.that.cell + BitVec.ofNat 16 index)
  | "pointer" => some (BitVec.ofNat 16 (3 + index))
  | "temp" => some (BitVec.ofNat 16 (5 + index))
  | "static" => some (link.static module index)
  | _ => none

/-- What an item does at a place, if it has somewhere to go. -/
def act? (program : List Item) (link : Stack.Linkage) (p : Nat) (m : Memory) :
    Item → Option Stack.State
  | .start =>
    (place? program "Sys.init").map fun q =>
      ⟨q, (m.set Register.sp.cell 256).enter (link.address (p + 1)) 0⟩
  | .instruction module before i =>
    match i.name, i.arguments with
    | "push", ["constant", index] => some ⟨p + 1, m.push (BitVec.ofNat 16 (value index))⟩
    | "push", [segment, index] =>
      (cell? link module m segment (value index)).map fun a => ⟨p + 1, m.push (m a)⟩
    | "pop", [segment, index] =>
      (cell? link module m segment (value index)).map fun a => ⟨p + 1, m.drop.set a m.popped⟩
    | "add", [] => some ⟨p + 1, m.combine fun x y => x + y⟩
    | "sub", [] => some ⟨p + 1, m.combine fun x y => x - y⟩
    | "neg", [] => some ⟨p + 1, m.replace fun x => -x⟩
    | "eq", [] => some ⟨p + 1, m.combine fun x y => if x.toInt = y.toInt then -1 else 0⟩
    | "gt", [] => some ⟨p + 1, m.combine fun x y => if x.toInt > y.toInt then -1 else 0⟩
    | "lt", [] => some ⟨p + 1, m.combine fun x y => if x.toInt < y.toInt then -1 else 0⟩
    | "and", [] => some ⟨p + 1, m.combine fun x y => x &&& y⟩
    | "or", [] => some ⟨p + 1, m.combine fun x y => x ||| y⟩
    | "not", [] => some ⟨p + 1, m.replace fun x => ~~~x⟩
    | "label", [_] => some ⟨p + 1, m⟩
    | "goto", [label] =>
      (place? program (labelName module before label)).map fun q => ⟨q, m⟩
    | "if-goto", [label] =>
      if m.popped = 0 then some ⟨p + 1, m.drop⟩
      else (place? program (labelName module before label)).map fun q => ⟨q, m.drop⟩
    | "function", [_, locals] => some ⟨p + 1, m.pushZeros (value locals)⟩
    | "call", [name, arguments] =>
      (place? program name).map fun q => ⟨q, m.enter (link.address (p + 1)) (value arguments)⟩
    | "return", [] =>
      ((List.range (program.length + 1)).find? fun q => link.address q = m.returnAddress).map
        fun q => ⟨q, m.leave⟩
    | _, _ => none

/-- One step, if there is an item at the current place and it has somewhere to go. -/
def step? (program : List Item) (link : Stack.Linkage) (v : Stack.State) : Option Stack.State :=
  (program[v.position]?).bind (act? program link v.position v.memory)

/-- The cells, found through a register, whose contents the code of an instruction relies
on. -/
def relied (m : Memory) (i : Instruction) : List Word :=
  match i.name, i.arguments with
  | "push", ["local", index] => [m Register.lcl.cell + BitVec.ofNat 16 (value index)]
  | "push", ["argument", index] => [m Register.arg.cell + BitVec.ofNat 16 (value index)]
  | "push", ["this", index] => [m Register.this.cell + BitVec.ofNat 16 (value index)]
  | "push", ["that", index] => [m Register.that.cell + BitVec.ofNat 16 (value index)]
  | "pop", _ | "neg", _ | "not", _ | "if-goto", _ => [m Register.sp.cell - 1]
  | "add", _ | "sub", _ | "and", _ | "or", _ | "eq", _ | "gt", _ | "lt", _ =>
    [m Register.sp.cell - 1, m Register.sp.cell - 1 - 1]
  | "return", _ =>
    (m Register.sp.cell - 1) :: m Register.arg.cell :: Stack.cellsBelow (m Register.lcl.cell) 5
  | _, _ => []

/-- An instruction does not rely on a scratch cell, and a comparison does not put its value
over the stack pointer. -/
def Clear (m : Memory) : Item → Prop
  | .start => True
  | .instruction _ _ i =>
    (∀ a ∈ relied m i, a ≠ Register.r13.cell ∧ a ≠ Register.r14.cell) ∧
      (i.name ∈ ["eq", "gt", "lt"] → m Register.sp.cell - 1 - 1 ≠ Register.sp.cell)

instance (m : Memory) (item : Item) : Decidable (Clear m item) :=
  match item with
  | .start => .isTrue trivial
  | .instruction _ _ i =>
    -- the cells are looked through one by one, rather than all words
    @instDecidableAnd _ _ (List.decidableBAll _ (relied m i)) inferInstance

/-- The state after a number of steps, if all of them can be made and are clear. -/
def run? (program : List Item) (link : Stack.Linkage) : Nat → Stack.State → Option Stack.State
  | 0, v => some v
  | n + 1, v =>
    match program[v.position]? with
    | none => none
    | some item =>
      if Clear v.memory item then
        (act? program link v.position v.memory item).bind (run? program link n)
      else none

/-! ## Items and blocks -/

/-- A block is that of an item: its command was read from the instruction, and it stands in
the scope that the instructions before it leave. -/
inductive Item.Yields : Item → Block → Prop where
  | start (e : Emitter) : Yields .start (.start e)
  | instruction {module : String} {before : List Instruction} {i : Instruction} {e : Emitter}
      {c : Command} (hread : c.ReadFrom i) (hscope : e.scope.function = lastFunction? before) :
      Yields (.instruction module before i) (.command module e c)

theorem forall₂_itemsFrom {module : String} {before is : List Instruction} {e : Emitter}
    (hscope : e.scope.function = lastFunction? before)
    (hok : (Emission.instructions module is e).result.isOk = true) :
    List.Forall₂ Item.Yields (itemsFrom module before is) (instructionBlocks module is e) := by
  induction is generalizing before e with
  | nil => exact .nil
  | cons i rest ih =>
    rw [Emission.instructions_cons] at hok
    rw [instructionBlocks]
    cases hc : Command.ofInstruction i with
    | error fault => simp [hc, Except.isOk, Except.toBool] at hok
    | ok c =>
      have hread := Command.readFrom_of_ofInstruction hc
      cases hl : c.code module e with
      | error fault => simp [hc, hl, Except.isOk, Except.toBool] at hok
      | ok lines =>
        simp only [hc, hl] at hok ⊢
        refine .cons (.instruction hread hscope) (ih ?_ hok)
        rw [lastFunction?_concat, ← hscope]
        exact Command.function_nextScope hread e.scope

theorem forall₂_job {j : Job} {e : Emitter} (hok : (j.emission e).result.isOk = true) :
    List.Forall₂ Item.Yields j.items (j.blocks e) := by
  cases j with
  | bootstrap => exact .cons (.start e) .nil
  | module name lines =>
    simp only [Job.emission, Job.items, Job.blocks] at hok ⊢
    cases hn : isModuleName name with
    | false =>
      rw [Emission.module_of_not_name hn] at hok
      cases hok
    | true =>
      rw [Emission.module_of_name hn] at hok
      simp only [isOk_mapError] at hok
      exact forall₂_itemsFrom rfl hok

/-- **The items of a session that succeeds are those of its blocks**, one by one. -/
theorem forall₂_items {jobs : List Job} {e : Emitter} (hok : succeeds jobs e = true) :
    List.Forall₂ Item.Yields (items jobs) (sessionBlocks jobs e) := by
  induction jobs generalizing e with
  | nil => exact .nil
  | cons j jobs ih =>
    rw [succeeds, Bool.and_eq_true] at hok
    exact List.rel_append (forall₂_job hok.1) (ih hok.2)

/-! ## The two machines go the same way -/

/-- Lists that stand one beside the other are looked up together. -/
theorem getElem?_of_forall₂ {α β : Type} {r : α → β → Prop} {l : List α} {l' : List β}
    (h : List.Forall₂ r l l') (p : Nat) :
    (l[p]? = none ∧ l'[p]? = none) ∨ ∃ a b, l[p]? = some a ∧ l'[p]? = some b ∧ r a b := by
  induction h generalizing p with
  | nil => exact .inl ⟨rfl, rfl⟩
  | cons hr _ ih =>
    cases p with
    | zero => exact .inr ⟨_, _, rfl, rfl, hr⟩
    | succ p => exact ih p

theorem findIdx?_of_forall₂ {α β : Type} {r : α → β → Prop} {l : List α} {l' : List β}
    (h : List.Forall₂ r l l') {f : α → Bool} {g : β → Bool}
    (hfg : ∀ a, ∀ b ∈ l', r a b → f a = g b) : l.findIdx? f = l'.findIdx? g := by
  induction h with
  | nil => rfl
  | cons hr _ ih =>
    rw [List.findIdx?_cons, List.findIdx?_cons, hfg _ _ (List.mem_cons_self ..) hr,
      ih fun a b hb => hfg a b (List.mem_cons_of_mem _ hb)]

theorem Item.Yields.declared? {item : Item} {b : Block} (h : item.Yields b) (hsound : b.Sound) :
    item.declared? = b.declared.head?.map Symbol.text := by
  cases h with
  | start e => rfl
  | @instruction module before i e c hread hscope =>
    obtain ⟨line, name, arguments⟩ := i
    obtain ⟨-, hvalid, -⟩ := hsound
    cases c with
    | push segment index | pop segment index =>
      obtain ⟨s, t, rfl, rfl, -⟩ := hread
      rfl
    | operate op =>
      cases op with
      | binary op | unary op | compare op =>
        cases op <;> obtain ⟨rfl, rfl⟩ := hread <;> rfl
    | label l =>
      obtain ⟨rfl, rfl, -⟩ := hread
      simp only [Block.declared, Scope.label_eq hvalid, hscope]
      rfl
    | goto l | ifGoto l =>
      obtain ⟨rfl, rfl, -⟩ := hread
      rfl
    | function f n | call f n =>
      obtain ⟨rfl, -, t, rfl, -⟩ := hread
      rfl
    | ret =>
      obtain ⟨rfl, rfl⟩ := hread
      rfl

theorem value_comparison (c : Comparison) :
    c.value = match c with
      | .eq => fun x y => if x.toInt = y.toInt then -1 else 0
      | .gt => fun x y => if x.toInt > y.toInt then -1 else 0
      | .lt => fun x y => if x.toInt < y.toInt then -1 else 0 := by
  cases c <;> funext x y <;> simp only [Comparison.value, Comparison.holds, decide_eq_true_eq]

theorem cell?_name (link : Stack.Linkage) (module : String) (m : Memory) (segment : Segment)
    (index : Nat) :
    cell? link module m segment.name index = Stack.cell? link module m segment index := by
  cases segment with
  | base b => cases b <;> rfl
  | _ => rfl

theorem relied_eq {i : Instruction} {c : Command} (hread : c.ReadFrom i) (m : Memory) :
    relied m i = Stack.relied m c := by
  obtain ⟨line, name, arguments⟩ := i
  cases c with
  | push segment index =>
    obtain ⟨s, t, rfl, rfl, hs, ht, -⟩ := hread
    rw [← Segment.name_of_ofName? hs, (Instruction.readIndex_eq_ok ht).1]
    cases segment with
    | base b => cases b <;> rfl
    | _ => rfl
  | pop segment index =>
    obtain ⟨s, t, rfl, -⟩ := hread
    rfl
  | operate op =>
    cases op with
    | binary op | unary op | compare op => cases op <;> obtain ⟨rfl, -⟩ := hread <;> rfl
  | label l | goto l | ifGoto l | function f n | call f n | ret =>
    obtain ⟨rfl, -⟩ := hread
    rfl

theorem compared_eq {i : Instruction} {c : Command} (hread : c.ReadFrom i) (m : Memory) :
    Stack.compared m c =
      if i.name ∈ ["eq", "gt", "lt"] then [m Register.sp.cell - 1 - 1] else [] := by
  rw [Command.name_of_readFrom hread]
  cases c with
  | operate op =>
    cases op with
    | binary op | unary op | compare op => cases op <;> rfl
  | _ => rfl

theorem notMem_scratch_iff {a : Word} :
    a ∉ Stack.scratch ↔ a ≠ Register.r13.cell ∧ a ≠ Register.r14.cell := by
  simp [Stack.scratch]

/-- An instruction is clear when its block is. -/
theorem clear_iff {item : Item} {b : Block} (hyields : item.Yields b) (m : Memory) :
    Clear m item ↔ Stack.Clear m b := by
  cases hyields with
  | start e => exact Iff.rfl
  | @instruction module before i e c hread hscope =>
    simp only [Clear, Stack.Clear, relied_eq hread, compared_eq hread, notMem_scratch_iff]
    split <;> simp [*]

section Session

variable {jobs : List Job} (hok : succeeds jobs Emitter.start = true)
include hok

/-- A name is declared in the source where its symbol is declared in the blocks. -/
theorem place?_eq {x : Symbol} (hx : x.Valid) (hdeclared : x.IsDeclared) :
    place? (items jobs) x.text = Stack.place? (blocks jobs) x := by
  refine findIdx?_of_forall₂ (forall₂_items hok) fun item b hb hyields => ?_
  have hsound := sound_of_mem_blocks jobs b hb
  rw [hyields.declared? hsound, decide_eq_decide, Option.map_eq_some_iff]
  constructor
  · rintro ⟨y, hy, htext⟩
    have hmem := List.mem_of_head? hy
    rwa [← Symbol.IsDeclared.eq_of_text_eq (Block.isDeclared_of_mem_declared hmem) hdeclared
      (Block.valid_of_mem_declared hsound y hmem) hx htext]
  · intro hmem
    exact ⟨x, Block.head?_declared hmem, rfl⟩

theorem length_items : (items jobs).length = (blocks jobs).length := (forall₂_items hok).length_eq

/-- A target of a block is found under its name in the source. -/
theorem place?_target {b : Block} (hsound : b.Sound) {x : Symbol} (hx : x ∈ b.targets) :
    place? (items jobs) x.text = Stack.place? (blocks jobs) x :=
  place?_eq hok (Block.valid_of_mem_targets hsound x hx) (Block.isDeclared_of_mem_targets hx)

/-- A label that a block jumps to is found under its name in the source. -/
theorem place?_labelName {module : String} {before : List Instruction} {e : Emitter} {c : Command}
    (hsound : (Block.command module e c).Sound) (hscope : e.scope.function = lastFunction? before)
    {label : String} (h : e.scope.label label module ∈ (Block.command module e c).targets) :
    place? (items jobs) (labelName module before label) =
      Stack.place? (blocks jobs) (.label ((lastFunction? before).getD module) label) := by
  have hplace := place?_target hok hsound h
  rw [Scope.label_eq hsound.2.1, hscope] at hplace
  exact hplace

/-- **An instruction does what its block does.** -/
theorem act?_eq {item : Item} {b : Block} (hyields : item.Yields b) (hsound : b.Sound)
    (link : Stack.Linkage) (p : Nat) (m : Memory) :
    act? (items jobs) link p m item = Stack.act? (blocks jobs) link p m b := by
  cases hyields with
  | start e =>
    have hplace := place?_target hok hsound (List.mem_singleton_self (Symbol.entry "Sys.init"))
    exact congrArg (Option.map _) hplace
  | @instruction module before i e c hread hscope =>
    obtain ⟨line, name, arguments⟩ := i
    cases c with
    | push segment index =>
      obtain ⟨s, t, rfl, rfl, hs, ht, -⟩ := hread
      rw [← Segment.name_of_ofName? hs, (Instruction.readIndex_eq_ok ht).1]
      cases segment with
      | base b => cases b <;> rfl
      | _ => rfl
    | pop segment index =>
      obtain ⟨s, t, rfl, rfl, hs, ht, -⟩ := hread
      have hcell := cell?_name link module m segment index
      rw [Segment.name_of_ofName? hs, (Instruction.readIndex_eq_ok ht).1] at hcell
      rw [(Instruction.readIndex_eq_ok ht).1]
      exact congrArg (Option.map _) hcell
    | operate op =>
      cases op with
      | binary op | unary op =>
        cases op <;> obtain ⟨rfl, rfl⟩ := hread <;> rfl
      | compare op =>
        cases op <;> obtain ⟨rfl, rfl⟩ := hread <;>
          rw [Stack.act?, Operation.effect, value_comparison] <;> rfl
    | label l =>
      obtain ⟨rfl, rfl, -⟩ := hread
      rfl
    | goto l =>
      obtain ⟨rfl, rfl, -⟩ := hread
      have hplace := place?_labelName hok hsound hscope (List.mem_singleton_self _)
      simp only [Stack.act?, hscope]
      exact congrArg (Option.map _) hplace
    | ifGoto l =>
      obtain ⟨rfl, rfl, -⟩ := hread
      have hplace := place?_labelName hok hsound hscope (List.mem_singleton_self _)
      simp only [Stack.act?, hscope, ← hplace]
      rfl
    | function f locals =>
      obtain ⟨rfl, -, t, rfl, ht⟩ := hread
      rw [(Instruction.readIndex_eq_ok ht).1]
      rfl
    | call f n =>
      obtain ⟨rfl, -, t, rfl, ht⟩ := hread
      rw [(Instruction.readIndex_eq_ok ht).1]
      have hplace := place?_target hok hsound (List.mem_singleton_self (Symbol.entry f))
      exact congrArg (Option.map _) hplace
    | ret =>
      obtain ⟨rfl, rfl⟩ := hread
      simp only [Stack.act?, Stack.resume?, ← length_items hok]
      rfl

/-- An item and its block stand at one place. -/
theorem item_at (p : Nat) :
    ((items jobs)[p]? = none ∧ (blocks jobs)[p]? = none) ∨
      ∃ item b, (items jobs)[p]? = some item ∧ (blocks jobs)[p]? = some b ∧ item.Yields b ∧
        b.Sound := by
  rcases getElem?_of_forall₂ (forall₂_items hok) p with hnone | ⟨item, b, hitem, hb, hyields⟩
  · exact .inl hnone
  · exact .inr ⟨item, b, hitem, hb, hyields, sound_of_mem_blocks jobs b (List.mem_of_getElem? hb)⟩

/-- **The two machines make the same steps.** -/
theorem step?_eq (link : Stack.Linkage) (v : Stack.State) :
    step? (items jobs) link v = Stack.step? (blocks jobs) link v := by
  unfold step? Stack.step?
  rcases item_at hok v.position with ⟨hitem, hb⟩ | ⟨item, b, hitem, hb, hyields, hsound⟩
  · rw [hitem, hb]
    rfl
  · rw [hitem, hb]
    exact act?_eq hok hyields hsound link v.position v.memory

/-- **The two machines make the same runs.** -/
theorem run?_eq (link : Stack.Linkage) (n : Nat) (v : Stack.State) :
    run? (items jobs) link n v = Stack.run? (blocks jobs) link n v := by
  induction n generalizing v with
  | zero => rfl
  | succ n ih =>
    unfold run? Stack.run?
    rcases item_at hok v.position with ⟨hitem, hb⟩ | ⟨item, b, hitem, hb, hyields, hsound⟩
    · rw [hitem, hb]
    · simp only [hitem, hb, clear_iff hyields, act?_eq hok hyields hsound]
      rw [funext ih]

end Session

end Source
end HackVM
