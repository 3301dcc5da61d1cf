import HackVM.Proofs.Session
import HackVM.Proofs.SymbolText

/-! # The symbols of a block

A line defines a symbol, refers to one, or does neither.  What a block defines is
what its command declares followed by the labels that were made up for it
(`Block.defined_code`), and a generated label is referred to only inside the block
that defines it (`Block.mem_referred_code`).  All symbols of a session are made of
checked names (`valid_of_mem_defined_program`), so their texts tell them apart as far
as `Symbol.eq_of_text_eq` says. -/
namespace HackVM

open Asm

/-- The symbol that a line defines. -/
def Asm.Line.defined? : Line → Option Symbol
  | .label s => some s
  | _ => none

/-- The symbol that a line refers to. -/
def Asm.Line.referred? : Line → Option Symbol
  | .address (.symbol s) => some s
  | _ => none

/-- The symbols that code defines, in order. -/
def Asm.defined (code : List Line) : List Symbol := code.filterMap Line.defined?

/-- The symbols that code refers to, in order. -/
def Asm.referred (code : List Line) : List Symbol := code.filterMap Line.referred?

section Symbols

variable (s : Symbol) (o : Operand) (n : Int) (r : Register) (dest : Dest) (c : Comp) (j : Jump)
  (code : List Line)

@[simp] theorem Asm.defined_nil : defined [] = [] := rfl

@[simp] theorem Asm.defined_label : defined (.label s :: code) = s :: defined code := rfl

@[simp] theorem Asm.defined_address : defined (.address o :: code) = defined code := rfl

@[simp] theorem Asm.defined_load : defined (load s :: code) = defined code := rfl

@[simp] theorem Asm.defined_loadRegister : defined (loadRegister r :: code) = defined code := rfl

@[simp] theorem Asm.defined_loadNumber : defined (loadNumber n :: code) = defined code := rfl

@[simp] theorem Asm.defined_store : defined (.store dest c :: code) = defined code := rfl

@[simp] theorem Asm.defined_jump : defined (.jump c j :: code) = defined code := rfl

@[simp] theorem Asm.referred_nil : referred [] = [] := rfl

@[simp] theorem Asm.referred_label : referred (.label s :: code) = referred code := rfl

@[simp] theorem Asm.referred_symbol :
    referred (.address (.symbol s) :: code) = s :: referred code := rfl

@[simp] theorem Asm.referred_number :
    referred (.address (.number n) :: code) = referred code := rfl

@[simp] theorem Asm.referred_load : referred (load s :: code) = s :: referred code := rfl

@[simp] theorem Asm.referred_loadRegister :
    referred (loadRegister r :: code) = .register r :: referred code := rfl

@[simp] theorem Asm.referred_loadNumber : referred (loadNumber n :: code) = referred code := rfl

@[simp] theorem Asm.referred_store : referred (.store dest c :: code) = referred code := rfl

@[simp] theorem Asm.referred_jump : referred (.jump c j :: code) = referred code := rfl

end Symbols

@[simp] theorem Asm.defined_append (a b : List Line) : defined (a ++ b) = defined a ++ defined b :=
  List.filterMap_append

@[simp] theorem Asm.referred_append (a b : List Line) :
    referred (a ++ b) = referred a ++ referred b :=
  List.filterMap_append

theorem Asm.defined_flatMap {α : Type} (f : α → List Line) (l : List α) :
    defined (l.flatMap f) = l.flatMap fun x => defined (f x) := by
  induction l with
  | nil => rfl
  | cons x l ih => rw [List.flatMap_cons, defined_append, ih, List.flatMap_cons]

theorem Asm.referred_flatMap {α : Type} (f : α → List Line) (l : List α) :
    referred (l.flatMap f) = l.flatMap fun x => referred (f x) := by
  induction l with
  | nil => rfl
  | cons x l ih => rw [List.flatMap_cons, referred_append, ih, List.flatMap_cons]

theorem Asm.mem_defined {code : List Line} {s : Symbol} : s ∈ defined code ↔ .label s ∈ code := by
  unfold defined
  rw [List.mem_filterMap]
  constructor
  · rintro ⟨l, hl, h⟩
    cases l <;> cases h
    exact hl
  · intro h
    exact ⟨_, h, rfl⟩

theorem Asm.mem_referred {code : List Line} {s : Symbol} :
    s ∈ referred code ↔ .address (.symbol s) ∈ code := by
  unfold referred
  rw [List.mem_filterMap]
  constructor
  · rintro ⟨l, hl, h⟩
    cases l with
    | address o => cases o <;> cases h; exact hl
    | _ => cases h
  · intro h
    exact ⟨_, h, rfl⟩

/-! ## Code of each kind -/

namespace Code

theorem numberOperand_eq_ok {n : Int} {o : Operand} (h : numberOperand n = .ok o) :
    o = .number n := by
  unfold numberOperand at h
  split at h
  · cases h; rfl
  · cases h

theorem staticOperand_eq_ok {m : String} {index : Int} {o : Operand}
    (h : staticOperand m index = .ok o) : o = .symbol (.static m index) := by
  unfold staticOperand at h
  split at h
  · cases h; rfl
  · cases h

/-- The code that loads a cell, by segments. -/
theorem fetch_eq_ok {segment : Segment} {index : Int} {m : String} {code : List Line} :
    fetch segment index m = .ok code → match segment with
    | .constant => code = [loadNumber index, .store .d .a]
    | .base b => code = [loadNumber index, .store .d .a, loadRegister (baseRegister b),
        .store .a .dPlusM, .store .d .m]
    | .pointer => ∃ r, pointerRegister index = .ok r ∧ code = [loadRegister r, .store .d .m]
    | .temp => code = [loadNumber (Segment.tempBase + index), .store .d .m]
    | .static => code = [load (.static m index), .store .d .m] := by
  intro h
  cases segment with
  | constant =>
    simp only [fetch] at h
    obtain ⟨o, ho, h⟩ := exists_of_bind_eq_ok h
    cases h
    rw [numberOperand_eq_ok ho]
    rfl
  | base b =>
    simp only [fetch] at h
    obtain ⟨o, ho, h⟩ := exists_of_bind_eq_ok h
    cases h
    rw [numberOperand_eq_ok ho]
    rfl
  | pointer =>
    simp only [fetch] at h
    obtain ⟨r, hr, h⟩ := exists_of_bind_eq_ok h
    cases h
    exact ⟨r, hr, rfl⟩
  | temp =>
    simp only [fetch] at h
    obtain ⟨o, ho, h⟩ := exists_of_bind_eq_ok h
    cases h
    rw [numberOperand_eq_ok ho]
    rfl
  | static =>
    simp only [fetch] at h
    obtain ⟨o, ho, h⟩ := exists_of_bind_eq_ok h
    cases h
    rw [staticOperand_eq_ok ho]
    rfl

theorem push_eq_ok {segment : Segment} {index : Int} {m : String} {code : List Line}
    (h : push segment index m = .ok code) :
    ∃ loading, fetch segment index m = .ok loading ∧ code = loading ++ pushD := by
  unfold push at h
  cases hf : fetch segment index m with
  | error fault => rw [hf] at h; cases h
  | ok loading => rw [hf] at h; cases h; exact ⟨loading, rfl, rfl⟩

/-- The code that pops into a cell, by segments. -/
theorem pop_eq_ok {segment : Segment} {index : Int} {m : String} {code : List Line} :
    pop segment index m = .ok code → match segment with
    | .constant => False
    | .base b => code = [loadNumber index, .store .d .a, loadRegister (baseRegister b),
        .store .d .dPlusM, loadRegister .r13, .store .m .d] ++ popD
        ++ [loadRegister .r13, .store .a .m, .store .m .d]
    | .pointer => ∃ r, pointerRegister index = .ok r ∧ code = popInto (.symbol (.register r))
    | .temp => code = popInto (.number (Segment.tempBase + index))
    | .static => code = popInto (.symbol (.static m index)) := by
  intro h
  cases segment with
  | constant => cases h
  | base b =>
    simp only [pop] at h
    obtain ⟨o, ho, h⟩ := exists_of_bind_eq_ok h
    cases h
    rw [numberOperand_eq_ok ho]
    rfl
  | pointer =>
    simp only [pop] at h
    cases hr : pointerRegister index with
    | error fault => rw [hr] at h; cases h
    | ok r => rw [hr] at h; cases h; exact ⟨r, rfl, rfl⟩
  | temp =>
    simp only [pop] at h
    cases ho : numberOperand (Segment.tempBase + index) with
    | error fault => rw [ho] at h; cases h
    | ok o => rw [ho] at h; cases h; rw [numberOperand_eq_ok ho]
  | static =>
    simp only [pop] at h
    cases ho : staticOperand m index with
    | error fault => rw [ho] at h; cases h
    | ok o => rw [ho] at h; cases h; rw [staticOperand_eq_ok ho]

/-- A push defines no label. -/
theorem defined_push {segment : Segment} {index : Int} {m : String} {code : List Line}
    (h : push segment index m = .ok code) : defined code = [] := by
  obtain ⟨loading, hloading, rfl⟩ := push_eq_ok h
  have hcode := fetch_eq_ok hloading
  cases segment with
  | pointer =>
    obtain ⟨r, -, rfl⟩ := hcode
    rfl
  | _ => rw [hcode]; rfl

/-- A pop defines no label. -/
theorem defined_pop {segment : Segment} {index : Int} {m : String} {code : List Line}
    (h : pop segment index m = .ok code) : defined code = [] := by
  have hcode := pop_eq_ok h
  cases segment with
  | constant => exact hcode.elim
  | pointer =>
    obtain ⟨r, -, rfl⟩ := hcode
    rfl
  | _ => rw [hcode]; rfl

theorem load_mem_push_static {index : Int} {m : String} {code : List Line}
    (h : push .static index m = .ok code) : load (.static m index) ∈ code := by
  obtain ⟨loading, hloading, rfl⟩ := push_eq_ok h
  rw [fetch_eq_ok hloading]
  exact List.mem_cons_self ..

theorem load_mem_pop_static {index : Int} {m : String} {code : List Line}
    (h : pop .static index m = .ok code) : load (.static m index) ∈ code := by
  rw [pop_eq_ok h]
  exact List.mem_append_right _ (List.mem_cons_self ..)

theorem call_eq_ok {name : String} {arguments : Int} {scope : String} {number : Nat}
    {code : List Line} (h : call name arguments scope number = .ok code) :
    code = callLines name (arguments + frameSize) scope number := by
  rw [call_eq] at h
  split at h
  · cases h; rfl
  · cases h

theorem defined_callLines (name : String) (depth : Int) (scope : String) (number : Nat) :
    defined (callLines name depth scope number) = [.returnSite scope number] := by
  simp [callLines, frameLines, savedRegisters, saveRegister, jumpTo, pushD]

theorem mem_referred_callLines {name : String} {depth : Int} {scope : String} {number : Nat} :
    ∀ s ∈ referred (callLines name depth scope number),
      (∃ r, s = .register r) ∨ s = .entry name ∨ s = .returnSite scope number := by
  simp [callLines, frameLines, savedRegisters, saveRegister, jumpTo, pushD]

theorem defined_compare (comparison : Comparison) (m : String) (number : Nat) :
    defined (compare comparison m number) =
      [.compare m .leftNegative number, .compare m .sameSign number, .compare m .decide number,
        .compare m .finish number] := by
  unfold compare
  simp only [atTop, popD, List.cons_append, List.nil_append, defined_label, defined_load,
    defined_loadRegister, defined_store, defined_jump, defined_nil]

theorem referred_compare (comparison : Comparison) (m : String) (number : Nat) :
    referred (compare comparison m number) =
      [.register .sp, .register .r13, .register .sp, .compare m .leftNegative number,
        .register .r13, .compare m .sameSign number, .compare m .decide number, .register .r13,
        .compare m .sameSign number, .compare m .decide number, .register .r13, .register .sp,
        .register .sp, .compare m .finish number, .register .sp] := by
  unfold compare
  simp only [atTop, popD, List.cons_append, List.nil_append, referred_label, referred_load,
    referred_loadRegister, referred_store, referred_jump, referred_nil]

/-- The code that clears local variables names the stack pointer only, and defines
nothing. -/
theorem defined_clearing (k : Nat) :
    defined (List.replicate k (.store .d .zero :: pushD)).flatten = [] := by
  induction k with
  | zero => rfl
  | succ k ih =>
    rw [List.replicate_succ, List.flatten_cons, defined_append, ih]
    rfl

theorem referred_clearing {k : Nat} {s : Symbol}
    (h : s ∈ referred (List.replicate k (.store .d .zero :: pushD)).flatten) :
    s = .register .sp := by
  induction k with
  | zero => cases h
  | succ k ih =>
    rw [List.replicate_succ, List.flatten_cons, referred_append, List.mem_append] at h
    rcases h with h | h
    · simpa [referred, pushD, Line.referred?, loadRegister, load, eq_comm] using h
    · exact ih h

end Code

/-- The name of a scope could name a function. -/
theorem Scope.isSymbolName_name {s : Scope} {m : String} (hs : s.Valid)
    (hm : isModuleName m = true) : isSymbolName (s.name m) = true := by
  unfold Scope.name
  cases hf : s.function with
  | none => exact isSymbolName_of_isModuleName hm
  | some f =>
    show isSymbolName (if f = "" then m else f) = true
    split
    · exact isSymbolName_of_isModuleName hm
    · exact hs f hf

/-! ## Symbols of blocks -/

namespace Block

/-- The symbols that the command of a block declares. -/
def declared : Block → List Symbol
  | .command m e (.label name) => [e.scope.label name m]
  | .command _ _ (.function name _) => [.entry name]
  | _ => []

/-- The labels that are made up for a block. -/
def generated : Block → List Symbol
  | .start e => [.returnSite Code.startScope e.calls]
  | .command m e (.operate (.compare _)) =>
    [.compare m .leftNegative e.compares, .compare m .sameSign e.compares,
      .compare m .decide e.compares, .compare m .finish e.compares]
  | .command m e (.call ..) => [.returnSite (e.scope.name m) e.calls]
  | _ => []

/-- The declared symbols that a block jumps to. -/
def targets : Block → List Symbol
  | .start _ => [.entry Code.entryFunction]
  | .command m e (.goto name) | .command m e (.ifGoto name) => [e.scope.label name m]
  | .command _ _ (.call name _) => [.entry name]
  | _ => []

/-- The static variables that a block uses. -/
def statics : Block → List Symbol
  | .command m _ (.push .static index) | .command m _ (.pop .static index) => [.static m index]
  | _ => []

/-- **What a block defines**: what its command declares, and the labels made up for
it. -/
theorem defined_code {b : Block} (h : b.Sound) : defined b.code = b.declared ++ b.generated := by
  cases b with
  | start e =>
    show defined (Emission.bootstrap e).code = _
    rw [Emission.bootstrap_apply]
    simp [Code.startStack, Code.defined_callLines, declared, generated]
  | command m e c =>
    obtain ⟨-, -, -, lines, hl⟩ := h
    rw [code_command hl]
    cases c with
    | push segment index => exact Code.defined_push hl
    | pop segment index => exact Code.defined_pop hl
    | operate op =>
      cases op with
      | binary op | unary op =>
        simp only [Command.code, Except.ok.injEq] at hl
        simp [← hl, Code.binary, Code.unary, Code.atTop, popD, declared, generated]
      | compare comparison =>
        rw [← Except.ok.inj hl, Code.defined_compare]
        rfl
    | label name | goto name | ifGoto name =>
      simp only [Command.code, Except.ok.injEq] at hl
      simp [← hl, Code.jumpTo, Code.jumpIf, popD, declared, generated]
    | function name locals =>
      simp only [Command.code, Except.ok.injEq] at hl
      simp [← hl, Code.function, Code.defined_clearing, declared, generated]
    | call name arguments =>
      rw [Code.call_eq_ok hl, Code.defined_callLines]
      rfl
    | ret =>
      simp only [Command.code, Except.ok.injEq] at hl
      simp [← hl, Code.ret, Code.savedRegisters, Code.restoreRegister, popD, declared, generated]

/-- **What a block refers to**: registers, static variables of its module, declared
places that it jumps to, and its own generated labels. -/
theorem mem_referred_code {b : Block} (h : b.Sound) :
    ∀ s ∈ referred b.code,
      (∃ r, s = .register r) ∨ s ∈ b.statics ∨ s ∈ b.targets ∨ s ∈ b.generated := by
  cases b with
  | start e =>
    show ∀ s ∈ referred (Emission.bootstrap e).code, _
    rw [Emission.bootstrap_apply]
    intro s hs
    rw [referred_append, List.mem_append] at hs
    rcases hs with hs | hs
    · exact .inl ⟨.sp, List.mem_singleton.mp hs⟩
    · rcases Code.mem_referred_callLines s hs with hr | rfl | rfl
      · exact .inl hr
      · exact .inr (.inr (.inl (List.mem_singleton_self _)))
      · exact .inr (.inr (.inr (List.mem_singleton_self _)))
  | command m e c =>
    obtain ⟨-, -, -, lines, hl⟩ := h
    rw [code_command hl]
    cases c with
    | push segment index =>
      obtain ⟨loading, hf, rfl⟩ := Code.push_eq_ok hl
      have hs := Code.fetch_eq_ok hf
      cases segment with
      | pointer =>
        obtain ⟨r, -, rfl⟩ := hs
        simp [pushD]
      | _ => simp [hs, pushD, statics]
    | pop segment index =>
      have hs := Code.pop_eq_ok hl
      cases segment with
      | constant => exact hs.elim
      | pointer =>
        obtain ⟨r, -, rfl⟩ := hs
        simp [Code.popInto, popD]
      | _ => simp [hs, Code.popInto, popD, statics]
    | operate op =>
      cases op with
      | binary op | unary op =>
        simp only [Command.code, Except.ok.injEq] at hl
        simp [← hl, Code.binary, Code.unary, Code.atTop, popD]
      | compare comparison =>
        rw [← Except.ok.inj hl, Code.referred_compare]
        simp [generated]
    | label name | goto name | ifGoto name =>
      simp only [Command.code, Except.ok.injEq] at hl
      simp [← hl, Code.jumpTo, Code.jumpIf, popD, targets]
    | function name locals =>
      simp only [Command.code, Except.ok.injEq] at hl
      intro s hs
      rw [← hl] at hs
      exact .inl ⟨.sp, Code.referred_clearing hs⟩
    | call name arguments =>
      rw [Code.call_eq_ok hl]
      intro s hs
      rcases Code.mem_referred_callLines s hs with hr | rfl | rfl
      · exact .inl hr
      · exact .inr (.inr (.inl (List.mem_singleton_self _)))
      · exact .inr (.inr (.inr (List.mem_singleton_self _)))
    | ret =>
      simp only [Command.code, Except.ok.injEq] at hl
      simp [← hl, Code.ret, Code.savedRegisters, Code.restoreRegister, popD]

/-- A block refers to the static variables that it uses. -/
theorem mem_referred_of_mem_statics {b : Block} (h : b.Sound) {s : Symbol} (hs : s ∈ b.statics) :
    s ∈ referred b.code := by
  cases b with
  | start e => cases hs
  | command m e c =>
    obtain ⟨-, -, -, lines, hl⟩ := h
    rw [code_command hl]
    cases c with
    | push segment index =>
      have hpush : Code.push segment index m = .ok lines := hl
      cases segment with
      | static =>
        rw [List.mem_singleton.mp hs]
        exact mem_referred.mpr (Code.load_mem_push_static hpush)
      | _ => cases hs
    | pop segment index =>
      have hpop : Code.pop segment index m = .ok lines := hl
      cases segment with
      | static =>
        rw [List.mem_singleton.mp hs]
        exact mem_referred.mpr (Code.load_mem_pop_static hpop)
      | _ => cases hs
    | _ => cases hs

/-! ## Symbols are made of checked names -/

theorem valid_of_mem_declared {b : Block} (h : b.Sound) : ∀ s ∈ b.declared, s.Valid := by
  cases b with
  | start e => intro s hs; cases hs
  | command m e c =>
    obtain ⟨hm, hs, hc, -⟩ := h
    cases c with
    | label name =>
      intro s hmem
      rw [List.mem_singleton.mp hmem]
      exact ⟨Scope.isSymbolName_name hs hm, hc⟩
    | function name locals =>
      intro s hmem
      rw [List.mem_singleton.mp hmem]
      exact hc
    | _ => intro s hmem; cases hmem

theorem valid_of_mem_targets {b : Block} (h : b.Sound) : ∀ s ∈ b.targets, s.Valid := by
  cases b with
  | start e =>
    intro s hs
    rw [List.mem_singleton.mp hs]
    exact (by decide : isSymbolName "Sys.init" = true)
  | command m e c =>
    obtain ⟨hm, hs, hc, -⟩ := h
    cases c with
    | goto name | ifGoto name =>
      intro s hmem
      rw [List.mem_singleton.mp hmem]
      exact ⟨Scope.isSymbolName_name hs hm, hc⟩
    | call name arguments =>
      intro s hmem
      rw [List.mem_singleton.mp hmem]
      exact hc
    | _ => intro s hmem; cases hmem

theorem valid_of_mem_statics {b : Block} (h : b.Sound) : ∀ s ∈ b.statics, s.Valid := by
  cases b with
  | start e => intro s hs; cases hs
  | command m e c =>
    obtain ⟨hm, -⟩ := h
    cases c with
    | push segment index | pop segment index =>
      cases segment with
      | static =>
        intro s hmem
        rw [List.mem_singleton.mp hmem]
        exact ⟨hm, Int.natCast_nonneg index⟩
      | _ => intro s hmem; cases hmem
    | _ => intro s hmem; cases hmem

theorem exists_of_mem_statics {b : Block} {s : Symbol} (hs : s ∈ b.statics) :
    ∃ m index, s = .static m index := by
  cases b with
  | start e => cases hs
  | command m e c =>
    cases c with
    | push segment index | pop segment index =>
      cases segment with
      | static => exact ⟨m, index, List.mem_singleton.mp hs⟩
      | _ => cases hs
    | _ => cases hs

theorem isDeclared_of_mem_declared {b : Block} {s : Symbol} (hs : s ∈ b.declared) :
    s.IsDeclared := by
  cases b with
  | start e => cases hs
  | command m e c =>
    cases c with
    | label name | function name locals => rw [List.mem_singleton.mp hs]; trivial
    | _ => cases hs

/-- A block declares one symbol at most. -/
theorem head?_declared {b : Block} {s : Symbol} (hs : s ∈ b.declared) :
    b.declared.head? = some s := by
  cases b with
  | start e => cases hs
  | command m e c =>
    cases c with
    | label name | function name locals => rw [List.mem_singleton.mp hs]; rfl
    | _ => cases hs

theorem isDeclared_of_mem_targets {b : Block} {s : Symbol} (hs : s ∈ b.targets) :
    s.IsDeclared := by
  cases b with
  | start e => rw [List.mem_singleton.mp hs]; trivial
  | command m e c =>
    cases c with
    | goto name | ifGoto name | call name arguments => rw [List.mem_singleton.mp hs]; trivial
    | _ => cases hs

/-- **The labels made up for a block carry its numbers**, and the block uses these
numbers up. -/
theorem cases_of_mem_generated {b : Block} {s : Symbol} (hs : s ∈ b.generated) :
    (∃ m e c p, b = .command m e c ∧ s = .compare m p b.emitter.compares ∧
      b.after.compares = b.emitter.compares + 1) ∨
    (∃ scope, s = .returnSite scope b.emitter.calls ∧
      (scope = Code.startScope ∨ ∃ m e c, b = .command m e c ∧ scope = e.scope.name m) ∧
      b.after.calls = b.emitter.calls + 1) := by
  cases b with
  | start e =>
    rw [after_start]
    exact .inr ⟨_, List.mem_singleton.mp hs, .inl rfl, rfl⟩
  | command m e c =>
    rw [after_command]
    cases c with
    | operate op =>
      cases op with
      | compare comparison =>
        refine .inl ⟨m, e, .operate (.compare comparison), ?_⟩
        simp only [generated, List.mem_cons, List.not_mem_nil, or_false] at hs
        rcases hs with rfl | rfl | rfl | rfl
        · exact ⟨.leftNegative, rfl, rfl, rfl⟩
        · exact ⟨.sameSign, rfl, rfl, rfl⟩
        · exact ⟨.decide, rfl, rfl, rfl⟩
        · exact ⟨.finish, rfl, rfl, rfl⟩
      | binary op | unary op => cases hs
    | call name arguments =>
      exact .inr ⟨_, List.mem_singleton.mp hs, .inr ⟨m, e, _, rfl, rfl⟩, rfl⟩
    | _ => cases hs

theorem isGenerated_of_mem_generated {b : Block} {s : Symbol} (hs : s ∈ b.generated) :
    s.IsGenerated := by
  rcases cases_of_mem_generated hs with ⟨_, _, _, _, -, rfl, -⟩ | ⟨_, rfl, -, -⟩ <;> trivial

theorem valid_of_mem_generated {b : Block} (h : b.Sound) : ∀ s ∈ b.generated, s.Valid := by
  intro s hs
  rcases cases_of_mem_generated hs with ⟨m, e, c, p, rfl, rfl, -⟩ | ⟨scope, rfl, hscope, -⟩
  · exact h.1
  · rcases hscope with rfl | ⟨m, e, c, rfl, rfl⟩
    · exact (by decide : isSymbolName "bootstrap" = true)
    · exact Scope.isSymbolName_name h.2.1 h.1

theorem valid_of_mem_defined {b : Block} (h : b.Sound) : ∀ s ∈ defined b.code, s.Valid := by
  intro s hs
  rw [defined_code h, List.mem_append] at hs
  rcases hs with hs | hs
  · exact valid_of_mem_declared h s hs
  · exact valid_of_mem_generated h s hs

theorem valid_of_mem_referred {b : Block} (h : b.Sound) : ∀ s ∈ referred b.code, s.Valid := by
  intro s hs
  rcases mem_referred_code h s hs with ⟨r, rfl⟩ | hs | hs | hs
  · trivial
  · exact valid_of_mem_statics h s hs
  · exact valid_of_mem_targets h s hs
  · exact valid_of_mem_generated h s hs

end Block

/-! ## Symbols of sessions -/

section Session

variable (jobs : List Job)

/-- The blocks of a session of a fresh emitter. -/
def blocks : List Block := sessionBlocks jobs Emitter.start

/-- The code that a session of a fresh emitter writes. -/
def program : List Line := sessionCode jobs Emitter.start

theorem program_eq_flatMap : program jobs = (blocks jobs).flatMap Block.code :=
  sessionCode_eq_flatMap jobs Emitter.start

theorem sound_of_mem_blocks : ∀ b ∈ blocks jobs, b.Sound :=
  sound_of_mem_sessionBlocks Scope.valid_outer

theorem defined_program :
    defined (program jobs) = (blocks jobs).flatMap fun b => b.declared ++ b.generated := by
  rw [program_eq_flatMap, defined_flatMap, List.flatMap_def, List.flatMap_def]
  exact congrArg List.flatten
    (List.map_congr_left fun b hb => Block.defined_code (sound_of_mem_blocks jobs b hb))

/-- The static variables, as texts, that the code of a session uses, in order. -/
def staticVariables : List String :=
  ((referred (program jobs)).filter (·.IsStatic)).map Symbol.text

theorem valid_of_mem_defined_program : ∀ s ∈ defined (program jobs), s.Valid := by
  intro s hs
  rw [program_eq_flatMap, defined_flatMap, List.mem_flatMap] at hs
  obtain ⟨b, hb, hs⟩ := hs
  exact Block.valid_of_mem_defined (sound_of_mem_blocks jobs b hb) s hs

theorem valid_of_mem_referred_program : ∀ s ∈ referred (program jobs), s.Valid := by
  intro s hs
  rw [program_eq_flatMap, referred_flatMap, List.mem_flatMap] at hs
  obtain ⟨b, hb, hs⟩ := hs
  exact Block.valid_of_mem_referred (sound_of_mem_blocks jobs b hb) s hs

end Session
end HackVM
