import HackVM.Emitter.Command
import HackVM.Proofs.CommandReading

/-! # What one emitter writes in a session

In a session one emitter does a list of jobs, in order, and a job that fails does
not stop the ones after it.  What it writes falls into **blocks**: the code of one
command, or of the start of a program, each kept with the emitter that it was
written from.  The code of a session is the code of its blocks, one after the
other (`sessionCode_eq_flatMap`).

Two facts hold of every block of a session that starts with a fresh emitter.  The
names in it have passed the checks on names (`sound_of_mem_sessionBlocks`), and the
numbers that it may give out lie above those of every block before it
(`ascending_sessionBlocks`). -/
namespace HackVM

open Asm

/-! ## What a command does to an emitter -/

theorem Text.isWritable_of_lt {n : Nat} (h : n < 10) : Text.isWritable n = true := by
  have hlimit : 1 ≤ Text.digitLimit := by decide
  unfold Text.isWritable
  -- the limit itself is never computed
  generalize Text.digitLimit = k at hlimit ⊢
  have hp : 10 ^ 1 ≤ 10 ^ k := Nat.pow_le_pow_right (by decide) hlimit
  exact decide_eq_true (Nat.lt_of_lt_of_le h hp)

/-- Code that saves the frame of the caller and sets up that of the called function,
with a given distance from its first argument to its first local variable. -/
def Code.frameLines (depth : Int) (site : Symbol) : List Line :=
  [load site, .store .d .a] ++ pushD
    ++ savedRegisters.flatMap saveRegister
    ++ [loadRegister .sp, .store .d .m, loadNumber depth, .store .d .dMinusA,
      loadRegister .arg, .store .m .d]
    ++ [loadRegister .sp, .store .d .m, loadRegister .lcl, .store .m .d]

/-- The code of a call whose distance from the first argument to the first local
variable can be written. -/
def Code.callLines (name : String) (depth : Int) (scope : String) (number : Nat) : List Line :=
  frameLines depth (.returnSite scope number)
    ++ jumpTo (.entry name)
    ++ [.label (.returnSite scope number)]

theorem Code.call_eq (name : String) (arguments : Int) (scope : String) (number : Nat) :
    Code.call name arguments scope number =
      if Text.isWritable (arguments + frameSize) then
        .ok (callLines name (arguments + frameSize) scope number)
      else .error .numberTooLarge := by
  unfold Code.call numberOperand
  cases Text.isWritable (arguments + frameSize) <;> rfl

namespace Command

/-- The code of a command of a module, if it can be written. -/
def code (module : String) (e : Emitter) : Command → Except Fault (List Line)
  | .push segment index => Code.push segment index module
  | .pop segment index => Code.pop segment index module
  | .operate (.binary op) => .ok (Code.binary op)
  | .operate (.unary op) => .ok (Code.unary op)
  | .operate (.compare comparison) => .ok (Code.compare comparison module e.compares)
  | .label name => .ok [.label (e.scope.label name module)]
  | .goto name => .ok (Code.jumpTo (e.scope.label name module))
  | .ifGoto name => .ok (Code.jumpIf (e.scope.label name module))
  | .function name locals => .ok (Code.function name locals)
  | .call name arguments => Code.call name arguments (e.scope.name module) e.calls
  | .ret => .ok Code.ret

/-- The scope after a command. -/
def nextScope : Command → Scope → Scope
  | .function name _, _ => ⟨some name⟩
  | _, s => s

/-- How many numbers of comparisons a command takes. -/
def comparesTaken : Command → Nat
  | .operate (.compare _) => 1
  | _ => 0

/-- How many numbers of calls a command takes. -/
def callsTaken : Command → Nat
  | .call .. => 1
  | _ => 0

/-- The emitter after a command, whether or not its code could be written. -/
def next (c : Command) (e : Emitter) : Emitter :=
  ⟨c.nextScope e.scope, e.compares + c.comparesTaken, e.calls + c.callsTaken⟩

end Command

namespace Emission

theorem get_bind {α : Type} (f : Emitter → Emission α) (e : Emitter) : (get >>= f) e = f e e := rfl

theorem modify_bind {α : Type} (g : Emitter → Emitter) (f : Unit → Emission α) (e : Emitter) :
    (modify g >>= f) e = f () (g e) := rfl

theorem check_emit_apply (r : Except Fault (List Line)) (e : Emitter) :
    (check r >>= emit) e =
      match r with
      | .ok code => ⟨.ok (), code, e⟩
      | .error fault => ⟨.error fault, [], e⟩ := by
  cases r <;> rfl

/-- A call takes its number first; its code is written if it can be. -/
theorem call_apply (name : String) (arguments : Int) (scope : String) (e : Emitter) :
    call name arguments scope e =
      match Code.call name arguments scope e.calls with
      | .ok code => ⟨.ok (), code, { e with calls := e.calls + 1 }⟩
      | .error fault => ⟨.error fault, [], { e with calls := e.calls + 1 }⟩ := by
  unfold call
  rw [get_bind, modify_bind]
  generalize Code.call name arguments scope e.calls = r
  exact check_emit_apply r _

/-- The start of a program can always be written. -/
theorem bootstrap_apply (e : Emitter) :
    bootstrap e =
      ⟨.ok (), Code.startStack
          ++ Code.callLines Code.entryFunction Code.frameSize Code.startScope e.calls,
        { e with calls := e.calls + 1 }⟩ := by
  have hw : Text.isWritable (0 + (Code.frameSize : Int)) = true :=
    Text.isWritable_of_lt (n := 5) (by decide)
  unfold bootstrap
  rw [bind_ok (a := ()) (by rw [emit_apply]), emit_apply, call_apply, Code.call_eq, if_pos hw,
    Int.zero_add]

theorem compare_apply (comparison : Comparison) (module : String) (e : Emitter) :
    compare comparison module e =
      ⟨.ok (), Code.compare comparison module e.compares,
        { e with compares := e.compares + 1 }⟩ := by
  unfold compare
  rw [get_bind, modify_bind, emit_apply]

/-- **What a command does**: it writes all its code or none, and moves the
emitter on in either case. -/
theorem command_apply (module : String) (c : Command) (e : Emitter) :
    command module c e =
      match c.code module e with
      | .ok code => ⟨.ok (), code, c.next e⟩
      | .error fault => ⟨.error fault, [], c.next e⟩ := by
  cases c with
  | push s i => exact check_emit_apply _ e
  | pop s i => exact check_emit_apply _ e
  | operate op =>
    cases op with
    | binary op => rfl
    | unary op => rfl
    | compare comparison => exact compare_apply comparison module e
  | label _ | goto _ | ifGoto _ | function _ _ | ret => rfl
  | call f n =>
    simp only [command, Command.code]
    rw [get_bind, call_apply]
    generalize Code.call f n (e.scope.name module) e.calls = r
    cases r <;> rfl

theorem instruction_of_error {module : String} {i : Instruction} {e : Emitter} {fault : Fault}
    (h : Command.ofInstruction i = .error fault) :
    instruction module i e = ⟨.error fault, [], e⟩ := by
  unfold instruction
  rw [bind_error (show (check (Command.ofInstruction i) e).result = .error fault from h)]
  rfl

theorem instruction_of_ok {module : String} {i : Instruction} {e : Emitter} {c : Command}
    (h : Command.ofInstruction i = .ok c) : instruction module i e = command module c e := by
  unfold instruction
  rw [bind_ok (show (check (Command.ofInstruction i) e).result = .ok c from h)]
  rfl

/-- The three things that the first instruction of a list can do. -/
theorem instructions_cons (module : String) (i : Instruction) (rest : List Instruction)
    (e : Emitter) :
    instructions module (i :: rest) e =
      match Command.ofInstruction i with
      | .error fault => ⟨.error fault, [], e⟩
      | .ok c =>
        match c.code module e with
        | .error fault => ⟨.error fault, [], c.next e⟩
        | .ok code =>
          ⟨(instructions module rest (c.next e)).result,
            code ++ (instructions module rest (c.next e)).code,
            (instructions module rest (c.next e)).emitter⟩ := by
  show (instruction module i >>= fun _ => instructions module rest) e = _
  cases hc : Command.ofInstruction i with
  | error fault =>
    rw [bind_error (by rw [instruction_of_error hc]), instruction_of_error hc]
  | ok c =>
    cases hl : c.code module e with
    | error fault =>
      have ha : instruction module i e = ⟨.error fault, [], c.next e⟩ := by
        rw [instruction_of_ok hc, command_apply, hl]
      rw [bind_error (by rw [ha])]
      simp only [ha, hl]
    | ok code =>
      have ha : instruction module i e = ⟨.ok (), code, c.next e⟩ := by
        rw [instruction_of_ok hc, command_apply, hl]
      rw [bind_ok (by rw [ha])]
      simp only [ha, hl]

/-- A module starts in the outer scope. -/
theorem module_of_name {name : String} {lines : List String} {e : Emitter}
    (h : isModuleName name = true) :
    module name lines e =
      { instructions name (Instruction.ofLines lines) { e with scope := .outer } with
        result := (instructions name (Instruction.ofLines lines)
          { e with scope := .outer }).result.mapError (Fault.inModule name) } := by
  simp only [module, h, if_true]
  rw [modify_bind]
  rfl

theorem module_of_not_name {name : String} {lines : List String} {e : Emitter}
    (h : isModuleName name = false) :
    module name lines e = ⟨.error (.refused ⟨.invalidModuleName name, none, none⟩), [], e⟩ := by
  simp [module, h]

theorem isModuleName_of_module {name : String} {lines : List String} {e : Emitter} {u : Unit}
    (h : (module name lines e).result = .ok u) : isModuleName name = true := by
  cases hname : isModuleName name with
  | true => rfl
  | false =>
    rw [module_of_not_name hname] at h
    cases h

end Emission

/-! ## Jobs, blocks and sessions -/

/-- Something that an emitter is asked to write. -/
inductive Job where
  | bootstrap
  | module (name : String) (lines : List String)
deriving DecidableEq

/-- The emission of a job. -/
def Job.emission : Job → Emission Unit
  | .bootstrap => Emission.bootstrap
  | .module name lines => Emission.module name lines

/-- A piece of code that was written in one go, with the emitter before it. -/
inductive Block where
  /-- The start of a program. -/
  | start (emitter : Emitter)
  /-- A command of a module. -/
  | command (module : String) (emitter : Emitter) (command : Command)
deriving DecidableEq

namespace Block

/-- The emitter before a block. -/
def emitter : Block → Emitter
  | .start e => e
  | .command _ e _ => e

/-- What writing the block did. -/
def outcome : Block → Outcome Unit
  | .start e => Emission.bootstrap e
  | .command m e c => Emission.command m c e

/-- The code of a block. -/
def code (b : Block) : List Line := b.outcome.code

/-- The emitter after a block. -/
def after (b : Block) : Emitter := b.outcome.emitter

theorem code_command {m : String} {e : Emitter} {c : Command} {lines : List Line}
    (h : c.code m e = .ok lines) : (Block.command m e c).code = lines := by
  show (Emission.command m c e).code = lines
  rw [Emission.command_apply, h]

theorem after_start (e : Emitter) : (Block.start e).after = { e with calls := e.calls + 1 } := by
  show (Emission.bootstrap e).emitter = _
  rw [Emission.bootstrap_apply]

theorem after_command (m : String) (e : Emitter) (c : Command) :
    (Block.command m e c).after = c.next e := by
  show (Emission.command m c e).emitter = c.next e
  rw [Emission.command_apply]
  split <;> rfl

end Block

/-- The blocks of the instructions of a module, up to the first that is refused or
whose code cannot be written. -/
def instructionBlocks (module : String) : List Instruction → Emitter → List Block
  | [], _ => []
  | i :: rest, e =>
    match Command.ofInstruction i with
    | .error _ => []
    | .ok c =>
      match c.code module e with
      | .error _ => []
      | .ok _ => .command module e c :: instructionBlocks module rest (c.next e)

/-- The blocks of a job. -/
def Job.blocks : Job → Emitter → List Block
  | .bootstrap, e => [.start e]
  | .module name lines, e =>
    if isModuleName name then
      instructionBlocks name (Instruction.ofLines lines) { e with scope := .outer }
    else []

/-- The code that a session writes. -/
def sessionCode : List Job → Emitter → List Line
  | [], _ => []
  | j :: jobs, e => (j.emission e).code ++ sessionCode jobs (j.emission e).emitter

/-- The blocks that a session writes. -/
def sessionBlocks : List Job → Emitter → List Block
  | [], _ => []
  | j :: jobs, e => j.blocks e ++ sessionBlocks jobs (j.emission e).emitter

/-- Whether every job of a session succeeds. -/
def succeeds : List Job → Emitter → Bool
  | [], _ => true
  | j :: jobs, e => (j.emission e).result.isOk && succeeds jobs (j.emission e).emitter

theorem isOk_mapError {α : Type} (f : Fault → Fault) (r : Except Fault α) :
    (r.mapError f).isOk = r.isOk := by
  cases r <;> rfl

/-! ## The code of a session is that of its blocks -/

theorem instructions_code (module : String) (is : List Instruction) (e : Emitter) :
    (Emission.instructions module is e).code =
      (instructionBlocks module is e).flatMap Block.code := by
  induction is generalizing e with
  | nil => rfl
  | cons i rest ih =>
    rw [Emission.instructions_cons, instructionBlocks]
    cases Command.ofInstruction i with
    | error fault => rfl
    | ok c =>
      cases hl : c.code module e with
      | error fault => simp only [hl, List.flatMap_nil]
      | ok lines => simp only [hl, List.flatMap_cons, Block.code_command hl, ih]

theorem Job.emission_code (j : Job) (e : Emitter) :
    (j.emission e).code = (j.blocks e).flatMap Block.code := by
  cases j with
  | bootstrap => simp [Job.blocks, Job.emission, Block.code, Block.outcome]
  | module name lines =>
    simp only [Job.emission, Job.blocks]
    cases hn : isModuleName name with
    | true => rw [Emission.module_of_name hn]; exact instructions_code _ _ _
    | false => rw [Emission.module_of_not_name hn]; rfl

theorem sessionCode_eq_flatMap (jobs : List Job) (e : Emitter) :
    sessionCode jobs e = (sessionBlocks jobs e).flatMap Block.code := by
  induction jobs generalizing e with
  | nil => rfl
  | cons j jobs ih => rw [sessionCode, sessionBlocks, List.flatMap_append, j.emission_code, ih]

/-! ## What has been checked of a block -/

/-- The function of a scope, if there is one, has a checked name. -/
def Scope.Valid (s : Scope) : Prop := ∀ f, s.function = some f → isSymbolName f = true

theorem Scope.valid_outer : Scope.outer.Valid := fun _ h => nomatch h

theorem Command.valid_nextScope {c : Command} {s : Scope} (hc : c.Valid) (hs : s.Valid) :
    (c.nextScope s).Valid := by
  cases c with
  | function name locals =>
    intro f hf
    cases hf
    exact hc
  | _ => exact hs

/-- Whatever has been checked of a block: the names in it and around it, and that
its code could be written. -/
def Block.Sound : Block → Prop
  | .start _ => True
  | .command m e c =>
    isModuleName m = true ∧ e.scope.Valid ∧ c.Valid ∧ ∃ lines, c.code m e = .ok lines

theorem sound_of_mem_instructionBlocks {module : String} {is : List Instruction} {e : Emitter}
    (hm : isModuleName module = true) (he : e.scope.Valid) :
    ∀ b ∈ instructionBlocks module is e, b.Sound := by
  induction is generalizing e with
  | nil => intro b hb; cases hb
  | cons i rest ih =>
    intro b hb
    rw [instructionBlocks] at hb
    cases hc : Command.ofInstruction i with
    | error fault => simp [hc] at hb
    | ok c =>
      have hv := Command.valid_of_readFrom (Command.readFrom_of_ofInstruction hc)
      cases hl : c.code module e with
      | error fault => simp [hc, hl] at hb
      | ok lines =>
        simp only [hc, hl, List.mem_cons] at hb
        rcases hb with rfl | hb
        · exact ⟨hm, he, hv, lines, hl⟩
        · exact ih (Command.valid_nextScope hv he) b hb

theorem valid_scope_instructions {module : String} {is : List Instruction} {e : Emitter}
    (he : e.scope.Valid) : (Emission.instructions module is e).emitter.scope.Valid := by
  induction is generalizing e with
  | nil => exact he
  | cons i rest ih =>
    rw [Emission.instructions_cons]
    cases hc : Command.ofInstruction i with
    | error fault => exact he
    | ok c =>
      have hvalid := Command.valid_of_readFrom (Command.readFrom_of_ofInstruction hc)
      have hn : (c.next e).scope.Valid := Command.valid_nextScope hvalid he
      cases hl : c.code module e with
      | error fault => simpa only [hl] using hn
      | ok lines => simpa only [hl] using ih hn

theorem Job.valid_scope {j : Job} {e : Emitter} (he : e.scope.Valid) :
    (j.emission e).emitter.scope.Valid := by
  cases j with
  | bootstrap => simpa only [Job.emission, Emission.bootstrap_apply] using he
  | module name lines =>
    simp only [Job.emission]
    cases hn : isModuleName name with
    | true =>
      rw [Emission.module_of_name hn]
      exact valid_scope_instructions Scope.valid_outer
    | false => rw [Emission.module_of_not_name hn]; exact he

/-- **Every block of a session has passed the checks.** -/
theorem sound_of_mem_sessionBlocks {jobs : List Job} {e : Emitter} (he : e.scope.Valid) :
    ∀ b ∈ sessionBlocks jobs e, b.Sound := by
  induction jobs generalizing e with
  | nil => intro b hb; cases hb
  | cons j jobs ih =>
    intro b hb
    rw [sessionBlocks, List.mem_append] at hb
    rcases hb with hb | hb
    · cases j with
      | bootstrap => rw [List.mem_singleton.mp hb]; trivial
      | module name lines =>
        simp only [Job.blocks] at hb
        split at hb
        · exact sound_of_mem_instructionBlocks ‹_› Scope.valid_outer b hb
        · cases hb
    · exact ih (Job.valid_scope he) b hb

/-! ## Numbers only go up -/

/-- No number of the first emitter is above that of the second. -/
def Emitter.Before (e e' : Emitter) : Prop := e.compares ≤ e'.compares ∧ e.calls ≤ e'.calls

theorem Emitter.before_refl (e : Emitter) : e.Before e := ⟨Nat.le_refl _, Nat.le_refl _⟩

theorem Emitter.Before.trans {e f g : Emitter} (h : e.Before f) (h' : f.Before g) : e.Before g :=
  ⟨Nat.le_trans h.1 h'.1, Nat.le_trans h.2 h'.2⟩

theorem Command.before_next (c : Command) (e : Emitter) : e.Before (c.next e) :=
  ⟨Nat.le_add_right .., Nat.le_add_right ..⟩

/-- Blocks that were written, one after the other, between two emitters. -/
structure Ascending (e : Emitter) (bs : List Block) (e' : Emitter) : Prop where
  whole : e.Before e'
  first : ∀ b ∈ bs, e.Before b.emitter
  last : ∀ b ∈ bs, b.after.Before e'
  between : bs.Pairwise fun b b' => b.after.Before b'.emitter

theorem Ascending.nil {e e' : Emitter} (h : e.Before e') : Ascending e [] e' :=
  ⟨h, fun _ hb => (nomatch hb), fun _ hb => (nomatch hb), List.Pairwise.nil⟩

theorem Ascending.singleton {b : Block} (h : b.emitter.Before b.after) :
    Ascending b.emitter [b] b.after := by
  refine ⟨h, ?_, ?_, List.pairwise_singleton _ _⟩
  · intro b' hb'
    rw [List.mem_singleton.mp hb']
    exact Emitter.before_refl _
  · intro b' hb'
    rw [List.mem_singleton.mp hb']
    exact Emitter.before_refl _

theorem Ascending.append {e f g : Emitter} {bs cs : List Block} (h : Ascending e bs f)
    (h' : Ascending f cs g) : Ascending e (bs ++ cs) g := by
  refine ⟨h.whole.trans h'.whole, ?_, ?_, List.pairwise_append.mpr ⟨h.between, h'.between, ?_⟩⟩
  · intro b hb
    rcases List.mem_append.mp hb with hb | hb
    · exact h.first b hb
    · exact h.whole.trans (h'.first b hb)
  · intro b hb
    rcases List.mem_append.mp hb with hb | hb
    · exact (h.last b hb).trans h'.whole
    · exact h'.last b hb
  · intro b hb b' hb'
    exact (h.last b hb).trans (h'.first b' hb')

theorem ascending_instructionBlocks (module : String) (is : List Instruction) (e : Emitter) :
    Ascending e (instructionBlocks module is e) (Emission.instructions module is e).emitter := by
  induction is generalizing e with
  | nil => exact .nil (Emitter.before_refl e)
  | cons i rest ih =>
    rw [Emission.instructions_cons, instructionBlocks]
    cases hc : Command.ofInstruction i with
    | error fault => exact .nil (Emitter.before_refl e)
    | ok c =>
      cases hl : c.code module e with
      | error fault =>
        simp only [hl]
        exact .nil (c.before_next e)
      | ok lines =>
        simp only [hl]
        have hb : Ascending e [.command module e c] (c.next e) := by
          rw [← Block.after_command module e c]
          refine Ascending.singleton (b := .command module e c) ?_
          rw [Block.after_command]
          exact c.before_next e
        exact hb.append (ih (c.next e))

theorem Job.ascending_blocks (j : Job) (e : Emitter) :
    Ascending e (j.blocks e) (j.emission e).emitter := by
  cases j with
  | bootstrap =>
    refine Ascending.singleton (b := .start e) ?_
    rw [Block.after_start]
    exact ⟨Nat.le_refl _, Nat.le_succ _⟩
  | module name lines =>
    simp only [Job.emission, Job.blocks]
    cases hn : isModuleName name with
    | true =>
      rw [Emission.module_of_name hn, if_pos rfl]
      have ho : Ascending e [] { e with scope := .outer } := .nil (Emitter.before_refl e)
      exact ho.append (ascending_instructionBlocks name (Instruction.ofLines lines) _)
    | false =>
      rw [Emission.module_of_not_name hn]
      exact .nil (Emitter.before_refl e)

/-- **Numbers only go up in a session**: the numbers that a block may give out lie
above all that were given out before it. -/
theorem ascending_sessionBlocks (jobs : List Job) (e : Emitter) :
    (sessionBlocks jobs e).Pairwise fun b b' => b.after.Before b'.emitter := by
  suffices h : ∃ e', Ascending e (sessionBlocks jobs e) e' by
    obtain ⟨e', h⟩ := h
    exact h.between
  induction jobs generalizing e with
  | nil => exact ⟨e, .nil (Emitter.before_refl e)⟩
  | cons j jobs ih =>
    obtain ⟨e', h⟩ := ih (j.emission e).emitter
    exact ⟨e', (j.ascending_blocks e).append h⟩

end HackVM
