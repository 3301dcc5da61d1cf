import HackVM.Proofs.Session
import HackVM.Workbench

/-! # Writers and the objects that they share

An emission is given one emitter and nothing else, so it could not look at a listing or at
another emitter if it wanted to.  Here the same operations are written on a **store** that
holds the listings, the scopes and the counters of all writers as objects.  A writer refers
to its objects, several writers may refer to one listing, and an operation may read and
change whatever is in the store; what it has changed stays changed when it fails.

What an operation of a writer does is then something to prove, operation by operation
(`Confined`): it does what the emission of that name does with the writer's own scope and
counters, adds the code to the writer's listing, whatever stands there, and leaves every
other object alone (`Confined.frame`). -/
namespace HackVM

open Asm

/-- The objects of a number of writers. -/
structure Store where
  listings : List Listing
  scopes : List Scope
  /-- How many comparisons, or calls, have been numbered. -/
  counters : List Nat

/-- An operation on a store. -/
abbrev Action := EStateM Fault Store

/-- What a writer refers to. -/
structure Writer where
  listing : Nat
  scope : Nat
  /-- The counter of comparisons. -/
  compares : Nat
  /-- The counter of calls. -/
  calls : Nat
deriving DecidableEq

/-! ## Operations -/

namespace Store

/-- The lines of a listing. -/
def lines (s : Store) (listing : Nat) : List String := (s.listings.getD listing ⟨[]⟩).lines

/-- Adds code to a listing. -/
def add (s : Store) (listing : Nat) (code : List Line) : Store :=
  { s with listings := s.listings.modify listing (·.append code) }

/-- A new writer for a listing, with a scope and counters of its own. -/
def attach (s : Store) (listing : Nat) : Writer × Store :=
  (⟨listing, s.scopes.length, s.counters.length, s.counters.length + 1⟩,
    { s with scopes := s.scopes ++ [.outer], counters := s.counters ++ [0, 0] })

end Store

namespace Action

/-- The result of a check. -/
def check {α : Type} (r : Except Fault α) : Action α := fun s =>
  match r with
  | .ok a => .ok a s
  | .error fault => .error fault s

/-- The action with its fault changed, if it fails. -/
def mapFault {α : Type} (f : Fault → Fault) (a : Action α) : Action α := fun s =>
  match a s with
  | .ok x s' => .ok x s'
  | .error fault s' => .error (f fault) s'

/-- The result of an action. -/
def result {α : Type} (a : Action α) (s : Store) : Except Fault α :=
  match a s with
  | .ok x _ => .ok x
  | .error fault _ => .error fault

/-- The store after an action, whether it succeeds or fails. -/
def after {α : Type} (a : Action α) (s : Store) : Store :=
  match a s with
  | .ok _ s' => s'
  | .error _ s' => s'

end Action

/-- Answers from what the emitter is and moves it on, without writing anything. -/
def Emission.answer {α : Type} (r : Emitter → Except Fault α) (next : Emitter → Emitter) :
    Emission α := fun e => ⟨r e, [], next e⟩

theorem Emission.answer_bind {α β : Type} (r : Emitter → Except Fault α)
    (next : Emitter → Emitter) (g : α → Emission β) (e : Emitter) :
    (answer r next >>= g) e =
      match r e with
      | .ok x => g x (next e)
      | .error fault => ⟨.error fault, [], next e⟩ := by
  cases h : r e with
  | ok x =>
    rw [bind_ok (show (answer r next e).result = .ok x from h)]
    rfl
  | error fault =>
    rw [bind_error (show (answer r next e).result = .error fault from h)]
    rfl

namespace Writer

variable (w : Writer)

/-- Adds code to the listing. -/
def add (code : List Line) : Action Unit := modify fun s => s.add w.listing code

/-- The scope of labels. -/
def getScope : Action Scope := do
  let s ← get
  pure (s.scopes.getD w.scope .outer)

/-- Changes the scope of labels. -/
def setScope (scope : Scope) : Action Unit :=
  modify fun s => { s with scopes := s.scopes.set w.scope scope }

/-- Takes the next number from a counter. -/
def takeNumber (counter : Nat) : Action Nat := do
  let s ← get
  let number := s.counters.getD counter 0
  set { s with counters := s.counters.set counter (number + 1) }
  pure number

/-- The code of a call, which takes its number first. -/
def translateCall (name : String) (arguments : Int) (scope : String) : Action (List Line) := do
  let number ← takeNumber w.calls
  Action.check (Code.call name arguments scope number)

/-- The code of a command of a module. -/
def translate (module : String) : Command → Action (List Line)
  | .push segment index => Action.check (Code.push segment index module)
  | .pop segment index => Action.check (Code.pop segment index module)
  | .operate (.binary op) => pure (Code.binary op)
  | .operate (.unary op) => pure (Code.unary op)
  | .operate (.compare comparison) => do
    let number ← takeNumber w.compares
    pure (Code.compare comparison module number)
  | .label name => do
    let scope ← w.getScope
    pure [.label (scope.label name module)]
  | .goto name => do
    let scope ← w.getScope
    pure (Code.jumpTo (scope.label name module))
  | .ifGoto name => do
    let scope ← w.getScope
    pure (Code.jumpIf (scope.label name module))
  | .function name locals => do
    w.setScope ⟨some name⟩
    pure (Code.function name locals)
  | .call name arguments => do
    let scope ← w.getScope
    w.translateCall name arguments (scope.name module)
  | .ret => pure Code.ret

/-- Writes a command of a module. -/
def command (module : String) (c : Command) : Action Unit := do
  let code ← w.translate module c
  w.add code

/-- Writes the start of a program. -/
def bootstrap : Action Unit := do
  let code ← w.translateCall Code.entryFunction 0 Code.startScope
  w.add (Code.startStack ++ code)

/-- Writes an instruction of a module. -/
def instruction (module : String) (i : Instruction) : Action Unit := do
  let c ← Action.check (Command.ofInstruction i)
  w.command module c

/-- Writes the instructions of a module, up to the first that is refused. -/
def instructions (module : String) : List Instruction → Action Unit
  | [] => pure ()
  | i :: rest => do
    w.instruction module i
    instructions module rest

/-- Writes a module. -/
def module (name : String) (lines : List String) : Action Unit :=
  if isModuleName name then do
    w.setScope .outer
    Action.mapFault (Fault.inModule name) (w.instructions name (Instruction.ofLines lines))
  else throw (.refused ⟨.invalidModuleName name, none, none⟩)

/-- Writes the module of a file, and answers its name. -/
def file (t : FileTree) (p : Path) : Action String :=
  match t.readText p with
  | .error problem => throw (problem.fault p)
  | .ok text => do
    w.module p.stem (Text.lines text)
    pure p.stem

/-- Writes the modules of several files, and answers their names. -/
def files (t : FileTree) : List Path → Action (List String)
  | [] => pure []
  | p :: rest => do
    let name ← w.file t p
    let names ← files t rest
    pure (name :: names)

/-- Writes the modules of a directory, and answers their names. -/
def directory (t : FileTree) (p : Path) : Action (List String) :=
  match t.status p with
  | .error e => throw (.file e)
  | .ok _ => w.files t (t.sources p)

/-- Does a task. -/
def perform (t : FileTree) : Task → Action Answer
  | .instruction m i => do
    w.instruction m i
    pure .done
  | .instructions m is => do
    w.instructions m is
    pure .done
  | .module name lines => do
    w.module name lines
    pure .done
  | .bootstrap => do
    w.bootstrap
    pure .done
  | .file p => do
    let name ← w.file t p
    pure (.name name)
  | .directory p => do
    let names ← w.directory t p
    pure (.names names)

/-! ## The objects of a writer -/

/-- The objects of a writer are in the store, and its two counters are not the same one. -/
structure Within (s : Store) : Prop where
  listing : w.listing < s.listings.length
  scope : w.scope < s.scopes.length
  compares : w.compares < s.counters.length
  calls : w.calls < s.counters.length
  distinct : w.compares ≠ w.calls

/-- The emitter that the scope and the counters of a writer make up. -/
def emitter (s : Store) : Emitter :=
  ⟨s.scopes.getD w.scope .outer, s.counters.getD w.compares 0, s.counters.getD w.calls 0⟩

/-- The store with a scope and counters put in the place of a writer's own. -/
def remember (s : Store) (e : Emitter) : Store :=
  { s with
    scopes := s.scopes.set w.scope e.scope
    counters := (s.counters.set w.compares e.compares).set w.calls e.calls }

/-- The store after an outcome: its code is added to the writer's listing, and the writer's
scope and counters are those of its emitter. -/
def settle {α : Type} (s : Store) (o : Outcome α) : Store :=
  (w.remember s o.emitter).add w.listing o.code

/-- An outcome as the end of an action. -/
def ending {α : Type} (s : Store) (o : Outcome α) : EStateM.Result Fault Store α :=
  match o.result with
  | .ok a => .ok a (w.settle s o)
  | .error fault => .error fault (w.settle s o)

/-- **An action of a writer is confined to its objects**: it does what an emission does with
the writer's own scope and counters, and nothing else. -/
def Confined {α : Type} (a : Action α) (m : Emission α) : Prop :=
  ∀ s, w.Within s → a s = w.ending s (m (w.emitter s))

variable {w} {s : Store}

theorem emitter_remember (h : w.Within s) (e : Emitter) : w.emitter (w.remember s e) = e := by
  have hcompares : w.compares < (s.counters.set w.compares e.compares).length := by
    rw [List.length_set]
    exact h.compares
  have hcalls : w.calls < (s.counters.set w.compares e.compares).length := by
    rw [List.length_set]
    exact h.calls
  simp only [emitter, Writer.remember, List.getD_eq_getElem?_getD, List.getElem?_set_self h.scope,
    List.getElem?_set_self hcalls, List.getElem?_set_ne h.distinct.symm,
    List.getElem?_set_self h.compares, Option.getD_some]

/-- The objects of a writer stay in the store whichever writer's outcome is settled. -/
theorem Within.settle {α : Type} {w' : Writer} (h : w'.Within s) (w : Writer) (o : Outcome α) :
    w'.Within (w.settle s o) where
  listing := by
    show w'.listing < (s.listings.modify w.listing _).length
    rw [List.length_modify]
    exact h.listing
  scope := by
    show w'.scope < (s.scopes.set w.scope _).length
    rw [List.length_set]
    exact h.scope
  compares := by
    show w'.compares < ((s.counters.set w.compares _).set w.calls _).length
    rw [List.length_set, List.length_set]
    exact h.compares
  calls := by
    show w'.calls < ((s.counters.set w.compares _).set w.calls _).length
    rw [List.length_set, List.length_set]
    exact h.calls
  distinct := h.distinct

theorem emitter_settle {α : Type} (h : w.Within s) (o : Outcome α) :
    w.emitter (w.settle s o) = o.emitter := emitter_remember h o.emitter

theorem remember_remember (h : w.Within s) (e e' : Emitter) :
    w.remember (w.remember s e) e' = w.remember s e' := by
  simp only [Writer.remember, List.set_set, List.set_comm _ _ h.distinct]

theorem remember_emitter (w : Writer) (s : Store) : w.remember s (w.emitter s) = s := by
  have hcompares := set_getD_self s.counters w.compares 0
  have hcalls := set_getD_self s.counters w.calls 0
  have hscope := set_getD_self s.scopes w.scope .outer
  simp only [Writer.remember, emitter, hcompares, hcalls, hscope]

/-! ## Adding to a listing -/

theorem add_nil (s : Store) (r : Nat) : s.add r [] = s := by
  have happend : (fun l : Listing => l.append []) = id := by
    funext l
    simp [Listing.append, Listing.add]
  rw [Store.add, happend, List.modify_id]

theorem add_add (s : Store) (r : Nat) (code code' : List Line) :
    (s.add r code).add r code' = s.add r (code ++ code') := by
  have happend : (fun l : Listing => l.append code') ∘ (fun l : Listing => l.append code) =
      fun l : Listing => l.append (code ++ code') := by
    funext l
    simp [Listing.append, Listing.add, List.append_assoc]
  simp only [Store.add, List.modify_modify_eq, happend]

/-- Two outcomes, one after the other, settle as one. -/
theorem settle_settle {α β : Type} (h : w.Within s) (o : Outcome α) (o' : Outcome β) :
    w.settle (w.settle s o) o' =
      w.settle s (⟨o'.result, o.code ++ o'.code, o'.emitter⟩ : Outcome β) := by
  have hremember : w.remember (w.settle s o) o'.emitter =
      (w.remember s o'.emitter).add w.listing o.code := by
    rw [← remember_remember h o.emitter]
    rfl
  show (w.remember (w.settle s o) o'.emitter).add w.listing o'.code = _
  rw [hremember, add_add]
  rfl

/-- An answer changes no listing. -/
theorem settle_answer {α : Type} (w : Writer) (s : Store) (r : Emitter → Except Fault α)
    (next : Emitter → Emitter) (e : Emitter) :
    w.settle s (Emission.answer r next e) = w.remember s (next e) := add_nil _ w.listing

/-! ## What each operation does -/

theorem ending_ok {α : Type} {o : Outcome α} {x : α} (h : o.result = .ok x) :
    w.ending s o = .ok x (w.settle s o) := by
  rw [ending, h]

theorem ending_error {α : Type} {o : Outcome α} {fault : Fault} (h : o.result = .error fault) :
    w.ending s o = .error fault (w.settle s o) := by
  rw [ending, h]

/-- An outcome without code that leaves the emitter as it was leaves the store as it was. -/
theorem settle_of_unchanged {α : Type} {o : Outcome α} (hcode : o.code = [])
    (hemitter : o.emitter = w.emitter s) : w.settle s o = s := by
  rw [settle, hcode, hemitter, add_nil, remember_emitter]

section Confined

variable {α β : Type}

theorem confined_check (w : Writer) (r : Except Fault α) :
    w.Confined (Action.check r) (Emission.check r) := by
  intro s _
  have hsettle : w.settle s (Emission.check r (w.emitter s)) = s := settle_of_unchanged rfl rfl
  cases r with
  | ok x =>
    rw [ending_ok rfl, hsettle]
    rfl
  | error fault =>
    rw [ending_error rfl, hsettle]
    rfl

theorem confined_pure (w : Writer) (x : α) : w.Confined (pure x) (pure x) :=
  confined_check w (.ok x)

theorem confined_throw (w : Writer) (fault : Fault) :
    w.Confined (throw fault : Action α) (Emission.fail fault) := confined_check w (.error fault)

theorem confined_add (w : Writer) (code : List Line) :
    w.Confined (w.add code) (Emission.emit code) := by
  intro s _
  have hsettle : w.settle s (Emission.emit code (w.emitter s)) = s.add w.listing code :=
    congrArg (Store.add · w.listing code) (remember_emitter w s)
  rw [ending_ok rfl, hsettle]
  rfl

theorem confined_getScope (w : Writer) :
    w.Confined w.getScope (.answer (fun e => .ok e.scope) id) := by
  intro s _
  rw [ending_ok rfl, settle_of_unchanged rfl rfl]
  rfl

theorem confined_setScope (w : Writer) (scope : Scope) :
    w.Confined (w.setScope scope) (Emission.modify fun e => { e with scope := scope }) := by
  intro s _
  have hcompares := set_getD_self s.counters w.compares 0
  have hcalls := set_getD_self s.counters w.calls 0
  rw [ending_ok rfl, settle, Emission.modify_apply, add_nil, remember]
  simp only [emitter, hcompares, hcalls]
  rfl

theorem confined_takeCompare (w : Writer) :
    w.Confined (takeNumber w.compares)
      (.answer (fun e => .ok e.compares) fun e => { e with compares := e.compares + 1 }) := by
  intro s hs
  have hscope := set_getD_self s.scopes w.scope .outer
  have hcalls : (s.counters.set w.compares (s.counters.getD w.compares 0 + 1)).set w.calls
      (s.counters.getD w.calls 0) =
        s.counters.set w.compares (s.counters.getD w.compares 0 + 1) := by
    rw [List.set_comm _ _ hs.distinct, set_getD_self]
  rw [ending_ok rfl, settle_answer, remember]
  simp only [emitter, hscope, hcalls]
  rfl

theorem confined_takeCall (w : Writer) :
    w.Confined (takeNumber w.calls)
      (.answer (fun e => .ok e.calls) fun e => { e with calls := e.calls + 1 }) := by
  intro s hs
  have hscope := set_getD_self s.scopes w.scope .outer
  have hcompares := set_getD_self s.counters w.compares 0
  rw [ending_ok rfl, settle_answer, remember]
  simp only [emitter, hscope, hcompares]
  rfl

/-- Confined actions can be done one after the other. -/
theorem Confined.bind {a : Action α} {m : Emission α} {f : α → Action β} {g : α → Emission β}
    (ha : w.Confined a m) (hf : ∀ x, w.Confined (f x) (g x)) :
    w.Confined (a >>= f) (m >>= g) := by
  intro s hs
  show EStateM.bind a f s = _
  rw [EStateM.bind, ha s hs]
  cases hr : (m (w.emitter s)).result with
  | error fault =>
    rw [Emission.bind_error hr, ending_error hr, ending_error rfl]
    rfl
  | ok x =>
    have hnext := hf x _ (hs.settle w (m (w.emitter s)))
    rw [emitter_settle hs] at hnext
    rw [Emission.bind_ok hr, ending_ok hr]
    show f x _ = _
    rw [hnext]
    unfold ending
    rw [settle_settle hs]

theorem Confined.mapFault {a : Action α} {m : Emission α} (ha : w.Confined a m)
    (f : Fault → Fault) : w.Confined (Action.mapFault f a) (Emission.mapFault f m) := by
  intro s hs
  cases hr : (m (w.emitter s)).result with
  | error fault =>
    have hmapped : (Emission.mapFault f m (w.emitter s)).result = .error (f fault) :=
      congrArg (Except.mapError f) hr
    rw [Action.mapFault, ha s hs, ending_error hr, ending_error hmapped]
    rfl
  | ok x =>
    have hmapped : (Emission.mapFault f m (w.emitter s)).result = .ok x :=
      congrArg (Except.mapError f) hr
    rw [Action.mapFault, ha s hs, ending_ok hr, ending_ok hmapped]
    rfl

/-- Emissions that do the same confine the same actions. -/
theorem Confined.congr {a : Action α} {m m' : Emission α} (ha : w.Confined a m)
    (h : ∀ e, m e = m' e) : w.Confined a m' := by
  intro s hs
  rw [ha s hs, h]

end Confined

theorem confined_translateCall (w : Writer) (name : String) (arguments : Int) (scope : String) :
    w.Confined (w.translateCall name arguments scope)
      (.answer (fun e => Code.call name arguments scope e.calls)
        fun e => { e with calls := e.calls + 1 }) := by
  refine ((confined_takeCall w).bind fun number =>
    confined_check w (Code.call name arguments scope number)).congr ?_
  intro e
  rw [Emission.answer_bind]
  rfl

/-- The code of a command depends on the writer's own scope and counters. -/
theorem confined_translate (w : Writer) (module : String) (c : Command) :
    w.Confined (w.translate module c) (.answer (fun e => c.code module e) c.next) := by
  have hscope (f : Scope → List Line) :
      w.Confined (w.getScope >>= fun scope => pure (f scope))
        (.answer (fun e => .ok (f e.scope)) id) :=
    (confined_getScope w).bind fun scope => confined_pure w (f scope)
  cases c with
  | push segment index => exact confined_check w (Code.push segment index module)
  | pop segment index => exact confined_check w (Code.pop segment index module)
  | operate op =>
    cases op with
    | binary op => exact confined_pure w (Code.binary op)
    | unary op => exact confined_pure w (Code.unary op)
    | compare comparison =>
      exact (confined_takeCompare w).bind fun number =>
        confined_pure w (Code.compare comparison module number)
  | label name => exact hscope fun scope => [.label (scope.label name module)]
  | goto name => exact hscope fun scope => Code.jumpTo (scope.label name module)
  | ifGoto name => exact hscope fun scope => Code.jumpIf (scope.label name module)
  | function name locals =>
    exact (confined_setScope w ⟨some name⟩).bind fun _ =>
      confined_pure w (Code.function name locals)
  | call name arguments =>
    refine ((confined_getScope w).bind fun scope =>
      confined_translateCall w name arguments (scope.name module)).congr ?_
    intro e
    rw [Emission.answer_bind]
    simp only [Emission.answer, Command.code, id]
    rfl
  | ret => exact confined_pure w Code.ret

theorem confined_command (w : Writer) (module : String) (c : Command) :
    w.Confined (w.command module c) (Emission.command module c) := by
  refine ((confined_translate w module c).bind fun code => confined_add w code).congr ?_
  intro e
  rw [Emission.answer_bind, Emission.command_apply]
  cases c.code module e with
  | ok code => rfl
  | error fault => rfl

theorem confined_bootstrap (w : Writer) : w.Confined w.bootstrap Emission.bootstrap := by
  refine ((confined_translateCall w Code.entryFunction 0 Code.startScope).bind fun code =>
    confined_add w (Code.startStack ++ code)).congr ?_
  intro e
  have hwritable : Text.isWritable (0 + (Code.frameSize : Int)) = true :=
    Text.isWritable_of_lt (n := 5) (by decide)
  rw [Emission.answer_bind, Emission.bootstrap_apply, Code.call_eq, if_pos hwritable, Int.zero_add]
  rfl

theorem confined_instruction (w : Writer) (module : String) (i : Instruction) :
    w.Confined (w.instruction module i) (Emission.instruction module i) :=
  (confined_check w (Command.ofInstruction i)).bind fun c => confined_command w module c

theorem confined_instructions (w : Writer) (module : String) (is : List Instruction) :
    w.Confined (w.instructions module is) (Emission.instructions module is) := by
  induction is with
  | nil => exact confined_pure w ()
  | cons i rest ih => exact (confined_instruction w module i).bind fun _ => ih

theorem confined_module (w : Writer) (name : String) (lines : List String) :
    w.Confined (w.module name lines) (Emission.module name lines) := by
  unfold Writer.module Emission.module
  cases isModuleName name with
  | true =>
    exact (confined_setScope w .outer).bind fun _ =>
      (confined_instructions w name (Instruction.ofLines lines)).mapFault (Fault.inModule name)
  | false => exact confined_throw w (.refused ⟨.invalidModuleName name, none, none⟩)

theorem confined_file (w : Writer) (t : FileTree) (p : Path) :
    w.Confined (w.file t p) (Emission.file t p) := by
  unfold Writer.file Emission.file
  cases t.readText p with
  | error problem => exact confined_throw w (problem.fault p)
  | ok text =>
    exact (confined_module w p.stem (Text.lines text)).bind fun _ => confined_pure w p.stem

theorem confined_files (w : Writer) (t : FileTree) (paths : List Path) :
    w.Confined (w.files t paths) (Emission.files t paths) := by
  induction paths with
  | nil => exact confined_pure w []
  | cons p rest ih =>
    exact (confined_file w t p).bind fun name =>
      ih.bind fun names => confined_pure w (name :: names)

theorem confined_directory (w : Writer) (t : FileTree) (p : Path) :
    w.Confined (w.directory t p) (Emission.directory t p) := by
  unfold Writer.directory Emission.directory
  cases t.status p with
  | error e => exact confined_throw w (.file e)
  | ok _ => exact confined_files w t (t.sources p)

/-- **Every task of a writer is confined to its objects.** -/
theorem confined_perform (w : Writer) (t : FileTree) (task : Task) :
    w.Confined (w.perform t task) (task.emission t) := by
  have hdone := confined_pure w Answer.done
  cases task with
  | instruction m i => exact (confined_instruction w m i).bind fun _ => hdone
  | instructions m is => exact (confined_instructions w m is).bind fun _ => hdone
  | module name lines => exact (confined_module w name lines).bind fun _ => hdone
  | bootstrap => exact (confined_bootstrap w).bind fun _ => hdone
  | file p => exact (confined_file w t p).bind fun name => confined_pure w (Answer.name name)
  | directory p =>
    exact (confined_directory w t p).bind fun names => confined_pure w (Answer.names names)

/-! ## What a task leaves alone -/

/-- Two stores between which only the objects of a writer differ, and its listing only by
the lines that it has gained at its end. -/
structure Frame (w : Writer) (s s' : Store) (added : List String) : Prop where
  gained : s'.lines w.listing = s.lines w.listing ++ added
  listings : ∀ r, r ≠ w.listing → s'.listings[r]? = s.listings[r]?
  scopes : ∀ r, r ≠ w.scope → s'.scopes[r]? = s.scopes[r]?
  counters : ∀ r, r ≠ w.compares → r ≠ w.calls → s'.counters[r]? = s.counters[r]?

theorem frame_settle {α : Type} (h : w.Within s) (o : Outcome α) :
    w.Frame s (w.settle s o) (o.code.map Line.text) where
  gained := by
    have hlisting := List.getElem?_eq_getElem h.listing
    show ((s.listings.modify w.listing (·.append o.code)).getD w.listing ⟨[]⟩).lines =
      (s.listings.getD w.listing ⟨[]⟩).lines ++ _
    rw [List.getD_eq_getElem?_getD, List.getD_eq_getElem?_getD, List.getElem?_modify_eq, hlisting]
    rfl
  listings := by
    intro r hr
    exact List.getElem?_modify_ne _ _ hr.symm
  scopes := by
    intro r hr
    exact List.getElem?_set_ne hr.symm
  counters := by
    intro r hcompares hcalls
    show ((s.counters.set w.compares _).set w.calls _)[r]? = _
    rw [List.getElem?_set_ne hcalls.symm, List.getElem?_set_ne hcompares.symm]

theorem Confined.result {α : Type} {a : Action α} {m : Emission α} (ha : w.Confined a m)
    (h : w.Within s) : Action.result a s = (m (w.emitter s)).result := by
  rw [Action.result, ha s h]
  cases hr : (m (w.emitter s)).result with
  | ok x => rw [ending_ok hr]
  | error fault => rw [ending_error hr]

theorem Confined.after {α : Type} {a : Action α} {m : Emission α} (ha : w.Confined a m)
    (h : w.Within s) : Action.after a s = w.settle s (m (w.emitter s)) := by
  rw [Action.after, ha s h]
  cases hr : (m (w.emitter s)).result with
  | ok x => rw [ending_ok hr]
  | error fault => rw [ending_error hr]

/-- **A confined action leaves everything alone but its writer's objects.** -/
theorem Confined.frame {α : Type} {a : Action α} {m : Emission α} (ha : w.Confined a m)
    (h : w.Within s) :
    w.Frame s (Action.after a s) ((m (w.emitter s)).code.map Line.text) := by
  rw [ha.after h]
  exact frame_settle h _

/-- Two writers that have no scope and no counter in common; they may have one listing. -/
structure Apart (w w' : Writer) : Prop where
  scope : w'.scope ≠ w.scope
  compares : w'.compares ≠ w.compares ∧ w'.compares ≠ w.calls
  calls : w'.calls ≠ w.compares ∧ w'.calls ≠ w.calls

/-- What one writer does never reaches the scope and the counters of another. -/
theorem Frame.emitter_of_apart {w' : Writer} {s' : Store} {added : List String}
    (h : w.Frame s s' added) (hapart : w.Apart w') : w'.emitter s' = w'.emitter s := by
  have hscope := h.scopes _ hapart.scope
  have hcompares := h.counters _ hapart.compares.1 hapart.compares.2
  have hcalls := h.counters _ hapart.calls.1 hapart.calls.2
  simp only [emitter, List.getD_eq_getElem?_getD, hscope, hcompares, hcalls]

end Writer
end HackVM
