import HackVM.Hack.Assembly
import HackVM.Proofs.BlockSymbols
import Mathlib.Data.List.Nodup

/-! # Names that the source declares

Functions and labels of the source, static variables and the machine's own names
all become symbols of one assembly program.  The module says exactly which of them
can meet there.  A session declares functions, and labels that belong to a function
or to a module before its first function (`declarations`).  If nothing is declared
twice, the labels that the listing defines for them are pairwise distinct unless a
function has the name of a module and both declare the same label, and none of them
is a name of the machine's own or a static variable unless a function has that
name (`declared_labels_distinct_and_apart`).  Each of the three exceptions
occurs (`declared_labels_meet`): the checks on names allow it. -/
namespace HackVM

open Asm

/-- What a label belongs to: a function, or a module before its first function. -/
inductive Owner where
  | module (name : String)
  | function (name : String)
deriving DecidableEq

/-- The name of an owner. -/
def Owner.name : Owner → String
  | .module name => name
  | .function name => name

/-- Something that the source declares. -/
inductive Declaration where
  | function (name : String)
  | label (owner : Owner) (name : String)
deriving DecidableEq

/-- The symbol of a declaration. -/
def Declaration.symbol : Declaration → Symbol
  | .function name => .entry name
  | .label owner name => .label owner.name name

/-- The declarations of instructions, of which the first belongs to `owner`. -/
def declarationsFrom (owner : Owner) : List Instruction → List Declaration
  | [] => []
  | ⟨_, "function", name :: _⟩ :: rest => .function name :: declarationsFrom (.function name) rest
  | ⟨_, "label", name :: _⟩ :: rest => .label owner name :: declarationsFrom owner rest
  | _ :: rest => declarationsFrom owner rest

/-- The declarations of a job. -/
def Job.declarations : Job → List Declaration
  | .bootstrap => []
  | .module name lines => declarationsFrom (.module name) (Instruction.ofLines lines)

/-- The declarations of a session, in order. -/
def declarations (jobs : List Job) : List Declaration := jobs.flatMap Job.declarations

/-- The labels, as texts, that the code of a session defines for functions and
labels of the source, in order. -/
def declaredLabels (jobs : List Job) : List String :=
  ((defined (program jobs)).filter (·.IsDeclared)).map Symbol.text

/-- The names of the machine's own. -/
def machineNames : List String := Hack.predefined.map Prod.fst

/-! ## Declarations and the commands that were read -/

/-- What labels of a scope belong to. -/
def Scope.owner (s : Scope) (module : String) : Owner :=
  match s.function with
  | none => .module module
  | some f => .function f

theorem ne_empty_of_isSymbolName {f : String} (h : isSymbolName f = true) : f ≠ "" := by
  rintro rfl
  exact absurd h (by decide)

theorem Scope.name_owner {s : Scope} (hs : s.Valid) (m : String) : (s.owner m).name = s.name m := by
  obtain ⟨_ | f⟩ := s
  · rfl
  · show f = if f = "" then m else f
    rw [if_neg (ne_empty_of_isSymbolName (hs f rfl))]

theorem declarationsFrom_of_ne {i : Instruction} (hf : i.name ≠ "function") (hl : i.name ≠ "label")
    (owner : Owner) (rest : List Instruction) :
    declarationsFrom owner (i :: rest) = declarationsFrom owner rest := by
  obtain ⟨line, name, arguments⟩ := i
  rw [declarationsFrom]
  · rintro _ _ _ ⟨⟩
    exact hf rfl
  · rintro _ _ _ ⟨⟩
    exact hl rfl

/-- An instruction declares what the block of its command declares. -/
theorem declarationsFrom_cons {i : Instruction} {c : Command} (hc : c.ReadFrom i) {e : Emitter}
    (he : e.scope.Valid) (m : String) (rest : List Instruction) :
    (declarationsFrom (e.scope.owner m) (i :: rest)).map Declaration.symbol =
      (Block.command m e c).declared ++
        (declarationsFrom ((c.next e).scope.owner m) rest).map Declaration.symbol := by
  obtain ⟨line, name, arguments⟩ := i
  cases c with
  | function f locals =>
    obtain ⟨rfl, -, t, rfl, -⟩ := hc
    rfl
  | label l =>
    obtain ⟨rfl, rfl, -⟩ := hc
    show Symbol.label (e.scope.owner m).name l :: _ = Symbol.label (e.scope.name m) l :: _
    rw [Scope.name_owner he]
    rfl
  | operate op =>
    -- no operation has the name of a command that declares something
    have hn : name ∉ ["function", "label"] := by
      rw [show name = op.name from Command.name_of_readFrom hc]
      exact Command.operationName_notMem (by decide) op
    simp only [List.mem_cons, List.not_mem_nil, or_false, not_or] at hn
    rw [declarationsFrom_of_ne hn.1 hn.2]
    rfl
  | push segment index | pop segment index =>
    obtain ⟨_, _, rfl, -⟩ := hc
    rw [declarationsFrom_of_ne (by simp) (by simp)]
    rfl
  | goto l | ifGoto l | call f n | ret =>
    obtain ⟨rfl, -⟩ := hc
    rw [declarationsFrom_of_ne (by simp) (by simp)]
    rfl

/-- If all instructions succeed, their blocks declare what the source declares. -/
theorem flatMap_declared_instructionBlocks {m : String} {is : List Instruction} {e : Emitter}
    (he : e.scope.Valid) (hok : (Emission.instructions m is e).result.isOk = true) :
    (instructionBlocks m is e).flatMap Block.declared =
      (declarationsFrom (e.scope.owner m) is).map Declaration.symbol := by
  induction is generalizing e with
  | nil => rfl
  | cons i rest ih =>
    rw [Emission.instructions_cons] at hok
    rw [instructionBlocks]
    cases hc : Command.ofInstruction i with
    | error fault => simp [hc, Except.isOk, Except.toBool] at hok
    | ok c =>
      have hr := Command.readFrom_of_ofInstruction hc
      cases hl : c.code m e with
      | error fault => simp [hc, hl, Except.isOk, Except.toBool] at hok
      | ok lines =>
        simp only [hc, hl] at hok
        have hn : (c.next e).scope.Valid :=
          Command.valid_nextScope (Command.valid_of_readFrom hr) he
        simp only [hl, List.flatMap_cons]
        rw [declarationsFrom_cons hr he, ih hn hok]

theorem Job.flatMap_declared_blocks {j : Job} {e : Emitter}
    (hok : (j.emission e).result.isOk = true) :
    (j.blocks e).flatMap Block.declared = j.declarations.map Declaration.symbol := by
  cases j with
  | bootstrap => rfl
  | module name lines =>
    simp only [Job.emission] at hok
    cases hn : isModuleName name with
    | true =>
      rw [Emission.module_of_name hn] at hok
      simp only [isOk_mapError] at hok
      rw [Job.blocks, if_pos hn]
      exact flatMap_declared_instructionBlocks Scope.valid_outer hok
    | false =>
      rw [Emission.module_of_not_name hn] at hok
      cases hok

/-- **The code of a session that succeeds defines what its source declares.** -/
theorem flatMap_declared_sessionBlocks {jobs : List Job} {e : Emitter}
    (hok : succeeds jobs e = true) :
    (sessionBlocks jobs e).flatMap Block.declared = (declarations jobs).map Declaration.symbol := by
  induction jobs generalizing e with
  | nil => rfl
  | cons j jobs ih =>
    rw [succeeds, Bool.and_eq_true] at hok
    rw [sessionBlocks, List.flatMap_append, Job.flatMap_declared_blocks hok.1, ih hok.2,
      ← List.map_append]
    rfl

/-! ## Which names can meet -/

section Success

variable {jobs : List Job} (hok : succeeds jobs Emitter.start = true)
include hok

theorem filter_isDeclared_defined_program :
    (defined (program jobs)).filter (·.IsDeclared) =
      (declarations jobs).map Declaration.symbol := by
  rw [defined_program, List.filter_flatMap, ← flatMap_declared_sessionBlocks hok]
  show _ = (blocks jobs).flatMap Block.declared
  rw [List.flatMap_def, List.flatMap_def]
  refine congrArg List.flatten (List.map_congr_left fun b _ => ?_)
  rw [List.filter_append, List.filter_eq_self.mpr, List.filter_eq_nil_iff.mpr, List.append_nil]
  · intro s hs
    rw [decide_eq_true_eq]
    exact (Block.isGenerated_of_mem_generated hs).not_isDeclared
  · intro s hs
    exact decide_eq_true (Block.isDeclared_of_mem_declared hs)

theorem declaredLabels_eq_map :
    declaredLabels jobs = (declarations jobs).map fun d => d.symbol.text := by
  rw [declaredLabels, filter_isDeclared_defined_program hok, List.map_map]
  rfl

theorem valid_symbol_of_mem_declarations {d : Declaration} (hd : d ∈ declarations jobs) :
    d.symbol.Valid := by
  have hs : d.symbol ∈ (defined (program jobs)).filter (·.IsDeclared) := by
    rw [filter_isDeclared_defined_program hok]
    exact List.mem_map_of_mem hd
  exact valid_of_mem_defined_program jobs _ (List.mem_of_mem_filter hs)

end Success

/-- Two declarations have one text only if they are a label of a module and the same
label of a function with the module's name. -/
theorem Declaration.cases_of_text_eq {d d' : Declaration} (hv : d.symbol.Valid)
    (hv' : d'.symbol.Valid) (h : d.symbol.text = d'.symbol.text) :
    d = d' ∨ ∃ m l, (d = .label (.module m) l ∧ d' = .label (.function m) l) ∨
      (d = .label (.function m) l ∧ d' = .label (.module m) l) := by
  cases d with
  | function f =>
    cases d' with
    | function f' => exact .inl (congrArg function h)
    | label owner l =>
      have hd : '$' ∈ (Symbol.entry f).text.toList := by
        rw [show (Symbol.entry f).text = _ from h]
        exact Symbol.dollar_mem_labelText owner.name l
      exact absurd hd (dollar_notMem_of_isSymbolName hv)
  | label owner l =>
    cases d' with
    | function f' =>
      have hd : '$' ∈ (Symbol.entry f').text.toList := by
        rw [← show _ = (Symbol.entry f').text from h]
        exact Symbol.dollar_mem_labelText owner.name l
      exact absurd hd (dollar_notMem_of_isSymbolName hv')
    | label owner' l' =>
      -- the texts give back the label and the name of its owner, but not the kind of owner
      obtain ⟨ho, rfl⟩ := Symbol.labelText_injective hv.1 hv'.1 h
      cases owner with
      | module m =>
        cases owner' with
        | module m' => exact .inl (by rw [show m = m' from ho])
        | function f => exact .inr ⟨m, l, .inl ⟨rfl, by rw [show m = f from ho]⟩⟩
      | function f =>
        cases owner' with
        | module m => exact .inr ⟨m, l, .inr ⟨by rw [show f = m from ho], rfl⟩⟩
        | function f' => exact .inl (by rw [show f = f' from ho])

theorem dollar_notMem_of_mem_machineNames {t : String} (h : t ∈ machineNames) : '$' ∉ t.toList := by
  have hall : ∀ t ∈ machineNames, '$' ∉ t.toList := by decide
  exact hall t h

theorem dollar_notMem_of_mem_staticVariables {jobs : List Job} {t : String}
    (h : t ∈ staticVariables jobs) : '$' ∉ t.toList := by
  obtain ⟨s, hs, rfl⟩ := List.mem_map.mp h
  obtain ⟨hs, hstatic⟩ := List.mem_filter.mp hs
  have hstatic : s.IsStatic := of_decide_eq_true hstatic
  cases s with
  | static m index =>
    have hv := valid_of_mem_referred_program jobs _ hs
    exact Symbol.dollar_notMem_staticText hv.1 hv.2
  | _ => exact hstatic.elim

/-- **Which declared names can meet.**  In a session that succeeds and declares
nothing twice, the labels of functions and labels of the source are pairwise
distinct unless a module and a function of its name have a label in common, and
none of them is a name of the machine's own or a static variable unless a function
has that name: a label never has such a name, nor that of a function. -/
theorem declared_labels_distinct_and_apart (jobs : List Job)
    (hok : succeeds jobs Emitter.start = true) (hnodup : (declarations jobs).Nodup) :
    ((declaredLabels jobs).Nodup ↔ ∀ m l, .label (.module m) l ∈ declarations jobs →
        .label (.function m) l ∉ declarations jobs) ∧
      ((∀ t ∈ declaredLabels jobs, t ∉ machineNames ∧ t ∉ staticVariables jobs) ↔
        ∀ f, .function f ∈ declarations jobs → f ∉ machineNames ∧ f ∉ staticVariables jobs) ∧
      (∀ owner l, .label owner l ∈ declarations jobs →
        owner.name ++ "$" ++ l ∉ machineNames ∧ owner.name ++ "$" ++ l ∉ staticVariables jobs) ∧
      ∀ f owner l, .function f ∈ declarations jobs → .label owner l ∈ declarations jobs →
        f ≠ owner.name ++ "$" ++ l := by
  have hlabel : ∀ owner l, .label owner l ∈ declarations jobs →
      owner.name ++ "$" ++ l ∉ machineNames ∧ owner.name ++ "$" ++ l ∉ staticVariables jobs := by
    intro owner l _
    have hdollar := Symbol.dollar_mem_labelText owner.name l
    exact ⟨fun hm => dollar_notMem_of_mem_machineNames hm hdollar,
      fun hs => dollar_notMem_of_mem_staticVariables hs hdollar⟩
  rw [declaredLabels_eq_map hok]
  refine ⟨?_, ?_, hlabel, ?_⟩
  · rw [List.nodup_map_iff_inj_on hnodup]
    constructor
    · intro hinj m l hm hf
      exact absurd (hinj _ hm _ hf rfl) (by simp)
    · intro hapart d hd d' hd' ht
      have hcases := Declaration.cases_of_text_eq (valid_symbol_of_mem_declarations hok hd)
        (valid_symbol_of_mem_declarations hok hd') ht
      rcases hcases with h | ⟨m, l, ⟨rfl, rfl⟩ | ⟨rfl, rfl⟩⟩
      · exact h
      · exact absurd hd' (hapart m l hd)
      · exact absurd hd (hapart m l hd')
  · constructor
    · intro h f hf
      exact h f (List.mem_map.mpr ⟨.function f, hf, rfl⟩)
    · intro h t ht
      obtain ⟨d, hd, rfl⟩ := List.mem_map.mp ht
      cases d with
      | function f => exact h f hd
      | label owner l => exact hlabel owner l hd
  · intro f owner l hf _ heq
    have hdollar := Symbol.dollar_mem_labelText owner.name l
    rw [Symbol.labelText, ← heq] at hdollar
    exact dollar_notMem_of_isSymbolName (valid_symbol_of_mem_declarations hok hf) hdollar

/-- Two modules whose functions and outer code share the label `loop`: the symbols
for it, and those of the functions, stay apart. -/
theorem declared_labels_distinct_of_shared_label :
    ∃ jobs : List Job,
      jobs = [.bootstrap,
        .module "Main" ["label loop", "push static 0", "function Main.run 0", "label loop"],
        .module "Sys" ["label loop", "function Sys.init 0", "label loop"]] ∧
      (declaredLabels jobs).Nodup ∧
      ∀ t ∈ declaredLabels jobs, t ∉ machineNames ∧ t ∉ staticVariables jobs := by
  refine ⟨_, rfl, ?_⟩
  generalize hj : ([_, _, _] : List Job) = jobs
  have hd : declarations jobs =
      [.label (.module "Main") "loop", .function "Main.run", .label (.function "Main.run") "loop",
        .label (.module "Sys") "loop", .function "Sys.init",
        .label (.function "Sys.init") "loop"] := by
    rw [← hj]
    decide +kernel
  have hok : succeeds jobs Emitter.start = true := by
    rw [← hj]
    decide +kernel
  have hstatic : staticVariables jobs = ["Main.0"] := by
    rw [← hj]
    decide +kernel
  obtain ⟨hdistinct, hapart, -⟩ :=
    declared_labels_distinct_and_apart jobs hok (by rw [hd]; decide)
  refine ⟨hdistinct.mpr ?_, hapart.mpr ?_⟩
  · rw [hd]
    intro m l hm
    simp only [List.mem_cons, List.not_mem_nil, or_false, reduceCtorEq, false_or,
      Declaration.label.injEq, Owner.module.injEq, false_and] at hm
    rcases hm with ⟨rfl, rfl⟩ | ⟨rfl, rfl⟩ <;> decide
  · rw [hd, hstatic]
    intro f hf
    simp only [List.mem_cons, List.not_mem_nil, or_false, reduceCtorEq, false_or,
      Declaration.function.injEq] at hf
    rcases hf with rfl | rfl <;> decide

/-- **The names do meet.**  A single module in which nothing is declared twice: its
outer code and its function `Foo` share the label `L`, a function has the name of
the static variable `Foo.3`, and another that of the machine's stack pointer. -/
theorem declared_labels_meet :
    ∃ jobs : List Job,
      jobs = [.module "Foo" ["label L", "push static 3", "function Foo 0", "label L",
        "function Foo.3 0", "function SP 0"]] ∧
      succeeds jobs Emitter.start = true ∧ (declarations jobs).Nodup ∧
      ¬ (declaredLabels jobs).Nodup ∧ (∃ t ∈ declaredLabels jobs, t ∈ machineNames) ∧
      ∃ t ∈ declaredLabels jobs, t ∈ staticVariables jobs := by
  refine ⟨_, rfl, ?_, ?_, ?_, ?_, ?_⟩ <;> decide +kernel

end HackVM
