import HackVM.Proofs.AssemblyText
import HackVM.Proofs.FirstRefusal

/-! # What was written for each instruction

The code of a session, cut into what was written for each accepted instruction.  An entry
keeps where its instruction stands: the module, and the instructions of that module before
it.  The listing of a session is what its entries say, one after the other
(`lines_performAll_new`).

What an entry says depends on the emitter that it was written from, and of that emitter's
scope it is enough to know the instructions before it (`exists_writtenFrom`).  Each module
starts in the outer scope, so nothing that an earlier module did or left undone matters. -/
namespace HackVM

open Asm

/-- An accepted instruction of a session, and what was written for it. -/
structure Passage where
  /-- The module that it belongs to. -/
  module : String
  /-- The instructions of the module before it. -/
  before : List Instruction
  instruction : Instruction
  code : List Line
deriving DecidableEq

/-- What was written for an instruction, as lines of a listing. -/
def Passage.lines (p : Passage) : List String := p.code.map Line.text

/-- Something that a session wrote in one go. -/
inductive Entry where
  /-- The start of a program. -/
  | start (code : List Line)
  /-- An accepted instruction. -/
  | instruction (passage : Passage)
deriving DecidableEq

namespace Entry

/-- The code of an entry. -/
def code : Entry → List Line
  | .start code => code
  | .instruction p => p.code

/-- The lines of a listing that an entry stands for. -/
def lines (entry : Entry) : List String := entry.code.map Line.text

end Entry

/-- The passages of instructions that stand behind others in a module, up to the first that
is refused. -/
def passagesFrom (m : String) : List Instruction → List Instruction → Emitter → List Passage
  | _, [], _ => []
  | before, i :: rest, e =>
    match (Emission.instruction m i e).result with
    | .error _ => []
    | .ok _ =>
      ⟨m, before, i, (Emission.instruction m i e).code⟩ ::
        passagesFrom m (before ++ [i]) rest (Emission.instruction m i e).emitter

/-- The entries of a job. -/
def Job.entries : Job → Emitter → List Entry
  | .bootstrap, e => [.start (Emission.bootstrap e).code]
  | .module name lines, e =>
    if isModuleName name then
      (passagesFrom name [] (Instruction.ofLines lines) { e with scope := .outer }).map
        .instruction
    else []

/-- The entries of a session. -/
def sessionEntries : List Job → Emitter → List Entry
  | [], _ => []
  | j :: jobs, e => j.entries e ++ sessionEntries jobs (j.emission e).emitter

/-- The entries of a session of a fresh emitter. -/
def transcript (jobs : List Job) : List Entry := sessionEntries jobs Emitter.start

/-! ## The code of a session is that of its entries -/

theorem code_instructions_eq_flatMap (m : String) (before is : List Instruction) (e : Emitter) :
    (Emission.instructions m is e).code = (passagesFrom m before is e).flatMap Passage.code := by
  induction is generalizing before e with
  | nil => rfl
  | cons i is ih =>
    cases hr : (Emission.instruction m i e).result with
    | error fault =>
      rw [instructions_cons_of_failure hr, passagesFrom, hr]
      rfl
    | ok _ =>
      show ((Emission.instruction m i >>= fun _ => Emission.instructions m is) e).code = _
      rw [Emission.bind_ok hr, passagesFrom, hr, ih (before ++ [i])]
      rfl

theorem Job.code_emission_eq_flatMap (j : Job) (e : Emitter) :
    (j.emission e).code = (j.entries e).flatMap Entry.code := by
  cases j with
  | bootstrap => simp [Job.emission, Job.entries, Entry.code]
  | module name lines =>
    simp only [Job.emission, Job.entries]
    cases hn : isModuleName name with
    | true =>
      rw [Emission.module_of_name hn, if_pos rfl, List.flatMap_map]
      exact code_instructions_eq_flatMap name [] _ _
    | false =>
      rw [Emission.module_of_not_name hn]
      rfl

theorem sessionCode_eq_flatMap_entries (jobs : List Job) (e : Emitter) :
    sessionCode jobs e = (sessionEntries jobs e).flatMap Entry.code := by
  induction jobs generalizing e with
  | nil => rfl
  | cons j jobs ih =>
    rw [sessionCode, sessionEntries, List.flatMap_append, j.code_emission_eq_flatMap, ih]

theorem mem_program_of_mem_code {jobs : List Job} {p : Passage}
    (hp : .instruction p ∈ transcript jobs) {l : Line} (hl : l ∈ p.code) : l ∈ program jobs := by
  rw [program, sessionCode_eq_flatMap_entries]
  exact List.mem_flatMap.mpr ⟨_, hp, hl⟩

/-- **A listing is what its transcript says**, behind the lines that were there before. -/
theorem lines_performAll_new (t : FileTree) (prologue : List String) (jobs : List Job) :
    (Workbench.performAll t 0 (jobs.map Job.task) (.new 1 prologue)).listing.lines =
      prologue ++ (transcript jobs).flatMap Entry.lines := by
  have hlisting := listing_performAll t jobs ⟨prologue⟩ .start
  rw [Workbench.new, List.replicate_one, hlisting, Listing.lines_append,
    sessionCode_eq_flatMap_entries, List.map_flatMap]
  rfl

/-! ## The scope of a passage -/

/-- What is known of the emitter that a passage was written from. -/
structure Passage.WrittenFrom (p : Passage) (e : Emitter) : Prop where
  module : isModuleName p.module = true
  valid : e.scope.Valid
  scope : e.scope.function = lastFunction? p.before
  command : ∃ c : Command, c.ReadFrom p.instruction ∧ c.code p.module e = .ok p.code

theorem exists_writtenFrom_of_mem_passagesFrom {m : String} (hm : isModuleName m = true)
    {before is : List Instruction} {e : Emitter} (hvalid : e.scope.Valid)
    (hscope : e.scope.function = lastFunction? before) {p : Passage}
    (hp : p ∈ passagesFrom m before is e) : ∃ e', p.WrittenFrom e' := by
  -- the scope is that of the last function among the instructions before, at every step
  induction is generalizing before e with
  | nil => cases hp
  | cons i is ih =>
    rw [passagesFrom] at hp
    cases hr : (Emission.instruction m i e).result with
    | error fault =>
      rw [hr] at hp
      cases hp
    | ok _ =>
      obtain ⟨c, code, hread, hcode, heq⟩ := Emission.exists_command_of_result hr
      rw [hr] at hp
      rcases List.mem_cons.mp hp with rfl | hlater
      · refine ⟨e, hm, hvalid, hscope, c, hread, ?_⟩
        rw [heq]
        exact hcode
      · refine ih ?_ ?_ hlater
        · rw [heq]
          exact Command.valid_nextScope (Command.valid_of_readFrom hread) hvalid
        · rw [function_scope_instruction hr, hscope, lastFunction?_concat]

/-- **The emitter that a passage was written from is known from where it stands**, whatever
was emitted before its module. -/
theorem exists_writtenFrom {jobs : List Job} {e : Emitter} {p : Passage}
    (hp : .instruction p ∈ sessionEntries jobs e) : ∃ e', p.WrittenFrom e' := by
  induction jobs generalizing e with
  | nil => cases hp
  | cons j jobs ih =>
    rcases List.mem_append.mp hp with hp | hp
    · cases j with
      | bootstrap => simp [Job.entries] at hp
      | module name lines =>
        rw [Job.entries] at hp
        split at hp
        · rename_i hn
          obtain ⟨p', hp', heq⟩ := List.mem_map.mp hp
          obtain rfl : p' = p := Entry.instruction.inj heq
          exact exists_writtenFrom_of_mem_passagesFrom hn Scope.valid_outer rfl hp'
        · cases hp
    · exact ih hp

end HackVM
