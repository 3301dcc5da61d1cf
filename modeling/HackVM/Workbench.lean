import HackVM.Asm.Listing
import HackVM.Emitter.Files

/-! # Workbenches

Any number of emitters that add to one listing.  Each emitter has its own scope
and its own numbers; only the listing is shared. -/
namespace HackVM

/-- What an emitter can be asked to do. -/
inductive Task where
  | instruction (module : String) (instruction : Instruction)
  | instructions (module : String) (instructions : List Instruction)
  | module (name : String) (lines : List String)
  | bootstrap
  | file (path : Path)
  | directory (path : Path)
deriving DecidableEq

/-- What a task answers: the names of the modules that it has emitted, where it
finds them itself. -/
inductive Answer where
  | done
  | name (module : String)
  | names (modules : List String)
deriving DecidableEq

/-- The emission of a task. -/
def Task.emission (t : FileTree) : Task → Emission Answer
  | .instruction m i => do
    Emission.instruction m i
    pure .done
  | .instructions m is => do
    Emission.instructions m is
    pure .done
  | .module name lines => do
    Emission.module name lines
    pure .done
  | .bootstrap => do
    Emission.bootstrap
    pure .done
  | .file p => do
    let name ← Emission.file t p
    pure (.name name)
  | .directory p => do
    let names ← Emission.directory t p
    pure (.names names)

/-- A task without an answer of its own does what its emission does. -/
theorem Emission.bind_done (m : Emission Unit) (e : Emitter) :
    (m >>= fun _ => pure Answer.done) e =
      ⟨(m e).result.map fun _ => .done, (m e).code, (m e).emitter⟩ :=
  bind_pure_apply m (fun _ => Answer.done) e

theorem Task.emission_module (t : FileTree) (m : String) (lines : List String) (e : Emitter) :
    (Task.module m lines).emission t e =
      ⟨(Emission.module m lines e).result.map fun _ => .done, (Emission.module m lines e).code,
        (Emission.module m lines e).emitter⟩ := Emission.bind_done _ e

theorem Task.emission_file (t : FileTree) (p : Path) (e : Emitter) :
    (Task.file p).emission t e =
      ⟨(Emission.file t p e).result.map .name, (Emission.file t p e).code,
        (Emission.file t p e).emitter⟩ := Emission.bind_pure_apply _ Answer.name e

theorem Task.emission_directory (t : FileTree) (p : Path) (e : Emitter) :
    (Task.directory p).emission t e =
      ⟨(Emission.directory t p e).result.map .names, (Emission.directory t p e).code,
        (Emission.directory t p e).emitter⟩ := Emission.bind_pure_apply _ Answer.names e

theorem set_getD_self {α : Type} (l : List α) (i : Nat) (d : α) : l.set i (l.getD i d) = l := by
  by_cases hi : i < l.length
  · rw [List.getD_eq_getElem?_getD, List.getElem?_eq_getElem hi]
    exact List.set_getElem_self hi
  · exact List.set_eq_of_length_le (Nat.le_of_not_lt hi)

/-- Emitters that share a listing. -/
structure Workbench where
  listing : Asm.Listing
  emitters : List Emitter

namespace Workbench

/-- A workbench with a number of fresh emitters and the first lines of a
listing. -/
def new (emitters : Nat) (prologue : List String) : Workbench :=
  ⟨⟨prologue⟩, List.replicate emitters .start⟩

/-- The emitter at a position. -/
def emitter (b : Workbench) (position : Nat) : Emitter := b.emitters.getD position .start

/-- Lets one emitter do a task, and adds the code to the listing, also when the
task fails midway. -/
def perform (t : FileTree) (b : Workbench) (position : Nat) (task : Task) :
    Workbench × Outcome Answer :=
  let outcome := task.emission t (b.emitter position)
  (⟨b.listing.append outcome.code, b.emitters.set position outcome.emitter⟩, outcome)

/-! ## What a task does to a workbench -/

theorem outcome_perform (t : FileTree) (b : Workbench) (p : Nat) (task : Task) :
    (b.perform t p task).2 = task.emission t (b.emitter p) := rfl

theorem length_emitters_perform (t : FileTree) (b : Workbench) (p : Nat) (task : Task) :
    (b.perform t p task).1.emitters.length = b.emitters.length := List.length_set

/-- The emitter that has done a task goes on from its outcome. -/
theorem emitter_perform_self (t : FileTree) {b : Workbench} {p : Nat} (hp : p < b.emitters.length)
    (task : Task) :
    (b.perform t p task).1.emitter p = (task.emission t (b.emitter p)).emitter := by
  show (b.emitters.set p (task.emission t (b.emitter p)).emitter).getD p .start = _
  rw [List.getD_eq_getElem?_getD, List.getElem?_set_self hp, Option.getD_some]

theorem listing_perform_module (t : FileTree) (b : Workbench) (p : Nat) (m : String)
    (lines : List String) :
    (b.perform t p (.module m lines)).1.listing =
      b.listing.append (Emission.module m lines (b.emitter p)).code := by
  show b.listing.append ((Task.module m lines).emission t (b.emitter p)).code = _
  rw [Task.emission_module]

/-- Tasks with the same code that leave the same emitter leave the same workbench. -/
theorem perform_congr {t : FileTree} {b : Workbench} {p : Nat} {task task' : Task}
    (hcode : (task.emission t (b.emitter p)).code = (task'.emission t (b.emitter p)).code)
    (hemitter : (task.emission t (b.emitter p)).emitter =
      (task'.emission t (b.emitter p)).emitter) :
    (b.perform t p task).1 = (b.perform t p task').1 := by
  simp only [perform, hcode, hemitter]

theorem set_emitter_self (b : Workbench) (p : Nat) :
    b.emitters.set p (b.emitter p) = b.emitters := set_getD_self b.emitters p .start

/-- A task that writes nothing and leaves its emitter as it was leaves the workbench as
it was. -/
theorem perform_of_unchanged {t : FileTree} {b : Workbench} {p : Nat} {task : Task}
    (hcode : (task.emission t (b.emitter p)).code = [])
    (hemitter : (task.emission t (b.emitter p)).emitter = b.emitter p) :
    (b.perform t p task).1 = b := by
  show (⟨b.listing.append _, b.emitters.set p _⟩ : Workbench) = b
  rw [hcode, hemitter, set_emitter_self]
  simp [Asm.Listing.append, Asm.Listing.add]

end Workbench
end HackVM
