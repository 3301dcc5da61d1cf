import HackVM.Asm.Line
import HackVM.Fault
import HackVM.Scope

/-! # Emitters

An emitter remembers, between instructions, the scope of labels and how many
comparisons and calls have been numbered.  An `Emission` is a computation that may
change the emitter, produce code and fail.  What was produced and changed before
a failure is kept. -/
namespace HackVM

/-- What is remembered between instructions. -/
structure Emitter where
  scope : Scope
  /-- The number that the next comparison gets. -/
  compares : Nat
  /-- The number that the next call gets. -/
  calls : Nat
deriving DecidableEq

/-- The emitter before the first instruction. -/
def Emitter.start : Emitter := ⟨.outer, 0, 0⟩

/-- How an emission ends: its result, the code that it produced, and the emitter
after it. -/
structure Outcome (α : Type) where
  result : Except Fault α
  code : List Asm.Line
  emitter : Emitter

/-- A computation that produces code. -/
def Emission (α : Type) := Emitter → Outcome α

namespace Emission

variable {α β : Type}

/-- The emission that produces nothing. -/
protected def pure (a : α) : Emission α := fun e => ⟨.ok a, [], e⟩

/-- One emission after another.  The second is not run if the first fails. -/
protected def bind (m : Emission α) (f : α → Emission β) : Emission β := fun e =>
  match m e with
  | ⟨.error fault, code, e'⟩ => ⟨.error fault, code, e'⟩
  | ⟨.ok a, code, e'⟩ =>
    let next := f a e'
    ⟨next.result, code ++ next.code, next.emitter⟩

instance : Monad Emission where
  pure := Emission.pure
  bind := Emission.bind

/-- The emission that fails. -/
def fail (fault : Fault) : Emission α := fun e => ⟨.error fault, [], e⟩

/-- The emission of code. -/
def emit (code : List Asm.Line) : Emission Unit := fun e => ⟨.ok (), code, e⟩

/-- The result of a check, which produces no code. -/
def check (r : Except Fault α) : Emission α := fun e => ⟨r, [], e⟩

/-- The emitter itself. -/
def get : Emission Emitter := fun e => ⟨.ok e, [], e⟩

/-- A change of the emitter. -/
def modify (f : Emitter → Emitter) : Emission Unit := fun e => ⟨.ok (), [], f e⟩

/-- The emission with its fault changed, if it fails. -/
def mapFault (f : Fault → Fault) (m : Emission α) : Emission α := fun e =>
  let outcome := m e
  { outcome with result := outcome.result.mapError f }

/-! ## What each emission does to an emitter -/

@[simp] theorem pure_apply (a : α) (e : Emitter) : (pure a : Emission α) e = ⟨.ok a, [], e⟩ := rfl

@[simp] theorem fail_apply (fault : Fault) (e : Emitter) :
    (fail fault : Emission α) e = ⟨.error fault, [], e⟩ := rfl

@[simp] theorem emit_apply (code : List Asm.Line) (e : Emitter) : emit code e = ⟨.ok (), code, e⟩ :=
  rfl

@[simp] theorem check_apply (r : Except Fault α) (e : Emitter) : check r e = ⟨r, [], e⟩ := rfl

@[simp] theorem get_apply (e : Emitter) : get e = ⟨.ok e, [], e⟩ := rfl

@[simp] theorem modify_apply (f : Emitter → Emitter) (e : Emitter) : modify f e = ⟨.ok (), [], f e⟩ :=
  rfl

/-- A failure keeps the code and the emitter, and nothing after it is run. -/
theorem bind_error {m : Emission α} {f : α → Emission β} {e : Emitter} {fault : Fault}
    (h : (m e).result = .error fault) :
    (m >>= f) e = ⟨.error fault, (m e).code, (m e).emitter⟩ := by
  show Emission.bind m f e = _
  unfold Emission.bind
  rcases hm : m e with ⟨r, code, e'⟩
  rw [hm] at h
  subst h
  rfl

/-- After a success the next emission starts from the emitter that was left, and
its code follows. -/
theorem bind_ok {m : Emission α} {f : α → Emission β} {e : Emitter} {a : α}
    (h : (m e).result = .ok a) :
    (m >>= f) e = ⟨(f a (m e).emitter).result, (m e).code ++ (f a (m e).emitter).code,
      (f a (m e).emitter).emitter⟩ := by
  show Emission.bind m f e = _
  unfold Emission.bind
  rcases hm : m e with ⟨r, code, e'⟩
  rw [hm] at h
  subst h
  rfl

/-- An emission whose answer is put into another form does what it did. -/
theorem bind_pure_apply (m : Emission α) (f : α → β) (e : Emitter) :
    (m >>= fun a => pure (f a)) e = ⟨(m e).result.map f, (m e).code, (m e).emitter⟩ := by
  cases h : (m e).result with
  | error fault => rw [bind_error h]; rfl
  | ok a => rw [bind_ok h]; simp only [pure_apply, List.append_nil]; rfl

end Emission
end HackVM
