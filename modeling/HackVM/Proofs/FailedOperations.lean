import HackVM.Proofs.CommandEnding
import HackVM.Workbench

/-! # Operations that fail

An instruction that fails writes nothing and leaves its emitter as it was, with one
exception.  A call takes its number before its code is written.  The code holds the number
of arguments plus the cells of the frame, and that sum may have one digit more than can be
written, although the number of arguments could be read (`Instruction.OverlongCall`).  Such
a call has taken its number for nothing (`Emission.instruction_of_overlongCall`), and every
other failure changes nothing at all (`Emission.instruction_of_other_failure`).

The same holds of an instruction that is offered to one family, whether the family refuses
it or does not recognize it.  A file that cannot be read, or whose name names no module,
changes nothing. -/
namespace HackVM

open Asm

/-! ## Calls with too many arguments to be written -/

/-- A call with a number of arguments that can be read, but that cannot be written once the
cells of the frame are added. -/
def Instruction.OverlongCall (i : Instruction) : Prop :=
  ∃ name count, i.name = "call" ∧ i.arguments = [name, count] ∧ Text.IsWord nameMarks name ∧
    Text.IsDigits count ∧ count.length ≤ 4300 ∧
    4300 < (Nat.toDigits 10 (Text.numeralValue count + 5)).length

/-- The emitter after a call has taken its number. -/
def Emitter.countCall (e : Emitter) : Emitter := { e with calls := e.calls + 1 }

namespace Instruction

variable {i : Instruction}

theorem met_readingRequirements_call (h : i.name = "call") :
    (∀ r ∈ i.readingRequirements, r.met) ↔ i.arguments.length = 2 ∧
      Text.IsWord nameMarks i.first ∧ Text.IsDigits i.second ∧ i.second.length ≤ 4300 := by
  have hrequirements : i.readingRequirements =
      i.countRequirement 2 :: nameRequirement i.first :: indexRequirements i.second := by
    simp [readingRequirements, h, operationNames]
  rw [hrequirements, indexRequirements, List.forall_mem_cons, List.forall_mem_cons,
    List.forall_mem_cons, List.forall_mem_singleton]
  rfl

theorem met_writingRequirements_call (h : i.name = "call") :
    (∀ r ∈ i.writingRequirements, r.met) ↔
      (Nat.toDigits 10 (Text.numeralValue i.second + 5)).length ≤ 4300 := by
  rw [writingRequirements, if_pos h, List.forall_mem_singleton]

/-- Such a call meets all that is required for reading it, and not what is required for
writing its code. -/
theorem overlongCall_iff : i.OverlongCall ↔ i.name = "call" ∧
    (∀ r ∈ i.readingRequirements, r.met) ∧ ¬ ∀ r ∈ i.writingRequirements, r.met := by
  constructor
  · rintro ⟨callee, count, hname, harguments, hword, hdigits, hlength, hlong⟩
    rw [met_readingRequirements_call hname, met_writingRequirements_call hname,
      first_of_arguments harguments, second_of_arguments harguments, Nat.not_le]
    exact ⟨hname, ⟨by rw [harguments]; rfl, hword, hdigits, hlength⟩, hlong⟩
  · rintro ⟨hname, hread, hwrite⟩
    obtain ⟨htwo, hword, hdigits, hlength⟩ := (met_readingRequirements_call hname).mp hread
    rw [met_writingRequirements_call hname, Nat.not_le] at hwrite
    obtain ⟨callee, count, harguments⟩ := List.length_eq_two.mp htwo
    rw [first_of_arguments harguments] at hword
    rw [second_of_arguments harguments] at hdigits hlength hwrite
    exact ⟨callee, count, hname, harguments, hword, hdigits, hlength, hwrite⟩

end Instruction

namespace Emission

/-! ## Instructions -/

/-- **A call that cannot be written has taken its number.** -/
theorem instruction_of_overlongCall {i : Instruction} (h : i.OverlongCall) (m : String)
    (e : Emitter) : ∃ fault, instruction m i e = ⟨.error fault, [], e.countCall⟩ := by
  obtain ⟨hname, hread, hwrite⟩ := Instruction.overlongCall_iff.mp h
  obtain ⟨c, hc⟩ := (Command.decides_ofInstruction i).isOk_iff.mpr hread
  have hfrom := Command.readFrom_of_ofInstruction hc
  obtain ⟨callee, hcall⟩ := Command.exists_call_of_readFrom hfrom hname
  rw [instruction_of_ok hc, command_apply]
  have hdecides := Command.decides_code hfrom m e
  cases hcode : c.code m e with
  | error fault =>
    refine ⟨fault, ?_⟩
    rw [hcall]
    rfl
  | ok lines =>
    rw [hcode] at hdecides
    exact absurd hdecides hwrite

/-- **Every other failure leaves the emitter as it was.** -/
theorem instruction_of_other_failure {m : String} {i : Instruction} {e : Emitter} {fault : Fault}
    (h : (instruction m i e).result = .error fault) (hcall : ¬ i.OverlongCall) :
    instruction m i e = ⟨.error fault, [], e⟩ := by
  cases hc : Command.ofInstruction i with
  | error fault' =>
    rw [instruction_of_error hc] at h ⊢
    rw [Except.error.inj h]
  | ok c =>
    have hfrom := Command.readFrom_of_ofInstruction hc
    have hread := Command.decides_ofInstruction i
    have hwrite := Command.decides_code hfrom m e
    rw [instruction_of_ok hc, command_apply] at h
    rw [hc] at hread
    cases hcode : c.code m e with
    | ok lines =>
      rw [hcode] at h
      cases h
    | error fault' =>
      -- only the code of a call can fail to be written
      have hname : i.name = "call" := by
        apply Decidable.of_not_not
        intro hname
        obtain ⟨lines, hlines⟩ := Command.exists_code hfrom hname m e
        rw [hcode] at hlines
        cases hlines
      rw [hcode] at hwrite
      exact absurd (Instruction.overlongCall_iff.mpr ⟨hname, hread, hwrite.1.not_all⟩) hcall

/-! ## One family -/

theorem offer_of_not_recognizes {f : Family} {i : Instruction} (h : f.recognizes i.name = false)
    (m : String) (e : Emitter) : offer f m i e = ⟨.ok false, [], e⟩ := by
  rw [offer, h]
  rfl

/-- A family that recognizes an instruction emits it as it would be without the others. -/
theorem offer_of_recognizes {f : Family} {i : Instruction} (h : f.recognizes i.name = true)
    (m : String) (e : Emitter) :
    offer f m i e = ⟨(instruction m i e).result.map fun _ => true, (instruction m i e).code,
      (instruction m i e).emitter⟩ := by
  have hfamily : Family.ofName? i.name = some f := by
    have hnames : ∀ name ∈ f.names, Family.ofName? name = some f := by cases f <;> decide
    exact hnames i.name (List.contains_iff_mem.mp h)
  have hread : Command.ofInstruction i = Command.ofFamily f i := by
    rw [Command.ofInstruction, hfamily]
  have hsame : asFamily f m i = instruction m i := by
    rw [asFamily, instruction, hread]
  rw [offer, h, if_pos rfl, hsame]
  exact bind_pure_apply _ (fun _ => true) e

/-- Only the family of functions recognizes a call. -/
theorem eq_function_of_recognizes_call {f : Family} (h : f.recognizes "call" = true) :
    f = .function := by
  cases f with
  | function => rfl
  | _ => cases h

/-- An instruction that a family refuses, or does not recognize, leaves no code, and the
emitter as it was unless the family of functions has numbered a call. -/
theorem offer_of_failure {f : Family} {m : String} {i : Instruction} {e : Emitter}
    (h : (offer f m i e).result ≠ .ok true) :
    (offer f m i e).code = [] ∧
      (f = .function ∧ i.OverlongCall → (offer f m i e).emitter = e.countCall) ∧
      (¬ (f = .function ∧ i.OverlongCall) → (offer f m i e).emitter = e) := by
  cases hf : f.recognizes i.name with
  | false =>
    rw [offer_of_not_recognizes hf]
    refine ⟨rfl, ?_, fun _ => rfl⟩
    rintro ⟨rfl, callee, count, hname, -⟩
    rw [hname] at hf
    cases hf
  | true =>
    rw [offer_of_recognizes hf] at h ⊢
    by_cases hlong : i.OverlongCall
    · obtain ⟨fault, hcall⟩ := instruction_of_overlongCall hlong m e
      have hfunction : f = .function := by
        obtain ⟨callee, count, hname, -⟩ := hlong
        exact eq_function_of_recognizes_call (hname ▸ hf)
      rw [hcall]
      exact ⟨rfl, fun _ => rfl, fun hnot => absurd ⟨hfunction, hlong⟩ hnot⟩
    · cases hresult : (instruction m i e).result with
      | ok _ =>
        rw [hresult] at h
        exact absurd rfl h
      | error fault =>
        rw [instruction_of_other_failure hresult hlong]
        exact ⟨rfl, fun hcall => absurd hcall.2 hlong, fun _ => rfl⟩

end Emission

/-! ## Files -/

theorem eq_error_of_map {α β : Type} {x : Except Fault α} {f : α → β} {fault : Fault}
    (h : x.map f = .error fault) : x = .error fault := by
  cases x with
  | error fault' => rw [Except.error.inj h]
  | ok a => cases h

/-- No instruction is refused for a file or for the name of a module. -/
theorem Instruction.otherwise_ne_refused (i : Instruction) {k : Kind}
    (hk : k = .unreadable ∨ k = .invalidModuleName) :
    ∀ r ∈ i.requirements, r.otherwise ≠ .refused k := by
  unfold requirements readingRequirements writingRequirements
  rcases hk with rfl | rfl <;> split_ifs <;>
    simp [countRequirement, segmentRequirement, nameRequirement, indexRequirements,
      rangeRequirement]

namespace Emission

/-- A module whose name is accepted is not refused for a file or for its name. -/
theorem kind_of_module_refused {m : String} (hm : isModuleName m = true) {lines : List String}
    {e : Emitter} {d : Diagnostic} (h : (module m lines e).result = .error (.refused d)) :
    ¬ (d.kind = .unreadable ∨ d.kind = .invalidModuleName) := by
  intro hkind
  have hnot : ¬ ∀ i ∈ Instruction.ofLines lines, i.Accepted := by
    intro haccepted
    rw [module_of_accepted hm e haccepted] at h
    cases h
  obtain ⟨above, i, hfirst⟩ := exists_firstRefused hnot
  obtain ⟨r, hr, hclass⟩ := (firstUnmet_of_module_error hm hfirst h).exists_mem
  exact i.otherwise_ne_refused hkind r hr hclass

/-- **A file that cannot be read or names no module changes nothing.** -/
theorem file_of_refused {t : FileTree} {p : Path} {e : Emitter} {d : Diagnostic}
    (h : (file t p e).result = .error (.refused d))
    (hkind : d.kind = .unreadable ∨ d.kind = .invalidModuleName) :
    file t p e = ⟨.error (.refused d), [], e⟩ := by
  cases hread : t.readText p with
  | error problem =>
    rw [file_of_error hread] at h ⊢
    rw [Except.error.inj h]
  | ok text =>
    rw [file_of_ok hread] at h ⊢
    rw [FileTree.moduleAt, Job.emission] at h ⊢
    generalize Text.lines (t.textOf p) = lines at h ⊢
    cases hm : isModuleName p.stem with
    | false =>
      rw [module_of_not_name hm] at h ⊢
      rw [← Except.error.inj h]
      rfl
    | true =>
      dsimp only at h
      exact absurd hkind (kind_of_module_refused hm (eq_error_of_map h))

end Emission

/-! ## Workbenches -/

namespace Workbench

variable {t : FileTree} {b : Workbench} {p : Nat}

/-- A task that writes nothing changes its emitter at most. -/
theorem perform_of_no_code {task : Task} (h : (task.emission t (b.emitter p)).code = []) :
    (b.perform t p task).1 =
      { b with emitters := b.emitters.set p (task.emission t (b.emitter p)).emitter } := by
  show (⟨b.listing.append _, b.emitters.set p _⟩ : Workbench) = _
  rw [h]
  simp [Asm.Listing.append, Asm.Listing.add]

theorem emission_instruction (m : String) (i : Instruction) (e : Emitter) :
    (Task.instruction m i).emission t e =
      ⟨(Emission.instruction m i e).result.map fun _ => .done, (Emission.instruction m i e).code,
        (Emission.instruction m i e).emitter⟩ := Emission.bind_done _ e

theorem perform_overlongCall {i : Instruction} (h : i.OverlongCall) (m : String) :
    (b.perform t p (.instruction m i)).1 =
      { b with emitters := b.emitters.set p (b.emitter p).countCall } := by
  obtain ⟨fault, hcall⟩ := Emission.instruction_of_overlongCall h m (b.emitter p)
  rw [perform_of_no_code (by rw [emission_instruction, hcall]), emission_instruction, hcall]

theorem perform_other_failure {m : String} {i : Instruction} {fault : Fault}
    (h : (b.perform t p (.instruction m i)).2.result = .error fault) (hcall : ¬ i.OverlongCall) :
    (b.perform t p (.instruction m i)).1 = b := by
  rw [outcome_perform, emission_instruction] at h
  have hkept := Emission.instruction_of_other_failure (eq_error_of_map h) hcall
  apply perform_of_unchanged
  · rw [emission_instruction, hkept]
  · rw [emission_instruction, hkept]

theorem perform_unread_file {path : Path} {d : Diagnostic}
    (h : (b.perform t p (.file path)).2.result = .error (.refused d))
    (hkind : d.kind = .unreadable ∨ d.kind = .invalidModuleName) :
    (b.perform t p (.file path)).1 = b := by
  rw [outcome_perform, Task.emission_file] at h
  have hkept := Emission.file_of_refused (eq_error_of_map h) hkind
  apply perform_of_unchanged
  · rw [Task.emission_file, hkept]
  · rw [Task.emission_file, hkept]

end Workbench

/-- **Failed operations leave things as they were.**  An instruction that fails changes no
workbench, except that a call with too many arguments to be written has taken its number.
A family that refuses an instruction, or does not recognize it, writes nothing and leaves
the emitter alone, with the same exception.  A file that cannot be read, or whose name is
not one of a module, changes nothing. -/
theorem failed_operations_leave_state (t : FileTree) (b : Workbench) (p : Nat) :
    (∀ m i fault, (b.perform t p (.instruction m i)).2.result = .error fault →
      (i.OverlongCall → (b.perform t p (.instruction m i)).1 =
        { b with emitters := b.emitters.set p (b.emitter p).countCall }) ∧
      (¬ i.OverlongCall → (b.perform t p (.instruction m i)).1 = b)) ∧
    (∀ f m i, (Emission.offer f m i (b.emitter p)).result ≠ .ok true →
      (Emission.offer f m i (b.emitter p)).code = [] ∧
      (f = .function ∧ i.OverlongCall →
        (Emission.offer f m i (b.emitter p)).emitter = (b.emitter p).countCall) ∧
      (¬ (f = .function ∧ i.OverlongCall) →
        (Emission.offer f m i (b.emitter p)).emitter = b.emitter p)) ∧
    ∀ path d, (b.perform t p (.file path)).2.result = .error (.refused d) →
      d.kind = .unreadable ∨ d.kind = .invalidModuleName →
      (b.perform t p (.file path)).1 = b := by
  refine ⟨fun m i fault hfails => ⟨fun hcall => ?_, fun hcall => ?_⟩, fun f m i hfails => ?_,
    fun path d hrefused hkind => ?_⟩
  · exact Workbench.perform_overlongCall hcall m
  · exact Workbench.perform_other_failure hfails hcall
  · exact Emission.offer_of_failure hfails
  · exact Workbench.perform_unread_file hrefused hkind

/-- The numeral of `n` nines. -/
def nines (n : Nat) : String := String.ofList (List.replicate n '9')

theorem numeralValue_nines (n : Nat) : Text.numeralValue (nines n) + 1 = Nat.pow 10 n := by
  rw [Text.numeralValue, nines, String.toList_ofList]
  induction n with
  | zero => rfl
  | succ n ih =>
    rw [List.replicate_succ, Nat.ofDigitChars_cons, Nat.ofDigitChars_eq_ofDigitChars_zero,
      List.length_replicate]
    show Nat.pow 10 n * 9 + _ + 1 = Nat.pow 10 n * 10
    omega

theorem isDigits_nines (n : Nat) : Text.IsDigits (nines (n + 1)) := by
  have hlist : (nines (n + 1)).toList = List.replicate (n + 1) '9' := String.toList_ofList
  refine ⟨fun hempty => ?_, fun c hc => ?_⟩
  · rw [hempty] at hlist
    cases hlist
  · rw [hlist] at hc
    rw [List.eq_of_mem_replicate hc]
    exact ⟨by decide, by decide⟩

/-- Nines have one digit more when five is added. -/
theorem lt_length_toDigits_nines {n : Nat} (hn : 0 < n) :
    n < (Nat.toDigits 10 (Text.numeralValue (nines n) + 5)).length := by
  have hvalue := numeralValue_nines n
  rw [← Nat.not_le, Nat.length_toDigits_le_iff (by decide) hn]
  show ¬ _ < Nat.pow 10 n
  omega

theorem overlongCall_nines (line : Int) :
    Instruction.OverlongCall ⟨line, "call", ["f", nines 4300]⟩ := by
  have hword : Text.IsWord nameMarks "f" := isSymbolName_iff_isWord.mp (by decide)
  have hlength : (nines 4300).length = 4300 := by
    rw [nines, String.length_ofList, List.length_replicate]
  exact ⟨"f", nines 4300, rfl, rfl, hword, isDigits_nines 4299, Nat.le_of_eq hlength,
    lt_length_toDigits_nines (by decide)⟩

/-- A workbench with an emitter in the middle of a function. -/
def midway : Workbench := ⟨⟨["@5"]⟩, [⟨⟨some "Main.f"⟩, 2, 3⟩]⟩

/-- A call with as many arguments as 4300 nines say takes its number in vain, but not when it
is offered to another family.  A pop into a constant and a file that is not there leave a
workbench as it was. -/
theorem failed_operations_at_digit_limit :
    (∃ fault, (midway.perform (CommandLine.mainOnly "") 0
      (.instruction "Main" ⟨1, "call", ["f", nines 4300]⟩)).2.result = .error fault) ∧
    (midway.perform (CommandLine.mainOnly "") 0
      (.instruction "Main" ⟨1, "call", ["f", nines 4300]⟩)).1 =
        ⟨⟨["@5"]⟩, [⟨⟨some "Main.f"⟩, 2, 4⟩]⟩ ∧
    (Emission.offer .stack "Main" ⟨1, "call", ["f", nines 4300]⟩ (midway.emitter 0)).emitter =
      midway.emitter 0 ∧
    (midway.perform (CommandLine.mainOnly "") 0
      (.instruction "Main" ⟨1, "pop", ["constant", "0"]⟩)).1 = midway ∧
    (midway.perform (CommandLine.mainOnly "") 0 (.file (Path.ofText "Gone.vm"))).1 = midway := by
  obtain ⟨hinstruction, hoffer, hfile⟩ :=
    failed_operations_leave_state (CommandLine.mainOnly "") midway 0
  have hcall := overlongCall_nines 1
  obtain ⟨fault, hfault⟩ : ∃ fault, (midway.perform (CommandLine.mainOnly "") 0
      (.instruction "Main" ⟨1, "call", ["f", nines 4300]⟩)).2.result = .error fault := by
    obtain ⟨fault, hfails⟩ := Emission.instruction_of_overlongCall hcall "Main" (midway.emitter 0)
    exact ⟨fault, by rw [Workbench.outcome_perform, Workbench.emission_instruction, hfails]; rfl⟩
  have hstack : (Emission.offer .stack "Main" ⟨1, "call", ["f", nines 4300]⟩
      (midway.emitter 0)).result ≠ .ok true := by
    rw [Emission.offer_of_not_recognizes (by decide)]
    simp
  have hpop : ¬ Instruction.OverlongCall ⟨1, "pop", ["constant", "0"]⟩ := by
    rintro ⟨_, _, hname, -⟩
    exact absurd hname (by decide)
  obtain ⟨d, hgone, hkind⟩ : ∃ d, (midway.perform (CommandLine.mainOnly "") 0
      (.file (Path.ofText "Gone.vm"))).2.result = .error (.refused d) ∧ d.kind = .unreadable :=
    ⟨_, rfl, rfl⟩
  refine ⟨⟨fault, hfault⟩, ?_, ?_, ?_, ?_⟩
  · exact (hinstruction _ _ _ hfault).1 hcall
  · exact (hoffer _ _ _ hstack).2.2 fun h => by cases h.1
  · exact (hinstruction _ _ _ rfl).2 hpop
  · exact hfile _ d hgone (.inl hkind)

end HackVM
