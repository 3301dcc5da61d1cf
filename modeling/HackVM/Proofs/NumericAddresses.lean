import HackVM.Proofs.AssemblyText
import HackVM.Proofs.CommandEnding

/-! # Numbers in address instructions

An address instruction holds a number of fifteen bits.  The numbers that code loads come
from the indices of stack instructions, from the sizes of frames and from the start of a
program, and `numbers_sessionCode` lists them all, in order.  Most of them are bounded by a
check on the instruction or are fixed.  Two are not: the index of a cell in one of the four
segments that lie behind a base register, and the number of arguments of a call.

So the addresses of a session fit exactly when its source keeps those two within bounds
(`numeric_addresses_fit_iff`), and a session that succeeds may exceed them
(`numeric_addresses_exceed`). -/
namespace HackVM

open Asm Text

/-! ## What an instruction loads -/

/-- The names of the segments that lie behind a base register. -/
def baseNames : List String := ["local", "argument", "this", "that"]

/-- The numbers that the code of an instruction loads. -/
def Instruction.loads (i : Instruction) : List Int :=
  if i.name = "call" then [numeralValue i.second + 5]
  else if i.name = "return" then [5]
  else if i.name ∈ ["push", "pop"] then
    if i.first = "temp" then [5 + numeralValue i.second]
    else if i.first ∈ "constant" :: baseNames then [numeralValue i.second]
    else []
  else []

/-- The numbers that the code of a push or a pop loads. -/
def Segment.loads : Segment → Nat → List Int
  | .constant, index | .base _, index => [index]
  | .temp, index => [5 + index]
  | .pointer, _ | .static, _ => []

namespace Instruction

variable {i : Instruction}

theorem loads_of_stack (hn : i.name ∈ ["push", "pop"]) {segment : Segment} {s t : String}
    (ha : i.arguments = [s, t]) (hs : Segment.ofName? s = some segment) :
    i.loads = segment.loads (numeralValue t) := by
  have hfirst : i.first = segment.name := by
    rw [Segment.name_of_ofName? hs, first_of_arguments ha]
  have hcall : i.name ≠ "call" := fun h => absurd (h ▸ hn) (by decide)
  have hret : i.name ≠ "return" := fun h => absurd (h ▸ hn) (by decide)
  rw [loads, if_neg hcall, if_neg hret, if_pos hn, hfirst,
    second_of_arguments ha]
  cases segment with
  | base b => cases b <;> rfl
  | _ => rfl

theorem loads_of_other (h : i.name ∉ ["push", "pop", "call", "return"]) : i.loads = [] := by
  simp only [List.mem_cons, List.not_mem_nil, or_false, not_or] at h
  obtain ⟨hpush, hpop, hcall, hret⟩ := h
  rw [loads, if_neg hcall, if_neg hret, if_neg (by simp [hpush, hpop])]

end Instruction

/-- **The code of a command loads what its instruction says.** -/
theorem Command.numbers_code {c : Command} {i : Instruction} (hc : c.ReadFrom i) {m : String}
    {e : Emitter} {lines : List Line} (hl : c.code m e = .ok lines) : numbers lines = i.loads := by
  cases c with
  | push segment index =>
    obtain ⟨s, t, hn, ha, hs, ht, -⟩ := hc
    obtain ⟨loading, hf, rfl⟩ := Code.push_eq_ok hl
    have hloading := Code.fetch_eq_ok hf
    rw [Instruction.loads_of_stack (by rw [hn]; decide) ha hs, ← (Instruction.readIndex_eq_ok ht).1]
    cases segment with
    | pointer =>
      obtain ⟨r, -, rfl⟩ := hloading
      rfl
    | _ =>
      rw [hloading]
      rfl
  | pop segment index =>
    obtain ⟨s, t, hn, ha, hs, ht, -⟩ := hc
    have hlines := Code.pop_eq_ok hl
    rw [Instruction.loads_of_stack (by rw [hn]; decide) ha hs, ← (Instruction.readIndex_eq_ok ht).1]
    cases segment with
    | constant => exact hlines.elim
    | pointer =>
      obtain ⟨r, -, rfl⟩ := hlines
      rfl
    | _ =>
      rw [hlines]
      rfl
  | operate op =>
    have hother : i.name ∉ ["push", "pop", "call", "return"] := by
      rw [name_of_readFrom hc]
      exact operationName_notMem (by decide) op
    rw [Instruction.loads_of_other hother]
    cases op with
    | binary op | unary op =>
      rw [← Except.ok.inj hl]
      rfl
    | compare comparison => rw [← Except.ok.inj hl, Code.numbers_compare]
  | label name | goto name | ifGoto name =>
    rw [Instruction.loads_of_other (by rw [hc.1]; decide), ← Except.ok.inj hl]
    rfl
  | function name locals =>
    rw [Instruction.loads_of_other (by rw [hc.1]; decide), ← Except.ok.inj hl]
    exact Code.numbers_clearing locals
  | call name arguments =>
    obtain ⟨hn, -, t, ha, ht⟩ := hc
    rw [Code.call_eq_ok hl, Code.numbers_callLines, Instruction.loads, if_pos hn,
      Instruction.second_of_arguments ha, ← (Instruction.readIndex_eq_ok ht).1]
    rfl
  | ret =>
    rw [← Except.ok.inj hl, Instruction.loads, if_neg (by rw [hc.1]; decide), if_pos hc.1]
    rfl

/-! ## What fits -/

namespace Instruction

variable {i : Instruction}

/-- The two numbers that no check bounds fit into an address instruction: the index of a cell
behind a base register, and the size of a frame, which is five more than the number of
arguments. -/
def Addressable (i : Instruction) : Prop :=
  (i.name ∈ ["push", "pop"] → i.first ∈ baseNames → numeralValue i.second ≤ 32767) ∧
    (i.name = "call" → numeralValue i.second ≤ 32762)

theorem Accepted.range (h : i.Accepted) (hn : i.name ∈ ["push", "pop"]) :
    i.rangeRequirement.met := by
  refine accepted_iff_requirements.mp h _ (List.mem_append_left _ ?_)
  rw [readingRequirements, if_pos hn]
  simp

/-- **The other numbers of an accepted instruction always fit.** -/
theorem Accepted.loads_le_iff (h : i.Accepted) :
    (∀ n ∈ i.loads, n ≤ 32767) ↔ i.Addressable := by
  unfold loads Addressable
  split_ifs with hcall hret hstack htemp hindex
  -- a call loads the size of its frame, and a return the part that is fixed
  · have hstack : i.name ∉ ["push", "pop"] := by rw [hcall]; decide
    rw [List.forall_mem_singleton]
    constructor
    · intro hle
      exact ⟨fun hn => absurd hn hstack, fun _ => by omega⟩
    · rintro ⟨-, hle⟩
      have := hle hcall
      omega
  · have hstack : i.name ∉ ["push", "pop"] := by rw [hret]; decide
    exact iff_of_true (by simp) ⟨fun hn => absurd hn hstack, fun hn => absurd hn hcall⟩
  -- temporary cells and constants are checked, and cells behind a base register are not
  · obtain ⟨-, -, hrange⟩ := h.range hstack
    have hle := hrange htemp
    have hbase : i.first ∉ baseNames := by rw [htemp]; decide
    refine iff_of_true ?_ ⟨fun _ hb => absurd hb hbase, fun hn => absurd hn hcall⟩
    rw [List.forall_mem_singleton]
    omega
  · rw [List.forall_mem_singleton]
    rcases List.mem_cons.mp hindex with hconstant | hbase
    · obtain ⟨hrange, -, -⟩ := h.range hstack
      have hle := (hrange hconstant).2
      exact iff_of_true (by omega) ⟨fun _ _ => hle, fun hn => absurd hn hcall⟩
    · constructor
      · intro hle
        exact ⟨fun _ _ => by omega, fun hn => absurd hn hcall⟩
      · rintro ⟨hle, -⟩
        have := hle hstack hbase
        omega
  -- nothing else loads a number
  · refine iff_of_true (List.forall_mem_nil _) ⟨fun _ hb => ?_, fun hn => absurd hn hcall⟩
    exact absurd (List.mem_cons_of_mem _ hb) hindex
  · exact iff_of_true (List.forall_mem_nil _)
      ⟨fun hn => absurd hn hstack, fun hn => absurd hn hcall⟩

end Instruction

/-! ## What a session loads -/

theorem numbers_instruction {i : Instruction} (h : i.Accepted) (m : String) (e : Emitter) :
    numbers (Emission.instruction m i e).code = i.loads := by
  obtain ⟨c, code, hread, hcode, heq⟩ := Emission.exists_command_of_result (h m e)
  rw [heq]
  exact Command.numbers_code hread hcode

theorem numbers_codeOfEach {m : String} {is : List Instruction} (h : ∀ i ∈ is, i.Accepted)
    (e : Emitter) : numbers (codeOfEach m is e) = is.flatMap Instruction.loads := by
  induction is generalizing e with
  | nil => rfl
  | cons i is ih =>
    rw [codeOfEach, numbers_append, numbers_instruction (h i (List.mem_cons_self ..)),
      ih fun j hj => h j (List.mem_cons_of_mem _ hj), List.flatMap_cons]

/-- The instructions of a job. -/
def Job.instructions : Job → List Instruction
  | .bootstrap => []
  | .module _ lines => Instruction.ofLines lines

/-- The numbers that the start of a program loads. -/
def Job.startLoads : Job → List Int
  | .bootstrap => [256, 5]
  | .module .. => []

/-- The numbers that the code of a job loads. -/
def Job.loads (j : Job) : List Int := j.startLoads ++ j.instructions.flatMap Instruction.loads

theorem Job.accepted_of_isOk {j : Job} {e : Emitter} (hok : (j.emission e).result.isOk = true) :
    ∀ i ∈ j.instructions, i.Accepted := by
  cases j with
  | bootstrap => exact List.forall_mem_nil _
  | module m lines =>
    obtain ⟨u, hu⟩ : ∃ u, (Emission.module m lines e).result = .ok u := by
      cases hresult : (Emission.module m lines e).result with
      | ok u => exact ⟨u, rfl⟩
      | error fault =>
        rw [Job.emission, hresult] at hok
        cases hok
    exact (module_eq_ok_iff.mp ⟨u, hu⟩).2

theorem Job.numbers_code {j : Job} {e : Emitter} (hok : (j.emission e).result.isOk = true) :
    numbers (j.emission e).code = j.loads := by
  have haccepted := j.accepted_of_isOk hok
  cases j with
  | bootstrap =>
    rw [Job.emission, Emission.bootstrap_apply, numbers_append, Code.numbers_callLines]
    rfl
  | module m lines =>
    cases hm : isModuleName m with
    | false =>
      rw [Job.emission, Emission.module_of_not_name hm] at hok
      cases hok
    | true =>
      rw [Job.emission, module_of_accepted hm e haccepted]
      exact numbers_codeOfEach haccepted _

/-- **The numbers that a session loads**, in order. -/
theorem numbers_sessionCode {jobs : List Job} {e : Emitter} (hok : succeeds jobs e = true) :
    numbers (sessionCode jobs e) = jobs.flatMap Job.loads := by
  induction jobs generalizing e with
  | nil => rfl
  | cons j jobs ih =>
    rw [succeeds, Bool.and_eq_true] at hok
    rw [sessionCode, numbers_append, j.numbers_code hok.1, ih hok.2, List.flatMap_cons]

theorem accepted_of_succeeds {jobs : List Job} {e : Emitter} (hok : succeeds jobs e = true) :
    ∀ j ∈ jobs, ∀ i ∈ j.instructions, i.Accepted := by
  induction jobs generalizing e with
  | nil => exact List.forall_mem_nil _
  | cons j jobs ih =>
    rw [succeeds, Bool.and_eq_true] at hok
    exact List.forall_mem_cons.mpr ⟨j.accepted_of_isOk hok.1, ih hok.2⟩

theorem loads_le_iff {jobs : List Job} {e : Emitter} (hok : succeeds jobs e = true) :
    (∀ n ∈ numbers (sessionCode jobs e), n ≤ 32767) ↔
      ∀ j ∈ jobs, ∀ i ∈ j.instructions, i.Addressable := by
  have haccepted := accepted_of_succeeds hok
  have hstart (j : Job) : ∀ n ∈ j.startLoads, n ≤ 32767 := by
    cases j with
    | bootstrap => decide
    | module m lines => exact List.forall_mem_nil _
  rw [numbers_sessionCode hok, List.forall_mem_flatMap]
  refine forall₂_congr fun j hj => ?_
  rw [Job.loads, List.forall_mem_append, and_iff_right (hstart j), List.forall_mem_flatMap]
  exact forall₂_congr fun i hi => (haccepted j hj i hi).loads_le_iff

/-! ## The texts of addresses -/

theorem numeralValue_decimal (n : Nat) : numeralValue (decimal n) = n := by
  rw [numeralValue, toList_decimal, Nat.ofDigitChars_ten_toDigits]

/-- The text of a symbol is no numeral. -/
theorem Symbol.not_isDigits_text {s : Symbol} (hs : s.Valid) : ¬ IsDigits s.text := by
  intro hdigits
  obtain ⟨c, cs, htext, hc, -⟩ := s.isWord_text hs
  have hdigit : 0x30 ≤ c.toNat ∧ c.toNat ≤ 0x39 :=
    hdigits.2 c (by rw [htext]; exact List.mem_cons_self ..)
  rcases hc with hletter | hmark
  · have hbounds : (0x41 ≤ c.toNat ∧ c.toNat ≤ 0x5a) ∨ (0x61 ≤ c.toNat ∧ c.toNat ≤ 0x7a) := hletter
    omega
  · have hmarks : ∀ x ∈ symbolMarks, ¬ (0x30 ≤ x.toNat ∧ x.toNat ≤ 0x39) := by simp [symbolMarks]
    exact hmarks c hmark hdigit

theorem mem_numbers {n : Int} {code : List Line} :
    n ∈ numbers code ↔ .address (.number n) ∈ code := by
  rw [numbers, List.mem_filterMap]
  constructor
  · rintro ⟨l, hl, hnumber⟩
    unfold Line.number? at hnumber
    split at hnumber
    · cases hnumber
      exact hl
    · cases hnumber
  · intro h
    exact ⟨_, h, rfl⟩

/-- The numerals that stand in the addresses of code denote the numbers that it loads. -/
theorem numerals_le_iff {code : List Line} (hcode : ∀ l ∈ code, l.Valid) {limit : Nat} :
    (∀ line ∈ code.map Line.text, ∀ d, line = "@" ++ d → IsDigits d → numeralValue d ≤ limit) ↔
      ∀ n ∈ numbers code, n ≤ limit := by
  constructor
  · intro h n hn
    have hl := mem_numbers.mp hn
    obtain ⟨k, rfl⟩ := Int.eq_ofNat_of_zero_le (hcode _ hl)
    have hle := h _ (List.mem_map_of_mem hl) (decimal k) rfl (isCanonicalNumeral_decimal k).1
    rw [numeralValue_decimal] at hle
    exact Int.ofNat_le.mpr hle
  · intro h line hline d htext hdigits
    obtain ⟨l, hl, rfl⟩ := List.mem_map.mp hline
    obtain ⟨o, rfl, rfl⟩ := Line.text_eq_address_iff.mp htext
    cases o with
    | symbol s => exact absurd hdigits (s.not_isDigits_text (hcode _ hl))
    | number n =>
      obtain ⟨k, rfl⟩ := Int.eq_ofNat_of_zero_le (hcode _ hl)
      rw [Operand.text, numeralValue_decimal]
      exact Int.ofNat_le.mp (h k (mem_numbers.mpr hl))

/-- **Which addresses fit.**  When a fresh emitter has started programs and translated
modules, all with success, the numerals in the address lines that it has added stay within
fifteen bits exactly when the source does two things: it keeps the indices of the segments
behind base registers within fifteen bits, and the number of arguments of each call five
below that.  All other numbers fit whatever the source is. -/
theorem numeric_addresses_fit_iff (t : FileTree) (prologue : List String) {jobs : List Job}
    (hok : succeeds jobs Emitter.start = true) :
    (∀ line ∈ (Workbench.performAll t 0 (jobs.map Job.task)
        (.new 1 prologue)).listing.lines.drop prologue.length,
      ∀ d, line = "@" ++ d → IsDigits d → numeralValue d ≤ 32767) ↔
    ∀ m lines, .module m lines ∈ jobs → ∀ i ∈ Instruction.ofLines lines,
      (i.name ∈ ["push", "pop"] → i.first ∈ ["local", "argument", "this", "that"] →
        numeralValue i.second ≤ 32767) ∧
      (i.name = "call" → numeralValue i.second ≤ 32762) := by
  have hlines : (Workbench.performAll t 0 (jobs.map Job.task)
      (.new 1 prologue)).listing.lines.drop prologue.length = (program jobs).map Line.text := by
    have hlisting := listing_performAll t jobs ⟨prologue⟩ .start
    rw [Workbench.new, List.replicate_one, hlisting, Listing.lines_append, List.drop_left]
    rfl
  rw [hlines, numerals_le_iff valid_of_mem_program]
  refine (loads_le_iff hok).trans ?_
  constructor
  · intro h m lines hjob
    exact h _ hjob
  · intro h j hj
    cases j with
    | bootstrap => exact List.forall_mem_nil _
    | module m lines => exact h m lines hj

/-- At the limits all addresses fit, also behind lines that were there before. -/
theorem numeric_addresses_fit_at_limits :
    succeeds [.bootstrap, .module "Main" ["push local 32767", "push constant 32767",
      "call f 32762", "pop temp 7"]] Emitter.start = true ∧
    ∀ line ∈ (Workbench.performAll (.bare []) 0
      ([.bootstrap, .module "Main" ["push local 32767", "push constant 32767",
        "call f 32762", "pop temp 7"]].map Job.task)
      (.new 1 ["@40000"])).listing.lines.drop 1,
      ∀ d, line = "@" ++ d → IsDigits d → numeralValue d ≤ 32767 := by
  have hok : succeeds [.bootstrap, .module "Main" ["push local 32767", "push constant 32767",
      "call f 32762", "pop temp 7"]] Emitter.start = true := by
    decide +kernel
  refine ⟨hok, (numeric_addresses_fit_iff (.bare []) ["@40000"] hok).mpr ?_⟩
  intro m lines hjob
  obtain ⟨rfl, rfl⟩ : m = "Main" ∧ lines = ["push local 32767", "push constant 32767",
      "call f 32762", "pop temp 7"] := by simpa using hjob
  decide +kernel

/-- Sessions succeed with an address of sixteen bits, be it the index of a local variable or
the size of a frame. -/
theorem numeric_addresses_exceed :
    (succeeds [.module "Main" ["push local 32768"]] Emitter.start = true ∧
      "@" ++ "32768" ∈ (Workbench.performAll (.bare []) 0
        ([.module "Main" ["push local 32768"]].map Job.task) (.new 1 [])).listing.lines) ∧
    (succeeds [.module "Main" ["call f 32763"]] Emitter.start = true ∧
      "@" ++ "32768" ∈ (Workbench.performAll (.bare []) 0
        ([.module "Main" ["call f 32763"]].map Job.task) (.new 1 [])).listing.lines) ∧
    IsDigits "32768" ∧ 32767 < numeralValue "32768" := by
  have hdigits : IsDigits "32768" := isNumeral_iff_isDigits.mp (by decide)
  refine ⟨⟨?_, ?_⟩, ⟨?_, ?_⟩, hdigits, ?_⟩ <;> decide +kernel

end HackVM
