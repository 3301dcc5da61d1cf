import HackVM.Proofs.GeneratedLabels
import HackVM.Proofs.LineValidity
import HackVM.Proofs.TextPatterns
import HackVM.Workbench

/-! # Listings are well-formed assembly

The grammar of assembly, on the texts of lines (`WellFormedLine`): labels and addresses
of symbols, addresses of canonical numerals, and computations with a destination or a
jump out of the tables of the machine.  Names of the source reach a line only after the
checks on names, and numerals only as the numbers that they denote.  So every line that
a fresh emitter adds to a listing belongs to the grammar, whatever the source is and
whether its modules succeed, and the text of the listing, cut at its line feeds, gives
the lines back (`listing_wellFormed_and_splits`). -/
namespace HackVM

open Asm Text

/-! ## The grammar -/

/-- The marks that may stand in a symbol. -/
def symbolMarks : List Char := ['_', '.', '$', ':']

/-- A decimal numeral without a sign and without leading zeros. -/
def IsCanonicalNumeral (t : String) : Prop := IsDigits t ∧ (t.toList.head? = some '0' → t = "0")

/-- The table of destinations. -/
def destinations : List String := ["M", "D", "MD", "A", "AM", "AD", "AMD"]

/-- The table of computations. -/
def computations : List String :=
  ["0", "1", "-1", "D", "A", "M", "!D", "!A", "!M", "-D", "-A", "-M", "D+1", "A+1", "M+1", "D-1",
    "A-1", "M-1", "D+A", "D+M", "D-A", "D-M", "A-D", "M-D", "D&A", "D&M", "D|A", "D|M"]

/-- The table of jumps. -/
def conditions : List String := ["JGT", "JEQ", "JGE", "JLT", "JNE", "JLE", "JMP"]

/-- The lines of assembly, by their texts. -/
inductive WellFormedLine : String → Prop where
  | label {s : String} (h : IsWord symbolMarks s) : WellFormedLine ("(" ++ s ++ ")")
  | symbol {s : String} (h : IsWord symbolMarks s) : WellFormedLine ("@" ++ s)
  | number {d : String} (h : IsCanonicalNumeral d) : WellFormedLine ("@" ++ d)
  | store {dest comp : String} (hdest : dest ∈ destinations) (hcomp : comp ∈ computations) :
    WellFormedLine (dest ++ "=" ++ comp)
  | jump {comp condition : String} (hcomp : comp ∈ computations)
    (hcondition : condition ∈ conditions) : WellFormedLine (comp ++ ";" ++ condition)

/-! ## Symbols -/

namespace Text

theorem IsWord.mono {marks marks' : List Char} {t : String} (h : IsWord marks t)
    (hsub : ∀ c ∈ marks, c ∈ marks') : IsWord marks' t := by
  obtain ⟨c, cs, ht, hc, hcs⟩ := h
  refine ⟨c, cs, ht, hc.imp_right (hsub c), fun x hx => ?_⟩
  exact (hcs x hx).imp_right fun h => h.imp_right (hsub x)

theorem IsWord.part {marks : List Char} {t : String} (h : IsWord marks t) :
    ∀ c ∈ t.toList, IsLetter c ∨ IsDigit c ∨ c ∈ marks := by
  obtain ⟨c, cs, ht, hc, hcs⟩ := h
  intro x hx
  rw [ht, List.mem_cons] at hx
  rcases hx with rfl | hx
  · exact hc.imp_right .inr
  · exact hcs x hx

/-- A word may be continued by letters, digits and marks. -/
theorem IsWord.append {marks : List Char} {t u : String} (h : IsWord marks t)
    (hu : ∀ c ∈ u.toList, IsLetter c ∨ IsDigit c ∨ c ∈ marks) : IsWord marks (t ++ u) := by
  obtain ⟨c, cs, ht, hc, hcs⟩ := h
  refine ⟨c, cs ++ u.toList, by rw [String.toList_append, ht]; rfl, hc, fun x hx => ?_⟩
  rcases List.mem_append.mp hx with hx | hx
  · exact hcs x hx
  · exact hu x hx

theorem isWord_of_isSymbolName {t : String} (h : isSymbolName t = true) : IsWord symbolMarks t :=
  (isSymbolName_iff_isWord.mp h).mono (by simp [symbolMarks])

theorem digit_of_mem_decimal {n : Nat} {c : Char} (h : c ∈ (decimal n).toList) : IsDigit c :=
  isDigit_iff.mp (isDigit_of_mem_decimal h)

end Text

namespace Symbol

theorem isWord_internalText {scope kind : String} {number : Nat} (hs : isSymbolName scope = true)
    (hk : isSymbolName kind = true) : IsWord symbolMarks (internalText scope kind number) := by
  unfold internalText
  refine ((isWord_of_isSymbolName hs).append ?_).append ?_ |>.append ?_ |>.append ?_
  · simp [symbolMarks]
  · exact (isWord_of_isSymbolName hk).part
  · simp [symbolMarks]
  · exact fun c hc => .inr (.inl (digit_of_mem_decimal hc))

/-- The text of a symbol made of checked names is a word. -/
theorem isWord_text {s : Symbol} (hv : s.Valid) : IsWord symbolMarks s.text := by
  cases s with
  | register r =>
    have hr : isSymbolName r.name = true := by cases r <;> decide
    exact isWord_of_isSymbolName hr
  | static m index =>
    obtain ⟨hm, hi⟩ := hv
    obtain ⟨n, rfl⟩ := Int.eq_ofNat_of_zero_le hi
    refine ((isWord_of_isSymbolName (isSymbolName_of_isModuleName hm)).append ?_).append ?_
    · simp [symbolMarks]
    · exact fun c hc => .inr (.inl (digit_of_mem_decimal hc))
  | entry f => exact isWord_of_isSymbolName hv
  | label scope name =>
    refine ((isWord_of_isSymbolName hv.1).append ?_).append (isWord_of_isSymbolName hv.2).part
    simp [symbolMarks]
  | compare m point number =>
    have hp : isSymbolName point.name = true := by cases point <;> decide
    exact isWord_internalText (isSymbolName_of_isModuleName hv) hp
  | returnSite scope number => exact isWord_internalText hv (by decide)

end Symbol

/-! ## Numerals -/

/-- Only zero has a numeral that starts with zero. -/
theorem eq_zero_of_head_toDigits {n : Nat} (h : (Nat.toDigits 10 n).head? = some '0') : n = 0 := by
  induction n using Nat.strongRecOn with
  | _ n ih =>
    rw [Nat.toDigits_eq_if (by decide)] at h
    split at h
    · rename_i hlt
      have hz : ∀ k : Fin 10, k.val.digitChar = '0' → k.val = 0 := by decide
      exact hz ⟨n, hlt⟩ (by simpa using h)
    · rename_i hge
      rw [List.head?_append_of_ne_nil _ Nat.toDigits_ne_nil] at h
      have := ih (n / 10) (by omega) h
      omega

theorem isCanonicalNumeral_decimal (n : Nat) : IsCanonicalNumeral (decimal n) := by
  refine ⟨⟨?_, fun c hc => digit_of_mem_decimal hc⟩, fun h => ?_⟩
  · intro h
    have hl : Nat.toDigits 10 n = [] := by rw [← toList_decimal, h]; rfl
    exact Nat.toDigits_ne_nil hl
  · rw [toList_decimal] at h
    rw [eq_zero_of_head_toDigits h]
    rfl

/-! ## Lines -/

/-- **A line of checked names and numbers is well formed.** -/
theorem Asm.Line.wellFormed_text {l : Line} (hv : l.Valid) : WellFormedLine l.text := by
  cases l with
  | label s => exact .label (Symbol.isWord_text hv)
  | address o =>
    cases o with
    | symbol s => exact .symbol (Symbol.isWord_text hv)
    | number n =>
      obtain ⟨k, rfl⟩ := Int.eq_ofNat_of_zero_le hv
      exact .number (isCanonicalNumeral_decimal k)
  | store dest comp =>
    exact .store (by cases dest <;> decide) (by cases comp <;> decide)
  | jump comp condition =>
    exact .jump (by cases comp <;> decide) (by cases condition <;> decide)

/-! ## Line breaks -/

/-- The characters that some reader of texts takes for the end of a line. -/
def lineBreaks : List Char :=
  ['\n', '\x0b', '\x0c', '\r', '\x1c', '\x1d', '\x1e', '\u0085', '\u2028', '\u2029']

/-- Whether a text is in ASCII, without blanks and control characters. -/
def Text.isVisible (t : String) : Bool := t.toList.all fun c => 0x21 ≤ c.toNat && c.toNat ≤ 0x7e

namespace Text

theorem isVisible_iff {t : String} :
    isVisible t = true ↔ ∀ c ∈ t.toList, 0x21 ≤ c.toNat ∧ c.toNat ≤ 0x7e := by
  simp [isVisible]

theorem isVisible_append {t u : String} (ht : isVisible t = true) (hu : isVisible u = true) :
    isVisible (t ++ u) = true := by
  rw [isVisible, String.toList_append, List.all_append, Bool.and_eq_true]
  exact ⟨ht, hu⟩

theorem notMem_lineBreaks {t : String} (ht : isVisible t = true) :
    ∀ c ∈ t.toList, c ∉ lineBreaks := by
  have hout : ∀ x ∈ lineBreaks, ¬(0x21 ≤ x.toNat ∧ x.toNat ≤ 0x7e) := by simp [lineBreaks]
  intro c hc hbreak
  exact hout c hbreak (isVisible_iff.mp ht c hc)

theorem visible_of_isDigit {c : Char} (h : IsDigit c) : 0x21 ≤ c.toNat ∧ c.toNat ≤ 0x7e := by
  have hbounds : 0x30 ≤ c.toNat ∧ c.toNat ≤ 0x39 := h
  omega

theorem visible_of_isLetter {c : Char} (h : IsLetter c) : 0x21 ≤ c.toNat ∧ c.toNat ≤ 0x7e := by
  have hbounds : (0x41 ≤ c.toNat ∧ c.toNat ≤ 0x5a) ∨ (0x61 ≤ c.toNat ∧ c.toNat ≤ 0x7a) := h
  omega

theorem IsDigits.isVisible {t : String} (h : IsDigits t) : isVisible t = true :=
  isVisible_iff.mpr fun c hc => visible_of_isDigit (h.2 c hc)

theorem IsWord.isVisible {t : String} (h : IsWord symbolMarks t) : isVisible t = true := by
  have hmarks : ∀ c ∈ symbolMarks, 0x21 ≤ c.toNat ∧ c.toNat ≤ 0x7e := by simp [symbolMarks]
  refine isVisible_iff.mpr fun c hc => ?_
  rcases h.part c hc with hl | hd | hm
  · exact visible_of_isLetter hl
  · exact visible_of_isDigit hd
  · exact hmarks c hm

end Text

namespace WellFormedLine

theorem isVisible {t : String} (h : WellFormedLine t) : isVisible t = true := by
  have hdestinations : ∀ t ∈ destinations, Text.isVisible t = true := by decide
  have hcomputations : ∀ t ∈ computations, Text.isVisible t = true := by decide
  have hconditions : ∀ t ∈ conditions, Text.isVisible t = true := by decide
  cases h with
  | label h => exact isVisible_append (isVisible_append rfl h.isVisible) rfl
  | symbol h => exact isVisible_append rfl h.isVisible
  | number h => exact isVisible_append rfl h.1.isVisible
  | store hdest hcomp =>
    exact isVisible_append (isVisible_append (hdestinations _ hdest) rfl) (hcomputations _ hcomp)
  | jump hcomp hcondition =>
    exact isVisible_append (isVisible_append (hcomputations _ hcomp) rfl) (hconditions _ hcondition)

theorem ne_empty {t : String} (h : WellFormedLine t) : t ≠ "" := by
  cases h <;> simp [String.append_eq_empty_iff]

end WellFormedLine

/-! ## Writing and cutting -/

namespace Text

/-- **Lines that hold no line feed are read back from the text of a listing**, followed
by what stands after the last line feed, which is nothing. -/
theorem lines_text {l : Listing} (h : ∀ t ∈ l.lines, '\n' ∉ t.toList) :
    lines l.text = l.lines ++ [""] := by
  obtain ⟨ts⟩ := l
  induction ts with
  | nil => rfl
  | cons t ts ih =>
    have hrest : lines (Listing.text ⟨ts⟩) = ts ++ [""] :=
      ih fun u hu => h u (List.mem_cons_of_mem _ hu)
    have ht : '\n' ∉ t.toList := h t (List.mem_cons_self ..)
    have htext : (Listing.text ⟨t :: ts⟩).toList =
        t.toList ++ '\n' :: (Listing.text ⟨ts⟩).toList := by
      simp [Listing.text, String.toList_join]
    calc lines (Listing.text ⟨t :: ts⟩)
      _ = t :: lines (Listing.text ⟨ts⟩) := by
          simp [lines, htext, pieces_append ht]
      _ = t :: ts ++ [""] := by rw [hrest, List.cons_append]

end Text

/-! ## Sessions on a workbench -/

/-- The task of a job. -/
def Job.task : Job → Task
  | .bootstrap => .bootstrap
  | .module name lines => .module name lines

/-- The workbench after one emitter has done tasks, one after the other and whether
they succeed or fail. -/
def Workbench.performAll (t : FileTree) (p : Nat) : List Task → Workbench → Workbench
  | [], b => b
  | task :: rest, b => performAll t p rest (b.perform t p task).1

theorem Job.emission_task (t : FileTree) (j : Job) (e : Emitter) :
    j.task.emission t e =
      ⟨(j.emission e).result.map fun _ => .done, (j.emission e).code, (j.emission e).emitter⟩ := by
  cases j with
  | bootstrap => exact Emission.bind_done Emission.bootstrap e
  | module name lines => exact Task.emission_module t name lines e

/-- One job on a workbench. -/
theorem Workbench.perform_job (t : FileTree) (b : Workbench) (p : Nat) (j : Job) :
    (b.perform t p j.task).1 =
      ⟨b.listing.append (j.emission (b.emitter p)).code,
        b.emitters.set p (j.emission (b.emitter p)).emitter⟩ := by
  simp only [perform, j.emission_task]

/-- One emitter adds the code of a session to the listing. -/
theorem listing_performAll (t : FileTree) (jobs : List Job) (l : Listing) (e : Emitter) :
    (Workbench.performAll t 0 (jobs.map Job.task) ⟨l, [e]⟩).listing =
      l.append (sessionCode jobs e) := by
  induction jobs generalizing l e with
  | nil => simp [Workbench.performAll, sessionCode, Listing.append, Listing.add]
  | cons j jobs ih =>
    have hstep : (Workbench.perform t ⟨l, [e]⟩ 0 j.task).1 =
        ⟨l.append (j.emission e).code, [(j.emission e).emitter]⟩ :=
      Workbench.perform_job t ⟨l, [e]⟩ 0 j
    rw [List.map_cons, Workbench.performAll, hstep, ih]
    simp [sessionCode, Listing.append, Listing.add]

theorem listing_performAll_new (t : FileTree) (jobs : List Job) :
    (Workbench.performAll t 0 (jobs.map Job.task) (.new 1 [])).listing = listing jobs :=
  listing_performAll t jobs .empty .start

theorem wellFormed_of_mem_listing {jobs : List Job} :
    ∀ t ∈ (listing jobs).lines, WellFormedLine t := by
  intro t ht
  rw [listing, Listing.lines_append, Listing.empty, List.nil_append, List.mem_map] at ht
  obtain ⟨l, hl, rfl⟩ := ht
  exact Line.wellFormed_text (valid_of_mem_program l hl)

/-- **A listing is well-formed assembly and survives serialization.**  Whatever modules
a fresh emitter translates, and whether they succeed or fail: each line is a label, an
address or a computation of the grammar, hence holds something and no line break; and
the text of the listing, cut at its line feeds, is its lines and one empty text. -/
theorem listing_wellFormed_and_splits (t : FileTree) (jobs : List Job) :
    (∀ line ∈ (Workbench.performAll t 0 (jobs.map Job.task) (.new 1 [])).listing.lines,
      WellFormedLine line ∧ line ≠ "" ∧ ∀ c ∈ line.toList, c ∉ lineBreaks) ∧
    Text.lines (Workbench.performAll t 0 (jobs.map Job.task) (.new 1 [])).listing.text =
      (Workbench.performAll t 0 (jobs.map Job.task) (.new 1 [])).listing.lines ++ [""] := by
  rw [listing_performAll_new]
  have hbreaks : ∀ line ∈ (listing jobs).lines, ∀ c ∈ line.toList, c ∉ lineBreaks :=
    fun line hline => notMem_lineBreaks (wellFormed_of_mem_listing line hline).isVisible
  refine ⟨fun line hline => ?_, lines_text fun line hline hfeed => ?_⟩
  · have hwf := wellFormed_of_mem_listing line hline
    exact ⟨hwf, hwf.ne_empty, hbreaks line hline⟩
  · exact hbreaks line hline _ hfeed (by decide)

/-- A numeral with leading zeros is written without them, also by a module that fails. -/
theorem listing_of_leading_zeros :
    "@7" ∈ (Workbench.performAll (.bare []) 0
        ([.bootstrap, .module "Main" ["push constant 007", "label a-b"]].map Job.task)
        (.new 1 [])).listing.lines ∧
      WellFormedLine "@7" ∧
      Text.lines (Workbench.performAll (.bare []) 0
        ([.module "Main" ["push constant 007", "label a-b"]].map Job.task)
        (.new 1 [])).listing.text =
        ["@7", "D=A", "@SP", "A=M", "M=D", "@SP", "M=M+1", ""] := by
  have hmem : "@7" ∈ (Workbench.performAll (.bare []) 0
      ([.bootstrap, .module "Main" ["push constant 007", "label a-b"]].map Job.task)
      (.new 1 [])).listing.lines := by
    decide +kernel
  refine ⟨hmem, ((listing_wellFormed_and_splits _ _).1 _ hmem).1, ?_⟩
  rw [(listing_wellFormed_and_splits _ _).2]
  decide +kernel

end HackVM
