import HackVM.Asm.Listing
import HackVM.Proofs.BlockSymbols
import Mathlib.Data.List.Nodup

/-! # Generated labels are unique and closed

Comparisons and calls jump to labels that the emitter makes up.  The module shows
that these labels never go astray, whatever is written before and after them:
a generated label that some block refers to is defined by one line of the whole
listing, that line lies in the same block, and no label, function or static
variable of the source has its text (`generated_labels_unique_and_closed`).

Two things carry the proof.  A block gives out numbers that no earlier block has
given out, so the generated labels of a session have no duplicates
(`nodup_generated`); and a text with two dollar signs can be read back, so equal
texts mean equal labels. -/
namespace HackVM

open Asm

/-! ## Lines by their texts -/

namespace Asm.Line

theorem head_store (dest : Dest) (comp : Comp) :
    ∃ c cs, (Line.store dest comp).text.toList = c :: cs ∧ c ≠ '(' ∧ c ≠ '@' := by
  simp only [text, String.toList_append]
  cases dest <;> exact ⟨_, _, rfl, by decide, by decide⟩

theorem head_jump (comp : Comp) (condition : Jump) :
    ∃ c cs, (Line.jump comp condition).text.toList = c :: cs ∧ c ≠ '(' ∧ c ≠ '@' := by
  simp only [text, String.toList_append]
  cases comp <;> exact ⟨_, _, rfl, by decide, by decide⟩

theorem toList_text_label (s : Symbol) :
    (Line.label s).text.toList = '(' :: (s.text.toList ++ [')']) := by
  simp [text]

theorem toList_text_address (o : Operand) :
    (Line.address o).text.toList = '@' :: o.text.toList := by
  simp [text]

/-- Only a label has the text of a label. -/
theorem text_eq_label_iff {l : Line} {t : String} :
    l.text = "(" ++ t ++ ")" ↔ ∃ s, l = .label s ∧ s.text = t := by
  constructor
  · intro h
    have hl := congrArg String.toList h
    have ht : ("(" ++ t ++ ")").toList = '(' :: (t.toList ++ [')']) := by simp
    rw [ht] at hl
    cases l with
    | label s =>
      rw [toList_text_label] at hl
      refine ⟨s, rfl, ?_⟩
      exact String.toList_inj.mp (List.append_cancel_right (List.cons.inj hl).2)
    | address o =>
      rw [toList_text_address] at hl
      exact absurd (List.cons.inj hl).1 (by decide)
    | store dest comp =>
      obtain ⟨c, cs, hc, hne, -⟩ := head_store dest comp
      rw [hc] at hl
      exact absurd (List.cons.inj hl).1 hne
    | jump comp condition =>
      obtain ⟨c, cs, hc, hne, -⟩ := head_jump comp condition
      rw [hc] at hl
      exact absurd (List.cons.inj hl).1 hne
  · rintro ⟨s, rfl, rfl⟩
    rfl

/-- Only an address instruction has the text of one. -/
theorem text_eq_address_iff {l : Line} {t : String} :
    l.text = "@" ++ t ↔ ∃ o, l = .address o ∧ o.text = t := by
  constructor
  · intro h
    have hl := congrArg String.toList h
    have ht : ("@" ++ t).toList = '@' :: t.toList := by simp
    rw [ht] at hl
    cases l with
    | label s =>
      rw [toList_text_label] at hl
      exact absurd (List.cons.inj hl).1 (by decide)
    | address o =>
      rw [toList_text_address] at hl
      exact ⟨o, rfl, String.toList_inj.mp (List.cons.inj hl).2⟩
    | store dest comp =>
      obtain ⟨c, cs, hc, -, hne⟩ := head_store dest comp
      rw [hc] at hl
      exact absurd (List.cons.inj hl).1 hne
    | jump comp condition =>
      obtain ⟨c, cs, hc, -, hne⟩ := head_jump comp condition
      rw [hc] at hl
      exact absurd (List.cons.inj hl).1 hne
  · rintro ⟨o, rfl, rfl⟩
    rfl

end Asm.Line

/-! ## Texts of generated labels -/

/-- The text of a generated label, for any scope and number: a place inside a
comparison, or where a call returns to. -/
def IsGeneratedText (t : String) : Prop :=
  (∃ (m : String) (p : ComparePoint) (n : Nat), t = Symbol.internalText m p.name n) ∨
    ∃ (scope : String) (n : Nat), t = Symbol.internalText scope "ret" n

/-- A generated label has two dollar signs, whatever its scope is. -/
theorem two_le_count_internalText (scope kind : String) (n : Nat) :
    2 ≤ (Symbol.internalText scope kind n).toList.count '$' := by
  rw [Symbol.toList_internalText, List.count_append, List.count_cons_self, List.count_cons_self]
  omega

theorem count_labelText {scope name : String} (hs : isSymbolName scope = true)
    (hn : isSymbolName name = true) : (Symbol.labelText scope name).toList.count '$' = 1 := by
  rw [Symbol.toList_labelText, List.count_append, List.count_cons_self,
    List.count_eq_zero_of_not_mem (dollar_notMem_of_isSymbolName hs),
    List.count_eq_zero_of_not_mem (dollar_notMem_of_isSymbolName hn)]

/-- Only a generated label has the text of one. -/
theorem Symbol.isGenerated_of_isGeneratedText {s : Symbol} (hv : s.Valid)
    (h : IsGeneratedText s.text) : s.IsGenerated := by
  obtain ⟨scope, kind, n, h⟩ : ∃ scope kind, ∃ n : Nat, s.text = internalText scope kind n := by
    rcases h with ⟨m, p, n, h⟩ | ⟨scope, n, h⟩
    · exact ⟨m, p.name, n, h⟩
    · exact ⟨scope, "ret", n, h⟩
  have hs : s.HasScope := by
    rw [← dollar_mem_text_iff hv, h]
    exact dollar_mem_internalText scope kind n
  cases s with
  | label scope' name =>
    have h1 : (Symbol.label scope' name).text.toList.count '$' = 1 := count_labelText hv.1 hv.2
    have h2 := two_le_count_internalText scope kind n
    rw [← h, h1] at h2
    exact absurd h2 (by decide)
  | compare m p n | returnSite scope n => trivial
  | _ => exact hs.elim

theorem dollar_mem_of_isGeneratedText {t : String} (h : IsGeneratedText t) : '$' ∈ t.toList := by
  rcases h with ⟨m, p, n, rfl⟩ | ⟨scope, n, rfl⟩ <;> exact Symbol.dollar_mem_internalText _ _ _

/-- An address instruction with the text of a generated label names one. -/
theorem exists_generated_of_address {o : Operand} (hv : ∀ s, o = .symbol s → s.Valid)
    (h : IsGeneratedText o.text) : ∃ s, o = .symbol s ∧ s.IsGenerated := by
  cases o with
  | symbol s => exact ⟨s, rfl, Symbol.isGenerated_of_isGeneratedText (hv s rfl) h⟩
  | number n =>
    -- a numeral holds digits, and perhaps a sign
    have hd := dollar_mem_of_isGeneratedText h
    cases n with
    | ofNat k => exact absurd (isDigit_of_mem_decimal hd) (by decide)
    | negSucc k =>
      have hd : '$' ∈ ("-" ++ Nat.repr (k + 1)).toList := hd
      rw [String.toList_append, List.mem_append] at hd
      rcases hd with hd | hd
      · exact absurd hd (by decide)
      · exact absurd (isDigit_of_mem_decimal (n := k + 1) hd) (by decide)

/-! ## No number is given out twice -/

namespace Block

theorem nodup_generated_block (b : Block) : b.generated.Nodup := by
  cases b with
  | start e => exact List.nodup_singleton _
  | command m e c =>
    cases c with
    | operate op => cases op <;> simp [generated]
    | call name arguments => exact List.nodup_singleton _
    | _ => exact List.nodup_nil

/-- Two blocks with different numbers share no generated label. -/
theorem disjoint_generated {b b' : Block} (h : b.after.Before b'.emitter) :
    List.Disjoint b.generated b'.generated := by
  intro s hs hs'
  rcases cases_of_mem_generated hs with ⟨_, _, _, _, -, rfl, hn⟩ | ⟨_, rfl, -, hn⟩
  · rcases cases_of_mem_generated hs' with ⟨_, _, _, _, -, he, -⟩ | ⟨_, he, -, -⟩
    · have := h.1
      injection he
      omega
    · cases he
  · rcases cases_of_mem_generated hs' with ⟨_, _, _, _, -, he, -⟩ | ⟨_, he, -, -⟩
    · cases he
    · have := h.2
      injection he
      omega

end Block

/-- **The generated labels of a session have no duplicates.** -/
theorem nodup_generated (jobs : List Job) : ((blocks jobs).flatMap Block.generated).Nodup := by
  refine List.nodup_flatMap.mpr ⟨fun b _ => b.nodup_generated_block, ?_⟩
  exact (ascending_sessionBlocks jobs Emitter.start).imp fun h => Block.disjoint_generated h

/-- Of the symbols that a session defines, the generated ones are those of its
blocks. -/
theorem filter_defined_program (jobs : List Job) :
    (defined (program jobs)).filter (·.IsGenerated) = (blocks jobs).flatMap Block.generated := by
  rw [defined_program, List.filter_flatMap, List.flatMap_def, List.flatMap_def]
  refine congrArg List.flatten (List.map_congr_left fun b _ => ?_)
  rw [List.filter_append, List.filter_eq_nil_iff.mpr, List.filter_eq_self.mpr, List.nil_append]
  · intro s hs
    exact decide_eq_true (Block.isGenerated_of_mem_generated hs)
  · intro s hs
    rw [decide_eq_true_eq]
    exact fun hg => hg.not_isDeclared (Block.isDeclared_of_mem_declared hs)

/-- A generated label of a block is defined once in the whole session. -/
theorem count_defined_program {jobs : List Job} {b : Block} (hb : b ∈ blocks jobs) {s : Symbol}
    (hs : s ∈ b.generated) : (defined (program jobs)).count s = 1 := by
  have hg : decide s.IsGenerated = true := decide_eq_true (Block.isGenerated_of_mem_generated hs)
  -- labels of the source may repeat, so only the generated ones are counted
  rw [← List.count_filter (p := fun s : Symbol => decide s.IsGenerated) hg, filter_defined_program]
  exact List.count_eq_one_of_mem (nodup_generated jobs) (List.mem_flatMap.mpr ⟨b, hb, hs⟩)

/-! ## The listing of a session -/

/-- The listing that a session of a fresh emitter writes. -/
def listing (jobs : List Job) : Listing := Listing.empty.append (program jobs)

/-- Lines that define a symbol with a scope can be counted by their texts. -/
theorem count_lines_listing {jobs : List Job} {s : Symbol} (hv : s.Valid) (hs : s.HasScope) :
    (listing jobs).lines.count ("(" ++ s.text ++ ")") = (defined (program jobs)).count s := by
  show ((program jobs).map Line.text).count _ = ((program jobs).filterMap Line.defined?).count s
  rw [List.count, List.countP_map, List.count, List.countP_filterMap]
  refine List.countP_congr fun l hl => ?_
  simp only [Function.comp_apply, beq_iff_eq, Line.text_eq_label_iff]
  constructor
  · rintro ⟨s', rfl, ht⟩
    have hv' := valid_of_mem_defined_program jobs s' (mem_defined.mpr hl)
    rw [Symbol.eq_of_text_eq hv hv' hs ht.symm]
    simp [Line.defined?]
  · intro h
    cases l with
    | label s' =>
      have he : s' = s := by simpa [Line.defined?] using h
      exact ⟨s', rfl, by rw [he]⟩
    | _ => simp [Line.defined?] at h

/-- **Generated labels are unique and closed.**  In the listing of any session, with
jobs that may fail, a generated label that a block refers to is defined by exactly
one line; the line lies in that block; and no register, static variable, function
or label of the source that the listing names has the same text. -/
theorem generated_labels_unique_and_closed (jobs : List Job) {b : Block} (hb : b ∈ blocks jobs)
    {t : String} (ht : IsGeneratedText t) (href : "@" ++ t ∈ b.code.map Line.text) :
    (listing jobs).lines.count ("(" ++ t ++ ")") = 1 ∧
      "(" ++ t ++ ")" ∈ b.code.map Line.text ∧
      ∀ s ∈ defined (program jobs) ++ referred (program jobs), ¬ s.IsGenerated → s.text ≠ t := by
  have hsound := sound_of_mem_blocks jobs b hb
  obtain ⟨l, hl, htext⟩ := List.mem_map.mp href
  obtain ⟨o, rfl, rfl⟩ := Line.text_eq_address_iff.mp htext
  have hv : ∀ s, o = .symbol s → s.Valid := by
    rintro s rfl
    exact Block.valid_of_mem_referred hsound s (mem_referred.mpr hl)
  obtain ⟨s, rfl, hg⟩ := exists_generated_of_address hv ht
  -- a block refers to no generated label but its own
  have hmem : s ∈ b.generated := by
    rcases Block.mem_referred_code hsound s (mem_referred.mpr hl) with ⟨r, rfl⟩ | h | h | h
    · exact hg.elim
    · obtain ⟨m, index, rfl⟩ := Block.exists_of_mem_statics h
      exact hg.elim
    · exact absurd (Block.isDeclared_of_mem_targets h) hg.not_isDeclared
    · exact h
  refine ⟨?_, ?_, ?_⟩
  · show (listing jobs).lines.count ("(" ++ s.text ++ ")") = 1
    rw [count_lines_listing (hv s rfl) hg.hasScope, count_defined_program hb hmem]
  · have hd : s ∈ defined b.code := by
      rw [Block.defined_code hsound]
      exact List.mem_append_right _ hmem
    exact List.mem_map.mpr ⟨_, mem_defined.mp hd, rfl⟩
  · intro s' hs' hng he
    have hv' : s'.Valid := by
      rcases List.mem_append.mp hs' with h | h
      · exact valid_of_mem_defined_program jobs s' h
      · exact valid_of_mem_referred_program jobs s' h
    exact hng (Symbol.eq_of_text_eq (hv s rfl) hv' hg.hasScope he.symm ▸ hg)

/-- A call in a module that is named like the scope of the program's start, after a
module that failed midway: its return label is still its own. -/
theorem generated_labels_of_homonymous_module :
    "@bootstrap$$ret.1" ∈
        (Block.command "bootstrap" ⟨.outer, 1, 1⟩ (.call "f" 0)).code.map Line.text ∧
      (listing [.bootstrap, .module "Main" ["eq", "jump"],
        .module "bootstrap" ["call f 0", "label ret.1"]]).lines.count "(bootstrap$$ret.1)" = 1 := by
  have hb : Block.command "bootstrap" ⟨.outer, 1, 1⟩ (.call "f" 0) ∈
      blocks [.bootstrap, .module "Main" ["eq", "jump"],
        .module "bootstrap" ["call f 0", "label ret.1"]] := by
    decide +kernel
  have ht : IsGeneratedText "bootstrap$$ret.1" := .inr ⟨"bootstrap", 1, by decide +kernel⟩
  have href : "@" ++ "bootstrap$$ret.1" ∈
      (Block.command "bootstrap" ⟨.outer, 1, 1⟩ (.call "f" 0)).code.map Line.text := by
    decide +kernel
  exact ⟨href, (generated_labels_unique_and_closed _ hb ht href).1⟩

end HackVM
