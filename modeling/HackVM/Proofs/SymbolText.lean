import HackVM.Symbol

/-! # What the texts of symbols tell apart

Symbols are told apart by their texts only.  No checked name holds a dollar sign,
so the number of dollar signs in a text says whether it is a name of its own
(none), a label of the source (one) or a label made here (two), and the first of
them ends the scope.  A dot parts the kind of a generated label from its number.
Hence the texts of source labels and of generated labels can be read back
(`Symbol.eq_of_text_eq`); entries, static variables and registers share one
space of names, and only their texts can be compared. -/
namespace HackVM

/-! ## Characters of names -/

theorem ne_dollar_of_isSymbolPart {c : Char} (h : isSymbolPart c = true) : c ≠ '$' := by
  rintro rfl
  exact absurd h (by decide)

theorem isSymbolPart_of_isSymbolStart {c : Char} (h : isSymbolStart c = true) :
    isSymbolPart c = true := by
  simp [isSymbolPart, h]

/-- A name is a character that may start it and characters that may follow. -/
theorem exists_cons_iff {cs : List Char} {start part : Char → Bool} :
    (match cs with
      | [] => false
      | c :: cs => start c && cs.all part) = true ↔
      ∃ c cs', cs = c :: cs' ∧ start c = true ∧ ∀ x ∈ cs', part x = true := by
  cases cs with
  | nil => simp
  | cons c cs =>
    simp only [Bool.and_eq_true, List.all_eq_true]
    constructor
    · intro h
      exact ⟨c, cs, rfl, h⟩
    · rintro ⟨d, ds, hd, h⟩
      cases hd
      exact h

theorem isSymbolName_iff {s : String} :
    isSymbolName s = true ↔ ∃ c cs, s.toList = c :: cs ∧ isSymbolStart c = true ∧
      ∀ x ∈ cs, isSymbolPart x = true := exists_cons_iff

theorem isModuleName_iff {s : String} :
    isModuleName s = true ↔ ∃ c cs, s.toList = c :: cs ∧ isModuleStart c = true ∧
      ∀ x ∈ cs, isModulePart x = true := exists_cons_iff

theorem isSymbolPart_of_mem {s : String} (h : isSymbolName s = true) :
    ∀ c ∈ s.toList, isSymbolPart c = true := by
  obtain ⟨d, cs, hs, hd, hcs⟩ := isSymbolName_iff.mp h
  intro c hc
  rw [hs, List.mem_cons] at hc
  rcases hc with rfl | hc
  · exact isSymbolPart_of_isSymbolStart hd
  · exact hcs c hc

/-- A checked name holds no dollar sign. -/
theorem dollar_notMem_of_isSymbolName {s : String} (h : isSymbolName s = true) :
    '$' ∉ s.toList :=
  fun hc => ne_dollar_of_isSymbolPart (isSymbolPart_of_mem h _ hc) rfl

theorem isSymbolStart_of_isModuleStart {c : Char} (h : isModuleStart c = true) :
    isSymbolStart c = true := by
  simp only [isModuleStart, Bool.or_eq_true] at h
  simp only [isSymbolStart, Bool.or_eq_true]
  rcases h with (h | h) | h
  · exact .inl (.inl (.inl h))
  · exact .inl (.inl (.inr h))
  · exact .inr h

theorem isSymbolPart_of_isModulePart {c : Char} (h : isModulePart c = true) :
    isSymbolPart c = true := by
  simp only [isModulePart, Bool.or_eq_true] at h
  simp only [isSymbolPart, Bool.or_eq_true]
  rcases h with h | h
  · exact .inl (isSymbolStart_of_isModuleStart h)
  · exact .inr h

/-- The name of a module could also name a function. -/
theorem isSymbolName_of_isModuleName {s : String} (h : isModuleName s = true) :
    isSymbolName s = true := by
  obtain ⟨c, cs, hs, hc, hcs⟩ := isModuleName_iff.mp h
  exact isSymbolName_iff.mpr ⟨c, cs, hs, isSymbolStart_of_isModuleStart hc,
    fun x hx => isSymbolPart_of_isModulePart (hcs x hx)⟩

/-! ## Numerals -/

theorem toList_decimal (n : Nat) : (Text.decimal n).toList = Nat.toDigits 10 n :=
  Nat.toList_repr

theorem isDigit_of_mem_decimal {n : Nat} {c : Char} (h : c ∈ (Text.decimal n).toList) :
    c.isDigit = true := by
  rw [toList_decimal] at h
  exact Nat.isDigit_of_mem_toDigits (by decide) (by decide) h

/-- A number can be read back from its numeral. -/
theorem decimal_injective {n k : Nat} (h : Text.decimal n = Text.decimal k) : n = k := by
  have hd : Nat.toDigits 10 n = Nat.toDigits 10 k := by
    rw [← toList_decimal, ← toList_decimal, h]
  have := congrArg (fun cs => Nat.ofDigitChars 10 cs 0) hd
  simpa using this

/-! ## Reading texts back -/

/-- Two lists that are cut at the first occurrence of one element agree on both
sides of it. -/
theorem eq_and_eq_of_append_cons {α : Type} {x : α} {a a' b b' : List α} (ha : x ∉ a)
    (ha' : x ∉ a') (h : a ++ x :: b = a' ++ x :: b') : a = a' ∧ b = b' := by
  induction a generalizing a' with
  | nil =>
    cases a' with
    | nil => exact ⟨rfl, (List.cons.inj h).2⟩
    | cons y a' => exact absurd (List.mem_cons.mpr (.inl (List.cons.inj h).1)) ha'
  | cons z a ih =>
    cases a' with
    | nil => exact absurd (List.mem_cons.mpr (.inl (List.cons.inj h).1.symm)) ha
    | cons y a' =>
      obtain ⟨rfl, ht⟩ := List.cons.inj h
      obtain ⟨rfl, hb⟩ := ih (fun hx => ha (List.mem_cons_of_mem _ hx))
        (fun hx => ha' (List.mem_cons_of_mem _ hx)) ht
      exact ⟨rfl, hb⟩

namespace Symbol

/-- The names in a symbol have passed the checks on names. -/
def Valid : Symbol → Prop
  | .register _ => True
  | .static m index => isModuleName m = true ∧ 0 ≤ index
  | .entry f => isSymbolName f = true
  | .label scope name => isSymbolName scope = true ∧ isSymbolName name = true
  | .compare m _ _ => isModuleName m = true
  | .returnSite scope _ => isSymbolName scope = true

/-- A symbol that the emitter makes up for itself: a place inside a comparison, or
where a call returns to. -/
def IsGenerated : Symbol → Prop
  | .compare .. | .returnSite .. => True
  | _ => False

instance (s : Symbol) : Decidable s.IsGenerated := by
  cases s <;> unfold IsGenerated <;> infer_instance

/-- A symbol that the source declares: the entry of a function, or a label. -/
def IsDeclared : Symbol → Prop
  | .entry _ | .label .. => True
  | _ => False

instance (s : Symbol) : Decidable s.IsDeclared := by
  cases s <;> unfold IsDeclared <;> infer_instance

/-- A static variable. -/
def IsStatic : Symbol → Prop
  | .static .. => True
  | _ => False

instance (s : Symbol) : Decidable s.IsStatic := by
  cases s <;> unfold IsStatic <;> infer_instance

theorem toList_labelText (scope name : String) :
    (labelText scope name).toList = scope.toList ++ '$' :: name.toList := by
  simp [labelText]

theorem toList_internalText (scope kind : String) (number : Nat) :
    (internalText scope kind number).toList =
      scope.toList ++ '$' :: ('$' :: (kind.toList ++ '.' :: (Text.decimal number).toList)) := by
  simp [internalText]

theorem toList_staticText (m : String) (index : Int) :
    (staticText m index).toList = m.toList ++ '.' :: (Text.decimal index).toList := by
  simp [staticText]

/-- A source label can be read back from its text. -/
theorem labelText_injective {scope name scope' name' : String} (hs : isSymbolName scope = true)
    (hs' : isSymbolName scope' = true) (h : labelText scope name = labelText scope' name') :
    scope = scope' ∧ name = name' := by
  have hl := congrArg String.toList h
  rw [toList_labelText, toList_labelText] at hl
  obtain ⟨h1, h2⟩ := eq_and_eq_of_append_cons (dollar_notMem_of_isSymbolName hs)
    (dollar_notMem_of_isSymbolName hs') hl
  exact ⟨String.toList_inj.mp h1, String.toList_inj.mp h2⟩

/-- A generated label can be read back from its text. -/
theorem internalText_injective {scope kind scope' kind' : String} {number number' : Nat}
    (hs : isSymbolName scope = true) (hs' : isSymbolName scope' = true) (hk : '.' ∉ kind.toList)
    (hk' : '.' ∉ kind'.toList)
    (h : internalText scope kind number = internalText scope' kind' number') :
    scope = scope' ∧ kind = kind' ∧ number = number' := by
  have hl := congrArg String.toList h
  rw [toList_internalText, toList_internalText] at hl
  obtain ⟨h1, h2⟩ := eq_and_eq_of_append_cons (dollar_notMem_of_isSymbolName hs)
    (dollar_notMem_of_isSymbolName hs') hl
  obtain ⟨h3, h4⟩ := eq_and_eq_of_append_cons hk hk' (List.cons.inj h2).2
  exact ⟨String.toList_inj.mp h1, String.toList_inj.mp h3,
    decimal_injective (String.toList_inj.mp h4)⟩

/-- A source label has one dollar sign, and a generated label two. -/
theorem labelText_ne_internalText {scope name scope' kind : String} {number : Nat}
    (hs : isSymbolName scope = true) (hn : isSymbolName name = true)
    (hs' : isSymbolName scope' = true) :
    labelText scope name ≠ internalText scope' kind number := by
  intro h
  have hl := congrArg String.toList h
  rw [toList_labelText, toList_internalText] at hl
  obtain ⟨-, h2⟩ := eq_and_eq_of_append_cons (dollar_notMem_of_isSymbolName hs)
    (dollar_notMem_of_isSymbolName hs') hl
  exact dollar_notMem_of_isSymbolName hn (by rw [h2]; exact List.mem_cons_self ..)

theorem dollar_mem_labelText (scope name : String) : '$' ∈ (labelText scope name).toList := by
  rw [toList_labelText]
  exact List.mem_append_right _ (List.mem_cons_self ..)

theorem dollar_mem_internalText (scope kind : String) (number : Nat) :
    '$' ∈ (internalText scope kind number).toList := by
  rw [toList_internalText]
  exact List.mem_append_right _ (List.mem_cons_self ..)

theorem dollar_notMem_staticText {m : String} {index : Int} (hm : isModuleName m = true)
    (hi : 0 ≤ index) : '$' ∉ (staticText m index).toList := by
  obtain ⟨n, rfl⟩ := Int.eq_ofNat_of_zero_le hi
  rw [toList_staticText, List.mem_append, List.mem_cons]
  rintro (h | h | h)
  · exact dollar_notMem_of_isSymbolName (isSymbolName_of_isModuleName hm) h
  · exact absurd h (by decide)
  · exact absurd (isDigit_of_mem_decimal h) (by decide)

/-- A symbol that belongs to a scope: a source label or a generated label. -/
def HasScope : Symbol → Prop
  | .label .. | .compare .. | .returnSite .. => True
  | _ => False

theorem IsGenerated.hasScope {s : Symbol} (h : s.IsGenerated) : s.HasScope := by
  cases s <;> first | exact h | trivial

theorem IsGenerated.not_isDeclared {s : Symbol} (h : s.IsGenerated) : ¬ s.IsDeclared := by
  cases s with
  | compare m p n | returnSite scope n => exact id
  | _ => exact h.elim

/-- **Dollar signs mark scopes**: a symbol belongs to a scope exactly when its text
holds a dollar sign. -/
theorem dollar_mem_text_iff {s : Symbol} (hv : s.Valid) : '$' ∈ s.text.toList ↔ s.HasScope := by
  cases s with
  | register r => cases r <;> simp [text, Register.name, HasScope]
  | static m index => exact iff_of_false (dollar_notMem_staticText hv.1 hv.2) id
  | entry f => exact iff_of_false (dollar_notMem_of_isSymbolName hv) id
  | label scope name => exact iff_of_true (dollar_mem_labelText scope name) trivial
  | compare m point number => exact iff_of_true (dollar_mem_internalText m _ number) trivial
  | returnSite scope number => exact iff_of_true (dollar_mem_internalText scope _ number) trivial

theorem dot_notMem_pointName (p : ComparePoint) : '.' ∉ p.name.toList := by
  cases p <;> decide

theorem pointName_injective {p q : ComparePoint} (h : p.name = q.name) : p = q := by
  cases p <;> cases q <;> first | rfl | exact absurd h (by decide)

theorem pointName_ne_ret (p : ComparePoint) : p.name ≠ "ret" := by
  cases p <;> decide

/-- **Symbols with a scope are told apart by their texts**, from each other and
from all other symbols. -/
theorem eq_of_text_eq {s s' : Symbol} (hv : s.Valid) (hv' : s'.Valid) (hs : s.HasScope)
    (h : s.text = s'.text) : s = s' := by
  have hs' : s'.HasScope := by
    rw [← dollar_mem_text_iff hv', ← h]
    exact (dollar_mem_text_iff hv).mpr hs
  have hret : '.' ∉ "ret".toList := by decide
  -- one dollar sign against two tells labels from generated ones, and the word after them
  -- tells the generated ones apart
  cases s with
  | register r => exact hs.elim
  | static m index => exact hs.elim
  | entry f => exact hs.elim
  | label scope name =>
    cases s' with
    | label scope' name' =>
      obtain ⟨rfl, rfl⟩ := labelText_injective hv.1 hv'.1 h
      rfl
    | compare m' _ _ =>
      exact absurd h (labelText_ne_internalText hv.1 hv.2 (isSymbolName_of_isModuleName hv'))
    | returnSite scope' _ => exact absurd h (labelText_ne_internalText hv.1 hv.2 hv')
    | _ => exact hs'.elim
  | compare m point number =>
    have hm := isSymbolName_of_isModuleName hv
    cases s' with
    | label scope' name' => exact absurd h.symm (labelText_ne_internalText hv'.1 hv'.2 hm)
    | compare m' point' number' =>
      obtain ⟨rfl, hp, rfl⟩ := internalText_injective hm (isSymbolName_of_isModuleName hv')
        (dot_notMem_pointName point) (dot_notMem_pointName point') h
      rw [pointName_injective hp]
    | returnSite scope' number' =>
      obtain ⟨-, hp, -⟩ := internalText_injective hm hv' (dot_notMem_pointName point) hret h
      exact absurd hp (pointName_ne_ret point)
    | _ => exact hs'.elim
  | returnSite scope number =>
    cases s' with
    | label scope' name' => exact absurd h.symm (labelText_ne_internalText hv'.1 hv'.2 hv)
    | compare m' point' number' =>
      obtain ⟨-, hp, -⟩ := internalText_injective hv (isSymbolName_of_isModuleName hv') hret
        (dot_notMem_pointName point') h
      exact absurd hp.symm (pointName_ne_ret point')
    | returnSite scope' number' =>
      obtain ⟨rfl, -, rfl⟩ := internalText_injective hv hv' hret hret h
      rfl
    | _ => exact hs'.elim

/-- Symbols that the source declares are told apart by their texts. -/
theorem IsDeclared.eq_of_text_eq {s s' : Symbol} (hs : s.IsDeclared) (hs' : s'.IsDeclared)
    (hv : s.Valid) (hv' : s'.Valid) (h : s.text = s'.text) : s = s' := by
  cases s with
  | label scope name => exact Symbol.eq_of_text_eq hv hv' trivial h
  | entry f =>
    cases s' with
    | label scope name => exact (Symbol.eq_of_text_eq hv' hv trivial h.symm).symm
    | entry f' => exact congrArg entry h
    | _ => exact hs'.elim
  | _ => exact hs.elim

end Symbol
end HackVM
