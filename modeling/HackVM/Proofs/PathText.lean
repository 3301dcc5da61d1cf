import HackVM.Files.Path

/-! # Writing paths down and reading them back

A path is written as a text when a file is opened, and the system cuts that text at its
slashes again.  The components are read back (`Proper.namesIn_text`), and so is where the
path starts (`Proper.rootOf_text`), if no component is empty or holds a slash.  That
holds of every path that was read from a text, and is kept when a path is led on by a
proper name or gets another suffix. -/
namespace HackVM

/-- A name that can stand between two slashes. -/
def IsComponent (name : String) : Prop := name ≠ "" ∧ '/' ∉ name.toList

namespace Text

/-- Names with slashes between them are cut apart again. -/
theorem pieces_join {names : List String} (hne : names ≠ [])
    (h : ∀ name ∈ names, '/' ∉ name.toList) :
    pieces '/' (join "/" names).toList = names.map String.toList := by
  induction names with
  | nil => exact absurd rfl hne
  | cons s names ih =>
    have hs : '/' ∉ s.toList := h s (List.mem_cons_self ..)
    by_cases hrest : names = []
    · subst hrest
      exact pieces_of_notMem hs
    · rw [toList_join_cons (c := '/') rfl hrest, pieces_append hs,
        ih hrest fun name hname => h name (List.mem_cons_of_mem _ hname), List.map_cons]

end Text

namespace Path

/-- The names in a path text, as the system takes them when it opens a file. -/
def namesIn (text : String) : List String :=
  ((Text.pieces '/' text.toList).map String.ofList).filter (· ≠ "")

/-- A path whose text shows its components. -/
def Proper (p : Path) : Prop := ∀ part ∈ p.parts, IsComponent part

variable {p : Path}

theorem proper_ofText (s : String) : (ofText s).Proper := by
  intro part hpart
  rw [ofText, List.mem_filter, List.mem_map] at hpart
  obtain ⟨⟨piece, hpiece, rfl⟩, hkept⟩ := hpart
  refine ⟨fun hempty => by simp [hempty] at hkept, ?_⟩
  rw [String.toList_ofList]
  exact Text.notMem_of_mem_pieces hpiece

/-- A name by itself is a path. -/
theorem ofText_name {name : String} (h : IsComponent name) (hdot : name ≠ ".") :
    ofText name = ⟨.relative, [name]⟩ := by
  have hroot : rootOf name.toList = .relative := by
    cases hcs : name.toList with
    | nil => rfl
    | cons c cs =>
      have hc : c ≠ '/' := by
        rintro rfl
        exact h.2 (by simp [hcs])
      simp [rootOf, hc]
  rw [ofText, hroot, Text.pieces_of_notMem h.2, List.map_singleton, String.ofList_toList]
  simp [h.1, hdot]

theorem Proper.child (hp : p.Proper) {name : String} (hname : IsComponent name) :
    (p.child name).Proper := by
  intro part hpart
  rcases List.mem_append.mp hpart with hpart | hpart
  · exact hp part hpart
  · rw [List.mem_singleton.mp hpart]
    exact hname

theorem Proper.parent (hp : p.Proper) : p.parent.Proper :=
  fun part hpart => hp part (List.dropLast_subset _ hpart)

/-! ## Names with a suffix -/

theorem stem_child (p : Path) (name : String) : (p.child name).stem = (splitName name).1 := by
  rw [stem, Path.name, child, List.getLast?_concat, Option.getD_some]

/-- A suffix that holds no other dot is cut off, if there is something in front of it. -/
theorem splitName_append {name extension : String} (hname : name ≠ "") (hne : extension ≠ "")
    (hdot : '.' ∉ extension.toList) :
    splitName (name ++ "." ++ extension) = (name, "." ++ extension) := by
  have hsuffix : '.' :: ((name ++ "." ++ extension).toList.reverse.takeWhile (· ≠ '.')).reverse =
      '.' :: extension.toList := by
    have hall : ∀ c ∈ extension.toList.reverse, decide (c ≠ '.') = true := by
      intro c hc
      refine decide_eq_true ?_
      rintro rfl
      exact hdot (List.mem_reverse.mp hc)
    have hreverse : (name ++ "." ++ extension).toList.reverse =
        extension.toList.reverse ++ '.' :: name.toList.reverse := by simp
    rw [hreverse, List.takeWhile_append_of_pos hall, List.takeWhile_cons_of_neg (by simp),
      List.append_nil, List.reverse_reverse]
  have hlength : (name ++ "." ++ extension).length = name.length + (extension.length + 1) := by
    simp only [String.length_append]
    show name.length + 1 + extension.length = _
    omega
  have hstem : (name ++ "." ++ extension).toList.take name.length = name.toList := by
    rw [String.append_assoc, String.toList_append, ← String.length_toList]
    exact List.take_left
  have hpositive : 0 < extension.length := by
    rw [← String.length_toList]
    exact List.length_pos_iff.mpr fun h => hne (String.toList_eq_nil_iff.mp h)
  simp only [splitName, hsuffix, List.length_cons, String.length_toList, hlength,
    Nat.add_sub_cancel, hstem]
  rw [if_neg]
  · rw [String.ofList_toList]
    refine Prod.ext rfl ?_
    apply String.toList_injective
    simp
  · have hlist : name.toList ≠ [] := fun h => hname (String.toList_eq_nil_iff.mp h)
    simp only [Bool.or_eq_true, decide_eq_true_eq, not_or]
    exact ⟨⟨by omega, hlist⟩, by omega⟩

theorem Proper.slash_notMem_name (hp : p.Proper) : '/' ∉ p.name.toList := by
  unfold name
  cases h : p.parts.getLast? with
  | none => exact List.not_mem_nil
  | some part => exact (hp part (List.mem_of_getLast? h)).2

theorem slash_notMem_splitName {name : String} (h : '/' ∉ name.toList) :
    '/' ∉ (splitName name).1.toList := by
  simp only [splitName]
  split
  · exact h
  · rw [String.toList_ofList]
    exact fun hmem => h (List.mem_of_mem_take hmem)

/-- A name that goes on with a suffix. -/
theorem isComponent_append {name suffix : String} (hname : '/' ∉ name.toList)
    (hsuffix : IsComponent suffix) : IsComponent (name ++ suffix) := by
  constructor
  · exact fun h => hsuffix.1 (String.append_eq_empty_iff.mp h).2
  · rw [String.toList_append, List.mem_append, not_or]
    exact ⟨hname, hsuffix.2⟩

theorem Proper.withSuffix (hp : p.Proper) {suffix : String} (hsuffix : IsComponent suffix) :
    (p.withSuffix suffix).Proper :=
  hp.parent.child (isComponent_append (slash_notMem_splitName hp.slash_notMem_name) hsuffix)

/-! ## The text of a path -/

section Text

variable (hp : p.Proper) (hne : p.parts ≠ [])
include hp hne

/-- The components of a path, written with slashes, begin with no slash. -/
theorem Proper.exists_head_join :
    ∃ c cs, (Text.join "/" p.parts).toList = c :: cs ∧ c ≠ '/' := by
  obtain ⟨part, rest, hparts⟩ := List.exists_cons_of_ne_nil hne
  obtain ⟨hpart, hslash⟩ := hp part (by simp [hparts])
  obtain ⟨c, cs, hcs⟩ : ∃ c cs, part.toList = c :: cs :=
    List.exists_cons_of_ne_nil fun h => hpart (String.toList_eq_nil_iff.mp h)
  have hc : c ≠ '/' := by
    rintro rfl
    exact hslash (by simp [hcs])
  rw [hparts]
  by_cases hrest : rest = []
  · subst hrest
    exact ⟨c, cs, hcs, hc⟩
  · exact ⟨c, _, by rw [Text.toList_join_cons (c := '/') rfl hrest, hcs, List.cons_append], hc⟩

theorem Proper.toList_text :
    p.text.toList = p.root.text.toList ++ (Text.join "/" p.parts).toList := by
  obtain ⟨c, cs, hjoin, -⟩ := hp.exists_head_join hne
  have htext : p.root.text ++ Text.join "/" p.parts ≠ "" := by
    intro h
    have hlist := congrArg String.toList (String.append_eq_empty_iff.mp h).2
    rw [hjoin] at hlist
    cases hlist
  simp only [text, if_neg htext, String.toList_append]

/-- **The components of a path are read back from its text.** -/
theorem Proper.namesIn_text : namesIn p.text = p.parts := by
  have hpieces := Text.pieces_join hne fun part hpart => (hp part hpart).2
  have hparts : (p.parts.map fun part => String.ofList part.toList).filter (· ≠ "") = p.parts := by
    simp only [String.ofList_toList, List.map_id']
    exact List.filter_eq_self.mpr fun part hpart => decide_eq_true (hp part hpart).1
  rw [namesIn, hp.toList_text hne]
  cases p.root with
  | relative =>
    simp only [PathRoot.text, String.toList_empty, List.nil_append, hpieces, List.map_map]
    exact hparts
  | single =>
    show List.filter _ (List.map _ (Text.pieces '/' ('/' :: (Text.join "/" p.parts).toList))) = _
    rw [Text.pieces, if_pos rfl, hpieces, List.map_cons, List.map_map, List.filter_cons_of_neg]
    · exact hparts
    · simp
  | double =>
    show List.filter _
      (List.map _ (Text.pieces '/' ('/' :: '/' :: (Text.join "/" p.parts).toList))) = _
    rw [Text.pieces, if_pos rfl, Text.pieces, if_pos rfl, hpieces, List.map_cons, List.map_cons,
      List.map_map, List.filter_cons_of_neg, List.filter_cons_of_neg]
    · exact hparts
    · simp
    · simp

/-- **Where a path starts is read back from its text.** -/
theorem Proper.rootOf_text : rootOf p.text.toList = p.root := by
  obtain ⟨c, cs, hjoin, hc⟩ := hp.exists_head_join hne
  rw [hp.toList_text hne, hjoin]
  cases p.root <;> simp [rootOf, PathRoot.text, hc]

end Text
end Path
end HackVM
