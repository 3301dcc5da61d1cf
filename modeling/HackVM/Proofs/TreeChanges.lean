import HackVM.Files.Tree
import HackVM.Proofs.CommandReading
import HackVM.Proofs.PathText

/-! # What making directories and writing a file change

Making the directories that lead to a path adds directories on the way to it, where
nothing stood, and changes nothing else, whether it succeeds or fails
(`grows_makeDirectories`).  Writing a file at a path needs the directories on the way to
it, and changes what stands at the path itself (`write_text_eq_ok`). -/
namespace HackVM

namespace FileTree

/-! ## Putting something at a place -/

theorem lookup_filter_ne {place q : Place} (h : q ≠ place) (entries : List (Place × Node)) :
    (entries.filter fun entry => entry.1 ≠ place).lookup q = entries.lookup q := by
  induction entries with
  | nil => rfl
  | cons entry entries ih =>
    obtain ⟨place', node⟩ := entry
    by_cases hplace : place' = place
    · have hq : (q == place') = false := by simpa [hplace] using h
      rw [List.filter_cons_of_neg (by simpa using hplace), ih, List.lookup_cons, hq]
    · rw [List.filter_cons_of_pos (by simpa using hplace), List.lookup_cons, List.lookup_cons, ih]

variable {t t' : FileTree}

theorem node?_nil : t.node? [] = some .directory := rfl

theorem node?_of_ne_nil {place : Place} (h : place ≠ []) :
    t.node? place = t.entries.lookup place := if_neg h

/-- What was put at a place stands there. -/
theorem node?_insert_self {place : Place} (h : place ≠ []) (node : Node) :
    (t.insert place node).node? place = some node := by
  rw [node?_of_ne_nil h]
  exact List.lookup_cons_self

/-- Elsewhere nothing changes. -/
theorem node?_insert_of_ne {place q : Place} (h : q ≠ place) (node : Node) :
    (t.insert place node).node? q = t.node? q := by
  by_cases hq : q = []
  · rw [hq, node?_nil, node?_nil]
  · have hbeq : (q == place) = false := by simpa using h
    rw [node?_of_ne_nil hq, node?_of_ne_nil hq]
    show ((place, node) :: t.elsewhere place).lookup q = _
    rw [List.lookup_cons, hbeq]
    exact lookup_filter_ne h t.entries

/-! ## Walking -/

theorem expectDirectory_eq_ok {place : Place} {u : Unit} (h : t.expectDirectory place = .ok u) :
    t.node? place = some .directory := by
  unfold expectDirectory at h
  split at h
  · cases h
  · cases h
  · assumption

theorem expectLength_eq_error {limit : Nat} {text : String} {problem : FileProblem} :
    expectLength limit text = .error problem ↔
      problem = .nameTooLong ∧ limit < text.utf8ByteSize := by
  unfold expectLength
  split
  · rename_i h
    exact iff_of_false (by simp) (by omega)
  · rename_i h
    constructor
    · intro herror
      cases herror
      exact ⟨rfl, by omega⟩
    · rintro ⟨rfl, -⟩
      rfl

theorem expectLength_of_le {limit : Nat} {text : String} (h : text.utf8ByteSize ≤ limit) :
    expectLength limit text = .ok () := if_pos h

theorem expectDirectory_of_directory {place : Place} (h : t.node? place = some .directory) :
    t.expectDirectory place = .ok () := by
  rw [expectDirectory, h]

theorem walk_cons_of_directory {place : Place} (h : t.node? place = some .directory)
    (name : String) (names : List String) :
    t.walk place (name :: names) =
      expectLength nameLimit name >>= fun _ => t.walk (step place name) names := by
  rw [walk, expectDirectory_of_directory h]
  rfl

/-- A walk that succeeds leads through directories to the place that the names denote. -/
theorem walk_eq_ok {place q : Place} {names : List String} (h : t.walk place names = .ok q) :
    q = names.foldl step place ∧
      ∀ k < names.length, t.node? ((names.take k).foldl step place) = some .directory := by
  induction names generalizing place with
  | nil =>
    cases h
    exact ⟨rfl, fun k hk => absurd hk (Nat.not_lt_zero k)⟩
  | cons name names ih =>
    obtain ⟨_, hhere, h⟩ := exists_of_bind_eq_ok h
    obtain ⟨_, _, h⟩ := exists_of_bind_eq_ok h
    obtain ⟨hq, hway⟩ := ih h
    refine ⟨hq, fun k hk => ?_⟩
    cases k with
    | zero => exact expectDirectory_eq_ok hhere
    | succ k => exact hway k (Nat.lt_of_succ_lt_succ hk)

/-- A walk through directories can only fail at a name that is too long. -/
theorem walk_eq_error_of_way {place : Place} {names : List String} {problem : FileProblem}
    (hway : ∀ k < names.length, t.node? ((names.take k).foldl step place) = some .directory)
    (h : t.walk place names = .error problem) : problem = .nameTooLong := by
  induction names generalizing place with
  | nil => cases h
  | cons name names ih =>
    have hplace : t.node? place = some .directory := hway 0 (Nat.succ_pos _)
    rw [walk_cons_of_directory hplace] at h
    cases hname : expectLength nameLimit name with
    | error long =>
      rw [hname] at h
      cases h
      exact (expectLength_eq_error.mp hname).1
    | ok _ =>
      rw [hname] at h
      exact ih (fun k hk => hway (k + 1) (Nat.succ_lt_succ hk)) h

/-- The place of a path is one step behind that of its parent. -/
theorem resolve_eq_step {p : Path} {name : String} (h : p.parts.getLast? = some name) :
    t.resolve p = step (t.resolve p.parent) name := by
  obtain ⟨above, hparts⟩ := List.getLast?_eq_some_iff.mp h
  simp [resolve, origin, Path.parent, hparts]

theorem mem_trail {p : Path} {q : Place} :
    q ∈ t.trail p ↔ ∃ k ≤ p.parts.length, (p.parts.take k).foldl step (t.origin p) = q := by
  simp only [trail, List.mem_map, List.mem_range, Nat.lt_succ_iff, resolve, origin]

theorem mem_trail_self (p : Path) : t.resolve p ∈ t.trail p :=
  mem_trail.mpr ⟨p.parts.length, Nat.le_refl _, by rw [List.take_length]; rfl⟩

/-- The way to the parent is the way to a path, without its last place. -/
theorem mem_trail_parent {p : Path} {q : Place} (h : q ∈ t.trail p.parent) :
    ∃ k ≤ p.parts.length - 1, (p.parts.take k).foldl step (t.origin p) = q := by
  obtain ⟨k, hk, hq⟩ := mem_trail.mp h
  have hlength : p.parent.parts.length = p.parts.length - 1 := List.length_dropLast
  have htake : p.parent.parts.take k = p.parts.take k := by
    show p.parts.dropLast.take k = _
    rw [List.dropLast_eq_take, List.take_take, Nat.min_eq_left (hlength ▸ hk)]
  exact ⟨k, hlength ▸ hk, htake ▸ hq⟩

theorem mem_trail_of_mem_trail_parent {p : Path} {q : Place} (h : q ∈ t.trail p.parent) :
    q ∈ t.trail p := by
  obtain ⟨k, hk, hq⟩ := mem_trail_parent h
  exact mem_trail.mpr ⟨k, by omega, hq⟩

theorem resolve_congr (h : t'.workingDirectory = t.workingDirectory) (p : Path) :
    t'.resolve p = t.resolve p := by
  simp only [resolve, origin, h]

theorem trail_congr (h : t'.workingDirectory = t.workingDirectory) (p : Path) :
    t'.trail p = t.trail p := by
  simp only [trail, resolve_congr h]

/-! ## Growth -/

/-- A tree grows at some places: directories are made where nothing stood, and nothing else
changes. -/
structure Grows (t t' : FileTree) (places : List Place) : Prop where
  workingDirectory : t'.workingDirectory = t.workingDirectory
  node? : ∀ q, t'.node? q = t.node? q ∨
    (t.node? q = none ∧ t'.node? q = some .directory ∧ q ∈ places)

namespace Grows

variable {places places' : List Place}

theorem refl : Grows t t places := ⟨rfl, fun _ => .inl rfl⟩

theorem mono (h : Grows t t' places) (hsub : ∀ q ∈ places, q ∈ places') : Grows t t' places' := by
  refine ⟨h.workingDirectory, fun q => ?_⟩
  rcases h.node? q with hq | ⟨hnone, hmade, hmem⟩
  · exact .inl hq
  · exact .inr ⟨hnone, hmade, hsub q hmem⟩

theorem trans {t'' : FileTree} (h : Grows t t' places) (h' : Grows t' t'' places) :
    Grows t t'' places := by
  refine ⟨h'.workingDirectory.trans h.workingDirectory, fun q => ?_⟩
  rcases h.node? q with hq | ⟨hnone, hmade, hmem⟩
  · rcases h'.node? q with hq' | ⟨hnone', hmade', hmem'⟩
    · exact .inl (hq'.trans hq)
    · exact .inr ⟨hq ▸ hnone', hmade', hmem'⟩
  · rcases h'.node? q with hq' | ⟨hnone', hmade', hmem'⟩
    · exact .inr ⟨hnone, hq'.trans hmade, hmem⟩
    · exact .inr ⟨hnone, hmade', hmem'⟩

/-- Putting a directory where nothing stands. -/
theorem insert {place : Place} (h : t.node? place = none) (hmem : place ∈ places) :
    Grows t (t.insert place .directory) places := by
  have hne : place ≠ [] := by
    rintro rfl
    cases h
  refine ⟨rfl, fun q => ?_⟩
  by_cases hq : q = place
  · subst hq
    exact .inr ⟨h, node?_insert_self hne .directory, hmem⟩
  · exact .inl (node?_insert_of_ne hq .directory)

end Grows

/-! ## Making directories -/

theorem makeDirectory_eq_ok {p : Path} (h : t.makeDirectory p = .ok t') :
    t.node? (t.resolve p) = none ∧ t' = t.insert (t.resolve p) .directory := by
  unfold makeDirectory at h
  split at h
  · cases h
  · rename_i name hlast
    obtain ⟨_, _, h⟩ := exists_of_bind_eq_ok h
    obtain ⟨place, hwalk, h⟩ := exists_of_bind_eq_ok h
    obtain ⟨_, _, h⟩ := exists_of_bind_eq_ok h
    obtain ⟨_, _, h⟩ := exists_of_bind_eq_ok h
    have hplace : place = t.resolve p.parent := (walk_eq_ok hwalk).1
    rw [resolve_eq_step hlast, ← hplace]
    split at h
    · cases h
    · rename_i hfree
      rw [Bool.or_eq_true, not_or] at hfree
      cases h
      exact ⟨by simpa using hfree.2, rfl⟩

theorem grows_makeDirectory {p : Path} (h : t.makeDirectory p = .ok t') :
    Grows t t' (t.trail p) := by
  obtain ⟨hnone, rfl⟩ := makeDirectory_eq_ok h
  exact .insert hnone (mem_trail_self p)

theorem grows_settle (p : Path) : Grows t (t.settle p (t.makeDirectory p)).1 (t.trail p) := by
  cases h : t.makeDirectory p with
  | ok t' => exact grows_makeDirectory h
  | error problem =>
    unfold settle
    split
    · cases ‹_›
    · exact .refl
    · split <;> exact .refl

theorem grows_makeDirectoriesTo (t : FileTree) (p : Path) (depth : Nat) :
    Grows t (t.makeDirectoriesTo p depth).1 (t.trail p) := by
  induction depth generalizing p with
  | zero => exact grows_settle p
  | succ depth ih =>
    have hparent := (ih p.parent).mono fun q => mem_trail_of_mem_trail_parent
    unfold makeDirectoriesTo
    split
    · split
      · rename_i t' hmade
        rw [hmade] at hparent
        refine hparent.trans ?_
        rw [← trail_congr hparent.workingDirectory]
        exact grows_settle p
      · rename_i t' e hfailed
        rw [hfailed] at hparent
        exact hparent
    · exact grows_settle p

/-- **Making directories adds directories on the way**, and changes nothing else, also
when it fails. -/
theorem grows_makeDirectories (t : FileTree) (p : Path) :
    Grows t (t.makeDirectories p).1 (t.trail p) := grows_makeDirectoriesTo t p p.parts.length

/-! ## Writing a file -/

theorem placeToWrite_eq_ok {origin place : Place} {names : List String} {slash : Bool}
    (h : t.placeToWrite origin names slash = .ok place) :
    place = names.foldl step origin ∧ place ≠ [] ∧ names ≠ [] ∧ names ≠ ["."] ∧
      t.node? place ≠ some .directory ∧
      ∀ k < names.length, t.node? ((names.take k).foldl step origin) = some .directory := by
  unfold placeToWrite at h
  split at h
  · cases h
  · rename_i name hlast
    obtain ⟨above, rfl⟩ := List.getLast?_eq_some_iff.mp hlast
    rw [List.dropLast_concat] at h
    obtain ⟨place', hwalk, h⟩ := exists_of_bind_eq_ok h
    obtain ⟨_, hdirectory, h⟩ := exists_of_bind_eq_ok h
    obtain ⟨rfl, hway⟩ := walk_eq_ok hwalk
    split at h
    · cases h
    · rename_i hname
      obtain ⟨_, _, h⟩ := exists_of_bind_eq_ok h
      simp only [Bool.or_eq_true, decide_eq_true_eq, not_or] at hname
      split at h
      · cases h
      · rename_i hfree
        cases h
        refine ⟨by rw [List.foldl_append]; rfl, ?_, by simp, ?_, fun hd => hfree hd, ?_⟩
        · simp [step, hname.1.2, hname.2]
        · intro hdot
          rw [hdot] at hlast
          exact hname.1.2 (Option.some.inj hlast).symm
        · -- the walk has passed each place on the way, and the last one was looked at
          intro k hk
          rw [List.length_append, List.length_singleton] at hk
          rw [List.take_append_of_le_length (Nat.le_of_lt_succ hk)]
          by_cases hlt : k < above.length
          · exact hway k hlt
          · rw [List.take_of_length_le (Nat.le_of_not_lt hlt)]
            exact expectDirectory_eq_ok hdirectory

theorem write_eq_ok {path content : String} (h : t.write path content = .ok t') :
    ∃ place, t.placeToWrite (if Path.rootOf path.toList = .relative then t.workingDirectory else [])
        (Path.namesIn path) (path.toList.getLast? = some '/') = .ok place ∧
      t' = t.insert place (.file (Text.Utf8.encode content)) := by
  simp only [write] at h
  split at h
  · cases h
  · split at h
    · cases h
    · split at h
      · cases h
      · rename_i place hattempt
        obtain ⟨_, _, hplace⟩ := exists_of_bind_eq_ok hattempt
        cases h
        exact ⟨place, hplace, rfl⟩

/-- **Writing a file at a path** changes what stands at the path only.  No directory stood
there, and all directories on the way were there. -/
theorem write_text_eq_ok {p : Path} (hp : p.Proper) {content : String}
    (h : t.write p.text content = .ok t') :
    t' = t.insert (t.resolve p) (.file (Text.Utf8.encode content)) ∧ t.resolve p ≠ [] ∧
      t.node? (t.resolve p) ≠ some .directory ∧
      ∀ q ∈ t.trail p.parent, t.node? q = some .directory := by
  obtain ⟨place, hplace, rfl⟩ := write_eq_ok h
  obtain ⟨hresolve, hne, hnames, hdot, hfile, hway⟩ := placeToWrite_eq_ok hplace
  have hparts : p.parts ≠ [] := by
    -- the text of a path without components is no name, or a dot
    intro hparts
    obtain ⟨root, parts⟩ := p
    subst hparts
    cases root with
    | relative => exact hdot (by decide)
    | single => exact hnames (by decide)
    | double => exact hnames (by decide)
  rw [hp.namesIn_text hparts, hp.rootOf_text hparts] at hresolve hway
  have hresolve : place = t.resolve p := hresolve
  subst hresolve
  refine ⟨rfl, hne, hfile, fun q hq => ?_⟩
  obtain ⟨k, hk, rfl⟩ := mem_trail_parent hq
  have hpos : 0 < p.parts.length := List.length_pos_iff.mpr hparts
  exact hway k (by omega)

end FileTree
end HackVM
