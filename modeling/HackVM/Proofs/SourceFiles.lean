import HackVM.Emitter.Files
import HackVM.Proofs.DeclaredNames
import HackVM.Proofs.TextEncoding
import HackVM.Proofs.TreeChanges

/-! # Source files and the modules in them

The source files of a directory are its entries with the source suffix, in increasing
order of their names (`mem_sourceNames`, `pairwise_sourceNames`).  Emitting files emits
one module after the other, up to the first file that cannot be read or whose module is
refused; if that succeeds, what was emitted is the session of these modules
(`files_eq_ok`). -/
namespace HackVM

open Asm

namespace FileTree

/-- A name that a system gives to the entries of its directories: it is neither empty nor
one or two dots, and holds no slash and no character with code zero. -/
def isEntryName (name : String) : Bool :=
  name ≠ "" && name ≠ "." && name ≠ ".." && !name.toList.contains '/' &&
    !name.toList.contains (Char.ofNat 0)

/-- The names in a tree are such as a file system allows, those that lead to the working
directory included. -/
def WellNamed (t : FileTree) : Prop :=
  (∀ entry ∈ t.entries, ∀ name ∈ entry.1, isEntryName name = true) ∧
    ∀ name ∈ t.workingDirectory, isEntryName name = true

instance (t : FileTree) : Decidable t.WellNamed := inferInstanceAs (Decidable (_ ∧ _))

variable {t : FileTree}

/-! ## What a path names -/

theorem find_eq_ok {p : Path} {node : Node} (h : t.find p = .ok node) :
    t.node? (t.resolve p) = some node := by
  obtain ⟨_, _, h⟩ := exists_of_bind_eq_ok h
  obtain ⟨place, hwalk, h⟩ := exists_of_bind_eq_ok h
  have hplace : place = t.resolve p := (walk_eq_ok hwalk).1
  rw [← hplace]
  split at h
  · cases h
  · rename_i hnode
    cases h
    exact hnode

theorem status_eq_some {p : Path} {node : Node} (h : t.status p = .ok (some node)) :
    p.hasNul = false ∧ t.find p = .ok node := by
  unfold status at h
  split at h
  · cases h
  · rename_i hnul
    split at h
    · rename_i found hfind
      cases h
      exact ⟨by simpa using hnul, hfind⟩
    · cases h
    · cases h

theorem status_of_isDirectory {p : Path} (h : t.isDirectory p = true) :
    t.status p = .ok (some .directory) := by
  rw [isDirectory, Bool.and_eq_true, Bool.not_eq_true'] at h
  obtain ⟨hnul, hfind⟩ := h
  split at hfind
  · rename_i hdirectory
    rw [status, hnul, hdirectory]
    rfl
  · cases hfind

/-- A path that names something names a directory when one stands at its place. -/
theorem isDirectory_iff {p : Path} {node : Node} (h : t.status p = .ok (some node)) :
    t.isDirectory p = true ↔ t.node? (t.resolve p) = some .directory := by
  obtain ⟨hnul, hfind⟩ := status_eq_some h
  rw [isDirectory, hnul, hfind, find_eq_ok hfind]
  cases node with
  | directory => simp
  | file content => simp

/-- A path leads to a directory, through directories only. -/
def LeadsToDirectory (t : FileTree) (p : Path) : Prop :=
  p.hasNul = false ∧ ∀ q ∈ t.trail p, t.node? q = some .directory

/-- A path that leads through directories and is not too long can be found. -/
theorem find_of_leadsToDirectory {p : Path} (h : t.LeadsToDirectory p) :
    t.find p = .ok .directory ∨ t.find p = .error .nameTooLong := by
  have hway : ∀ k < p.parts.length,
      t.node? ((p.parts.take k).foldl step (t.origin p)) = some .directory :=
    fun k hk => h.2 _ (mem_trail.mpr ⟨k, Nat.le_of_lt hk, rfl⟩)
  have hplace := h.2 _ (mem_trail_self p)
  unfold find
  cases hlength : expectLength pathLimit p.text with
  | error problem =>
    rw [(expectLength_eq_error.mp hlength).1]
    exact .inr rfl
  | ok _ =>
    cases hwalk : t.walk (t.origin p) p.parts with
    | error problem =>
      rw [walk_eq_error_of_way hway hwalk]
      exact .inr rfl
    | ok place =>
      have hresolve : place = t.resolve p := (walk_eq_ok hwalk).1
      simp only [ok_bind, hresolve, hplace, true_or]

theorem leadsToDirectory_of_find {p : Path} (hnul : p.hasNul = false)
    (h : t.find p = .ok .directory) : t.LeadsToDirectory p := by
  refine ⟨hnul, fun q hq => ?_⟩
  obtain ⟨k, hk, rfl⟩ := mem_trail.mp hq
  rcases Nat.lt_or_eq_of_le hk with hlt | rfl
  · obtain ⟨_, _, h⟩ := exists_of_bind_eq_ok h
    obtain ⟨place, hwalk, -⟩ := exists_of_bind_eq_ok h
    exact (walk_eq_ok hwalk).2 k hlt
  · rw [List.take_length]
    exact find_eq_ok h

/-- A path that can be looked at names a directory when it leads to one. -/
theorem isDirectory_iff_leadsToDirectory {p : Path} {found : Option Node}
    (h : t.status p = .ok found) : t.isDirectory p = true ↔ t.LeadsToDirectory p := by
  constructor
  · intro hdirectory
    obtain ⟨hnul, hfind⟩ := status_eq_some (status_of_isDirectory hdirectory)
    exact leadsToDirectory_of_find hnul hfind
  · intro hleads
    have hfind : t.find p = .ok .directory := by
      refine (find_of_leadsToDirectory hleads).resolve_right fun hlong => ?_
      rw [status, hleads.1, hlong] at h
      cases h
    rw [isDirectory, hleads.1, hfind]
    rfl

/-! ## The entries of a directory -/

theorem nameIn_eq_some {place : Place} {entry : Place × Node} {name : String} :
    nameIn place entry = some name ↔ entry.1 = place ++ [name] := by
  unfold nameIn
  constructor
  · intro h
    split at h
    · cases h
    · rename_i last hlast
      obtain ⟨above, habove⟩ := List.getLast?_eq_some_iff.mp hlast
      rw [habove, List.dropLast_concat] at h
      split at h
      · rename_i hplace
        cases h
        rw [habove, hplace]
      · cases h
  · intro h
    simp [h]

theorem node?_isSome_iff {place : Place} (h : place ≠ []) :
    (t.node? place).isSome = true ↔ ∃ entry ∈ t.entries, entry.1 = place := by
  rw [node?_of_ne_nil h, List.lookup_isSome_iff]
  simp only [beq_iff_eq, @eq_comm _ place]

/-- A directory lists the names of what stands in it. -/
theorem mem_list {p : Path} (hp : t.isDirectory p = true) {name : String} :
    name ∈ t.list p ↔ (t.node? (t.resolve p ++ [name])).isSome = true := by
  have hfind : ∃ node, t.find p = .ok node := by
    cases h : t.find p with
    | ok node => exact ⟨node, rfl⟩
    | error problem => simp [isDirectory, h] at hp
  obtain ⟨node, hfind⟩ := hfind
  obtain ⟨_, _, hfind⟩ := exists_of_bind_eq_ok hfind
  obtain ⟨place, hwalk, -⟩ := exists_of_bind_eq_ok hfind
  have hplace : place = t.resolve p := (walk_eq_ok hwalk).1
  rw [node?_isSome_iff (by simp), list, if_pos hp, hwalk, ← hplace]
  simp only [List.mem_filterMap, nameIn_eq_some]

theorem nodup_list (t : FileTree) (p : Path) : (t.list p).Nodup := by
  unfold list
  split
  · split
    · rename_i place _
      refine List.Pairwise.filterMap (nameIn place) ?_ (List.pairwise_map.mp t.distinct)
      rintro entry entry' hne name hname name' hname' rfl
      exact hne ((nameIn_eq_some.mp hname).trans (nameIn_eq_some.mp hname').symm)
    · exact List.nodup_nil
  · exact List.nodup_nil

/-- The names of the source files of a directory, in order. -/
def sourceNames (t : FileTree) (p : Path) : List String :=
  ((t.list p).filter isSourceName).mergeSort fun a b => a ≤ b

theorem sources_eq_map (t : FileTree) (p : Path) :
    t.sources p = (t.sourceNames p).map p.child := rfl

theorem mem_sourceNames_iff {p : Path} {name : String} :
    name ∈ t.sourceNames p ↔ name ∈ t.list p ∧ ".vm".toList <:+ name.toList := by
  rw [sourceNames, List.mem_mergeSort, List.mem_filter, isSourceName,
    List.isSuffixOf_iff_suffix]
  rfl

/-- **The source files of a directory** are its entries with the source suffix. -/
theorem mem_sourceNames {p : Path} (hp : t.isDirectory p = true) {name : String} :
    name ∈ t.sourceNames p ↔
      (t.node? (t.resolve p ++ [name])).isSome = true ∧ ".vm".toList <:+ name.toList := by
  rw [mem_sourceNames_iff, mem_list hp]

/-- **They are taken in increasing order**, each once. -/
theorem pairwise_sourceNames (t : FileTree) (p : Path) : (t.sourceNames p).Pairwise (· < ·) := by
  have hsorted : (t.sourceNames p).Pairwise fun a b => decide (a ≤ b) = true := by
    apply List.pairwise_mergeSort
    · intro a b c hab hbc
      exact decide_eq_true (String.le_trans (of_decide_eq_true hab) (of_decide_eq_true hbc))
    · intro a b
      simpa only [Bool.or_eq_true, decide_eq_true_eq] using String.le_total a b
  have hnodup : (t.sourceNames p).Nodup :=
    (List.mergeSort_perm _ _).nodup_iff.mpr ((t.nodup_list p).filter _)
  refine List.Pairwise.imp₂ (fun a b hle hne => ?_) hsorted hnodup
  exact String.not_le.mp fun hge => hne (String.le_antisymm (of_decide_eq_true hle) hge)

/-! ## Texts of files -/

/-- A file stands at a place and holds a text: its bytes are the text in UTF-8, with every
line end unified. -/
def Holds (t : FileTree) (place : Place) (text : String) : Prop :=
  ∃ bytes cs, t.node? place = some (.file bytes) ∧ Text.Utf8.decode bytes = .ok cs ∧
    text = String.ofList (Text.unifyLineEnds cs)

theorem readBytes_eq_ok {p : Path} {bytes : List UInt8} (h : t.readBytes p = .ok bytes) :
    p.hasNul = false ∧ t.find p = .ok (.file bytes) := by
  unfold readBytes at h
  split at h
  · cases h
  · rename_i hnul
    split at h
    · cases h
    · cases h
    · rename_i hfind
      cases h
      exact ⟨by simpa using hnul, hfind⟩

theorem readText_of_bytes {p : Path} {bytes : List UInt8} (h : t.readBytes p = .ok bytes) :
    t.readText p =
      match Text.Utf8.decode bytes with
      | .error fault => .error (.encoding fault)
      | .ok cs => .ok (String.ofList (Text.unifyLineEnds cs)) := by
  rw [readText, h]
  rfl

theorem readText_eq_ok {p : Path} {text : String} (h : t.readText p = .ok text) :
    t.Holds (t.resolve p) text := by
  obtain ⟨bytes, hbytes, h⟩ := exists_of_bind_eq_ok h
  split at h
  · cases h
  · rename_i cs hcs
    cases h
    exact ⟨bytes, cs, find_eq_ok (readBytes_eq_ok hbytes).2, hcs, rfl⟩

theorem unifyLineEnds_of_notMem {cs : List Char} (h : '\r' ∉ cs) : Text.unifyLineEnds cs = cs := by
  induction cs with
  | nil => rfl
  | cons c cs ih =>
    rw [List.mem_cons, not_or] at h
    unfold Text.unifyLineEnds
    split
    · rename_i heq
      cases heq
    · rename_i heq
      cases heq
      exact absurd rfl h.1
    · rename_i heq
      cases heq
      rw [if_neg (Ne.symm h.1), ih h.2]

theorem readText_of_encode {p : Path} {text : String}
    (h : t.readBytes p = .ok (Text.Utf8.encode text)) :
    t.readText p = .ok (String.ofList (Text.unifyLineEnds text.toList)) := by
  rw [readText_of_bytes h, Text.Utf8.decode_encode]

/-- A file that holds a text without carriage returns is read as that text. -/
theorem readText_of_file {p : Path} {text : String} (hnul : p.hasNul = false)
    (hfind : t.find p = .ok (.file (Text.Utf8.encode text))) (h : '\r' ∉ text.toList) :
    t.readText p = .ok text := by
  have hbytes : t.readBytes p = .ok (Text.Utf8.encode text) := by
    rw [readBytes, hnul, hfind]
    rfl
  rw [readText_of_encode hbytes, unifyLineEnds_of_notMem h, String.ofList_toList]

theorem resolve_child {p : Path} {name : String} (hdot : name ≠ ".") (hdots : name ≠ "..") :
    t.resolve (p.child name) = t.resolve p ++ [name] := by
  rw [resolve, Path.child, List.foldl_append, List.foldl_cons, List.foldl_nil, step,
    if_neg hdot, if_neg hdots]
  rfl

theorem resolve_source {p : Path} {name : String} (h : ".vm".toList <:+ name.toList) :
    t.resolve (p.child name) = t.resolve p ++ [name] := by
  apply resolve_child
  · rintro rfl
    exact absurd h (by decide)
  · rintro rfl
    exact absurd h (by decide)

/-- The text of a file, if it can be read. -/
def textOf (t : FileTree) (p : Path) : String :=
  match t.readText p with
  | .ok text => text
  | .error _ => ""

theorem textOf_eq {p : Path} {text : String} (h : t.readText p = .ok text) :
    t.textOf p = text := by
  rw [textOf, h]

/-- The job of emitting the module of a file. -/
def moduleAt (t : FileTree) (p : Path) : Job := .module p.stem (Text.lines (t.textOf p))

end FileTree

/-! ## Emitting files -/

namespace Emission

variable {t : FileTree}

theorem file_of_error {p : Path} {problem : ReadProblem} (h : t.readText p = .error problem)
    (e : Emitter) : file t p e = ⟨.error (problem.fault p), [], e⟩ := by
  unfold file
  rw [h]
  rfl

theorem file_of_ok {p : Path} {text : String} (h : t.readText p = .ok text) (e : Emitter) :
    file t p e =
      ⟨((t.moduleAt p).emission e).result.map fun _ => p.stem, ((t.moduleAt p).emission e).code,
        ((t.moduleAt p).emission e).emitter⟩ := by
  unfold file
  rw [h, FileTree.moduleAt, FileTree.textOf_eq h]
  exact bind_pure_apply _ (fun _ => p.stem) e

theorem files_of_error {p : Path} {e : Emitter} {fault : Fault}
    (h : (file t p e).result = .error fault) (rest : List Path) :
    (files t (p :: rest) e).result = .error fault := by
  rw [files, bind_error h]

theorem files_of_ok {p : Path} {e : Emitter} {name : String}
    (h : (file t p e).result = .ok name) (rest : List Path) :
    files t (p :: rest) e =
      ⟨(files t rest (file t p e).emitter).result.map (name :: ·),
        (file t p e).code ++ (files t rest (file t p e).emitter).code,
        (files t rest (file t p e).emitter).emitter⟩ := by
  rw [files, bind_ok h, bind_pure_apply]

/-- Files that can all be emitted: the first can be read and its module emitted, and then so
can the others. -/
theorem files_cons_eq_ok {p : Path} {ps : List Path} {e : Emitter} {names : List String}
    (h : (files t (p :: ps) e).result = .ok names) :
    ∃ rest, t.readText p = .ok (t.textOf p) ∧ ((t.moduleAt p).emission e).result = .ok () ∧
      (files t ps ((t.moduleAt p).emission e).emitter).result = .ok rest ∧
      names = p.stem :: rest ∧
      files t (p :: ps) e =
        ⟨.ok names, ((t.moduleAt p).emission e).code ++
          (files t ps ((t.moduleAt p).emission e).emitter).code,
          (files t ps ((t.moduleAt p).emission e).emitter).emitter⟩ := by
  cases hread : t.readText p with
  | error problem =>
    rw [files_of_error (by rw [file_of_error hread])] at h
    cases h
  | ok text =>
    cases hmodule : ((t.moduleAt p).emission e).result with
    | error fault =>
      have hfile : (file t p e).result = .error fault := by
        rw [file_of_ok hread, hmodule]
        rfl
      rw [files_of_error hfile] at h
      cases h
    | ok _ =>
      have hfile : (file t p e).result = .ok p.stem := by
        rw [file_of_ok hread, hmodule]
        rfl
      rw [files_of_ok hfile, file_of_ok hread] at h ⊢
      dsimp only at h ⊢
      cases hrest : (files t ps ((t.moduleAt p).emission e).emitter).result with
      | error fault =>
        rw [hrest] at h
        cases h
      | ok rest =>
        rw [hrest] at h
        cases h
        exact ⟨rest, by rw [FileTree.textOf_eq hread], rfl, rfl, rfl, rfl⟩

/-- **Files that can all be emitted are emitted as the session of their modules.** -/
theorem files_eq_ok {ps : List Path} {e : Emitter} {names : List String}
    (h : (files t ps e).result = .ok names) :
    names = ps.map Path.stem ∧ (∀ p ∈ ps, t.readText p = .ok (t.textOf p)) ∧
      succeeds (ps.map t.moduleAt) e = true ∧
      (files t ps e).code = sessionCode (ps.map t.moduleAt) e := by
  induction ps generalizing e names with
  | nil =>
    cases h
    exact ⟨rfl, List.forall_mem_nil _, rfl, rfl⟩
  | cons p ps ih =>
    obtain ⟨rest, hread, hmodule, hrest, rfl, hfiles⟩ := files_cons_eq_ok h
    obtain ⟨hnames, hreads, hsucceeds, hcode⟩ := ih hrest
    refine ⟨by rw [hnames]; rfl, List.forall_mem_cons.mpr ⟨hread, hreads⟩, ?_, ?_⟩
    · simp only [List.map_cons, succeeds, hmodule, hsucceeds]
      rfl
    · simp only [List.map_cons, sessionCode, hfiles, hcode]

end Emission
end HackVM
