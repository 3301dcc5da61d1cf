import HackVM.Proofs.AssemblyText
import HackVM.Proofs.SourceFiles

/-! # The modules of a directory

The source files of a directory are taken in the order of their names, but the modules are
called by what stands before the suffix.  A name that sorts before another with the suffix
`.vm` also does so without it, because every character of a module's name sorts behind the
dot (`lt_of_append_vm_lt`); and where the suffix is not all there is, taking it off loses
nothing (`eq_append_vm_of_isWord`).  So the modules of a directory are emitted in strictly
increasing order of their names, each from the text of its file
(`directory_emitted_in_order`).  In which order the file system lists the entries does not
matter (`FileTree.Reordered.directory`). -/
namespace HackVM

open Asm

/-! ## Names of modules and names of files -/

theorem Text.dot_lt_of_isWord {name : String} (h : IsWord ['_', ':'] name) :
    ∀ c ∈ name.toList, '.' < c := by
  intro c hc
  show 0x2e < c.toNat
  rcases h.part c hc with hletter | hdigit | hmark
  · have hbounds : (0x41 ≤ c.toNat ∧ c.toNat ≤ 0x5a) ∨ (0x61 ≤ c.toNat ∧ c.toNat ≤ 0x7a) :=
      hletter
    omega
  · have hbounds : 0x30 ≤ c.toNat ∧ c.toNat ≤ 0x39 := hdigit
    omega
  · have hmarks : ∀ x ∈ ['_', ':'], 0x2e < x.toNat := by simp
    exact hmarks c hmark

/-- Texts are compared as they are with something behind them that sorts before all
characters of the first. -/
theorem Text.lt_of_append_lt {separator : Char} {suffix first second : List Char}
    (hfirst : ∀ c ∈ first, separator < c)
    (h : first ++ separator :: suffix < second ++ separator :: suffix) : first < second := by
  induction first generalizing second with
  | nil =>
    cases second with
    | nil => exact absurd h (List.lt_irrefl _)
    | cons d second => exact List.nil_lt_cons d second
  | cons c first ih =>
    have hc : separator < c := hfirst c (List.mem_cons_self ..)
    cases second with
    | nil =>
      rcases List.cons_lt_cons_iff.mp h with hlt | ⟨rfl, -⟩
      · exact absurd hlt (Char.lt_asymm hc)
      · exact absurd hc (Char.lt_irrefl _)
    | cons d second =>
      rcases List.cons_lt_cons_iff.mp h with hlt | ⟨rfl, hrest⟩
      · exact List.cons_lt_cons_iff.mpr (.inl hlt)
      · exact List.cons_lt_cons_iff.mpr
          (.inr ⟨rfl, ih (fun x hx => hfirst x (List.mem_cons_of_mem _ hx)) hrest⟩)

/-- **Modules are ordered as their files are.** -/
theorem lt_of_append_vm_lt {name name' : String} (hname : Text.IsWord ['_', ':'] name)
    (h : name ++ ".vm" < name' ++ ".vm") : name < name' := by
  rw [String.lt_iff, String.toList_append, String.toList_append] at h
  exact String.lt_iff.mpr (Text.lt_of_append_lt (Text.dot_lt_of_isWord hname) h)

/-- **The file of a module is found from its name.** -/
theorem eq_append_vm_of_isWord {entry : String} (hsuffix : ".vm".toList <:+ entry.toList)
    (hname : Text.IsWord ['_', ':'] (Path.splitName entry).1) :
    entry = (Path.splitName entry).1 ++ ".vm" := by
  obtain ⟨stem, hstem⟩ := hsuffix
  have hentry : entry = String.ofList stem ++ "." ++ "vm" := by
    apply String.toList_injective
    rw [← hstem]
    simp
  by_cases hempty : String.ofList stem = ""
  · -- a name that is all suffix keeps its dot, and so is no name of a module
    rw [hentry, hempty] at hname
    exact absurd (Text.dot_lt_of_isWord hname '.' (by decide)) (Char.lt_irrefl _)
  · rw [hentry, Path.splitName_append hempty (by decide) (by decide)]
    exact String.append_assoc

/-! ## The order of the entries -/

namespace FileTree

/-- The same files, listed in another order. -/
def Reordered (t t' : FileTree) : Prop :=
  t.entries.Perm t'.entries ∧ t.workingDirectory = t'.workingDirectory

theorem node?_eq_some_iff {t : FileTree} {place : Place} (h : place ≠ []) {node : Node} :
    t.node? place = some node ↔ (place, node) ∈ t.entries := by
  rw [node?_of_ne_nil h, List.lookup_eq_some_iff]
  constructor
  · rintro ⟨above, below, hentries, -⟩
    rw [hentries]
    exact List.mem_append_right _ (List.mem_cons_self ..)
  · intro hmem
    obtain ⟨above, below, hentries⟩ := List.append_of_mem hmem
    refine ⟨above, below, hentries, fun entry hentry => ?_⟩
    have hdistinct := t.distinct
    rw [hentries, List.map_append, List.map_cons, List.nodup_append] at hdistinct
    have hne := hdistinct.2.2 entry.1 (List.mem_map_of_mem hentry) place (List.mem_cons_self ..)
    simpa using hne.symm

namespace Reordered

variable {t t' : FileTree} (h : t.Reordered t')
include h

/-- At each place stands what stood there. -/
theorem node? : t.node? = t'.node? := by
  funext place
  by_cases hplace : place = []
  · rw [hplace, node?_nil, node?_nil]
  · apply Option.ext
    intro node
    rw [node?_eq_some_iff hplace, node?_eq_some_iff hplace, h.1.mem_iff]

theorem walk (place : Place) (names : List String) : t.walk place names = t'.walk place names := by
  induction names generalizing place with
  | nil => rfl
  | cons name names ih =>
    rw [FileTree.walk, FileTree.walk, expectDirectory, expectDirectory, h.node?, ih]

theorem origin (p : Path) : t.origin p = t'.origin p := by
  rw [FileTree.origin, FileTree.origin, h.2]

theorem find (p : Path) : t.find p = t'.find p := by
  rw [FileTree.find, FileTree.find, h.origin, h.walk, h.node?]

theorem status (p : Path) : t.status p = t'.status p := by
  rw [FileTree.status, FileTree.status, h.find]

theorem isDirectory (p : Path) : t.isDirectory p = t'.isDirectory p := by
  rw [FileTree.isDirectory, FileTree.isDirectory, h.find]

theorem readText (p : Path) : t.readText p = t'.readText p := by
  rw [FileTree.readText, FileTree.readText, readBytes, readBytes, h.find]

/-- A directory has the same entries, in another order. -/
theorem list_perm (p : Path) : (t.list p).Perm (t'.list p) := by
  rw [list, list, h.isDirectory, h.origin, h.walk]
  split
  · split
    · exact h.1.filterMap _
    · exact .refl _
  · exact .refl _

/-- **Sorting undoes the order of the entries.** -/
theorem sourceNames (p : Path) : t.sourceNames p = t'.sourceNames p := by
  have hperm : (t.sourceNames p).Perm (t'.sourceNames p) :=
    (List.mergeSort_perm _ _).trans
      (((h.list_perm p).filter isSourceName).trans (List.mergeSort_perm _ _).symm)
  refine List.Perm.eq_of_pairwise ?_ (t.pairwise_sourceNames p) (t'.pairwise_sourceNames p) hperm
  intro a b _ _ hab hba
  exact absurd hba (String.lt_asymm hab)

theorem file (p : Path) : Emission.file t p = Emission.file t' p := by
  rw [Emission.file, Emission.file, h.readText]

theorem files (ps : List Path) : Emission.files t ps = Emission.files t' ps := by
  induction ps with
  | nil => rfl
  | cons p ps ih => rw [Emission.files, Emission.files, h.file, ih]

/-- **A directory is emitted alike in whatever order its entries are listed.** -/
theorem directory (p : Path) : Emission.directory t p = Emission.directory t' p := by
  rw [Emission.directory, Emission.directory, h.status, sources_eq_map, sources_eq_map,
    h.sourceNames, h.files]

end Reordered
end FileTree

/-! ## Emitting files, module by module -/

namespace Emission

variable {t : FileTree}

/-- Only modules with proper names are emitted. -/
theorem isWord_of_files {ps : List Path} {e : Emitter} {names : List String}
    (h : (files t ps e).result = .ok names) : ∀ name ∈ names, Text.IsWord ['_', ':'] name := by
  induction ps generalizing e names with
  | nil =>
    cases h
    exact List.forall_mem_nil _
  | cons p ps ih =>
    obtain ⟨rest, -, hmodule, hrest, rfl, -⟩ := files_cons_eq_ok h
    exact List.forall_mem_cons.mpr
      ⟨isModuleName_iff_isWord.mp (isModuleName_of_module hmodule), ih hrest⟩

theorem directory_eq_ok {p : Path} {e : Emitter} {names : List String}
    (h : (directory t p e).result = .ok names) :
    (∃ found, t.status p = .ok found) ∧ directory t p e = files t (t.sources p) e := by
  unfold directory at h ⊢
  cases hstatus : t.status p with
  | error problem =>
    rw [hstatus] at h
    cases h
  | ok found => exact ⟨⟨found, rfl⟩, rfl⟩

end Emission

namespace Workbench

variable {t : FileTree} {b : Workbench} {w : Nat}

/-- **Emitting files is emitting their modules one after the other.** -/
theorem performAll_modules (hw : w < b.emitters.length) {ps : List Path} {names : List String}
    (h : (Emission.files t ps (b.emitter w)).result = .ok names) :
    performAll t w ((ps.map t.moduleAt).map Job.task) b =
      ⟨b.listing.append (Emission.files t ps (b.emitter w)).code,
        b.emitters.set w (Emission.files t ps (b.emitter w)).emitter⟩ := by
  -- the workbench goes along with the files, so that each module meets the emitter as the
  -- module before has left it
  induction ps generalizing b names with
  | nil =>
    show b = ⟨b.listing.append [], b.emitters.set w (b.emitter w)⟩
    rw [set_emitter_self]
    simp [Listing.append, Listing.add]
  | cons p ps ih =>
    obtain ⟨rest, -, -, hrest, -, hfiles⟩ := Emission.files_cons_eq_ok h
    have hlength := (length_emitters_perform t b w (t.moduleAt p).task).symm
    have hemitter : (b.perform t w (t.moduleAt p).task).1.emitter w =
        ((t.moduleAt p).emission (b.emitter w)).emitter := by
      rw [emitter_perform_self t hw, Job.emission_task]
    rw [← hemitter] at hrest hfiles
    rw [List.map_cons, List.map_cons, performAll, ih (hlength ▸ hw) hrest, hfiles, perform_job]
    simp [Listing.append, Listing.add]

theorem perform_reordered {t' : FileTree} (h : t.Reordered t') (p : Path) :
    b.perform t w (.directory p) = b.perform t' w (.directory p) := by
  simp only [perform, Task.emission_directory, h.directory]

/-- A directory that can be emitted gives the modules of its source files. -/
theorem perform_directory_eq_ok {p : Path} {answer : Answer}
    (h : (b.perform t w (.directory p)).2.result = .ok answer) :
    (∃ found, t.status p = .ok found) ∧ ∃ names, answer = .names names ∧
      (Emission.files t (t.sources p) (b.emitter w)).result = .ok names ∧
      (b.perform t w (.directory p)).1 =
        ⟨b.listing.append (Emission.files t (t.sources p) (b.emitter w)).code,
          b.emitters.set w (Emission.files t (t.sources p) (b.emitter w)).emitter⟩ := by
  rw [outcome_perform, Task.emission_directory] at h
  cases hresult : (Emission.directory t p (b.emitter w)).result with
  | error fault =>
    simp only [hresult] at h
    cases h
  | ok names =>
    simp only [hresult] at h
    cases h
    obtain ⟨hstatus, hfiles⟩ := Emission.directory_eq_ok hresult
    refine ⟨hstatus, names, rfl, hfiles ▸ hresult, ?_⟩
    simp only [perform, Task.emission_directory, hfiles]

end Workbench

/-! ## Directories -/

/-- The modules of a directory: their names in strictly increasing order, each of them proper,
which are those of the entries with the suffix `.vm` without it, and the texts of their
files.  A path that leads to no directory has no modules. -/
structure FileTree.ModulesIn (t : FileTree) (p : Path) (names : List String)
    (text : String → String) : Prop where
  increasing : names.Pairwise (· < ·)
  proper : ∀ name ∈ names, Text.IsWord ['_', ':'] name
  stems : ∀ name, name ∈ names ↔ t.LeadsToDirectory p ∧
    ∃ entry, (t.node? (t.resolve p ++ [entry])).isSome = true ∧ ".vm".toList <:+ entry.toList ∧
      name = (p.child entry).stem
  texts : ∀ name ∈ names, t.Holds (t.resolve p ++ [name ++ ".vm"]) (text name)

namespace FileTree

variable {t : FileTree} {p : Path}

/-- The file of a proper module is the module's name with the suffix. -/
theorem stem_append_vm {entry : String} (hmem : entry ∈ t.sourceNames p)
    (hproper : Text.IsWord ['_', ':'] (p.child entry).stem) :
    (p.child entry).stem ++ ".vm" = entry := by
  rw [Path.stem_child] at hproper ⊢
  exact (eq_append_vm_of_isWord (mem_sourceNames_iff.mp hmem).2 hproper).symm

/-- The text of a module's file. -/
def moduleText (t : FileTree) (p : Path) (name : String) : String :=
  t.textOf (p.child (name ++ ".vm"))

/-- The entries of a path that can be looked at. -/
theorem mem_list_iff {found : Option Node} (h : t.status p = .ok found) {entry : String} :
    entry ∈ t.list p ↔
      t.LeadsToDirectory p ∧ (t.node? (t.resolve p ++ [entry])).isSome = true := by
  rw [← isDirectory_iff_leadsToDirectory h]
  by_cases hdirectory : t.isDirectory p = true
  · rw [mem_list hdirectory, and_iff_right hdirectory]
  · rw [list, if_neg hdirectory]
    exact iff_of_false List.not_mem_nil fun hleads => hdirectory hleads.1

theorem modulesIn_sourceNames {found : Option Node} (hstatus : t.status p = .ok found)
    (hproper : ∀ entry ∈ t.sourceNames p, Text.IsWord ['_', ':'] (p.child entry).stem)
    (hreads : ∀ entry ∈ t.sourceNames p,
      t.readText (p.child entry) = .ok (t.textOf (p.child entry))) :
    t.ModulesIn p ((t.sourceNames p).map fun entry => (p.child entry).stem) (t.moduleText p) := by
  refine ⟨?_, ?_, fun name => ?_, ?_⟩
  · refine List.pairwise_map.mpr ((t.pairwise_sourceNames p).imp_of_mem ?_)
    intro entry entry' hmem hmem' hlt
    rw [← stem_append_vm hmem (hproper entry hmem), ← stem_append_vm hmem' (hproper entry' hmem')]
      at hlt
    exact lt_of_append_vm_lt (hproper entry hmem) hlt
  · intro name hname
    obtain ⟨entry, hmem, rfl⟩ := List.mem_map.mp hname
    exact hproper entry hmem
  · simp only [List.mem_map, mem_sourceNames_iff, mem_list_iff hstatus, and_assoc, eq_comm,
      exists_and_left]
  · intro name hname
    obtain ⟨entry, hmem, rfl⟩ := List.mem_map.mp hname
    have hholds := readText_eq_ok (hreads entry hmem)
    rw [resolve_source (mem_sourceNames_iff.mp hmem).2] at hholds
    rw [moduleText, stem_append_vm hmem (hproper entry hmem)]
    exact hholds

/-- The modules of the source files are known by their names. -/
theorem map_moduleAt_sources
    (hproper : ∀ entry ∈ t.sourceNames p, Text.IsWord ['_', ':'] (p.child entry).stem) :
    (t.sources p).map t.moduleAt =
      ((t.sourceNames p).map fun entry => (p.child entry).stem).map
        fun name => .module name (Text.lines (t.moduleText p name)) := by
  rw [sources_eq_map, List.map_map, List.map_map]
  refine List.map_congr_left fun entry hmem => ?_
  show Job.module _ (Text.lines (t.textOf (p.child entry))) =
    .module _ (Text.lines (t.textOf (p.child ((p.child entry).stem ++ ".vm"))))
  rw [stem_append_vm hmem (hproper entry hmem)]

end FileTree

/-- **The modules of a directory are emitted in order.**  Take any tree, any emitter of any
workbench and any path.  If emitting the directory succeeds, then it answers the names of
its modules, in strictly increasing order; and it leaves the workbench as it would be after
emitting these modules one by one in that order, each from the text of its file, all of which
succeed.  The tree may list its entries in any other order, and all is the same. -/
theorem directory_emitted_in_order (t : FileTree) {b : Workbench} {w : Nat}
    (hw : w < b.emitters.length) (p : Path) {answer : Answer}
    (h : (b.perform t w (.directory p)).2.result = .ok answer) :
    (∃ (names : List String) (text : String → String) (jobs : List Job),
      answer = .names names ∧ t.ModulesIn p names text ∧
      jobs = names.map (fun name => .module name (Text.lines (text name))) ∧
      succeeds jobs (b.emitter w) = true ∧
      (b.perform t w (.directory p)).1 = Workbench.performAll t w (jobs.map Job.task) b) ∧
    ∀ t' : FileTree, t.Reordered t' →
      b.perform t w (.directory p) = b.perform t' w (.directory p) := by
  refine ⟨?_, fun t' ht' => Workbench.perform_reordered ht' p⟩
  obtain ⟨⟨found, hstatus⟩, names, hanswer, hnames, hperform⟩ :=
    Workbench.perform_directory_eq_ok h
  obtain ⟨hstems, hreads, hsucceeds, -⟩ := Emission.files_eq_ok hnames
  have hproper := Emission.isWord_of_files hnames
  rw [hstems, FileTree.sources_eq_map, List.map_map, List.forall_mem_map] at hproper
  rw [FileTree.sources_eq_map, List.map_map] at hstems
  rw [FileTree.sources_eq_map, List.forall_mem_map] at hreads
  have hjobs := FileTree.map_moduleAt_sources hproper
  refine ⟨names, t.moduleText p, (t.sources p).map t.moduleAt, hanswer, ?_, ?_, hsucceeds, ?_⟩
  · rw [hstems]
    exact FileTree.modulesIn_sourceNames hstatus hproper hreads
  · rw [hjobs, hstems]
    rfl
  · rw [hperform, Workbench.performAll_modules hw hnames]

/-- A directory in which one module's name begins with another's, and the longer is listed
first. -/
def nestedNames : FileTree where
  entries :=
    [(["P"], .directory), (["P", "Main0.vm"], .file (Text.Utf8.encode "push static 0\r\nnot")),
      (["P", "Main.asm"], .file [255]),
      (["P", "Main.vm"], .file (Text.Utf8.encode "push constant 7\n\n// done"))]
  workingDirectory := []
  distinct := by decide

/-- The same directory, listed the other way round. -/
def nestedNamesReversed : FileTree where
  entries := nestedNames.entries.reverse
  workingDirectory := []
  distinct := by decide

theorem sourceNames_nestedNames :
    nestedNames.sourceNames ⟨.relative, ["P"]⟩ = ["Main.vm", "Main0.vm"] := by
  have hlist : (nestedNames.list ⟨.relative, ["P"]⟩).filter isSourceName =
      ["Main0.vm", "Main.vm"] := by decide +kernel
  rw [FileTree.sourceNames, hlist]
  simp [List.mergeSort, List.MergeSort.Internal.splitInTwo]

/-- The shorter name comes first, although it is listed last and its file's name goes on with
a dot where the other has a digit; listed first, it does so too. -/
theorem directory_emitted_of_nested_names :
    0 < (Workbench.new 1 []).emitters.length ∧
      ((Workbench.new 1 []).perform nestedNames 0 (.directory ⟨.relative, ["P"]⟩)).2.result =
        .ok (.names ["Main", "Main0"]) ∧
      (∃ text jobs, nestedNames.ModulesIn ⟨.relative, ["P"]⟩ ["Main", "Main0"] text ∧
        jobs = [.module "Main" (Text.lines (text "Main")),
          .module "Main0" (Text.lines (text "Main0"))] ∧
        succeeds jobs .start = true ∧
        ((Workbench.new 1 []).perform nestedNames 0 (.directory ⟨.relative, ["P"]⟩)).1 =
          Workbench.performAll nestedNames 0 (jobs.map Job.task) (.new 1 [])) ∧
      (Workbench.new 1 []).perform nestedNames 0 (.directory ⟨.relative, ["P"]⟩) =
        (Workbench.new 1 []).perform nestedNamesReversed 0 (.directory ⟨.relative, ["P"]⟩) := by
  have hw : 0 < (Workbench.new 1 []).emitters.length := by decide
  have hresult : ((Workbench.new 1 []).perform nestedNames 0
      (.directory ⟨.relative, ["P"]⟩)).2.result = .ok (.names ["Main", "Main0"]) := by
    have hdirectory : Emission.directory nestedNames ⟨.relative, ["P"]⟩ =
        Emission.files nestedNames (nestedNames.sources ⟨.relative, ["P"]⟩) := rfl
    rw [Workbench.outcome_perform, Task.emission_directory, hdirectory,
      FileTree.sources_eq_map, sourceNames_nestedNames]
    decide +kernel
  have hreordered : nestedNames.Reordered nestedNamesReversed :=
    ⟨(List.reverse_perm nestedNames.entries).symm, rfl⟩
  obtain ⟨⟨names, text, jobs, hanswer, hmodules, hjobs, hsucceeds, hperform⟩, hlisted⟩ :=
    directory_emitted_in_order nestedNames hw ⟨.relative, ["P"]⟩ hresult
  cases hanswer
  exact ⟨hw, hresult, ⟨text, jobs, hmodules, hjobs, hsucceeds, hperform⟩,
    hlisted nestedNamesReversed hreordered⟩

end HackVM
