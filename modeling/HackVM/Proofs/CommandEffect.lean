import HackVM.CommandLine.Run
import HackVM.Proofs.ArgumentReading
import HackVM.Proofs.AssemblyText
import HackVM.Proofs.SourceFiles

/-! # What a run of the command leaves behind

A run leaves the file tree as it was, or leaves one new file in it.  A run that ends with
status 2 or 3 has changed nothing.  One that ends with status 0 has put one file at the
output path and made the directories on the way to it, and the file holds the listing of
the modules that the input held before the run, after the start of the program if that
was wanted (`run_all_or_nothing`).

What the run has done is said without the command: a file was deposited (`Deposited`) at
the place that belongs to the request (`OutputOf`), with the code of the modules that
stand in the tree (`ModulesOf`). -/
namespace HackVM

open Asm

namespace FileTree

/-- A file has been put at a path, where no directory stood.  All directories on the way
are there; those that are new stand where nothing stood, and nothing else has changed. -/
structure Deposited (t t' : FileTree) (p : Path) (content : String) : Prop where
  file : t'.node? (t.resolve p) = some (.file (Text.Utf8.encode content))
  replaced : t.node? (t.resolve p) ≠ some .directory
  way : ∀ q ∈ t.trail p.parent, t'.node? q = some .directory
  elsewhere : ∀ q ≠ t.resolve p, t'.node? q = t.node? q ∨
    (t.node? q = none ∧ t'.node? q = some .directory ∧ q ∈ t.trail p.parent)
  workingDirectory : t'.workingDirectory = t.workingDirectory

/-- A file that is written when directories have been made on the way to it. -/
theorem Grows.deposited {t t' t'' : FileTree} {p : Path} (hp : p.Proper)
    (hgrows : Grows t t' (t.trail p.parent)) {content : String}
    (h : t'.write p.text content = .ok t'') : Deposited t t'' p content := by
  obtain ⟨rfl, hne, hfree, hway⟩ := write_text_eq_ok hp h
  rw [resolve_congr hgrows.workingDirectory] at hne hfree ⊢
  rw [trail_congr hgrows.workingDirectory] at hway
  refine ⟨node?_insert_self hne _, fun hdirectory => ?_, fun q hq => ?_, fun q hq => ?_,
    hgrows.workingDirectory⟩
  · rcases hgrows.node? (t.resolve p) with hsame | ⟨hnone, -⟩
    · exact hfree (hsame.trans hdirectory)
    · rw [hnone] at hdirectory
      cases hdirectory
  · have hq' : q ≠ t.resolve p := by
      rintro rfl
      exact hfree (hway _ hq)
    rw [node?_insert_of_ne hq']
    exact hway q hq
  · rw [node?_insert_of_ne hq]
    exact hgrows.node? q

end FileTree

namespace CommandLine

/-- The path of the input of a request. -/
def Request.inputPath (r : Request) : Path := Path.ofText r.input

/-- The files that hold the modules of a request. -/
def Request.sourcePaths (t : FileTree) (r : Request) : List Path :=
  if t.isDirectory r.inputPath then t.sources r.inputPath else [r.inputPath]

/-! ## What is said about a run -/

/-- The place of the assembly of a request: the path that was given, if it is not empty, and
otherwise a path next to the file or inside the directory that is the input, under its
name. -/
inductive OutputOf (t : FileTree) (r : Request) : Path → Prop where
  | given {s : String} (h : r.output = some s) (hs : s ≠ "") : OutputOf t r (Path.ofText s)
  | beside (h : r.output = none ∨ r.output = some "")
    (hfile : t.node? (t.resolve r.inputPath) ≠ some .directory) :
    OutputOf t r (r.inputPath.parent.child (r.inputPath.stem ++ ".asm"))
  | inside (h : r.output = none ∨ r.output = some "")
    (hdirectory : t.node? (t.resolve r.inputPath) = some .directory) :
    OutputOf t r (r.inputPath.child ((t.resolve r.inputPath).getLast?.getD "" ++ ".asm"))

/-- The modules of an input, with the lines that their files hold: the one of a file, or
those of all source files of a directory, in increasing order of the names of the files. -/
inductive ModulesOf (t : FileTree) (input : Path) : List Job → Prop where
  | file {text : String} (h : t.Holds (t.resolve input) text) :
    ModulesOf t input [.module input.stem (Text.lines text)]
  | directory {files : List (String × String)} (hne : files ≠ [])
    (hdirectory : t.node? (t.resolve input) = some .directory)
    (hnames : ∀ name, name ∈ files.map Prod.fst ↔
      (t.node? (t.resolve input ++ [name])).isSome = true ∧ ".vm".toList <:+ name.toList)
    (hsorted : (files.map Prod.fst).Pairwise (· < ·))
    (htexts : ∀ file ∈ files, t.Holds (t.resolve input ++ [file.1]) file.2) :
    ModulesOf t input
      (files.map fun file => .module (Path.splitName file.1).1 (Text.lines file.2))

/-- The start of the program is wanted: that was said, or nothing was and the input is a
directory. -/
def WantsStart (t : FileTree) (r : Request) : Prop :=
  r.bootstrap = some true ∨
    (r.bootstrap = none ∧ t.node? (t.resolve r.inputPath) = some .directory)

instance (t : FileTree) (r : Request) : Decidable (WantsStart t r) :=
  inferInstanceAs (Decidable (_ ∨ _))

/-! ## The emission of a request -/

section Emission

variable {t : FileTree} {r : Request} {node : Node} (h : t.status r.inputPath = .ok (some node))
include h

/-- The start of the program comes first, and the files after it. -/
theorem emission_eq (e : Emitter) :
    emission t r e =
      if wantsBootstrap t r then
        (Emission.bootstrap >>= fun _ => Emission.files t (r.sourcePaths t)) e
      else Emission.files t (r.sourcePaths t) e := by
  have hinput : (if t.isDirectory r.inputPath then Emission.directory t r.inputPath
      else do
        let name ← Emission.file t r.inputPath
        pure [name]) = Emission.files t (r.sourcePaths t) := by
    unfold Request.sourcePaths
    split
    · rw [Emission.directory, h]
    · rfl
  rw [← hinput]
  unfold emission
  split <;> rfl

theorem wantsBootstrap_iff : wantsBootstrap t r = true ↔ WantsStart t r := by
  have hdirectory : t.isDirectory (Path.ofText r.input) = true ↔
      t.node? (t.resolve r.inputPath) = some .directory := FileTree.isDirectory_iff h
  rw [wantsBootstrap, WantsStart]
  cases r.bootstrap with
  | none => simpa using hdirectory
  | some wanted => simp

theorem outputOf_outputPath : OutputOf t r (outputPath t r) := by
  have hdirectory : t.isDirectory (Path.ofText r.input) = true ↔
      t.node? (t.resolve r.inputPath) = some .directory := FileTree.isDirectory_iff h
  have hbeside (hnone : r.output = none ∨ r.output = some "") :
      OutputOf t r (outputBeside t (Path.ofText r.input)) := by
    unfold outputBeside
    split
    · rename_i hdir
      exact .inside hnone (hdirectory.mp hdir)
    · rename_i hfile
      exact .beside hnone fun hdir => hfile (hdirectory.mpr hdir)
  unfold outputPath
  split
  · rename_i hnone
    exact hbeside (.inl hnone)
  · rename_i s hsome
    split
    · rename_i hempty
      exact hbeside (.inr (hempty ▸ hsome))
    · rename_i hs
      exact .given hsome hs

/-- The files of a request hold the modules of its input. -/
theorem modulesOf_sourcePaths (hne : r.sourcePaths t ≠ [])
    (hreads : ∀ p ∈ r.sourcePaths t, t.readText p = .ok (t.textOf p)) :
    ModulesOf t r.inputPath ((r.sourcePaths t).map t.moduleAt) := by
  unfold Request.sourcePaths at hne hreads ⊢
  split at hne
  · rename_i hdirectory
    rw [if_pos hdirectory, FileTree.sources_eq_map] at hreads ⊢
    have hnames : ((t.sourceNames r.inputPath).map
        fun name => (name, t.textOf (r.inputPath.child name))).map Prod.fst =
        t.sourceNames r.inputPath := by
      rw [List.map_map]
      exact List.map_id _
    have hmodules : ((t.sourceNames r.inputPath).map r.inputPath.child).map t.moduleAt =
        ((t.sourceNames r.inputPath).map
          fun name => (name, t.textOf (r.inputPath.child name))).map
            fun file => .module (Path.splitName file.1).1 (Text.lines file.2) := by
      simp only [List.map_map, Function.comp_def, FileTree.moduleAt, Path.stem_child]
    rw [hmodules]
    refine .directory ?_ ((FileTree.isDirectory_iff h).mp hdirectory) (fun name => ?_) ?_ ?_
    · intro hnil
      rw [FileTree.sources_eq_map, List.map_eq_nil_iff.mp hnil] at hne
      exact hne rfl
    · rw [hnames]
      exact FileTree.mem_sourceNames hdirectory
    · rw [hnames]
      exact FileTree.pairwise_sourceNames t r.inputPath
    · intro file hfile
      obtain ⟨name, hname, rfl⟩ := List.mem_map.mp hfile
      have hholds := FileTree.readText_eq_ok (hreads _ (List.mem_map_of_mem hname))
      rwa [FileTree.resolve_source (FileTree.mem_sourceNames_iff.mp hname).2] at hholds
  · rename_i hfile
    rw [if_neg hfile] at hreads ⊢
    exact .file (FileTree.readText_eq_ok (hreads _ (List.mem_singleton.mpr rfl)))

/-- **An emission that succeeds is a session**: the start of the program, if it is wanted,
and the modules of the input. -/
theorem exists_session {names : List String} (hresult : (emission t r .start).result = .ok names)
    (hne : names ≠ []) :
    ∃ modules, ModulesOf t r.inputPath modules ∧
      succeeds (if WantsStart t r then .bootstrap :: modules else modules) .start = true ∧
      (emission t r .start).code =
        sessionCode (if WantsStart t r then .bootstrap :: modules else modules) .start := by
  have hpaths : names = (r.sourcePaths t).map Path.stem → r.sourcePaths t ≠ [] := by
    rintro rfl hnil
    exact hne (by rw [hnil]; rfl)
  rw [emission_eq h] at hresult ⊢
  by_cases hstart : WantsStart t r
  · have hok : (Emission.bootstrap .start).result = .ok () := by rw [Emission.bootstrap_apply]
    rw [if_pos ((wantsBootstrap_iff h).mpr hstart), Emission.bind_ok hok] at hresult ⊢
    obtain ⟨hnames, hreads, hsucceeds, hcode⟩ := Emission.files_eq_ok hresult
    refine ⟨_, modulesOf_sourcePaths h (hpaths hnames) hreads, ?_, ?_⟩
    · rw [if_pos hstart, succeeds, Bool.and_eq_true]
      exact ⟨by rw [Job.emission, hok]; rfl, hsucceeds⟩
    · rw [if_pos hstart, sessionCode, hcode]
      rfl
  · rw [if_neg fun hb => hstart ((wantsBootstrap_iff h).mp hb)] at hresult ⊢
    obtain ⟨hnames, hreads, hsucceeds, hcode⟩ := Emission.files_eq_ok hresult
    refine ⟨_, modulesOf_sourcePaths h (hpaths hnames) hreads, ?_, ?_⟩
    · rw [if_neg hstart]
      exact hsucceeds
    · rw [if_neg hstart]
      exact hcode

end Emission

/-! ## Outputs are proper paths -/

theorem slash_notMem_of_isEntryName {name : String} (h : FileTree.isEntryName name = true) :
    '/' ∉ name.toList := by
  simp only [FileTree.isEntryName, Bool.and_eq_true, Bool.not_eq_true', List.contains_eq_mem,
    decide_eq_false_iff_not] at h
  exact h.1.2

/-- The names that lead to the place of a path come from the path or from the working
directory. -/
theorem mem_foldl_step {names : List String} {place : Place} {name : String}
    (h : name ∈ names.foldl FileTree.step place) : name ∈ place ∨ name ∈ names := by
  induction names generalizing place with
  | nil => exact .inl h
  | cons first names ih =>
    rcases ih h with hstep | hnames
    · unfold FileTree.step at hstep
      split at hstep
      · exact .inl hstep
      · split at hstep
        · exact .inl (List.dropLast_subset _ hstep)
        · rcases List.mem_append.mp hstep with hplace | hfirst
          · exact .inl hplace
          · exact .inr (List.mem_cons.mpr (.inl (List.mem_singleton.mp hfirst)))
    · exact .inr (List.mem_cons_of_mem _ hnames)

/-- In a tree with names as a system allows, the name of a directory holds no slash. -/
theorem slash_notMem_last_resolve {t : FileTree} (ht : t.WellNamed) {p : Path} (hp : p.Proper) :
    '/' ∉ ((t.resolve p).getLast?.getD "").toList := by
  cases hlast : (t.resolve p).getLast? with
  | none => exact List.not_mem_nil
  | some name =>
    have hname : name ∈ t.origin p ∨ name ∈ p.parts := mem_foldl_step (List.mem_of_getLast? hlast)
    rcases hname with horigin | hpart
    · unfold FileTree.origin at horigin
      split at horigin
      · exact slash_notMem_of_isEntryName (ht.2 name horigin)
      · cases horigin
    · exact (hp name hpart).2

theorem OutputOf.proper {t : FileTree} (ht : t.WellNamed) {r : Request} {output : Path}
    (h : OutputOf t r output) : output.Proper := by
  have hinput : r.inputPath.Proper := Path.proper_ofText r.input
  have hsuffix : IsComponent ".asm" := ⟨by decide, by decide⟩
  cases h with
  | given h hs => exact Path.proper_ofText _
  | beside h hfile => exact hinput.withSuffix hsuffix
  | inside h hdirectory =>
    exact hinput.child (Path.isComponent_append (slash_notMem_last_resolve ht hinput) hsuffix)

/-! ## What a run does -/

theorem save_eq_ok {t t' : FileTree} {output : Path} (hp : output.Proper) {l : Listing}
    (h : save t output l = (t', .ok ())) : t.Deposited t' output l.text := by
  have hgrows := t.grows_makeDirectories output.parent
  unfold save at h
  split at h
  · cases h
  · split at h
    · cases h
    · rename_i t₁ hmade
      rw [hmade] at hgrows
      split at h
      · cases h
      · rename_i t₂ hwrite
        cases h
        exact hgrows.deposited hp hwrite

/-- The courses that a run can take, each with its ending and the tree that it leaves. -/
inductive Course (t : FileTree) (r : Request) : Ending → FileTree → Prop where
  | unreachable {e : FileError} (h : t.status r.inputPath = .error e) :
    Course t r (.failed (.file e)) t
  | missing (h : t.status r.inputPath = .ok none) : Course t r (.finished 2) t
  | refused {node : Node} (h : t.status r.inputPath = .ok (some node)) {d : Diagnostic}
    (hresult : (emission t r .start).result = .error (.refused d)) : Course t r (.finished 3) t
  | escaped {node : Node} (h : t.status r.inputPath = .ok (some node)) {fault : Fault}
    (hresult : (emission t r .start).result = .error fault) (hfault : ∀ d, fault ≠ .refused d) :
    Course t r (.failed fault) t
  | empty {node : Node} (h : t.status r.inputPath = .ok (some node))
    (hresult : (emission t r .start).result = .ok []) : Course t r (.finished 2) t
  | unsaved {node : Node} (h : t.status r.inputPath = .ok (some node)) {modules : List String}
    (hresult : (emission t r .start).result = .ok modules) {t' : FileTree} {fault : Fault}
    (hsave : save t (outputPath t r) (Listing.empty.append (emission t r .start).code) =
      (t', .error fault)) : Course t r (.failed fault) t'
  | done {node : Node} (h : t.status r.inputPath = .ok (some node)) {modules : List String}
    (hresult : (emission t r .start).result = .ok modules) (hne : modules ≠ []) {t' : FileTree}
    (hsave : save t (outputPath t r) (Listing.empty.append (emission t r .start).code) =
      (t', .ok ())) : Course t r (.finished 0) t'

/-- Every run takes one of the courses. -/
theorem course_run (t : FileTree) {arguments : List String} {r : Request}
    (hr : Request.ofArguments arguments = .ok r) :
    Course t r (run t arguments).ending (run t arguments).tree := by
  simp only [run, hr, Request.carryOut]
  split
  · exact .unreachable ‹_›
  · exact .missing ‹_›
  · split
    · exact .refused ‹_› ‹_›
    · rename_i fault hrefused hresult
      exact .escaped ‹_› hresult fun d hd => hrefused d hd
    · exact .empty ‹_› ‹_›
    · rename_i modules hne hresult
      split
      · exact .unsaved ‹_› hresult ‹_›
      · exact .done ‹_› hresult hne ‹_›

/-- **A run writes everything or nothing.**  Whatever the file tree and the arguments, if
these are accepted: a run that ends with status 2 or 3 leaves the tree as it was.  A run
that ends with status 0 has put one file at the output path of the request, with the
directories that were missing on the way to it, and has changed nothing else; the file
holds the lines, each ended by a line feed, that a fresh emitter adds for the start of the
program, if that is wanted, and for the modules of the input.  Which request the arguments
make is said by `request_of_parts`. -/
theorem run_all_or_nothing {t : FileTree} (ht : t.WellNamed) {arguments : List String}
    {r : Request} (hr : Request.ofArguments arguments = .ok r) :
    ((run t arguments).ending = .finished 2 ∨ (run t arguments).ending = .finished 3 →
      (run t arguments).tree = t) ∧
    ((run t arguments).ending = .finished 0 →
      ∃ output modules jobs, OutputOf t r output ∧ ModulesOf t r.inputPath modules ∧
        jobs = (if WantsStart t r then .bootstrap :: modules else modules) ∧
        succeeds jobs .start = true ∧
        t.Deposited (run t arguments).tree output (String.join
          ((Workbench.performAll t 0 (jobs.map Job.task) (.new 1 [])).listing.lines.map
            (· ++ "\n")))) := by
  have hcourse := course_run t hr
  generalize (run t arguments).ending = ending at hcourse ⊢
  generalize (run t arguments).tree = t' at hcourse ⊢
  cases hcourse with
  | unreachable h => exact ⟨by simp, by simp⟩
  | missing h => exact ⟨fun _ => rfl, by simp⟩
  | refused h hresult => exact ⟨fun _ => rfl, by simp⟩
  | escaped h hresult hfault => exact ⟨by simp, by simp⟩
  | empty h hresult => exact ⟨fun _ => rfl, by simp⟩
  | unsaved h hresult hsave => exact ⟨by simp, by simp⟩
  | done h hresult hne hsave =>
    refine ⟨by simp, fun _ => ?_⟩
    obtain ⟨modules, hmodules, hsucceeds, hcode⟩ := exists_session h hresult hne
    have houtput := outputOf_outputPath h
    have hdeposited := save_eq_ok (houtput.proper ht) hsave
    refine ⟨_, modules, _, houtput, hmodules, rfl, hsucceeds, ?_⟩
    rw [listing_performAll_new, listing, program, ← hcode]
    exact hdeposited

/-- A directory with two source files, of which the second in order is listed first. -/
def twoModules : FileTree where
  entries :=
    [(["home"], .directory), (["home", "P"], .directory),
      (["home", "P", "Sys.vm"],
        .file (Text.Utf8.encode "function Sys.init 0\r\ncall f 0 // go\r\n")),
      (["home", "P", "Main.vm"],
        .file (Text.Utf8.encode "function f 1\n\npush static 0\nreturn")),
      (["home", "P", "notes"], .file [255])]
  workingDirectory := ["home"]
  distinct := by decide

theorem sources_twoModules :
    twoModules.sources (Path.ofText "P") =
      [⟨.relative, ["P", "Main.vm"]⟩, ⟨.relative, ["P", "Sys.vm"]⟩] := by
  have hlist : (twoModules.list (Path.ofText "P")).filter isSourceName = ["Sys.vm", "Main.vm"] := by
    decide +kernel
  have hsorted : ["Sys.vm", "Main.vm"].mergeSort (fun a b => decide (a ≤ b)) =
      ["Main.vm", "Sys.vm"] := by
    simp [List.mergeSort, List.MergeSort.Internal.splitInTwo]
  rw [FileTree.sources, hlist, hsorted]
  decide

theorem ending_twoModules :
    (Request.carryOut twoModules ⟨"P", some "out/../new/a.asm", none⟩).ending = .finished 0 := by
  have hstatus : twoModules.status (Path.ofText "P") = .ok (some .directory) := rfl
  have hemission : emission twoModules ⟨"P", some "out/../new/a.asm", none⟩ .start =
      (Emission.bootstrap >>= fun _ => Emission.files twoModules
        [⟨.relative, ["P", "Main.vm"]⟩, ⟨.relative, ["P", "Sys.vm"]⟩]) .start := by
    rw [emission_eq hstatus, if_pos (by decide +kernel), Request.sourcePaths,
      if_pos (by decide +kernel)]
    exact sources_twoModules ▸ rfl
  simp only [Request.carryOut, hstatus, hemission]
  decide +kernel

/-- The modules of a directory are written into a directory that has to be made. -/
theorem run_of_two_modules :
    twoModules.WellNamed ∧
      Request.ofArguments ["P", "-o", "out/../new/a.asm"] =
        .ok ⟨"P", some "out/../new/a.asm", none⟩ ∧
      (run twoModules ["P", "-o", "out/../new/a.asm"]).ending = .finished 0 ∧
      ∃ output modules jobs, OutputOf twoModules ⟨"P", some "out/../new/a.asm", none⟩ output ∧
        ModulesOf twoModules (Path.ofText "P") modules ∧
        jobs = (if WantsStart twoModules ⟨"P", some "out/../new/a.asm", none⟩ then
          .bootstrap :: modules else modules) ∧
        succeeds jobs .start = true ∧
        twoModules.Deposited (run twoModules ["P", "-o", "out/../new/a.asm"]).tree output
          (String.join ((Workbench.performAll twoModules 0 (jobs.map Job.task)
            (.new 1 [])).listing.lines.map (· ++ "\n"))) := by
  have hnamed : twoModules.WellNamed := by decide
  have hrequest : Request.ofArguments ["P", "-o", "out/../new/a.asm"] =
      .ok ⟨"P", some "out/../new/a.asm", none⟩ :=
    ofArguments_input_output (.inl (by decide)) (.inl (by decide))
  have hending : (run twoModules ["P", "-o", "out/../new/a.asm"]).ending = .finished 0 := by
    rw [run, hrequest]
    exact ending_twoModules
  exact ⟨hnamed, hrequest, hending, (run_all_or_nothing hnamed hrequest).2 hending⟩

end CommandLine
end HackVM
