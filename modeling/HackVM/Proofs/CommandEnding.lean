import HackVM.Proofs.CommandEffect
import HackVM.Proofs.FirstRefusal
import HackVM.Proofs.SourceWords

/-! # How a run of the command ends

A run that can save its listing ends with a status, whatever the source files hold, with
two exceptions (`run_reports_unless_beyond_limits`).  The input path may be too long to
be looked up (`TooLong`).  And the first instruction that is not accepted, in files that
are taken in order, may hold a number with more digits than can be read or written
(`ReachesLimit`).  Every other problem is a diagnostic, which the run reports.  Both
exceptions occur (`run_fails_beyond_limits`). -/
namespace HackVM

open Asm

/-! ## Paths that are too long -/

namespace FileTree

/-- Names lead from a place through directories up to a name that is too long. -/
inductive LongName (t : FileTree) : Place → List String → Prop where
  | here {place : Place} {name : String} {rest : List String}
    (hplace : t.node? place = some .directory) (h : nameLimit < name.utf8ByteSize) :
    LongName t place (name :: rest)
  | later {place : Place} {name : String} {rest : List String}
    (hplace : t.node? place = some .directory) (hname : name.utf8ByteSize ≤ nameLimit)
    (h : LongName t (step place name) rest) : LongName t place (name :: rest)

/-- A path that cannot be looked up since its text or a name in it is too long. -/
def TooLong (t : FileTree) (p : Path) : Prop :=
  p.hasNul = false ∧ (pathLimit < p.text.utf8ByteSize ∨ t.LongName (t.origin p) p.parts)

variable {t : FileTree}

theorem expectDirectory_ne_nameTooLong (place : Place) :
    t.expectDirectory place ≠ .error .nameTooLong := by
  unfold expectDirectory
  split <;> simp

/-- A walk reports a name that is too long when there is one on the way. -/
theorem walk_eq_nameTooLong_iff {place : Place} {names : List String} :
    t.walk place names = .error .nameTooLong ↔ t.LongName place names := by
  induction names generalizing place with
  | nil =>
    refine iff_of_false (by simp [walk]) fun h => ?_
    cases h
  | cons name names ih =>
    constructor
    · intro h
      have hplace : t.node? place = some .directory := by
        cases hdirectory : t.expectDirectory place with
        | ok _ => exact expectDirectory_eq_ok hdirectory
        | error problem =>
          rw [walk, hdirectory] at h
          cases h
          exact absurd hdirectory (expectDirectory_ne_nameTooLong place)
      rw [walk_cons_of_directory hplace] at h
      by_cases hname : name.utf8ByteSize ≤ nameLimit
      · rw [expectLength_of_le hname] at h
        exact .later hplace hname (ih.mp h)
      · exact .here hplace (by omega)
    · intro h
      cases h with
      | here hplace hlong =>
        rw [walk_cons_of_directory hplace, expectLength_eq_error.mpr ⟨rfl, hlong⟩]
        rfl
      | later hplace hname h =>
        rw [walk_cons_of_directory hplace, expectLength_of_le hname]
        exact ih.mpr h

theorem find_eq_nameTooLong_iff {p : Path} :
    t.find p = .error .nameTooLong ↔
      pathLimit < p.text.utf8ByteSize ∨ t.LongName (t.origin p) p.parts := by
  rw [← walk_eq_nameTooLong_iff]
  by_cases htext : p.text.utf8ByteSize ≤ pathLimit
  · have hshort : ¬ pathLimit < p.text.utf8ByteSize := by omega
    rw [find, expectLength_of_le htext, or_iff_right hshort]
    cases hwalk : t.walk (t.origin p) p.parts with
    | error problem =>
      show (Except.error problem : Except FileProblem Node) = _ ↔ _
      constructor <;> exact fun h => by cases h; rfl
    | ok place =>
      simp only [ok_bind]
      cases t.node? place <;> simp
  · have hlong : pathLimit < p.text.utf8ByteSize := by omega
    rw [find, expectLength_eq_error.mpr ⟨rfl, hlong⟩]
    exact iff_of_true rfl (.inl hlong)

/-- **Looking at a path fails when the path is too long.** -/
theorem status_eq_error_iff {p : Path} {e : FileError} :
    t.status p = .error e ↔ t.TooLong p ∧ e = ⟨.nameTooLong, p.text⟩ := by
  unfold status TooLong
  rw [← find_eq_nameTooLong_iff]
  split
  · rename_i hnul
    refine iff_of_false (by simp) fun h => ?_
    rw [hnul] at h
    cases h.1.1
  · rename_i hnul
    have hnul : p.hasNul = false := by simpa using hnul
    split
    · rename_i hfind
      simp [hfind]
    · rename_i hfind
      simp [hfind, hnul, eq_comm]
    · rename_i problem hproblem hfind
      have hne : problem ≠ .nameTooLong := hproblem
      simp [hfind, hne]

/-! ## Paths that name nothing -/

theorem status_of_readText {p : Path} {text : String} (h : t.readText p = .ok text) :
    ∃ node, t.status p = .ok (some node) := by
  obtain ⟨bytes, hbytes, -⟩ := exists_of_bind_eq_ok h
  obtain ⟨hnul, hfind⟩ := readBytes_eq_ok hbytes
  exact ⟨.file bytes, by rw [status, hnul, hfind]; rfl⟩

/-- Reading reports the character with code zero only where it stands in the path. -/
theorem readText_ne_nul {p : Path} (h : p.hasNul = false) : t.readText p ≠ .error .nul := by
  intro hnul
  cases hbytes : t.readBytes p with
  | error problem =>
    rw [readText, hbytes] at hnul
    cases hnul
    rw [readBytes, if_neg (by simp [h])] at hbytes
    split at hbytes <;> cases hbytes
  | ok bytes =>
    rw [readText_of_bytes hbytes] at hnul
    split at hnul <;> cases hnul

end FileTree

/-! ## Numbers beyond the limit -/

/-- An instruction that falls short of a requirement is refused or beyond the limit. -/
theorem Instruction.otherwise_ne_other (i : Instruction) :
    ∀ r ∈ i.requirements, r.otherwise ≠ .other := by
  unfold requirements readingRequirements writingRequirements
  split_ifs <;> simp [countRequirement, segmentRequirement, nameRequirement, indexRequirements,
    rangeRequirement]

theorem Fault.toClass_inModule (fault : Fault) (m : String) :
    (fault.inModule m).toClass = fault.toClass := by
  cases fault with
  | refused d =>
    rw [inModule, toClass, toClass, Diagnostic.inModule]
    split <;> rfl
  | _ => rfl

/-- The first instruction of some lines that is not accepted has a number beyond the limit. -/
def StopsAtLimit (lines : List String) : Prop :=
  ∃ above i, FirstRefused lines above i ∧ FirstUnmet i.requirements .beyondLimit

/-- Files are read and accepted, one after the other, up to one with a number beyond the
limit. -/
inductive ReachesLimit (t : FileTree) : List Path → Prop where
  | here {p : Path} {rest : List Path} {text : String} (hread : t.readText p = .ok text)
    (hname : Text.IsWord ['_', ':'] p.stem) (h : StopsAtLimit (Text.lines text)) :
    ReachesLimit t (p :: rest)
  | later {p : Path} {rest : List Path} {text : String} (hread : t.readText p = .ok text)
    (hname : Text.IsWord ['_', ':'] p.stem)
    (haccepted : ∀ i ∈ Instruction.ofLines (Text.lines text), i.Accepted)
    (h : ReachesLimit t rest) : ReachesLimit t (p :: rest)

theorem reachesLimit_cons_iff {t : FileTree} {p : Path} {ps : List Path} :
    ReachesLimit t (p :: ps) ↔ ∃ text, t.readText p = .ok text ∧ Text.IsWord ['_', ':'] p.stem ∧
      (StopsAtLimit (Text.lines text) ∨
        (∀ i ∈ Instruction.ofLines (Text.lines text), i.Accepted) ∧ ReachesLimit t ps) := by
  constructor
  · intro h
    cases h with
    | here hread hname h => exact ⟨_, hread, hname, .inl h⟩
    | later hread hname haccepted h => exact ⟨_, hread, hname, .inr ⟨haccepted, h⟩⟩
  · rintro ⟨text, hread, hname, h | ⟨haccepted, h⟩⟩
    · exact .here hread hname h
    · exact .later hread hname haccepted h

theorem not_reachesLimit_of_unread {t : FileTree} {p : Path} {problem : ReadProblem}
    (hread : t.readText p = .error problem) (ps : List Path) : ¬ ReachesLimit t (p :: ps) := by
  rw [reachesLimit_cons_iff, hread]
  rintro ⟨_, h, -⟩
  cases h

theorem reachesLimit_cons_of_read {t : FileTree} {p : Path} {text : String}
    (hread : t.readText p = .ok text) (ps : List Path) :
    ReachesLimit t (p :: ps) ↔ Text.IsWord ['_', ':'] p.stem ∧
      (StopsAtLimit (Text.lines text) ∨
        (∀ i ∈ Instruction.ofLines (Text.lines text), i.Accepted) ∧ ReachesLimit t ps) := by
  rw [reachesLimit_cons_iff, hread]
  simp

/-- A result under a condition for numbers beyond the limit: if it holds, they are what
fails, and if not, there is a success or a diagnostic. -/
def LimitedBy {α : Type} (condition : Prop) : Except Fault α → Prop
  | .ok _ => ¬ condition
  | .error (.refused _) => ¬ condition
  | .error fault => condition ∧ fault.toClass = .beyondLimit

namespace LimitedBy

variable {α β : Type} {condition : Prop} {x : Except Fault α}

theorem map (f : α → β) (h : LimitedBy condition x) : LimitedBy condition (x.map f) := by
  cases x with
  | ok a => exact h
  | error fault => cases fault <;> exact h

theorem congr {condition' : Prop} (h : LimitedBy condition x) (hiff : condition ↔ condition') :
    LimitedBy condition' x := propext hiff ▸ h

/-- A fault of one of the two classes. -/
theorem error {fault : Fault} (hother : fault.toClass ≠ .other)
    (hiff : fault.toClass = .beyondLimit ↔ condition) :
    LimitedBy condition (.error fault : Except Fault α) := by
  cases fault with
  | refused d =>
    intro hcondition
    cases hiff.mpr hcondition
  | numeralTooLong digits => exact ⟨hiff.mp rfl, rfl⟩
  | numberTooLarge => exact ⟨hiff.mp rfl, rfl⟩
  | _ => exact absurd rfl hother

theorem of_error {fault : Fault} (h : LimitedBy condition (.error fault : Except Fault α))
    (hfault : ∀ d, fault ≠ .refused d) : condition ∧ fault.toClass = .beyondLimit := by
  cases fault with
  | refused d => exact absurd rfl (hfault d)
  | _ => exact h

end LimitedBy

/-! ## Emitting modules and files -/

theorem module_eq_ok_iff {m : String} {lines : List String} {e : Emitter} :
    (∃ u, (Emission.module m lines e).result = .ok u) ↔
      Text.IsWord ['_', ':'] m ∧ ∀ i ∈ Instruction.ofLines lines, i.Accepted := by
  rw [← isModuleName_iff_isWord]
  constructor
  · rintro ⟨u, hu⟩
    have hm : isModuleName m = true := Emission.isModuleName_of_module hu
    refine ⟨hm, ?_⟩
    by_contra hnot
    obtain ⟨above, i, hfirst⟩ := exists_firstRefused hnot
    obtain ⟨fault, -, hmodule⟩ := module_of_firstRefused hm e hfirst
    rw [hmodule] at hu
    cases hu
  · rintro ⟨hm, haccepted⟩
    exact ⟨(), by rw [module_of_accepted hm e haccepted]⟩

/-- The class of the fault of a module is that of the instruction at which it has stopped. -/
theorem firstUnmet_of_module_error {m : String} (hm : isModuleName m = true)
    {lines above : List String} {i : Instruction} (hfirst : FirstRefused lines above i)
    {e : Emitter} {fault : Fault} (h : (Emission.module m lines e).result = .error fault) :
    FirstUnmet i.requirements fault.toClass := by
  obtain ⟨fault', hfault', hmodule⟩ := module_of_firstRefused hm e hfirst
  have hdecides := Emission.decides_instruction m i
    (afterEach m (Instruction.ofLines above) { e with scope := .outer })
  rw [hfault'] at hdecides
  rw [hmodule] at h
  rw [← Except.error.inj h, Fault.toClass_inModule]
  exact hdecides.1

/-- **A module fails without a diagnostic** exactly when it stops at a number beyond the
limit. -/
theorem limitedBy_module (m : String) (lines : List String) (e : Emitter) :
    LimitedBy (Text.IsWord ['_', ':'] m ∧ StopsAtLimit lines)
      (Emission.module m lines e).result := by
  cases hr : (Emission.module m lines e).result with
  | ok u =>
    obtain ⟨-, haccepted⟩ := module_eq_ok_iff.mp ⟨u, hr⟩
    rintro ⟨-, above, i, hfirst, -⟩
    obtain ⟨line, below, rfl, hi⟩ := hfirst.here
    refine hfirst.refused (haccepted i ?_)
    rw [Instruction.ofLines_append, hi]
    simp
  | error fault =>
    by_cases hm : isModuleName m = true
    · have hnot : ¬ ∀ i ∈ Instruction.ofLines lines, i.Accepted := by
        intro haccepted
        rw [module_of_accepted hm e haccepted] at hr
        cases hr
      obtain ⟨above, i, hfirst⟩ := exists_firstRefused hnot
      have hclass := firstUnmet_of_module_error hm hfirst hr
      refine .error ?_ ⟨fun hlimit => ?_, ?_⟩
      · obtain ⟨r, hr, hk⟩ := hclass.exists_mem
        exact hk ▸ i.otherwise_ne_other r hr
      · exact ⟨isModuleName_iff_isWord.mp hm, above, i, hfirst, hlimit ▸ hclass⟩
      · rintro ⟨-, above', i', hfirst', hlimit⟩
        exact (firstUnmet_of_module_error hm hfirst' hr).unique hlimit
    · rw [Emission.module_of_not_name (by simpa using hm)] at hr
      cases hr
      exact fun h => hm (isModuleName_iff_isWord.mpr h.1)

/-- **Files fail without a diagnostic** exactly when they reach the limit. -/
theorem limitedBy_files {t : FileTree} {ps : List Path} (hnul : ∀ p ∈ ps, p.hasNul = false)
    (e : Emitter) : LimitedBy (ReachesLimit t ps) (Emission.files t ps e).result := by
  induction ps generalizing e with
  | nil =>
    intro h
    cases h
  | cons p ps ih =>
    cases hread : t.readText p with
    | error problem =>
      rw [Emission.files_of_error (by rw [Emission.file_of_error hread])]
      cases problem with
      | nul => exact absurd hread (FileTree.readText_ne_nul (hnul p (List.mem_cons_self ..)))
      | file _ | encoding _ => exact not_reachesLimit_of_unread hread ps
    | ok text =>
      have hcons := reachesLimit_cons_of_read hread ps
      have hmodule := limitedBy_module p.stem (Text.lines text) e
      have hfile := Emission.file_of_ok hread e
      rw [FileTree.moduleAt, FileTree.textOf_eq hread, Job.emission] at hfile
      cases hresult : (Emission.module p.stem (Text.lines text) e).result with
      | error fault =>
        -- a module that fails is not accepted, so the files after it do not matter
        have hnot : ¬ (Text.IsWord ['_', ':'] p.stem ∧
            ∀ i ∈ Instruction.ofLines (Text.lines text), i.Accepted) := by
          rw [← module_eq_ok_iff, hresult]
          rintro ⟨_, h⟩
          cases h
        rw [hresult] at hmodule hfile
        rw [Emission.files_of_error (by rw [hfile]; rfl)]
        refine LimitedBy.congr (LimitedBy.map (fun _ => []) hmodule) (hcons.trans ?_).symm
        constructor
        · rintro ⟨hname, hstops | ⟨haccepted, -⟩⟩
          · exact ⟨hname, hstops⟩
          · exact absurd ⟨hname, haccepted⟩ hnot
        · rintro ⟨hname, hstops⟩
          exact ⟨hname, .inl hstops⟩
      | ok u =>
        obtain ⟨hname, haccepted⟩ := module_eq_ok_iff.mp ⟨u, hresult⟩
        rw [hresult] at hmodule hfile
        rw [Emission.files_of_ok (by rw [hfile]; rfl)]
        have hrest := ih (fun q hq => hnul q (List.mem_cons_of_mem _ hq))
          (Emission.file t p e).emitter
        refine (hrest.map _).congr (hcons.trans ?_).symm
        constructor
        · rintro ⟨-, hstops | ⟨-, h⟩⟩
          · exact absurd ⟨hname, hstops⟩ hmodule
          · exact h
        · exact fun h => ⟨hname, .inr ⟨haccepted, h⟩⟩

namespace CommandLine

/-! ## Running the command -/

/-- No source path of an input that exists holds the character with code zero. -/
theorem hasNul_of_mem_sourcePaths {t : FileTree} (ht : t.WellNamed) {r : Request} {node : Node}
    (h : t.status r.inputPath = .ok (some node)) :
    ∀ p ∈ r.sourcePaths t, p.hasNul = false := by
  have hinput : r.inputPath.hasNul = false := (FileTree.status_eq_some h).1
  intro p hp
  unfold Request.sourcePaths at hp
  split at hp
  · rename_i hdirectory
    rw [FileTree.sources_eq_map] at hp
    obtain ⟨name, hname, rfl⟩ := List.mem_map.mp hp
    have hentry := ((FileTree.mem_sourceNames hdirectory).mp hname).1
    rw [FileTree.node?_isSome_iff (by simp)] at hentry
    obtain ⟨entry, hmem, hplace⟩ := hentry
    have hallowed : FileTree.isEntryName name = true :=
      ht.1 entry hmem name (by rw [hplace]; simp)
    simp only [FileTree.isEntryName, Bool.and_eq_true, Bool.not_eq_true'] at hallowed
    rw [Path.hasNul] at hinput ⊢
    rw [Path.child, List.any_append, hinput, List.any_cons, hallowed.2]
    rfl
  · rw [List.mem_singleton.mp hp]
    exact hinput

/-- The emission of a request fails without a diagnostic when its files reach the limit. -/
theorem limitedBy_emission {t : FileTree} (ht : t.WellNamed) {r : Request} {node : Node}
    (h : t.status r.inputPath = .ok (some node)) {result : Except Fault (List String)}
    (hresult : (emission t r .start).result = result) :
    LimitedBy (ReachesLimit t (r.sourcePaths t)) result := by
  have hnul := hasNul_of_mem_sourcePaths ht h
  rw [← hresult, emission_eq h]
  split
  · rw [Emission.bind_ok (show (Emission.bootstrap .start).result = .ok () by
      rw [Emission.bootstrap_apply])]
    exact limitedBy_files hnul _
  · exact limitedBy_files hnul _

theorem not_reachesLimit_of_missing {t : FileTree} {r : Request}
    (h : t.status r.inputPath = .ok none) : ¬ ReachesLimit t (r.sourcePaths t) := by
  have hdirectory : t.isDirectory r.inputPath ≠ true := by
    intro hdirectory
    rw [FileTree.status_of_isDirectory hdirectory] at h
    cases h
  rw [Request.sourcePaths, if_neg hdirectory, reachesLimit_cons_iff]
  rintro ⟨text, hread, -⟩
  obtain ⟨node, hnode⟩ := FileTree.status_of_readText hread
  rw [hnode] at h
  cases h

/-- Whether a listing can be saved does not depend on the listing. -/
theorem save_snd_eq (t : FileTree) (output : Path) (l l' : Listing) :
    (save t output l).2 = (save t output l').2 := by
  have hwrite (t : FileTree) (path content content' : String) :
      (t.write path content).map (fun _ => ()) = (t.write path content').map fun _ => () := by
    simp only [FileTree.write]
    split
    · rfl
    · split
      · rfl
      · split <;> rfl
  unfold save
  split
  · rfl
  · split
    · rfl
    · rename_i t' _
      have hwrite := hwrite t' output.text l.text l'.text
      generalize t'.write output.text l.text = x at hwrite ⊢
      generalize t'.write output.text l'.text = y at hwrite ⊢
      cases x <;> cases y <;> cases hwrite <;> rfl

section Beyond

variable {t : FileTree} {arguments : List String} {r : Request}
  (hr : Request.ofArguments arguments = .ok r)
include hr

/-- A run whose files reach the limit ends with no status. -/
theorem ending_of_reachesLimit (ht : t.WellNamed) {node : Node}
    (h : t.status r.inputPath = .ok (some node)) (hlimit : ReachesLimit t (r.sourcePaths t))
    (status : Nat) : (run t arguments).ending ≠ .finished status := by
  intro hending
  have hcourse := course_run t hr
  rw [hending] at hcourse
  generalize (run t arguments).tree = t' at hcourse
  cases hcourse with
  | missing hmissing =>
    rw [h] at hmissing
    cases hmissing
  | refused _ hresult | empty _ hresult | done _ hresult =>
    exact limitedBy_emission ht h hresult hlimit

/-- A run whose input path is too long ends with no status. -/
theorem ending_of_tooLong (h : t.TooLong r.inputPath) (status : Nat) :
    (run t arguments).ending ≠ .finished status := by
  have hstatus : t.status (Path.ofText r.input) = _ := FileTree.status_eq_error_iff.mpr ⟨h, rfl⟩
  rw [run, hr]
  simp only [Request.carryOut, hstatus]
  intro hending
  cases hending

end Beyond

/-- **A run ends with a status unless a length or a number is beyond the limits.**  Let the
arguments be accepted and the listing be one that can be saved.  Then the run ends with
status 0, 2 or 3 exactly if the input path is not too long and the source files, taken in
order, do not reach a number beyond the limit.  Nothing else in a source file can make the
run fail. -/
theorem run_reports_unless_beyond_limits {t : FileTree} (ht : t.WellNamed)
    {arguments : List String} {r : Request} (hr : Request.ofArguments arguments = .ok r)
    (hsave : ∃ listing, (save t (outputPath t r) listing).2 = .ok ()) :
    ((∃ status ∈ [0, 2, 3], (run t arguments).ending = .finished status) ↔
      ¬ t.TooLong r.inputPath ∧ ¬ ReachesLimit t (r.sourcePaths t)) ∧
    ∀ fault, (run t arguments).ending = .failed fault →
      (t.TooLong r.inputPath ∧ fault = .file ⟨.nameTooLong, r.inputPath.text⟩) ∨
        (ReachesLimit t (r.sourcePaths t) ∧ fault.toClass = .beyondLimit) := by
  have hcourse := course_run t hr
  generalize (run t arguments).ending = ending at hcourse
  generalize (run t arguments).tree = t' at hcourse
  have hshort {found : Option Node} (h : t.status r.inputPath = .ok found) :
      ¬ t.TooLong r.inputPath := by
    intro hlong
    rw [FileTree.status_eq_error_iff.mpr ⟨hlong, rfl⟩] at h
    cases h
  cases hcourse with
  | @unreachable e h =>
    obtain ⟨hlong, rfl⟩ := FileTree.status_eq_error_iff.mp h
    refine ⟨iff_of_false (by simp) fun hnot => hnot.1 hlong, fun fault hfault => ?_⟩
    exact .inl ⟨hlong, (Ending.failed.inj hfault).symm⟩
  | missing h =>
    exact ⟨iff_of_true ⟨2, by simp, rfl⟩ ⟨hshort h, not_reachesLimit_of_missing h⟩, by simp⟩
  | refused h hresult =>
    have hreported := limitedBy_emission ht h hresult
    exact ⟨iff_of_true ⟨3, by simp, rfl⟩ ⟨hshort h, hreported⟩, by simp⟩
  | @escaped node h fault hresult hrefused =>
    obtain ⟨hlimit, hclass⟩ := (limitedBy_emission ht h hresult).of_error hrefused
    refine ⟨iff_of_false (by simp) fun hnot => hnot.2 hlimit, fun fault' hfault => ?_⟩
    exact .inr ⟨hlimit, Ending.failed.inj hfault ▸ hclass⟩
  | empty h hresult =>
    have hreported := limitedBy_emission ht h hresult
    exact ⟨iff_of_true ⟨2, by simp, rfl⟩ ⟨hshort h, hreported⟩, by simp⟩
  | unsaved h hresult hunsaved =>
    obtain ⟨listing, hlisting⟩ := hsave
    rw [save_snd_eq t _ listing, hunsaved] at hlisting
    cases hlisting
  | done h hresult hne hsaved =>
    have hreported := limitedBy_emission ht h hresult
    exact ⟨iff_of_true ⟨0, by simp, rfl⟩ ⟨hshort h, hreported⟩, by simp⟩

/-! ## Inputs beyond the limits -/

theorem ne_of_mem_digits {numeral : String} (h : Text.IsDigits numeral) {c x : Char}
    (hc : c ∈ numeral.toList) (hx : ¬ ('0' ≤ x ∧ x ≤ '9')) : c ≠ x := by
  rintro rfl
  exact hx (h.2 c hc)

/-- The instruction that pushes a constant is read from its line. -/
theorem ofLine?_push_constant {numeral : String} (h : Text.IsDigits numeral) (n : Int) :
    Instruction.ofLine? ("push constant" ++ " " ++ numeral) n =
      some ⟨n, "push", ["constant", numeral]⟩ := by
  have hne : numeral.toList ≠ [] := fun hnil => h.1 (String.toList_eq_nil_iff.mp hnil)
  have hword : Lexeme.wordsOf numeral.toList = [numeral.toList] := by
    refine Lexeme.wordsOf_of_word hne (fun c hc => ?_) fun hc => ?_
    · simp [Lexeme.isSeparator, Lexeme.isBlank, ne_of_mem_digits h hc]
    · exact ne_of_mem_digits h hc (by decide) rfl
  have hopen : Instruction.EndsOpen numeral := by
    intro c hc
    have hc := List.mem_of_getLast? hc
    exact ⟨ne_of_mem_digits h hc (by decide), ne_of_mem_digits h hc (by decide)⟩
  have hwords : Instruction.words ("push constant" ++ " " ++ numeral) =
      ["push", "constant", numeral] := by
    rw [Instruction.words_append_blanks ⟨by decide, by simp⟩,
      Instruction.trimLineEnd_of_endsOpen hopen, hword, if_pos (by decide), List.map_append,
      List.map_singleton, String.ofList_toList]
    rfl
  rw [Instruction.ofLine?, hwords]

/-- A constant with too many digits stops a module at the limit, whatever its value is. -/
theorem stopsAtLimit_push_constant {numeral : String} (h : Text.IsDigits numeral)
    (hlong : 4300 < numeral.length) :
    StopsAtLimit (Text.lines ("push constant" ++ " " ++ numeral)) := by
  have hlines : Text.lines ("push constant" ++ " " ++ numeral) =
      ["push constant" ++ " " ++ numeral] := by
    have hfeed : '\n' ∉ ("push constant" ++ " " ++ numeral).toList := by
      rw [String.toList_append, List.mem_append, not_or]
      exact ⟨by decide, fun hc => ne_of_mem_digits h hc (by decide) rfl⟩
    rw [Text.lines, Text.pieces_of_notMem hfeed, List.map_singleton, String.ofList_toList]
  have hunmet : FirstUnmet (Instruction.requirements ⟨1, "push", ["constant", numeral]⟩)
      .beyondLimit := by
    refine .later rfl (.later (show "constant" ∈ segmentNames by decide) (.later h (.here ?_)))
    exact Nat.not_le.mpr hlong
  refine ⟨[], ⟨1, "push", ["constant", numeral]⟩, ⟨⟨_, [], hlines, ?_⟩, List.forall_mem_nil _, ?_⟩,
    hunmet⟩
  · exact ofLine?_push_constant h 1
  · exact fun haccepted => hunmet.not_all (Instruction.accepted_iff_requirements.mp haccepted)

/-- A tree with one file, `Main.vm`, in the working directory. -/
def mainOnly (text : String) : FileTree where
  entries := [(["Main.vm"], .file (Text.Utf8.encode text))]
  workingDirectory := []
  distinct := by simp

theorem wellNamed_mainOnly (text : String) : (mainOnly text).WellNamed := by
  constructor
  · intro entry hentry name hname
    rw [List.mem_singleton.mp hentry] at hname
    rw [List.mem_singleton.mp hname]
    decide
  · exact List.forall_mem_nil _

/-- Its assembly can be written next to it. -/
theorem save_mainOnly (text : String) :
    ∃ listing, (save (mainOnly text) (outputPath (mainOnly text) ⟨"Main.vm", none, none⟩)
      listing).2 = .ok () := by
  have houtput : outputPath (mainOnly text) ⟨"Main.vm", none, none⟩ = ⟨.relative, ["Main.asm"]⟩ :=
    rfl
  exact ⟨.empty, by rw [houtput]; rfl⟩

theorem save_given (text input : String) :
    (save (mainOnly text) (outputPath (mainOnly text) ⟨input, some "a.asm", none⟩)
      .empty).2 = .ok () := by
  have houtput : outputPath (mainOnly text) ⟨input, some "a.asm", none⟩ =
      ⟨.relative, ["a.asm"]⟩ := rfl
  rw [houtput]
  rfl

theorem find_mainOnly (text : String) :
    (mainOnly text).find (Path.ofText "Main.vm") = .ok (.file (Text.Utf8.encode text)) := rfl

theorem status_mainOnly (text : String) :
    (mainOnly text).status (Path.ofText "Main.vm") =
      .ok (some (.file (Text.Utf8.encode text))) := rfl

theorem ofArguments_main :
    Request.ofArguments ["Main.vm"] = .ok ⟨"Main.vm", none, none⟩ :=
  ofArguments_input (.inl (by decide))

/-- A source file with an index that is no numeral is reported. -/
theorem run_reports_malformed_index :
    (mainOnly "push constant -1").WellNamed ∧
      Request.ofArguments ["Main.vm"] = .ok ⟨"Main.vm", none, none⟩ ∧
      (∃ listing, (save (mainOnly "push constant -1")
        (outputPath (mainOnly "push constant -1") ⟨"Main.vm", none, none⟩) listing).2 = .ok ()) ∧
      (run (mainOnly "push constant -1") ["Main.vm"]).ending = .finished 3 ∧
      ¬ (mainOnly "push constant -1").TooLong (Path.ofText "Main.vm") ∧
      ¬ ReachesLimit (mainOnly "push constant -1") [Path.ofText "Main.vm"] := by
  have hending : (run (mainOnly "push constant -1") ["Main.vm"]).ending = .finished 3 := by
    decide +kernel
  have hlimits := (run_reports_unless_beyond_limits (wellNamed_mainOnly _) ofArguments_main
    (save_mainOnly _)).1.mp ⟨3, by decide, hending⟩
  exact ⟨wellNamed_mainOnly _, ofArguments_main, save_mainOnly _, hending, hlimits⟩

/-- A source file with a constant that has too many digits makes the run fail. -/
theorem run_main_push_constant {numeral : String} (h : Text.IsDigits numeral)
    (hlong : 4300 < numeral.length) (status : Nat) :
    (run (mainOnly ("push constant" ++ " " ++ numeral)) ["Main.vm"]).ending ≠
      .finished status := by
  have hreturn : '\r' ∉ ("push constant" ++ " " ++ numeral).toList := by
    rw [String.toList_append, List.mem_append, not_or]
    exact ⟨by decide, fun hc => ne_of_mem_digits h hc (by decide) rfl⟩
  have hread := FileTree.readText_of_file (show (Path.ofText "Main.vm").hasNul = false from rfl)
    (find_mainOnly ("push constant" ++ " " ++ numeral)) hreturn
  refine ending_of_reachesLimit ofArguments_main (wellNamed_mainOnly _) (status_mainOnly _) ?_
    status
  exact .here hread (isModuleName_iff_isWord.mp (by decide +kernel))
    (stopsAtLimit_push_constant h hlong)

/-- The numeral of a power of ten. -/
def powerOfTen (n : Nat) : String := String.ofList ('1' :: List.replicate n '0')

theorem isDigits_powerOfTen (n : Nat) : Text.IsDigits (powerOfTen n) := by
  have hlist : (powerOfTen n).toList = '1' :: List.replicate n '0' := String.toList_ofList
  refine ⟨fun hempty => ?_, fun c hc => ?_⟩
  · rw [hempty] at hlist
    cases hlist
  · rw [hlist, List.mem_cons] at hc
    rcases hc with rfl | hc
    · exact ⟨by decide, by decide⟩
    · rw [List.eq_of_mem_replicate hc]
      exact ⟨by decide, by decide⟩

theorem length_powerOfTen (n : Nat) : (powerOfTen n).length = n + 1 := by
  rw [powerOfTen, String.length_ofList, List.length_cons, List.length_replicate]

/-- A name of equal letters. -/
def letters (n : Nat) : String := String.ofList (List.replicate n 'a')

theorem eq_of_mem_letters {n : Nat} {c : Char} (h : c ∈ (letters n).toList) : c = 'a' := by
  rw [letters, String.toList_ofList] at h
  exact List.eq_of_mem_replicate h

/-- A name can be too long, whatever the tree holds. -/
theorem tooLong_letters {n : Nat} (hne : letters n ≠ "" ∧ letters n ≠ ".")
    (hlong : FileTree.nameLimit < (letters n).utf8ByteSize) (text : String) :
    (mainOnly text).TooLong (Path.ofText (letters n)) := by
  have hslash : '/' ∉ (letters n).toList := fun h => absurd (eq_of_mem_letters h) (by decide)
  have hnul : Char.ofNat 0 ∉ (letters n).toList :=
    fun h => absurd (eq_of_mem_letters h) (by decide)
  rw [Path.ofText_name ⟨hne.1, hslash⟩ hne.2]
  refine ⟨?_, .inr (.here FileTree.node?_nil hlong)⟩
  rw [Path.hasNul, List.any_cons, List.any_nil, Bool.or_false, List.contains_eq_mem]
  exact decide_eq_false hnul

/-- **Both limits are met**: a run fails on a constant that has too many digits to be read
as a number, and on an input that does not exist, since its name is too long to be looked
up. -/
theorem run_fails_beyond_limits :
    ((mainOnly ("push constant" ++ " " ++ powerOfTen 4300)).WellNamed ∧
      Request.ofArguments ["Main.vm"] = .ok ⟨"Main.vm", none, none⟩ ∧
      (∃ listing, (save (mainOnly ("push constant" ++ " " ++ powerOfTen 4300))
        (outputPath (mainOnly ("push constant" ++ " " ++ powerOfTen 4300))
          ⟨"Main.vm", none, none⟩) listing).2 = .ok ()) ∧
      ∀ status, (run (mainOnly ("push constant" ++ " " ++ powerOfTen 4300)) ["Main.vm"]).ending ≠
        .finished status) ∧
    ((mainOnly "").WellNamed ∧
      Request.ofArguments [letters 256, "-o", "a.asm"] =
        .ok ⟨letters 256, some "a.asm", none⟩ ∧
      (∃ listing, (save (mainOnly "")
        (outputPath (mainOnly "") ⟨letters 256, some "a.asm", none⟩) listing).2 = .ok ()) ∧
      ∀ status, (run (mainOnly "") [letters 256, "-o", "a.asm"]).ending ≠ .finished status) := by
  have hrequest : Request.ofArguments [letters 256, "-o", "a.asm"] =
      .ok ⟨letters 256, some "a.asm", none⟩ :=
    ofArguments_input_output (.inl (by decide +kernel)) (.inl (by decide))
  refine ⟨⟨wellNamed_mainOnly _, ofArguments_main, save_mainOnly _, ?_⟩, wellNamed_mainOnly _,
    hrequest, ⟨.empty, save_given "" _⟩, fun status => ?_⟩
  · refine run_main_push_constant (isDigits_powerOfTen 4300) ?_
    rw [length_powerOfTen]
    exact Nat.lt_succ_self 4300
  · have hlong : (mainOnly "").TooLong (Path.ofText (letters 256)) :=
      @tooLong_letters 256 (by decide +kernel) (by decide +kernel) ""
    exact ending_of_tooLong hrequest hlong status

end CommandLine
end HackVM
