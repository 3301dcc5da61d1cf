import HackVM.Proofs.WriterStore
import Mathlib.Data.List.GetD
import Mathlib.Data.List.OfFn

/-! # Writers that share a listing do not interfere

Any number of writers are made for one listing and take turns at it, in any order.  A turn
may read and change the whole store; a **report** says what came of it: its result, the
lines that the listing has gained, and the scope and the counters that the writer has
afterwards.

Each turn leaves everything alone but its writer's objects and the end of the listing, so
the other writers go on from where they were, and what a turn reports depends on its own
writer alone.  By induction over the turns, each writer has the reports that it would have
with a listing of its own (`writers_independent`).  The emitters of a workbench are such
writers (`bench_after`). -/
namespace HackVM

open Asm

/-- One turn: which of `n` writers works, and at what. -/
structure Turn (n : Nat) where
  position : Fin n
  task : Task

/-- The tasks of one writer, in the order of its turns. -/
def tasksOf {n : Nat} (p : Fin n) (turns : List (Turn n)) : List Task :=
  turns.filterMap fun turn => if turn.position = p then some turn.task else none

/-- What came of a task. -/
structure TurnReport where
  result : Except Fault Answer
  /-- The lines that the listing has gained. -/
  gained : List String
  /-- The scope and the counters of the writer afterwards. -/
  emitter : Emitter

/-- An outcome as a report. -/
def TurnReport.ofOutcome (o : Outcome Answer) : TurnReport := ⟨o.result, o.code.map Line.text, o.emitter⟩

/-- The reports of one writer, among reports that are kept with their writers. -/
def reportsOf {n : Nat} (p : Fin n) (reports : List (Fin n × TurnReport)) : List TurnReport :=
  reports.filterMap fun entry => if entry.1 = p then some entry.2 else none

/-! ## One task on a store -/

namespace Store

/-- The store after a writer's task. -/
def perform (t : FileTree) (w : Writer) (task : Task) (s : Store) : Store :=
  Action.after (w.perform t task) s

/-- The report of a writer's task. -/
def report (t : FileTree) (w : Writer) (task : Task) (s : Store) : TurnReport where
  result := Action.result (w.perform t task) s
  gained := ((s.perform t w task).lines w.listing).drop (s.lines w.listing).length
  emitter := w.emitter (s.perform t w task)

variable {w : Writer} {s : Store}

theorem perform_eq (h : w.Within s) (t : FileTree) (task : Task) :
    s.perform t w task = w.settle s (task.emission t (w.emitter s)) :=
  (w.confined_perform t task).after h

/-- A task leaves everything alone but its writer's objects and the end of its listing. -/
theorem frame_perform (h : w.Within s) (t : FileTree) (task : Task) :
    w.Frame s (s.perform t w task) ((task.emission t (w.emitter s)).code.map Line.text) :=
  (w.confined_perform t task).frame h

/-- **What a task reports depends on its own writer alone**: not on what its listing holds,
and not on any other object. -/
theorem report_eq (h : w.Within s) (t : FileTree) (task : Task) :
    s.report t w task = .ofOutcome (task.emission t (w.emitter s)) := by
  have hresult := (w.confined_perform t task).result h
  have hgained : (s.report t w task).gained =
      (task.emission t (w.emitter s)).code.map Line.text := by
    show ((s.perform t w task).lines w.listing).drop _ = _
    rw [(frame_perform h t task).gained, List.drop_left]
  have hemitter : w.emitter (s.perform t w task) = (task.emission t (w.emitter s)).emitter := by
    rw [perform_eq h, Writer.emitter_settle h]
  rw [TurnReport.ofOutcome, ← hresult, ← hgained, ← hemitter]
  rfl

/-- What a task adds to a listing stands after what was there. -/
theorem lines_perform (h : w.Within s) (t : FileTree) (task : Task) :
    (s.perform t w task).lines w.listing = s.lines w.listing ++ (s.report t w task).gained := by
  rw [report_eq h]
  exact (frame_perform h t task).gained

end Store

/-! ## Writers for one listing -/

/-- A store, and writers in it who have a listing in common but no scope and no counter. -/
structure Sharing (n : Nat) where
  store : Store
  writers : Vector Writer n
  within : ∀ p : Fin n, writers[p].Within store
  listing : ∀ p : Fin n, writers[p].listing = 0
  apart : ∀ p q : Fin n, p ≠ q → writers[p].Apart writers[q]

namespace Sharing

variable {n : Nat}

/-- A listing with its first lines, and writers that are made for it one after the other. -/
def attached (prologue : List String) : (n : Nat) → Vector Writer n × Store
  | 0 => (#v[], ⟨[⟨prologue⟩], [], []⟩)
  | n + 1 =>
    ((attached prologue n).1.push ((attached prologue n).2.attach 0).1,
      ((attached prologue n).2.attach 0).2)

theorem store_attached (prologue : List String) (n : Nat) :
    (attached prologue n).2 =
      ⟨[⟨prologue⟩], List.replicate n .outer, List.replicate (2 * n) 0⟩ := by
  induction n with
  | zero => rfl
  | succ n ih =>
    rw [attached, ih, Store.attach, Nat.mul_succ, List.replicate_succ',
      ← List.replicate_append_replicate]
    rfl

theorem writer_attached (prologue : List String) {n p : Nat} (hp : p < n) :
    (attached prologue n).1[p] = ⟨0, p, 2 * p, 2 * p + 1⟩ := by
  induction n with
  | zero => cases hp
  | succ n ih =>
    simp only [attached, Vector.getElem_push]
    split
    next h => exact ih h
    next h =>
      have hlast : p = n := Nat.le_antisymm (Nat.le_of_lt_succ hp) (Nat.le_of_not_lt h)
      rw [store_attached, hlast]
      simp [Store.attach]

theorem within_attached (prologue : List String) (p : Fin n) :
    (attached prologue n).1[p].Within (attached prologue n).2 := by
  have hp := p.isLt
  rw [store_attached, Fin.getElem_fin, writer_attached prologue hp]
  constructor
  case listing => exact Nat.one_pos
  case scope =>
    rw [List.length_replicate]
    exact hp
  case compares =>
    show 2 * p.val < _
    rw [List.length_replicate]
    omega
  case calls =>
    show 2 * p.val + 1 < _
    rw [List.length_replicate]
    omega
  case distinct => exact Nat.ne_of_lt (Nat.lt_succ_self _)

theorem apart_attached (prologue : List String) {p q : Fin n} (h : p ≠ q) :
    (attached prologue n).1[p].Apart (attached prologue n).1[q] := by
  have hne : p.val ≠ q.val := fun hval => h (Fin.ext hval)
  rw [Fin.getElem_fin, Fin.getElem_fin, writer_attached prologue p.isLt,
    writer_attached prologue q.isLt]
  constructor
  case scope => exact hne.symm
  case compares =>
    show 2 * q.val ≠ 2 * p.val ∧ 2 * q.val ≠ 2 * p.val + 1
    omega
  case calls =>
    show 2 * q.val + 1 ≠ 2 * p.val ∧ 2 * q.val + 1 ≠ 2 * p.val + 1
    omega

/-- Fresh writers for a listing with its first lines. -/
def new (prologue : List String) (n : Nat) : Sharing n where
  store := (attached prologue n).2
  writers := (attached prologue n).1
  within := within_attached prologue
  listing := by
    intro p
    rw [Fin.getElem_fin, writer_attached prologue p.isLt]
  apart := fun _ _ => apart_attached prologue

/-- The lines of the listing. -/
def lines (b : Sharing n) : List String := b.store.lines 0

/-- The scope and the counters of a writer. -/
def emitter (b : Sharing n) (p : Fin n) : Emitter := b.writers[p].emitter b.store

/-- One writer does a task. -/
def perform (t : FileTree) (b : Sharing n) (p : Fin n) (task : Task) : Sharing n where
  store := b.store.perform t b.writers[p] task
  writers := b.writers
  within := by
    intro q
    rw [Store.perform_eq (b.within p)]
    exact (b.within q).settle b.writers[p] _
  listing := b.listing
  apart := b.apart

/-- The report of a task. -/
def report (t : FileTree) (b : Sharing n) (p : Fin n) (task : Task) : TurnReport :=
  b.store.report t b.writers[p] task

/-- The writers and their store after turns. -/
def after (t : FileTree) : List (Turn n) → Sharing n → Sharing n
  | [], b => b
  | turn :: rest, b => after t rest (b.perform t turn.position turn.task)

/-- The report of each turn, with its writer. -/
def reports (t : FileTree) : List (Turn n) → Sharing n → List (Fin n × TurnReport)
  | [], _ => []
  | turn :: rest, b =>
    (turn.position, b.report t turn.position turn.task) ::
      reports t rest (b.perform t turn.position turn.task)

theorem lines_new (prologue : List String) (n : Nat) : (new prologue n).lines = prologue := by
  show (attached prologue n).2.lines 0 = prologue
  rw [store_attached]
  rfl

theorem emitter_new (prologue : List String) (p : Fin n) :
    (new prologue n).emitter p = .start := by
  show (attached prologue n).1[p].emitter (attached prologue n).2 = .start
  rw [store_attached, Fin.getElem_fin, writer_attached prologue p.isLt]
  simp only [Writer.emitter, List.getD_eq_getElem?_getD, List.getElem?_getD_replicate_default_eq]
  rfl

/-! ## One turn -/

theorem report_eq (t : FileTree) (b : Sharing n) (p : Fin n) (task : Task) :
    b.report t p task = .ofOutcome (task.emission t (b.emitter p)) :=
  Store.report_eq (b.within p) t task

/-- The listing grows at its end by what the turn reports. -/
theorem lines_perform (t : FileTree) (b : Sharing n) (p : Fin n) (task : Task) :
    (b.perform t p task).lines = b.lines ++ (b.report t p task).gained := by
  have h := Store.lines_perform (b.within p) t task
  rw [b.listing p] at h
  exact h

/-- The writer whose turn it is has the scope and the counters that it reports. -/
theorem emitter_perform_self (t : FileTree) (b : Sharing n) (p : Fin n) (task : Task) :
    (b.perform t p task).emitter p = (b.report t p task).emitter := rfl

/-- The other writers keep theirs. -/
theorem emitter_perform_of_ne (t : FileTree) (b : Sharing n) {p q : Fin n} (h : p ≠ q)
    (task : Task) : (b.perform t p task).emitter q = b.emitter q :=
  (Store.frame_perform (b.within p) t task).emitter_of_apart (b.apart p q h)

/-! ## Any number of turns -/

theorem after_append (t : FileTree) (earlier later : List (Turn n)) (b : Sharing n) :
    after t (earlier ++ later) b = after t later (after t earlier b) := by
  induction earlier generalizing b with
  | nil => rfl
  | cons turn earlier ih => exact ih _

/-- The listing grows by what each turn reports. -/
theorem lines_after (t : FileTree) (turns : List (Turn n)) (b : Sharing n) :
    (after t turns b).lines =
      b.lines ++ (reports t turns b).flatMap fun entry => entry.2.gained := by
  induction turns generalizing b with
  | nil => simp [after, reports]
  | cons turn turns ih =>
    rw [after, ih, lines_perform, reports, List.flatMap_cons, List.append_assoc]

/-- **A writer that shares its listing does what it does alone.**  Let a writer among others
and the single writer of another store have the same scope and counters.  Whatever turns are
taken, the writer has the reports that its own tasks have in the other store, and in the end
both have the same scope and counters. -/
theorem reportsOf_eq_alone (t : FileTree) {p : Fin n} {turns : List (Turn n)} {b : Sharing n}
    {alone : Sharing 1} (hsame : b.emitter p = alone.emitter 0) :
    reportsOf p (reports t turns b) =
        (reports t ((tasksOf p turns).map (Turn.mk 0)) alone).map Prod.snd ∧
      (after t turns b).emitter p =
        (after t ((tasksOf p turns).map (Turn.mk 0)) alone).emitter 0 := by
  -- induction on the turns; that the two have the same scope and counters is kept by each
  induction turns generalizing b alone with
  | nil => exact ⟨rfl, hsame⟩
  | cons turn turns ih =>
    by_cases hp : turn.position = p
    · subst hp
      have hreport : b.report t turn.position turn.task = alone.report t 0 turn.task := by
        rw [report_eq, report_eq, hsame]
      have hmine : (b.perform t turn.position turn.task).emitter turn.position =
          (alone.perform t 0 turn.task).emitter 0 := by
        rw [emitter_perform_self, emitter_perform_self, hreport]
      obtain ⟨hreports, hemitter⟩ := ih hmine
      simp only [tasksOf, reportsOf] at hreports hemitter ⊢
      simp only [reports, after, List.filterMap_cons, if_true, List.map_cons]
      exact ⟨List.cons_eq_cons.mpr ⟨hreport, hreports⟩, hemitter⟩
    · have hother : (b.perform t turn.position turn.task).emitter p = alone.emitter 0 := by
        rw [emitter_perform_of_ne t b hp, hsame]
      have hrest := ih hother
      simp only [tasksOf, reportsOf] at hrest ⊢
      simpa only [reports, after, List.filterMap_cons, if_neg hp] using hrest

end Sharing

/-! ## Writers and the emitters of a workbench -/

namespace Workbench

variable {n : Nat}

/-- The workbench after turns, whether their tasks succeed or fail. -/
def after (t : FileTree) : List (Turn n) → Workbench → Workbench
  | [], b => b
  | turn :: rest, b => after t rest (b.perform t turn.position turn.task).1

/-- The outcome of each turn, with its emitter. -/
def outcomes (t : FileTree) : List (Turn n) → Workbench → List (Fin n × Outcome Answer)
  | [], _ => []
  | turn :: rest, b =>
    (turn.position, (b.perform t turn.position turn.task).2) ::
      outcomes t rest (b.perform t turn.position turn.task).1

end Workbench

namespace Sharing

variable {n : Nat}

/-- The listing, with the scopes and counters of the writers as emitters. -/
def bench (b : Sharing n) : Workbench := ⟨⟨b.lines⟩, List.ofFn b.emitter⟩

theorem bench_new (prologue : List String) (n : Nat) :
    (new prologue n).bench = .new n prologue := by
  have hfresh : (new prologue n).emitter = fun _ => .start := by
    funext p
    exact emitter_new prologue p
  rw [bench, lines_new, hfresh, List.ofFn_const]
  rfl

theorem emitter_bench (b : Sharing n) (p : Fin n) : b.bench.emitter p = b.emitter p := by
  simp [bench, Workbench.emitter, List.getD_eq_getElem?_getD]

/-- A task of a writer is the task of the emitter on the workbench. -/
theorem bench_perform (t : FileTree) (b : Sharing n) (p : Fin n) (task : Task) :
    (b.perform t p task).bench = (b.bench.perform t p task).1 := by
  have hlines : (b.perform t p task).lines =
      b.lines ++ (task.emission t (b.emitter p)).code.map Line.text := by
    rw [lines_perform, report_eq]
    rfl
  have hemitters : List.ofFn (b.perform t p task).emitter =
      (List.ofFn b.emitter).set p (task.emission t (b.emitter p)).emitter := by
    refine List.ext_getElem (by simp) ?_
    intro q hq _
    rw [List.getElem_ofFn, List.getElem_set, List.getElem_ofFn]
    split
    next h =>
      have hself : (⟨q, by simpa using hq⟩ : Fin n) = p := Fin.ext h.symm
      rw [hself, emitter_perform_self, report_eq]
      rfl
    next h => exact emitter_perform_of_ne t b (fun heq => h (congrArg Fin.val heq)) task
  show (⟨⟨_⟩, _⟩ : Workbench) = ⟨⟨_⟩, b.bench.emitters.set p _⟩
  rw [emitter_bench, hlines, hemitters]
  rfl

theorem bench_after (t : FileTree) (turns : List (Turn n)) (b : Sharing n) :
    (b.after t turns).bench = b.bench.after t turns := by
  induction turns generalizing b with
  | nil => rfl
  | cons turn turns ih => rw [after, ih, bench_perform, Workbench.after]

/-- A turn reports the outcome that it has on the workbench. -/
theorem reports_eq_outcomes (t : FileTree) (turns : List (Turn n)) (b : Sharing n) :
    b.reports t turns =
      (b.bench.outcomes t turns).map fun entry => (entry.1, .ofOutcome entry.2) := by
  induction turns generalizing b with
  | nil => rfl
  | cons turn turns ih =>
    rw [reports, ih, bench_perform, report_eq, ← emitter_bench]
    rfl

end Sharing

/-- **Writers that share a listing do not interfere.**  Take any number of fresh writers for
one listing, any first lines of it, and any sequence of turns, each of which may succeed or
fail.  The listing is its first lines followed by what the turns have added, in order, and
what stood in it after any number of turns still begins it later on.  For each writer, the
results of its tasks, the lines that each adds and the scope and counters that each leaves
are those of the same tasks done alone on an empty listing, and so are its scope and counters
in the end.  The workbench with as many emitters has the same listing, the same emitters and
the same outcomes. -/
theorem writers_independent (t : FileTree) {n : Nat} (prologue : List String)
    (turns : List (Turn n)) :
    ((Sharing.new prologue n).after t turns).lines =
        prologue ++
          ((Sharing.new prologue n).reports t turns).flatMap (fun entry => entry.2.gained) ∧
      (∀ k, ((Sharing.new prologue n).after t (turns.take k)).lines <+:
        ((Sharing.new prologue n).after t turns).lines) ∧
      (∀ p : Fin n,
        reportsOf p ((Sharing.new prologue n).reports t turns) =
            ((Sharing.new [] 1).reports t ((tasksOf p turns).map (Turn.mk 0))).map Prod.snd ∧
          ((Sharing.new prologue n).after t turns).emitter p =
            ((Sharing.new [] 1).after t ((tasksOf p turns).map (Turn.mk 0))).emitter 0) ∧
      ((Sharing.new prologue n).after t turns).bench = (Workbench.new n prologue).after t turns ∧
      (Sharing.new prologue n).reports t turns =
        ((Workbench.new n prologue).outcomes t turns).map
          fun entry => (entry.1, .ofOutcome entry.2) := by
  refine ⟨?_, fun k => ?_, fun p => ?_, ?_, ?_⟩
  · rw [Sharing.lines_after, Sharing.lines_new]
  · have hturns : (Sharing.new prologue n).after t turns =
        ((Sharing.new prologue n).after t (turns.take k)).after t (turns.drop k) := by
      rw [← Sharing.after_append, List.take_append_drop]
    rw [hturns, Sharing.lines_after t (turns.drop k)]
    exact List.prefix_append ..
  · refine Sharing.reportsOf_eq_alone t ?_
    rw [Sharing.emitter_new, Sharing.emitter_new]
  · rw [Sharing.bench_after, Sharing.bench_new]
  · rw [Sharing.reports_eq_outcomes, Sharing.bench_new]

end HackVM
