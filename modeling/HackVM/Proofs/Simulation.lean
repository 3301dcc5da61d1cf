import HackVM.Proofs.SourceMachine

/-! # The code of a session simulates its source

The machine that runs the program of a session goes, block by block, the way that the
stack machine goes instruction by instruction, as long as no instruction relies on a
scratch cell (`Source.Clear`).  A state of the machine **matches** one of the stack machine
when it is at the first instruction of the current block and the memories agree outside
the scratch cells.  Steps keep this (`matches_step`), and so do runs; they are shown for the
commands of the blocks, and carried over to the instructions of the source. -/
namespace HackVM

open Asm Hack

section Agreement

variable {m m' : Memory} (hagree : Memory.Agree m m')
include hagree

theorem agree_register (b : BaseSegment) : m b.register.cell = m' b.register.cell := by
  cases b <;> exact hagree _ (by decide)

theorem cell?_of_agree (link : Stack.Linkage) (module : String) (segment : Segment) (index : Nat) :
    Stack.cell? link module m segment index = Stack.cell? link module m' segment index := by
  cases segment with
  | base b => simp only [Stack.cell?, agree_register hagree]
  | _ => rfl

theorem read_of_agree {link : Stack.Linkage} {module : String} {segment : Segment} {index : Nat}
    (hcell : ∀ a ∈ Stack.cell? link module m' segment index, a ∉ Stack.scratch) :
    Stack.read link module m segment index = Stack.read link module m' segment index := by
  unfold Stack.read
  rw [cell?_of_agree hagree]
  cases hc : Stack.cell? link module m' segment index with
  | none => rfl
  | some a => exact hagree a (hcell a hc)

theorem relied_of_agree (c : Command) : Stack.relied m c = Stack.relied m' c := by
  cases c with
  | push segment index =>
    cases segment with
    | base b => simp only [Stack.relied, agree_register hagree]
    | _ => rfl
  | operate op => cases op <;> simp only [Stack.relied, hagree.sp]
  | pop segment index | ifGoto name => simp only [Stack.relied, hagree.sp]
  | ret => simp only [Stack.relied, hagree.sp, hagree.arg, hagree.lcl]
  | _ => rfl

theorem clear_of_agree {b : Block} (hclear : Stack.Clear m' b) : Stack.Clear m b := by
  cases b with
  | start e => trivial
  | command module e c =>
    have hcompared : Stack.compared m c = Stack.compared m' c := by
      cases c with
      | operate op => cases op <;> simp only [Stack.compared, hagree.sp]
      | _ => rfl
    simp only [Stack.Clear, relied_of_agree hagree, hcompared]
    exact hclear

end Agreement

section Session

variable {jobs : List Job} (h : Loadable jobs)
include h

theorem static_notMem_scratch {b : Block} (hb : b ∈ blocks jobs) {m : String} {index : Nat}
    (hs : Symbol.static m index ∈ b.statics) : (linkage jobs).static m index ∉ Stack.scratch := by
  have hreferred := mem_referred_of_mem_statics hb hs
  obtain ⟨hlow, hhigh⟩ := staticCell_bounds h hreferred
  have hcell : ((linkage jobs).static m index).toNat = staticCell jobs m index := by
    rw [← static_linkage, symbolValue_static h hreferred]
    exact State.toNat_ofNat_of_lt hhigh
  intro hmem
  have hlt : ((linkage jobs).static m index).toNat < firstVariable := by
    rcases List.mem_cons.mp hmem with heq | hmem
    · rw [heq]; decide
    · rw [List.mem_singleton.mp hmem]; decide
  omega

/-- The cell that a push reads is no scratch cell. -/
theorem notMem_scratch_of_cell? {module : String} {e : Emitter} {segment : Segment} {index : Nat}
    (hb : Block.command module e (.push segment index) ∈ blocks jobs) {m : Memory}
    (hclear : Stack.Clear m (.command module e (.push segment index))) :
    ∀ a ∈ Stack.cell? (linkage jobs) module m segment index, a ∉ Stack.scratch := by
  intro a ha
  obtain ⟨-, -, hvalid, -⟩ := sound_of_mem_blocks jobs _ hb
  cases segment with
  | constant => cases ha
  | base b =>
    cases ha
    exact hclear.1 _ (List.mem_singleton_self _)
  | pointer =>
    cases ha
    have hindex : index < 2 := by
      simp only [Command.Valid, Segment.indexProblem?] at hvalid
      split at hvalid
      · assumption
      · cases hvalid
    have hcells : ∀ i < 2, BitVec.ofNat 16 (3 + i) ∉ Stack.scratch := by decide
    exact hcells index hindex
  | temp =>
    cases ha
    have hindex : index < Segment.tempSize := by
      simp only [Command.Valid, Segment.indexProblem?] at hvalid
      split at hvalid
      · assumption
      · cases hvalid
    have hcells : ∀ i < Segment.tempSize, BitVec.ofNat 16 (5 + i) ∉ Stack.scratch := by decide
    exact hcells index hindex
  | static =>
    cases ha
    exact static_notMem_scratch h hb (List.mem_singleton_self _)

/-- **Scratch cells do not matter to a command that does not rely on them.** -/
theorem act?_of_agree {p : Nat} {b : Block} (hb : b ∈ blocks jobs) {m m' : Memory}
    (hagree : Memory.Agree m m') (hclear : Stack.Clear m' b) {v : Stack.State}
    (hact : Stack.act? (blocks jobs) (linkage jobs) p m' b = some v) :
    ∃ k, Stack.act? (blocks jobs) (linkage jobs) p m b = some ⟨v.position, k⟩ ∧
      Memory.Agree k v.memory := by
  cases b with
  | start e =>
    obtain ⟨q, hq, rfl⟩ := Option.map_eq_some_iff.mp hact
    exact ⟨_, Option.map_eq_some_iff.mpr ⟨q, hq, rfl⟩, (hagree.set _ rfl).enter _ _⟩
  | command module e c =>
    cases c with
    | push segment index =>
      cases hact
      refine ⟨_, rfl, hagree.push ?_⟩
      exact read_of_agree hagree (notMem_scratch_of_cell? h hb hclear)
    | pop segment index =>
      obtain ⟨a, ha, rfl⟩ := Option.map_eq_some_iff.mp hact
      rw [← cell?_of_agree hagree] at ha
      refine ⟨_, Option.map_eq_some_iff.mpr ⟨a, ha, rfl⟩, hagree.drop.set _ ?_⟩
      exact hagree.popped (hclear.1 _ (List.mem_singleton_self _))
    | operate op =>
      cases hact
      refine ⟨_, rfl, ?_⟩
      cases op with
      | binary op => exact hagree.combine _ hclear.1
      | unary op => exact hagree.replace (hclear.1 _ (List.mem_singleton_self _)) rfl
      | compare comparison => exact hagree.combine _ hclear.1
    | label name =>
      cases hact
      exact ⟨_, rfl, hagree⟩
    | goto name =>
      obtain ⟨q, hq, rfl⟩ := Option.map_eq_some_iff.mp hact
      exact ⟨_, Option.map_eq_some_iff.mpr ⟨q, hq, rfl⟩, hagree⟩
    | ifGoto name =>
      have hpopped := hagree.popped (hclear.1 _ (List.mem_singleton_self _))
      simp only [Stack.act?, hpopped] at hact ⊢
      split at hact
      · cases hact
        exact ⟨_, by rw [if_pos ‹_›], hagree.drop⟩
      · obtain ⟨q, hq, rfl⟩ := Option.map_eq_some_iff.mp hact
        rw [if_neg ‹_›]
        exact ⟨_, Option.map_eq_some_iff.mpr ⟨q, hq, rfl⟩, hagree.drop⟩
    | function name locals =>
      cases hact
      exact ⟨_, rfl, hagree.pushZeros _⟩
    | call name arguments =>
      obtain ⟨q, hq, rfl⟩ := Option.map_eq_some_iff.mp hact
      exact ⟨_, Option.map_eq_some_iff.mpr ⟨q, hq, rfl⟩, hagree.enter _ _⟩
    | ret =>
      obtain ⟨q, hq, rfl⟩ := Option.map_eq_some_iff.mp hact
      have htop := hclear.1 _ (List.mem_cons_self ..)
      have hcells : ∀ a ∈ Stack.cellsBelow _ 5, a ∉ Stack.scratch := fun a ha =>
        hclear.1 a (List.mem_cons_of_mem _ (List.mem_cons_of_mem _ ha))
      -- the return address lies in the frame, and so outside the scratch cells
      rw [← hagree.returnAddress hcells] at hq
      exact ⟨_, Option.map_eq_some_iff.mpr ⟨q, hq, rfl⟩, hagree.leave htop hcells⟩

end Session

/-! ## Runs -/

/-- The machine is at the block of the current command, and its memory agrees with that
of the stack machine outside the scratch cells. -/
structure Matches (jobs : List Job) (v : Stack.State) (s : State) : Prop where
  pc : s.pc = address jobs v.position
  memory : Memory.Agree s.memory v.memory

section Session

variable {jobs : List Job} (h : Loadable jobs)
include h

/-- **A step of the stack machine is a pass through a block.** -/
theorem matches_step {v v' : Stack.State} {s : State} (hmatches : Matches jobs v s) {b : Block}
    (hb : (blocks jobs)[v.position]? = some b) (hclear : Stack.Clear v.memory b)
    (hact : Stack.act? (blocks jobs) (linkage jobs) v.position v.memory b = some v') :
    ∃ t, State.Passes (assemble (program jobs)) (address jobs v.position)
      (address jobs (v.position + 1)) s t ∧ Matches jobs v' t := by
  obtain ⟨m, hact', hm⟩ := act?_of_agree h (List.mem_of_getElem? hb) hmatches.memory hclear hact
  obtain ⟨t, hpasses, hpc, ht⟩ :=
    passes_step h hb hmatches.pc (clear_of_agree hmatches.memory hclear) hact'
  exact ⟨t, hpasses, hpc, ht.trans hm⟩

/-- **A run of the stack machine is a run of the machine.** -/
theorem matches_run {n : Nat} {v v' : Stack.State} {s : State} (hmatches : Matches jobs v s)
    (hrun : Stack.run? (blocks jobs) (linkage jobs) n v = some v') :
    ∃ k, Matches jobs v' (s.run (assemble (program jobs)) k) := by
  -- each command takes a number of steps of its own, and these add up
  induction n generalizing v s with
  | zero =>
    cases hrun
    exact ⟨0, hmatches⟩
  | succ n ih =>
    rw [Stack.run?] at hrun
    cases hb : (blocks jobs)[v.position]? with
    | none => rw [hb] at hrun; cases hrun
    | some b =>
      simp only [hb] at hrun
      split at hrun
      · obtain ⟨w, hact, hrest⟩ := Option.bind_eq_some_iff.mp hrun
        obtain ⟨t, hpasses, ht⟩ := matches_step h hmatches hb ‹_› hact
        obtain ⟨j, hj⟩ := hpasses.exists_run
        obtain ⟨k, hk⟩ := ih ht hrest
        exact ⟨j + k, by rw [State.run_add, hj]; exact hk⟩
      · cases hrun

/-- The stack machine is stuck only at the end and at a return with no place to
return to. -/
theorem cases_of_act?_eq_none {p : Nat} {m : Memory} {b : Block} (hb : b ∈ blocks jobs)
    (hact : Stack.act? (blocks jobs) (linkage jobs) p m b = none) :
    (∃ module e, b = .command module e .ret) ∧
      ∀ q ≤ (blocks jobs).length, (linkage jobs).address q ≠ m.returnAddress := by
  have hplace : ∀ x ∈ b.targets, Stack.place? (blocks jobs) x ≠ none := by
    intro x hx
    obtain ⟨q, hq⟩ := exists_place h hb hx
    rw [hq]
    exact nofun
  have hsound := sound_of_mem_blocks jobs b hb
  cases b with
  | start e => exact absurd (Option.map_eq_none_iff.mp hact) (hplace _ (List.mem_singleton_self _))
  | command module e c =>
    cases c with
    | pop segment index =>
      obtain ⟨-, -, hvalid, -⟩ := hsound
      cases segment with
      | constant => cases hvalid
      | _ => cases hact
    | call name arguments =>
      exact absurd (Option.map_eq_none_iff.mp hact) (hplace _ (List.mem_singleton_self _))
    | goto name =>
      have htarget := hplace _ (List.mem_singleton_self (e.scope.label name module))
      rw [Scope.label_eq hsound.2.1] at htarget
      exact absurd (Option.map_eq_none_iff.mp hact) htarget
    | ifGoto name =>
      have htarget := hplace _ (List.mem_singleton_self (e.scope.label name module))
      rw [Scope.label_eq hsound.2.1] at htarget
      simp only [Stack.act?] at hact
      split at hact
      · cases hact
      · exact absurd (Option.map_eq_none_iff.mp hact) htarget
    | ret =>
      refine ⟨⟨module, e, rfl⟩, fun q hq heq => ?_⟩
      have hnone := List.find?_eq_none.mp (Option.map_eq_none_iff.mp hact) q
        (List.mem_range.mpr (Nat.lt_succ_of_le hq))
      exact hnone (decide_eq_true heq)
    | _ => cases hact

omit h in
/-- At the end of the program the machine stops. -/
theorem run_of_end {s : State} (hpc : s.pc = address jobs (blocks jobs).length) (k : Nat) :
    s.run (assemble (program jobs)) k = s := by
  have hend : (assemble (program jobs)).length ≤ s.pc :=
    Nat.le_of_eq ((hpc.trans (address_length jobs)).symm)
  refine State.run_of_step?_eq_none ?_ k
  rw [State.step?, List.getElem?_eq_none hend]
  rfl

end Session

/-- **The program of a session simulates its source.**  For any session that succeeds and
whose program can be loaded: the machine starts where the stack machine starts; a name that
an instruction declares stands for the place of that instruction; from matching states, a
step of the stack machine that is clear is matched by one pass of the machine through the
code of the instruction, and a clear run by a run; the stack machine stops only at the end,
or at a return whose address stands for no place; and at the end the machine stops as
well. -/
theorem program_simulates_instructions (jobs : List Job)
    (hok : succeeds jobs Emitter.start = true) (h : Loadable jobs) :
    (∀ a d m, Matches jobs ⟨0, m⟩ ⟨a, d, m, 0⟩) ∧
    (∀ p item name, (Source.items jobs)[p]? = some item → item.declared? = some name →
      symbolValue (program jobs) name = address jobs p) ∧
    (∀ v v' s, Matches jobs v s →
      (∀ item ∈ (Source.items jobs)[v.position]?, Source.Clear v.memory item) →
      Source.step? (Source.items jobs) (linkage jobs) v = some v' →
      ∃ t, State.Passes (assemble (program jobs)) (address jobs v.position)
        (address jobs (v.position + 1)) s t ∧ Matches jobs v' t) ∧
    (∀ n v v' s, Matches jobs v s →
      Source.run? (Source.items jobs) (linkage jobs) n v = some v' →
      ∃ k, Matches jobs v' (s.run (assemble (program jobs)) k)) ∧
    (∀ v, Source.step? (Source.items jobs) (linkage jobs) v = none →
      (Source.items jobs).length ≤ v.position ∨
        (∃ module before line, (Source.items jobs)[v.position]? =
          some (.instruction module before ⟨line, "return", []⟩)) ∧
          ∀ q ≤ (Source.items jobs).length, (linkage jobs).address q ≠ v.memory.returnAddress) ∧
    ∀ s : State, s.pc = address jobs (Source.items jobs).length →
      ∀ k, s.run (assemble (program jobs)) k = s := by
  refine ⟨fun a d m => ⟨rfl, .refl m⟩, ?_, ?_, ?_, ?_, ?_⟩
  · intro p item name hitem hname
    rcases Source.item_at hok p with ⟨hnone, -⟩ | ⟨item', b, hitem', hb, hyields, hsound⟩
    · rw [hnone] at hitem
      cases hitem
    · cases hitem.symm.trans hitem'
      rw [hyields.declared? hsound, Option.map_eq_some_iff] at hname
      obtain ⟨x, hx, rfl⟩ := hname
      exact symbolValue_of_mem_declared h hb (List.mem_of_head? hx)
  · intro v v' s hmatches hclear hstep
    rw [Source.step?_eq hok] at hstep
    obtain ⟨b, hb, hact⟩ := Option.bind_eq_some_iff.mp hstep
    rcases Source.item_at hok v.position with ⟨-, hnone⟩ | ⟨item, b', hitem, hb', hyields, -⟩
    · rw [hnone] at hb
      cases hb
    · cases hb.symm.trans hb'
      exact matches_step h hmatches hb ((Source.clear_iff hyields _).mp (hclear item hitem)) hact
  · intro n v v' s hmatches hrun
    rw [Source.run?_eq hok] at hrun
    exact matches_run h hmatches hrun
  · intro v hstep
    rw [Source.length_items hok]
    rcases Source.item_at hok v.position with ⟨-, hnone⟩ | ⟨item, b, hitem, hb, hyields, -⟩
    · exact .inl (List.getElem?_eq_none_iff.mp hnone)
    · rw [Source.step?_eq hok, Stack.step?, hb] at hstep
      obtain ⟨⟨module, e, rfl⟩, hnone⟩ := cases_of_act?_eq_none h (List.mem_of_getElem? hb) hstep
      cases hyields with
      | @instruction _ before i _ _ hread hscope =>
        obtain ⟨line, name, arguments⟩ := i
        obtain ⟨rfl, rfl⟩ := hread
        exact .inr ⟨⟨module, before, line, hitem⟩, hnone⟩
  · intro s hpc
    rw [Source.length_items hok] at hpc
    exact run_of_end hpc

/-- A start, a call with two arguments, a comparison and a return: the run of the stack
machine ends behind the call, with the value of the comparison on the stack, and the
machine gets there. -/
theorem program_simulates_call_and_return :
    ∃ jobs : List Job, jobs = [.bootstrap,
        .module "Sys" ["function Sys.init 0", "push constant 7", "push constant 8",
          "call Main.less 2", "label END", "goto END"],
        .module "Main" ["function Main.less 0", "push argument 0", "push argument 1", "lt",
          "return"]] ∧
      succeeds jobs Emitter.start = true ∧ Loadable jobs ∧
      ∃ v, Source.run? (Source.items jobs) (linkage jobs) 11 ⟨0, fun _ => 0⟩ = some v ∧
        (v.position, v.memory 0, v.memory 261) = (6, 262, -1) ∧
        ∃ k, Matches jobs v (State.run (assemble (program jobs)) k ⟨0, 0, fun _ => 0, 0⟩) := by
  refine ⟨_, rfl, ?_⟩
  generalize hj : ([_, _, _] : List Job) = jobs
  have hok : succeeds jobs Emitter.start = true := by
    rw [← hj]
    decide +kernel
  have hload : Loadable jobs := by
    rw [← hj]
    decide +kernel
  have hrun : (Source.run? (Source.items jobs) (linkage jobs) 11 ⟨0, fun _ => 0⟩).map
      (fun v => (v.position, v.memory 0, v.memory 261)) = some (6, 262, -1) := by
    rw [← hj]
    decide +kernel
  obtain ⟨v, hv, hvalue⟩ := Option.map_eq_some_iff.mp hrun
  obtain ⟨hstart, -, -, hruns, -⟩ := program_simulates_instructions jobs hok hload
  exact ⟨hok, hload, v, hv, hvalue, hruns 11 _ v _ (hstart 0 0 fun _ => 0) hv⟩

end HackVM
