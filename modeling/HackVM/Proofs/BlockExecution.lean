import HackVM.Proofs.ComparisonCode

/-! # The machine at a block

The machine, at the first instruction of a block, runs through the block and does
what the stack machine does with its command: it ends at the first instruction of the
block that the stack machine goes to, and its memory then agrees with that of the
stack machine outside the scratch cells (`passes_step`).  The four ways of leaving a
block come first: at its end, by a jump, into a function and out of one. -/
namespace HackVM

open Asm Hack

/-- How the program of a session is linked: a static variable is the cell of its name, which
is that of the module, a dot and the index. -/
def linkage (jobs : List Job) : Stack.Linkage where
  static m index := BitVec.ofNat 16 (symbolValue (program jobs) (m ++ "." ++ index.repr))
  address p := BitVec.ofNat 16 (address jobs p)

/-- Code names static variables as the linkage does. -/
theorem static_linkage (jobs : List Job) (m : String) (index : Nat) :
    BitVec.ofNat 16 (symbolValue (program jobs) (Symbol.static m index).text) =
      (linkage jobs).static m index := rfl

section Session

variable {jobs : List Job}

/-- No block begins strictly inside another one. -/
theorem not_inside_of_pc_eq_address {s : State} {q : Nat} (hq : s.pc = address jobs q) (p : Nat) :
    ¬ s.Inside (address jobs p) (address jobs (p + 1)) := by
  intro hinside
  rw [State.Inside, hq] at hinside
  by_cases hle : q ≤ p
  · have hmono : address jobs q ≤ address jobs p := address_mono hle
    omega
  · have hmono : address jobs (p + 1) ≤ address jobs q := address_mono (by omega)
    omega

variable (h : Loadable jobs)
include h

/-! ## Places and positions -/

theorem address_lt (p : Nat) : address jobs p < 65536 := by
  have hle := address_le_length jobs p
  have hfits := h.fits
  omega

theorem toNat_address (p : Nat) : ((linkage jobs).address p).toNat = address jobs p :=
  State.toNat_ofNat_of_lt (address_lt h p)

/-- A declared symbol stands for the position of the block that declares it. -/
theorem symbolValue_of_mem_declared {p : Nat} {b : Block} (hb : (blocks jobs)[p]? = some b)
    {x : Symbol} (hx : x ∈ b.declared) : symbolValue (program jobs) x.text = address jobs p := by
  have hinstalled := installed_block h hb
  cases b with
  | start e => cases hx
  | command m e c =>
    cases c with
    | label name | function name locals =>
      rw [List.mem_singleton.mp hx]
      exact hinstalled.1
    | _ => cases hx

theorem symbolValue_of_place {x : Symbol} {q : Nat}
    (hq : Stack.place? (blocks jobs) x = some q) :
    symbolValue (program jobs) x.text = address jobs q := by
  obtain ⟨hlt, hmem, -⟩ := List.findIdx?_eq_some_iff_getElem.mp hq
  exact symbolValue_of_mem_declared h (List.getElem?_eq_getElem hlt) (of_decide_eq_true hmem)

/-- Every place that a block jumps to is there. -/
theorem exists_place {b : Block} (hb : b ∈ blocks jobs) {x : Symbol} (hx : x ∈ b.targets) :
    ∃ q, Stack.place? (blocks jobs) x = some q := by
  have hdefined := h.closed b hb x hx
  rw [defined_program, List.mem_flatMap] at hdefined
  obtain ⟨b', hb', hmem⟩ := hdefined
  have hdeclared : x ∈ b'.declared := by
    rcases List.mem_append.mp hmem with hmem | hmem
    · exact hmem
    · -- a place of the source is no generated label
      exact absurd (Block.isDeclared_of_mem_targets hx)
        (Block.isGenerated_of_mem_generated hmem).not_isDeclared
  rw [← Option.isSome_iff_exists, Stack.place?, List.findIdx?_isSome, List.any_eq_true]
  exact ⟨b', hb', decide_eq_true hdeclared⟩

/-! ## Ways of leaving a block -/

section Block

variable {p : Nat} {b : Block} (hb : (blocks jobs)[p]? = some b) {s : State}
  (hpc : s.pc = address jobs p)
include hb hpc

/-- A block without jumps is left at its end. -/
theorem passes_straight {code : List Line} (hcode : b.code = code)
    (hstraight : isStraight code = true) :
    State.Passes (assemble (program jobs)) (address jobs p) (address jobs (p + 1)) s
        (s.follow (program jobs) code) ∧
      (s.follow (program jobs) code).pc = address jobs (p + 1) := by
  have hinstalled := installed_block h hb
  rw [hcode, ← hpc] at hinstalled
  obtain ⟨hforward, hend⟩ := State.forward_follow hinstalled hstraight
  rw [hpc, ← hcode, ← address_succ hb, hcode] at hend
  exact ⟨.of_forward hpc hforward hend, hend⟩

/-- A block that ends with a jump is left by the jump. -/
theorem passes_jump {code rest : List Line} {comp : Comp} {condition : Jump} {q : Nat}
    (hcode : b.code = code ++ .jump comp condition :: rest) (hstraight : isStraight code = true)
    (hq : ((s.follow (program jobs) code).exec (.jump comp condition)).pc = address jobs q) :
    State.Passes (assemble (program jobs)) (address jobs p) (address jobs (p + 1)) s
      ((s.follow (program jobs) code).exec (.jump comp condition)) := by
  have hinstalled := installed_block h hb
  rw [hcode, ← hpc, installed_append] at hinstalled
  obtain ⟨hforward, hend⟩ := State.forward_follow hinstalled.1 hstraight
  have hstep := State.step?_of_jump (hend ▸ hinstalled.2)
  refine .of_jump hpc hforward ?_ hstep (not_inside_of_pc_eq_address hq p)
  rw [hend, hpc, address_succ hb, hcode, size_append, size_jump]
  omega

/-- A jump that is always made goes to the place of its target. -/
theorem passes_jumpTo {code rest : List Line} {x : Symbol} {q : Nat}
    (hcode : b.code = code ++ Code.jumpTo x ++ rest) (hstraight : isStraight code = true)
    (hq : Stack.place? (blocks jobs) x = some q) :
    ∃ t, State.Passes (assemble (program jobs)) (address jobs p) (address jobs (p + 1)) s t ∧
      t.pc = address jobs q ∧ t.memory = (s.follow (program jobs) code).memory := by
  have hsplit : b.code = (code ++ [load x]) ++ .jump .zero .always :: rest := by
    rw [hcode, Code.jumpTo, List.append_assoc, List.append_assoc]
    rfl
  have htarget : ((s.follow (program jobs) (code ++ [load x])).exec (.jump .zero .always)).pc =
      address jobs q := by
    rw [State.follow_append, State.follow_load, symbolValue_of_place h hq]
    exact toNat_address h q
  refine ⟨_, passes_jump h hb hpc hsplit ?_ htarget, htarget, ?_⟩
  · rw [isStraight_append, hstraight]
    rfl
  · rw [State.follow_append, State.follow_load]
    rfl

/-- A call enters the function, and leaves the word of the next place as the return
address. -/
theorem passes_enter {code : List Line} {name scope : String} {n number q : Nat}
    (hcode : b.code = code ++ Code.callLines name (n + Code.frameSize) scope number)
    (hstraight : isStraight code = true)
    (hq : Stack.place? (blocks jobs) (.entry name) = some q) :
    ∃ t, State.Passes (assemble (program jobs)) (address jobs p) (address jobs (p + 1)) s t ∧
      t.pc = address jobs q ∧
      t.memory =
        (s.follow (program jobs) code).memory.enter ((linkage jobs).address (p + 1)) n := by
  have hsplit : b.code =
      (code ++ Code.frameLines (n + Code.frameSize) (.returnSite scope number)) ++
        Code.jumpTo (.entry name) ++ [.label (.returnSite scope number)] := by
    rw [hcode, Code.callLines, List.append_assoc, List.append_assoc, List.append_assoc]
  -- the return label is the last line of the block, so it stands for the next place
  have hsite : symbolValue (program jobs) (Symbol.returnSite scope number).text =
      address jobs (p + 1) := by
    have hinstalled := installed_block h hb
    rw [hsplit, installed_append] at hinstalled
    rw [hinstalled.2.1, address_succ hb, hsplit, size_append _ [_]]
    rfl
  obtain ⟨t, hpasses, htarget, hmemory⟩ := passes_jumpTo h hb hpc hsplit
    (by rw [isStraight_append, hstraight]; rfl) hq
  refine ⟨t, hpasses, htarget, ?_⟩
  rw [hmemory, State.follow_append, State.memory_follow_frameLines, hsite]
  rfl

/-- A return leaves the function for the place that the return address stands for. -/
theorem passes_leave {q : Nat} (hcode : b.code = Code.ret)
    (htop : s.memory Register.sp.cell - 1 ∉ Stack.scratch)
    (harg : s.memory Register.arg.cell ∉ Stack.scratch)
    (hcells : ∀ a ∈ Stack.cellsBelow (s.memory Register.lcl.cell) 5, a ∉ Stack.scratch)
    (hq : s.memory.returnAddress = (linkage jobs).address q) :
    ∃ t, State.Passes (assemble (program jobs)) (address jobs p) (address jobs (p + 1)) s t ∧
      t.pc = address jobs q ∧ Memory.Agree t.memory s.memory.leave := by
  have hsplit : b.code = (State.dropFrame ++
      Code.savedRegisters.reverse.flatMap Code.restoreRegister ++
        [loadRegister .r14, .store .a .m]) ++ [.jump .zero .always] := by
    rw [hcode, Code.ret, State.dropFrame]
    simp only [List.append_assoc, List.cons_append, List.nil_append]
  -- the return address is kept in a scratch cell, from before the value is stored over it
  obtain ⟨hagree, hsite⟩ := State.agree_follow_leave (program jobs) s htop harg hcells
  have htarget : ((s.follow (program jobs) (State.dropFrame ++
      Code.savedRegisters.reverse.flatMap Code.restoreRegister ++
        [loadRegister .r14, .store .a .m])).exec (.jump .zero .always)).pc = address jobs q := by
    rw [State.follow_append, State.follow_loadRegister, State.follow_store, State.follow_nil]
    rw [← toNat_address h q, ← hq, ← hsite]
    rfl
  refine ⟨_, passes_jump h hb hpc hsplit rfl htarget, htarget, ?_⟩
  rw [State.follow_append, State.follow_loadRegister, State.follow_store, State.follow_nil]
  exact hagree

/-- A conditional jump goes on at the next place if the value popped is zero, and else
to the place of its target. -/
theorem passes_jumpIf {x : Symbol} {q : Nat} (hcode : b.code = Code.jumpIf x)
    (hq : if s.memory.popped = 0 then q = p + 1 else Stack.place? (blocks jobs) x = some q) :
    ∃ t, State.Passes (assemble (program jobs)) (address jobs p) (address jobs (p + 1)) s t ∧
      t.pc = address jobs q ∧ t.memory = s.memory.drop := by
  have hsplit : b.code = (popD ++ [load x]) ++ [.jump .d .ne] := hcode
  have hfollow : s.follow (program jobs) (popD ++ [load x]) =
      ⟨BitVec.ofNat 16 (symbolValue (program jobs) x.text), s.memory.popped, s.memory.drop,
        s.pc + 5⟩ := by
    rw [State.follow_append, State.follow_popD, State.follow_load, State.follow_nil]
  have hexec : ((s.follow (program jobs) (popD ++ [load x])).exec (.jump .d .ne)).pc =
      address jobs q := by
    rw [hfollow]
    show (if jumps s.memory.popped .ne then _ else s.pc + 5 + 1) = _
    split at hq
    · rename_i hzero
      rw [if_neg (by rw [hzero]; decide), hq, address_succ hb, hpc, hcode]
      rfl
    · rename_i hzero
      have hne : s.memory.popped.toInt ≠ 0 := fun heq => hzero (BitVec.toInt_inj.mp heq)
      rw [if_pos (show jumps s.memory.popped .ne = true from decide_eq_true hne),
        symbolValue_of_place h hq]
      exact toNat_address h q
  refine ⟨_, passes_jump h hb hpc hsplit rfl hexec, hexec, ?_⟩
  rw [hfollow]
  rfl

/-- A comparison is left at its end. -/
theorem passes_compare {comparison : Comparison} {m : String} {number : Nat}
    (hcode : b.code = Code.compare comparison m number)
    (hsp : s.memory Register.sp.cell - 1 - 1 ≠ Register.sp.cell)
    (hscratch : s.memory Register.sp.cell - 1 - 1 ≠ Register.r13.cell) :
    ∃ t, State.Passes (assemble (program jobs)) (address jobs p) (address jobs (p + 1)) s t ∧
      t.pc = address jobs (p + 1) ∧
      t.memory = (s.memory.combine comparison.value).set Register.r13.cell s.memory.popped := by
  have hinstalled := installed_block h hb
  have hend : s.pc + 38 = address jobs (p + 1) := by
    rw [address_succ hb, hpc, hcode, Code.size_compare]
  have hfits := address_lt h (p + 1)
  rw [← hpc] at hinstalled
  obtain ⟨t, hforward, htarget, hmemory⟩ :=
    State.forward_compare hcode hinstalled (by omega) hsp hscratch
  exact ⟨t, .of_forward hpc hforward (by omega), by omega, hmemory⟩

end Block

/-- The start of a program enters the first function on a new stack. -/
theorem passes_start {e : Emitter} {p q : Nat} (hb : (blocks jobs)[p]? = some (.start e))
    {s : State} (hpc : s.pc = address jobs p)
    (hq : Stack.place? (blocks jobs) (.entry "Sys.init") = some q) :
    ∃ t, State.Passes (assemble (program jobs)) (address jobs p) (address jobs (p + 1)) s t ∧
      t.pc = address jobs q ∧
      t.memory = (s.memory.set Register.sp.cell 256).enter ((linkage jobs).address (p + 1)) 0 := by
  have hcode : (Block.start e).code = Code.startStack ++
      Code.callLines "Sys.init" ((0 : Nat) + Code.frameSize) Code.startScope e.calls := by
    show (Emission.bootstrap e).code = _
    rw [Emission.bootstrap_apply, Code.entryFunction_eq]
    rfl
  obtain ⟨t, hpasses, htarget, hmemory⟩ := passes_enter h hb hpc hcode rfl hq
  refine ⟨t, hpasses, htarget, ?_⟩
  rw [hmemory, Code.startStack, Code.stackBase_eq, State.follow_loadNumber, State.follow_store,
    State.follow_loadRegister, State.follow_store]
  rfl

/-- A call enters its function. -/
theorem passes_call {m : String} {e : Emitter} {name : String} {n p q : Nat}
    (hb : (blocks jobs)[p]? = some (.command m e (.call name n))) {s : State}
    (hpc : s.pc = address jobs p) (hq : Stack.place? (blocks jobs) (.entry name) = some q) :
    ∃ t, State.Passes (assemble (program jobs)) (address jobs p) (address jobs (p + 1)) s t ∧
      t.pc = address jobs q ∧ t.memory = s.memory.enter ((linkage jobs).address (p + 1)) n := by
  obtain ⟨-, -, -, lines, hl⟩ := sound_of_mem_blocks jobs _ (List.mem_of_getElem? hb)
  have hcode := Block.code_command hl
  rw [Code.call_eq_ok hl] at hcode
  have hsplit : _ = [] ++ Code.callLines .. := hcode
  obtain ⟨t, hpasses, htarget, hmemory⟩ := passes_enter h hb hpc hsplit rfl hq
  exact ⟨t, hpasses, htarget, hmemory⟩

/-! ## One step -/

omit h in
theorem mem_referred_of_mem_statics {b : Block} (hb : b ∈ blocks jobs) {x : Symbol}
    (hx : x ∈ b.statics) : x ∈ referred (program jobs) := by
  rw [program_eq_flatMap, referred_flatMap, List.mem_flatMap]
  exact ⟨b, hb, Block.mem_referred_of_mem_statics (sound_of_mem_blocks jobs b hb) hx⟩

/-- **The code of a block does what its command says**, outside the scratch cells. -/
theorem passes_step {p : Nat} {b : Block} (hb : (blocks jobs)[p]? = some b) {s : State}
    (hpc : s.pc = address jobs p) (hclear : Stack.Clear s.memory b) {v : Stack.State}
    (hact : Stack.act? (blocks jobs) (linkage jobs) p s.memory b = some v) :
    ∃ t, State.Passes (assemble (program jobs)) (address jobs p) (address jobs (p + 1)) s t ∧
      t.pc = address jobs v.position ∧ Memory.Agree t.memory v.memory := by
  have hmem := List.mem_of_getElem? hb
  have hsound := sound_of_mem_blocks jobs b hmem
  cases b with
  | start e =>
    obtain ⟨q, hq, rfl⟩ := Option.map_eq_some_iff.mp hact
    obtain ⟨t, hpasses, htarget, hmemory⟩ := passes_start h hb hpc hq
    exact ⟨t, hpasses, htarget, hmemory ▸ .refl _⟩
  | command m e c =>
    obtain ⟨-, hscope, -, lines, hl⟩ := hsound
    have hcode := Block.code_command hl
    cases c with
    | push segment index =>
      cases hact
      have hstatic : segment = .static → _ := fun _ => static_linkage jobs m index
      have hmemory := s.memory_follow_push (linkage jobs) hstatic hl
      obtain ⟨hpasses, htarget⟩ := passes_straight h hb hpc hcode (State.isStraight_push hl)
      exact ⟨_, hpasses, htarget, hmemory ▸ .refl _⟩
    | pop segment index =>
      obtain ⟨a, ha, rfl⟩ := Option.map_eq_some_iff.mp hact
      have hstatic : segment = .static → _ := fun _ => static_linkage jobs m index
      obtain ⟨a', ha', hagree⟩ := s.memory_follow_pop (linkage jobs) hstatic hl
        (hclear.1 _ (List.mem_singleton_self _))
      obtain ⟨hpasses, htarget⟩ := passes_straight h hb hpc hcode (State.isStraight_pop hl)
      cases ha.symm.trans ha'
      exact ⟨_, hpasses, htarget, hagree⟩
    | operate op =>
      cases hact
      cases op with
      | binary op =>
        cases hl
        obtain ⟨hpasses, htarget⟩ := passes_straight h hb hpc hcode rfl
        exact ⟨_, hpasses, htarget, s.memory_follow_binary op ▸ .refl _⟩
      | unary op =>
        cases hl
        obtain ⟨hpasses, htarget⟩ := passes_straight h hb hpc hcode rfl
        exact ⟨_, hpasses, htarget, s.memory_follow_unary op ▸ .refl _⟩
      | compare comparison =>
        have hleft : s.memory Register.sp.cell - 1 - 1 ∉ Stack.scratch :=
          hclear.1 _ (by simp [Stack.relied, Stack.cellsBelow])
        obtain ⟨t, hpasses, htarget, hmemory⟩ := passes_compare h hb hpc
          (hcode.trans (Except.ok.inj hl).symm) (hclear.2 _ (List.mem_singleton_self _))
          (fun heq => hleft (heq ▸ by decide))
        refine ⟨t, hpasses, htarget, ?_⟩
        rw [hmemory]
        exact (Memory.Agree.refl _).set_scratch (by decide) _
    | label name =>
      cases hact
      cases hl
      obtain ⟨hpasses, htarget⟩ := passes_straight h hb hpc hcode rfl
      exact ⟨_, hpasses, htarget, .refl _⟩
    | goto name =>
      obtain ⟨q, hq, rfl⟩ := Option.map_eq_some_iff.mp hact
      cases hl
      rw [Scope.label_eq hscope] at hcode
      have hsplit : _ = [] ++ Code.jumpTo _ ++ [] := hcode
      obtain ⟨t, hpasses, htarget, hmemory⟩ := passes_jumpTo h hb hpc hsplit rfl hq
      exact ⟨t, hpasses, htarget, hmemory ▸ .refl _⟩
    | ifGoto name =>
      cases hl
      rw [Scope.label_eq hscope] at hcode
      simp only [Stack.act?] at hact
      split at hact
      · rename_i hzero
        cases hact
        obtain ⟨t, hpasses, htarget, hmemory⟩ := passes_jumpIf h hb hpc hcode
          (show if _ then _ = p + 1 else _ by rw [if_pos hzero])
        exact ⟨t, hpasses, htarget, hmemory ▸ .refl _⟩
      · rename_i hzero
        obtain ⟨q, hq, rfl⟩ := Option.map_eq_some_iff.mp hact
        obtain ⟨t, hpasses, htarget, hmemory⟩ := passes_jumpIf h hb hpc hcode
          (by rw [if_neg hzero]; exact hq)
        exact ⟨t, hpasses, htarget, hmemory ▸ .refl _⟩
    | function name locals =>
      cases hact
      cases hl
      obtain ⟨hpasses, htarget⟩ := passes_straight h hb hpc hcode (State.isStraight_clearing locals)
      exact ⟨_, hpasses, htarget, s.memory_follow_clearing locals ▸ .refl _⟩
    | call name arguments =>
      obtain ⟨q, hq, rfl⟩ := Option.map_eq_some_iff.mp hact
      obtain ⟨t, hpasses, htarget, hmemory⟩ := passes_call h hb hpc hq
      exact ⟨t, hpasses, htarget, hmemory ▸ .refl _⟩
    | ret =>
      obtain ⟨q, hq, rfl⟩ := Option.map_eq_some_iff.mp hact
      cases hl
      refine passes_leave h hb hpc hcode ?_ ?_ ?_ (Stack.address_of_resume? hq).symm
      · exact hclear.1 _ (List.mem_cons_self ..)
      · exact hclear.1 _ (List.mem_cons_of_mem _ (List.mem_cons_self ..))
      · exact fun a ha => hclear.1 a (List.mem_cons_of_mem _ (List.mem_cons_of_mem _ ha))

end Session
end HackVM
