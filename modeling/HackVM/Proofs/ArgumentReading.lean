import HackVM.CommandLine.Request

/-! # Which request a command line makes

A command line is made up of **parts**: inputs, output paths behind `-o` or `--asm` or
joined to `--asm` by an equals sign, and the two options about the start of the program.
The parts may stand in any order and number.  The request is that of the one input, with
the last output path and the choice that was made, if any; a command line without an input,
with a second one, or with both choices is refused, and the message says which
(`request_of_parts`).

First every argument is understood by itself (`classifyAll_parts`); then what has been
gathered from parts is worked out part by part (`Progress.gather_parts`). -/
namespace HackVM.CommandLine

/-- A part of a command line. -/
inductive Part where
  | input (text : String)
  /-- The output path behind `-o` or, where that is said, behind `--asm`. -/
  | output (long : Bool) (path : String)
  /-- The output path joined to `--asm`. -/
  | joined (path : String)
  /-- Whether the start of the program is wanted. -/
  | start (wanted : Bool)
deriving DecidableEq

/-- An argument that is never taken for an option. -/
def IsPlain (argument : String) : Prop := argument.toList.head? ≠ some '-' ∨ argument = "-"

namespace Part

/-- The arguments of a part. -/
def arguments : Part → List String
  | input text => [text]
  | output long path => [if long then "--asm" else "-o", path]
  | joined path => ["--asm=" ++ path]
  | start wanted => [if wanted then "--bootstrap" else "--no-bootstrap"]

/-- A part whose text is never taken for an option. -/
def Plain : Part → Prop
  | input text => IsPlain text
  | output _ path => IsPlain path
  | joined _ | start _ => True

/-- The input of a part. -/
@[simp] def input? : Part → Option String
  | input text => some text
  | _ => none

/-- The output path of a part.  Two dashes, joined to the option, count as none. -/
@[simp] def output? : Part → Option String
  | output _ path => some path
  | joined path => some (if path = "--" then "" else path)
  | _ => none

/-- The choice of a part. -/
@[simp] def start? : Part → Option Bool
  | start wanted => some wanted
  | _ => none

/-- How the arguments of a part are understood. -/
def readings : Part → List (String × Reading)
  | input text => [(text, .plain)]
  | output long path =>
    [(if long then "--asm" else "-o", .flag .output (!long) none), (path, .plain)]
  | joined path => [("--asm=" ++ path, .flag .output false (some path.toList))]
  | start wanted =>
    [(if wanted then "--bootstrap" else "--no-bootstrap",
      .flag (if wanted then .bootstrap else .noBootstrap) false none)]

end Part

/-! ## Each argument by itself -/

theorem IsPlain.ne_dashes {a : String} (h : IsPlain a) : a ≠ "--" := by
  rintro rfl
  rcases h with h | h
  · exact h rfl
  · exact absurd h (by decide)

theorem classify_of_isPlain {a : String} (h : IsPlain a) : classify a = .ok .plain := by
  have hcondition : (decide (a.toList.head? ≠ some '-') || decide (a.toList.length = 1)) = true := by
    rcases h with h | rfl
    · rw [decide_eq_true h]
      rfl
    · rfl
  unfold classify
  rw [if_pos hcondition]

/-- No spelling of an option holds an equals sign. -/
theorem Flag.ofSpelling?_of_sign {s : String} (h : '=' ∈ s.toList) : Flag.ofSpelling? s = none := by
  have hspelled : ∀ entry ∈ Flag.spelled, '=' ∉ entry.1.toList := by decide
  rw [Flag.ofSpelling?, List.lookup_eq_none_iff]
  intro entry hentry
  rw [bne_iff_ne]
  rintro rfl
  exact hspelled entry hentry h

theorem toList_joined (path : String) :
    ("--asm=" ++ path).toList = '-' :: '-' :: 'a' :: 's' :: 'm' :: '=' :: path.toList := by
  simp [String.toList_append]

theorem classify_joined (path : String) :
    classify ("--asm=" ++ path) = .ok (.flag .output false (some path.toList)) := by
  have hspelling : Flag.ofSpelling? ("--asm=" ++ path) = none :=
    Flag.ofSpelling?_of_sign (by simp)
  simp only [classify, hspelling, toList_joined]
  rfl

theorem classifyAll_cons {a : String} {reading : Reading} (hne : a ≠ "--")
    (h : classify a = .ok reading) {rest : List String} {readings : List (String × Reading)}
    (hrest : classifyAll rest = .ok readings) :
    classifyAll (a :: rest) = .ok ((a, reading) :: readings) := by
  rw [classifyAll, if_neg hne, h, hrest]
  rfl

/-- Every argument of parts is understood as that of its part. -/
theorem classifyAll_parts {parts : List Part} (h : ∀ part ∈ parts, part.Plain) :
    classifyAll (parts.flatMap Part.arguments) = .ok (parts.flatMap Part.readings) := by
  induction parts with
  | nil => rfl
  | cons part parts ih =>
    have hplain := h part List.mem_cons_self
    have hrest := ih fun other hother => h other (List.mem_cons_of_mem _ hother)
    rw [List.flatMap_cons, List.flatMap_cons]
    cases part with
    | input text => exact classifyAll_cons hplain.ne_dashes (classify_of_isPlain hplain) hrest
    | output long path =>
      have hpath := classifyAll_cons hplain.ne_dashes (classify_of_isPlain hplain) hrest
      cases long with
      | true => exact classifyAll_cons (by decide) rfl hpath
      | false => exact classifyAll_cons (by decide) rfl hpath
    | joined path =>
      have hne : "--asm=" ++ path ≠ "--" := by
        intro heq
        have hlist := congrArg String.toList heq
        rw [toList_joined] at hlist
        cases hlist
      exact classifyAll_cons hne (classify_joined path) hrest
    | start wanted =>
      cases wanted with
      | true => exact classifyAll_cons (by decide) rfl hrest
      | false => exact classifyAll_cons (by decide) rfl hrest

/-! ## What is gathered from parts -/

namespace Progress

/-- Takes one part. -/
def take (p : Progress) : Part → Except Stop Progress
  | .input text => .ok (if p.input.isSome then p.leave text else { p with input := some text })
  | .output _ path => .ok { p with output := some path }
  | .joined path => .ok { p with output := some (if path = "--" then "" else path) }
  | .start true => p.choose .bootstrap .noBootstrap true
  | .start false => p.choose .noBootstrap .bootstrap false

/-- A further input belongs to nothing. -/
theorem gather_plain_of_some {p : Progress} {input : String} (h : p.input = some input)
    (text : String) (rest : List (String × Reading)) :
    p.gather ((text, .plain) :: rest) = (p.leave text).gather rest := by
  obtain ⟨_, output, bootstrap, unrecognized⟩ := p
  cases h
  rfl

/-- The first input is taken, unless two dashes follow it. -/
theorem gather_plain_of_none {p : Progress} (h : p.input = none) (text : String)
    {parts : List Part} :
    p.gather ((text, .plain) :: parts.flatMap Part.readings) =
      { p with input := some text }.gather (parts.flatMap Part.readings) := by
  obtain ⟨_, output, bootstrap, unrecognized⟩ := p
  cases h
  cases parts with
  | nil => rfl
  | cons part parts => cases part <;> rfl

theorem gather_output (p : Progress) (long : Bool) (path : String)
    (rest : List (String × Reading)) :
    p.gather ((Part.output long path).readings ++ rest) =
      { p with output := some (if path = "--" then "" else path) }.gather rest := rfl

theorem unfoldText_output (cs : List Char) :
    unfoldText .output false cs = .ok ([(.output, String.ofList cs)], none) := by
  cases cs <;> simp [unfoldText, Flag.takesValue]

theorem gather_joined (p : Progress) (path : String) (rest : List (String × Reading)) :
    p.gather ((Part.joined path).readings ++ rest) =
      { p with output := some (if path = "--" then "" else path) }.gather rest := by
  have hunfold : unfold .output false (some path.toList) = .ok ([(.output, path)], none) := by
    rw [unfold, unfoldText_output, String.ofList_toList]
  show p.gather ((_, .flag .output false (some path.toList)) :: rest) = _
  rw [gather.eq_def]
  simp only [hunfold]
  rfl

theorem actAll_singleton (p : Progress) (f : Flag) (value : String) :
    p.actAll [(f, value)] = p.act f value := by
  rw [actAll]
  cases p.act f value <;> rfl

theorem gather_start (p : Progress) (wanted : Bool) (rest : List (String × Reading)) :
    p.gather ((Part.start wanted).readings ++ rest) =
      (p.take (.start wanted) >>= fun p' => p'.gather rest) := by
  cases wanted with
  | true =>
    show p.gather ((_, .flag .bootstrap false none) :: rest) = _
    rw [gather.eq_def]
    simp only [unfold, Flag.takesValue, List.nil_append, actAll_singleton]
    rfl
  | false =>
    show p.gather ((_, .flag .noBootstrap false none) :: rest) = _
    rw [gather.eq_def]
    simp only [unfold, Flag.takesValue, List.nil_append, actAll_singleton]
    rfl

/-- Arguments are gathered part by part. -/
theorem gather_parts {parts : List Part} (h : ∀ part ∈ parts, part.Plain) (p : Progress) :
    p.gather (parts.flatMap Part.readings) = parts.foldlM take p := by
  induction parts generalizing p with
  | nil => rfl
  | cons part parts ih =>
    have hplain := h part List.mem_cons_self
    replace ih := ih fun other hother => h other (List.mem_cons_of_mem _ hother)
    rw [List.flatMap_cons, List.foldlM_cons]
    cases part with
    | input text =>
      show p.gather ((text, .plain) :: parts.flatMap Part.readings) = _
      cases hinput : p.input with
      | some input =>
        rw [gather_plain_of_some hinput, ih, take, hinput]
        rfl
      | none =>
        rw [gather_plain_of_none hinput, ih, take, hinput]
        rfl
    | output long path =>
      rw [gather_output, ih, if_neg hplain.ne_dashes]
      rfl
    | joined path =>
      rw [gather_joined, ih]
      rfl
    | start wanted =>
      rw [gather_start]
      exact congrArg (p.take (.start wanted) >>= ·) (funext ih)

end Progress

/-! ## What the parts amount to -/

/-- The inputs of parts, in order. -/
def inputs (parts : List Part) : List String := parts.filterMap Part.input?

/-- The output paths of parts, in order. -/
def outputs (parts : List Part) : List String := parts.filterMap Part.output?

/-- The choices of parts, in order. -/
def choices (parts : List Part) : List Bool := parts.filterMap Part.start?

theorem filterMap_cons_eq {α β : Type} (f : α → Option β) (a : α) (l : List α) :
    (a :: l).filterMap f = (f a).toList ++ l.filterMap f := by
  cases h : f a <;> simp [h]

@[simp] theorem inputs_cons (part : Part) (parts : List Part) :
    inputs (part :: parts) = part.input?.toList ++ inputs parts := filterMap_cons_eq ..

@[simp] theorem outputs_cons (part : Part) (parts : List Part) :
    outputs (part :: parts) = part.output?.toList ++ outputs parts := filterMap_cons_eq ..

@[simp] theorem choices_cons (part : Part) (parts : List Part) :
    choices (part :: parts) = part.start?.toList ++ choices parts := filterMap_cons_eq ..

namespace Progress

/-- The message about a choice that contradicts an earlier one. -/
def contradiction (wanted : Bool) : String :=
  if wanted then "argument --bootstrap: not allowed with argument --no-bootstrap"
  else "argument --no-bootstrap: not allowed with argument --bootstrap"

theorem take_start (p : Progress) (wanted : Bool) :
    p.take (.start wanted) =
      if p.bootstrap = some !wanted then .error (.usage (contradiction wanted))
      else .ok { p with bootstrap := some wanted } := by
  cases wanted <;> rfl

/-- What parts amount to if every choice is the first one. -/
theorem foldlM_take {parts : List Part} {p : Progress}
    (h : ∀ wanted ∈ choices parts, p.bootstrap.or (choices parts).head? = some wanted) :
    parts.foldlM take p = .ok
      ⟨p.input.or (inputs parts).head?, (outputs parts).getLast?.or p.output,
        p.bootstrap.or (choices parts).head?,
        p.unrecognized ++ (if p.input.isSome then inputs parts else (inputs parts).tail)⟩ := by
  -- induction on the parts, whatever has been gathered before them
  induction parts generalizing p with
  | nil => simp [inputs, outputs, choices, pure, Except.pure]
  | cons part parts ih =>
    rw [List.foldlM_cons]
    cases part with
    | input text =>
      cases hinput : p.input with
      | some input =>
        rw [take, hinput]
        refine (ih (p := p.leave text) h).trans ?_
        simp [leave, hinput]
      | none =>
        rw [take, hinput]
        refine (ih (p := { p with input := some text }) h).trans ?_
        simp
    | output long path =>
      refine (ih (p := { p with output := some path }) h).trans ?_
      simp [List.getLast?_cons]
    | joined path =>
      refine (ih (p := { p with output := some (if path = "--" then "" else path) }) h).trans ?_
      simp [List.getLast?_cons]
    | start wanted =>
      have hwanted : p.bootstrap.or (some wanted) = some wanted := h wanted List.mem_cons_self
      have hfree : p.bootstrap ≠ some !wanted := by
        intro hother
        rw [hother] at hwanted
        simp at hwanted
      have hrest : ∀ other ∈ choices parts, some wanted = some other := by
        intro other hother
        exact hwanted.symm.trans (h other (List.mem_cons_of_mem _ hother))
      rw [take_start, if_neg hfree]
      refine (ih (p := { p with bootstrap := some wanted }) hrest).trans ?_
      simp [hwanted]

/-- A choice that is not the first one ends the reading. -/
theorem foldlM_take_of_contradiction {parts : List Part} {p : Progress} {wanted : Bool}
    (hfirst : p.bootstrap.or (choices parts).head? = some !wanted) (h : wanted ∈ choices parts) :
    parts.foldlM take p = .error (.usage (contradiction wanted)) := by
  induction parts generalizing p with
  | nil => cases h
  | cons part parts ih =>
    rw [List.foldlM_cons]
    cases part with
    | input text =>
      cases hinput : p.input with
      | some input =>
        rw [take, hinput]
        exact ih (p := p.leave text) hfirst h
      | none =>
        rw [take, hinput]
        exact ih (p := { p with input := some text }) hfirst h
    | output long path => exact ih (p := { p with output := some path }) hfirst h
    | joined path =>
      exact ih (p := { p with output := some (if path = "--" then "" else path) }) hfirst h
    | start choice =>
      replace hfirst : p.bootstrap.or (some choice) = some !wanted := hfirst
      rw [take_start]
      by_cases hchoice : choice = wanted
      · subst hchoice
        have htaken : p.bootstrap = some !choice := by
          cases hp : p.bootstrap with
          | none => simp [hp] at hfirst
          | some taken => simpa [hp] using hfirst
        rw [if_pos htaken]
        rfl
      · have hother : choice = !wanted := Bool.eq_not.mpr hchoice
        have hfree : p.bootstrap ≠ some !choice := by
          intro htaken
          simp [htaken, hother] at hfirst
        rw [if_neg hfree]
        refine ih (p := { p with bootstrap := some choice }) (congrArg some hother) ?_
        exact (List.mem_cons.mp h).resolve_left fun heq => hchoice heq.symm

end Progress

theorem ofArguments_parts {parts : List Part} (h : ∀ part ∈ parts, part.Plain) :
    Request.ofArguments (parts.flatMap Part.arguments) =
      parts.foldlM Progress.take .start >>= Progress.finish := by
  rw [← Progress.gather_parts h]
  unfold Request.ofArguments
  rw [classifyAll_parts h]

/-- **Which request a command line makes.**  If the parts do not choose both ways, there must
be one input; the request has the last output path and the choice, if there are such.
Inputs behind the first are not recognized.  If the parts choose both ways, the first choice
that differs from the one before it is refused. -/
theorem request_of_parts {parts : List Part} (h : ∀ part ∈ parts, part.Plain) :
    (¬ (true ∈ choices parts ∧ false ∈ choices parts) →
      Request.ofArguments (parts.flatMap Part.arguments) =
        match inputs parts with
        | [] => .error (.usage "the following arguments are required: input")
        | [text] => .ok ⟨text, (outputs parts).getLast?, (choices parts).head?⟩
        | _ :: more => .error (.usage ("unrecognized arguments: " ++ Text.join " " more))) ∧
    ∀ wanted ∈ choices parts, (choices parts).head? = some !wanted →
      Request.ofArguments (parts.flatMap Part.arguments) =
        .error (.usage (if wanted then
          "argument --bootstrap: not allowed with argument --no-bootstrap" else
          "argument --no-bootstrap: not allowed with argument --bootstrap")) := by
  rw [ofArguments_parts h]
  constructor
  · intro hagree
    have hfirst : ∀ wanted ∈ choices parts,
        Progress.start.bootstrap.or (choices parts).head? = some wanted := by
      intro wanted hwanted
      cases hhead : choices parts with
      | nil =>
        rw [hhead] at hwanted
        cases hwanted
      | cons first rest =>
        have hmem : first ∈ choices parts := hhead ▸ List.mem_cons_self
        by_cases heq : first = wanted
        · exact congrArg some heq
        · refine absurd ?_ hagree
          rw [Bool.eq_not.mpr heq] at hmem
          cases wanted with
          | true => exact ⟨hwanted, hmem⟩
          | false => exact ⟨hmem, hwanted⟩
    rw [Progress.foldlM_take hfirst, show Progress.start.output = none from rfl, Option.or_none]
    cases inputs parts with
    | nil => rfl
    | cons text more =>
      cases more with
      | nil => rfl
      | cons next more => rfl
  · intro wanted hwanted hfirst
    rw [Progress.foldlM_take_of_contradiction (p := .start) hfirst hwanted]
    rfl

/-- An input by itself. -/
theorem ofArguments_input {text : String} (h : IsPlain text) :
    Request.ofArguments [text] = .ok ⟨text, none, none⟩ := by
  have hplain : ∀ part ∈ [Part.input text], part.Plain := List.forall_mem_singleton.mpr h
  exact (request_of_parts hplain).1 (by simp [choices])

/-- An input and an output path. -/
theorem ofArguments_input_output {text path : String} (h : IsPlain text) (hpath : IsPlain path) :
    Request.ofArguments [text, "-o", path] = .ok ⟨text, some path, none⟩ := by
  have hplain : ∀ part ∈ [Part.input text, .output false path], part.Plain :=
    List.forall_mem_cons.mpr ⟨h, List.forall_mem_singleton.mpr hpath⟩
  exact (request_of_parts hplain).1 (by simp [choices])

end HackVM.CommandLine
