import HackVM.CommandLine.Options

/-! # Requests

What a command line asks for.  The arguments are taken from left to right, and
the first one that cannot be used ends the reading, as does a request for help.
Arguments that belong to nothing are collected, and refused at the end. -/
namespace HackVM.CommandLine

/-- What a command line asks for. -/
structure Request where
  input : String
  /-- The output path that was asked for. -/
  output : Option String
  /-- Whether the start of the program is to be emitted, if that was said. -/
  bootstrap : Option Bool
deriving DecidableEq

/-- Why there is nothing to do. -/
inductive Stop where
  | help
  | usage (message : String)
deriving DecidableEq

/-- What has been gathered from the arguments so far. -/
structure Progress where
  input : Option String
  output : Option String
  bootstrap : Option Bool
  unrecognized : List String
deriving DecidableEq

/-- The message about an option. -/
def complaint (f : Flag) (message : String) : Stop :=
  .usage ("argument " ++ f.title ++ ": " ++ message)

/-- The complaint about a text attached to an option that takes none. -/
def ignoredText (f : Flag) (text : List Char) : Stop :=
  complaint f ("ignored explicit argument " ++ Text.quoted (String.ofList text))

/-- The options, each with its value, of an argument in which a text is attached
to an option, and a last one for which nothing is left of the text.  Behind a
short option that takes no value, every letter is a short option too. -/
def unfoldText (f : Flag) (short : Bool) :
    List Char → Except Stop (List (Flag × String) × Option Flag)
  | [] => if f.takesValue then .ok ([(f, "")], none) else .error (ignoredText f [])
  | c :: cs =>
    if f.takesValue then .ok ([(f, String.ofList (c :: cs))], none)
    else if !short then .error (ignoredText f (c :: cs))
    else
      match Flag.ofSpelling? (String.ofList ['-', c]) with
      | none => .error (ignoredText f (c :: cs))
      | some g =>
        match cs with
        | [] => .ok ([(f, "")], some g)
        | next :: more => do
          let (flags, last) ← unfoldText g true (next :: more)
          .ok ((f, "") :: flags, last)

/-- The options, each with its value, of one argument, and a last one for which it
holds no value. -/
def unfold (f : Flag) (short : Bool) :
    Option (List Char) → Except Stop (List (Flag × String) × Option Flag)
  | none => .ok ([], some f)
  | some text => unfoldText f short text

namespace Progress

/-- Nothing yet. -/
def start : Progress := ⟨none, none, none, []⟩

/-- Notes an argument that belongs to nothing. -/
def leave (p : Progress) (argument : String) : Progress :=
  { p with unrecognized := p.unrecognized ++ [argument] }

/-- Notes the choice about the start of the program, which must not contradict an
earlier one. -/
def choose (p : Progress) (f other : Flag) (choice : Bool) : Except Stop Progress :=
  if p.bootstrap = some !choice then
    .error (complaint f ("not allowed with argument " ++ other.title))
  else .ok { p with bootstrap := some choice }

/-- Acts on one option.  An output path of two dashes counts as empty. -/
def act (p : Progress) : Flag → String → Except Stop Progress
  | .help, _ => .error .help
  | .output, value => .ok { p with output := some (if value = "--" then "" else value) }
  | .bootstrap, _ => p.choose .bootstrap .noBootstrap true
  | .noBootstrap, _ => p.choose .noBootstrap .bootstrap false

/-- Acts on options in turn. -/
def actAll (p : Progress) : List (Flag × String) → Except Stop Progress
  | [] => .ok p
  | (f, value) :: rest => do
    let p ← p.act f value
    actAll p rest

/-- Takes the arguments in turn.  Two dashes next to the input belong to it. -/
def gather (p : Progress) : List (String × Reading) → Except Stop Progress
  | [] => .ok p
  | (argument, .plain) :: rest =>
    match p.input, rest with
    | some _, rest => gather (p.leave argument) rest
    | none, (_, .dashes) :: rest => gather { p with input := some argument } rest
    | none, rest => gather { p with input := some argument } rest
  | (argument, .dashes) :: rest =>
    match p.input, rest with
    | none, (next, .plain) :: rest => gather { p with input := some next } rest
    | _, rest => gather (p.leave argument) rest
  | (argument, .unknown) :: rest => gather (p.leave argument) rest
  | (_, .flag f short attached) :: rest =>
    match unfold f short attached, rest with
    | .error stop, _ => .error stop
    | .ok (flags, none), rest => do
      let p ← p.actAll flags
      gather p rest
    | .ok (flags, some g), rest =>
      if g.takesValue then
        match rest with
        | (value, .plain) :: rest => do
          let p ← p.actAll (flags ++ [(g, value)])
          gather p rest
        | _ => .error (complaint g "expected one argument")
      else do
        let p ← p.actAll (flags ++ [(g, "")])
        gather p rest

/-- The request that was gathered: there must be an input, and nothing left over. -/
def finish (p : Progress) : Except Stop Request :=
  match p.input, p.unrecognized with
  | none, _ => .error (.usage "the following arguments are required: input")
  | some input, [] => .ok ⟨input, p.output, p.bootstrap⟩
  | some _, rest => .error (.usage ("unrecognized arguments: " ++ Text.join " " rest))

end Progress

/-- The request of a command line, or why there is none. -/
def Request.ofArguments (arguments : List String) : Except Stop Request :=
  match classifyAll arguments with
  | .error message => .error (.usage message)
  | .ok readings => do
    let p ← Progress.start.gather readings
    p.finish

end HackVM.CommandLine
