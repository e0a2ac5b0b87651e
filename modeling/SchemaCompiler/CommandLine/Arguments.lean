import SchemaCompiler.Artifact.Emission

/-!
# Command-line arguments

A command line names a mode and gives options in front of it and behind it. Three options may stand in
either place, and behind the mode they count more; the directories may stand only behind it. An option
that takes a value has it in the same argument or in the next one, and is given at most once in a place.
-/

namespace SchemaCompiler

namespace CommandLine

/-! ## Options -/

inductive ValueOption
  | config
  | report
  | input
  | output
deriving DecidableEq, Repr

/-- What an option on the command line stands for. -/
inductive Meaning
  | value (o : ValueOption)
  | verbose
  | help
  | version
deriving DecidableEq, Repr

/-- The places of options: in front of the mode, and behind it. -/
inductive Place
  | front
  | behind
deriving DecidableEq, Repr

def long? (place : Place) (name : String) : Option Meaning :=
  match place, name with
  | _, "config" => some (.value .config)
  | _, "report" => some (.value .report)
  | _, "verbose" => some .verbose
  | _, "help" => some .help
  | .front, "version" => some .version
  | .behind, "input" => some (.value .input)
  | .behind, "output" => some (.value .output)
  | _, _ => none

def short? (place : Place) (letter : Char) : Option Meaning :=
  match place, letter with
  | _, 'c' => some (.value .config)
  | _, 'v' => some .verbose
  | _, 'h' => some .help
  | .front, 'V' => some .version
  | .behind, 'i' => some (.value .input)
  | .behind, 'o' => some (.value .output)
  | _, _ => none

/-! ## What is given -/

structure Given where
  values : List (ValueOption × String) := []
  verbose : Bool := false
deriving DecidableEq, Repr

/-- Adds a value, which may not be empty and not be there already. -/
def Given.add? (g : Given) (o : ValueOption) (value : String) : Option Given :=
  if value = "" ∨ (g.values.lookup o).isSome then none
  else some { g with values := g.values ++ [(o, value)] }

/-- Turns on detailed output, which may not be on already. -/
def Given.addVerbose? (g : Given) : Option Given :=
  if g.verbose then none else some { g with verbose := true }

inductive Request
  /-- A run, with the options in front of the mode and behind it. -/
  | run (front : Given) (mode : Mode) (behind : Given)
  | help
  | version
deriving DecidableEq, Repr

/-! ## Parsing -/

/-- Whether an argument can only be an option or the end of options. -/
def looksLikeOption (argument : String) : Bool :=
  match argument.toList with
  | '-' :: _ :: _ => true
  | _ => false

/-- An argument after two hyphens: a name, and a value behind an equals sign. -/
def splitLong (body : List Char) : String × Option String :=
  let name := body.takeWhile (· ≠ '=')
  match body.drop name.length with
  | [] => (String.ofList name, none)
  | _ :: value => (String.ofList name, some (String.ofList value))

/-- How an argument continues the options given so far. -/
inductive Step
  | given (g : Given)
  /-- The next argument is the value of an option. -/
  | awaits (g : Given) (o : ValueOption)
  | help
  | version
  | refused

/-- Options in one argument behind a hyphen. The first one with a value takes what is left. -/
def shortStep (place : Place) (g : Given) : List Char → Step
  | [] => .given g
  | letter :: rest =>
    match short? place letter with
    | none => .refused
    | some .help => .help
    | some .version => .version
    | some .verbose =>
      match g.addVerbose? with
      | none => .refused
      | some g => shortStep place g rest
    | some (.value o) =>
      match rest with
      | [] => .awaits g o
      | c :: tail =>
        match g.add? o (String.ofList (if c = '=' then tail else c :: tail)) with
        | none => .refused
        | some g => .given g

def longStep (place : Place) (g : Given) (body : List Char) : Step :=
  let (name, value) := splitLong body
  match long? place name, value with
  | some (.value o), some value =>
    match g.add? o value with
    | none => .refused
    | some g => .given g
  | some (.value o), none => .awaits g o
  | some .verbose, none =>
    match g.addVerbose? with
    | none => .refused
    | some g => .given g
  | some .help, none => .help
  | some .version, none => .version
  | _, _ => .refused

def optionStep (place : Place) (g : Given) (argument : String) : Step :=
  match argument.toList with
  | '-' :: '-' :: body => longStep place g body
  | '-' :: letters => shortStep place g letters
  | _ => .refused

/-- Whether the arguments behind the word `help` ask for help. -/
def asksForHelp : List String → Bool
  | [] => true
  | [topic] => topic = "help" || (Mode.ofToken? topic).isSome
  | _ => false

/-- The request of the arguments behind the mode, with the options given so far. Nothing may follow two
hyphens. -/
def parseBehind? (front : Given) (mode : Mode) (g : Given) : List String → Option Request
  | [] => some (.run front mode g)
  | argument :: rest =>
    if argument = "--" then if rest = [] then some (.run front mode g) else none
    else if looksLikeOption argument then
      match optionStep .behind g argument with
      | .given g => parseBehind? front mode g rest
      | .awaits g o =>
        match rest with
        | [] => none
        | value :: rest =>
          if looksLikeOption value then none
          else match g.add? o value with
            | none => none
            | some g => parseBehind? front mode g rest
      | .help => some .help
      | .version => some .version
      | .refused => none
    else none

/-- The request of all arguments, with the options given so far in front of the mode. -/
def parseFront? (g : Given) : List String → Option Request
  | [] => none
  | argument :: rest =>
    if argument = "--" then none
    else if looksLikeOption argument then
      match optionStep .front g argument with
      | .given g => parseFront? g rest
      | .awaits g o =>
        match rest with
        | [] => none
        | value :: rest =>
          if looksLikeOption value then none
          else match g.add? o value with
            | none => none
            | some g => parseFront? g rest
      | .help => some .help
      | .version => some .version
      | .refused => none
    else
      match Mode.ofToken? argument with
      | some mode => parseBehind? g mode {} rest
      | none => if argument = "help" ∧ asksForHelp rest then some .help else none

/-- The request of a command line; there is none when it is used wrongly. -/
def parse? (arguments : List String) : Option Request :=
  parseFront? {} arguments

end CommandLine

end SchemaCompiler
