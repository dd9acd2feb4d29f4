import Orphans.Text.Numeral

/-! The arguments of the command line.

An option takes its value from the same argument, behind `=`, or from the arguments that follow it. Three
options take every argument up to the next option. Everything behind `--` is a path.
-/

set_option autoImplicit false

namespace Orphans.CommandLine

structure Arguments where
  path : Option String
  extensions : List String
  exclude : List String
  exempt : List String
  jobs : Option Nat
  aliasConfig : Option String
  dotFile : Option String
  json : Bool
  verbose : Bool
  dot : Bool
  deriving DecidableEq, Repr

def Arguments.none : Arguments :=
  ⟨.none, [], [], [], .none, .none, .none, false, false, false⟩

inductive Setting where
  | extensions
  | exclude
  | exempt
  | jobs
  | aliasConfig
  | dotFile
  deriving DecidableEq, Repr

inductive Switch where
  | json
  | verbose
  | dot
  | help
  | version
  deriving DecidableEq, Repr

inductive Choice where
  | setting (setting : Setting)
  | switch (switch : Switch)
  deriving DecidableEq, Repr

def long? : String → Option Choice
  | "files" => some (.setting .extensions)
  | "exclude" => some (.setting .exclude)
  | "exempt" => some (.setting .exempt)
  | "jobs" => some (.setting .jobs)
  | "tsconfig" => some (.setting .aliasConfig)
  | "dot-file" => some (.setting .dotFile)
  | "json" => some (.switch .json)
  | "verbose" => some (.switch .verbose)
  | "dot" => some (.switch .dot)
  | "help" => some (.switch .help)
  | "version" => some (.switch .version)
  | _ => none

def short? : Char → Option Choice
  | 'j' => some (.setting .jobs)
  | 'v' => some (.switch .verbose)
  | 'h' => some (.switch .help)
  | 'V' => some (.switch .version)
  | _ => none

def Setting.takesMany : Setting → Bool
  | .extensions | .exclude | .exempt => true
  | .jobs | .aliasConfig | .dotFile => false

/-- A count below 2 ^ 64, with an optional plus in front. -/
def count? (text : String) : Option Nat :=
  let digits := match text.toList with
    | '+' :: rest => rest
    | chars => chars
  if digits ≠ [] ∧ digits.all Char.isDigit ∧ Text.ofDigits 10 digits < Nat.pow 2 64 then
    some (Text.ofDigits 10 digits)
  else none

def once {α : Type} (old : Option α) (value : α) : Option (Option α) :=
  if old.isSome then none else some (some value)

namespace Arguments

/-- The arguments with one more value for an option. Values are collected where an option takes many;
elsewhere a second one is refused. -/
def give (arguments : Arguments) (setting : Setting) (value : String) : Option Arguments :=
  match setting with
  | .extensions => some { arguments with extensions := arguments.extensions ++ [value] }
  | .exclude => some { arguments with exclude := arguments.exclude ++ [value] }
  | .exempt => some { arguments with exempt := arguments.exempt ++ [value] }
  | .jobs => do
    let jobs ← once arguments.jobs (← count? value)
    return { arguments with jobs := jobs }
  | .aliasConfig => do
    let aliasConfig ← once arguments.aliasConfig value
    return { arguments with aliasConfig := aliasConfig }
  | .dotFile => do
    let dotFile ← once arguments.dotFile value
    return { arguments with dotFile := dotFile }

def givePath (arguments : Arguments) (value : String) : Option Arguments := do
  let path ← once arguments.path value
  return { arguments with path := path }

end Arguments

inductive Request where
  | analyse (arguments : Arguments)
  | help
  | version
  deriving DecidableEq, Repr

inductive Expectation where
  /-- The path. -/
  | path
  /-- A value that the option still lacks. -/
  | value (setting : Setting)
  /-- One more value of an option that takes many. -/
  | more (setting : Setting)
  deriving DecidableEq, Repr

structure Progress where
  arguments : Arguments
  expectation : Expectation
  deriving DecidableEq, Repr

/-- After one argument there is either a final answer, where `none` is a usage error, or the reading
goes on. -/
inductive Step where
  | answer (request : Option Request)
  | next (progress : Progress)
  deriving DecidableEq, Repr

namespace Step

def usage : Step := .answer none

def ofArguments? (expectation : Expectation) : Option Arguments → Step
  | some arguments => .next ⟨arguments, expectation⟩
  | none => usage

end Step

namespace Progress

def initial : Progress := ⟨.none, .path⟩

def lacksValue (progress : Progress) : Bool :=
  match progress.expectation with
  | .value _ => true
  | _ => false

/-- A switch is set. It may be set once; help and version end the reading. -/
def turn (progress : Progress) (switch : Switch) : Step :=
  let arguments := progress.arguments
  if progress.lacksValue then .usage
  else
    match switch with
    | .json => if arguments.json then .usage else .next ⟨{ arguments with json := true }, .path⟩
    | .verbose =>
      if arguments.verbose then .usage else .next ⟨{ arguments with verbose := true }, .path⟩
    | .dot => if arguments.dot then .usage else .next ⟨{ arguments with dot := true }, .path⟩
    | .help => .answer (some .help)
    | .version => .answer (some .version)

def choose (progress : Progress) (setting : Setting) (value : Option String) : Step :=
  if progress.lacksValue then .usage
  else
    match value with
    | some value => .ofArguments? .path (progress.arguments.give setting value)
    | none => .next ⟨progress.arguments, .value setting⟩

def long (progress : Progress) (text : List Char) : Step :=
  let name := text.takeWhile (· ≠ '=')
  let value := match text.dropWhile (· ≠ '=') with
    | _ :: value => some (String.ofList value)
    | [] => none
  match long? (.ofList name), value with
  | some (.setting setting), value => progress.choose setting value
  | some (.switch switch), none => progress.turn switch
  | some (.switch _), some _ => .usage
  | none, _ => .usage

/-- Letters behind a single hyphen. The first one that takes a value takes the rest of them. -/
def short (progress : Progress) : List Char → Step
  | [] => .next progress
  | letter :: rest =>
    match short? letter with
    | none => .usage
    | some (.setting setting) =>
      match rest with
      | [] => progress.choose setting none
      | '=' :: value => progress.choose setting (some (.ofList value))
      | value => progress.choose setting (some (.ofList value))
    | some (.switch switch) =>
      match progress.turn switch with
      | .next progress => progress.short rest
      | answer => answer

def plain (progress : Progress) (value : String) : Step :=
  match progress.expectation with
  | .path => .ofArguments? .path (progress.arguments.givePath value)
  | .value setting | .more setting =>
    .ofArguments? (if setting.takesMany then .more setting else .path)
      (progress.arguments.give setting value)

/-- One argument in front of `--`. A lone hyphen is a plain argument. -/
def step (progress : Progress) (argument : String) : Step :=
  match argument.toList with
  | '-' :: '-' :: rest => progress.long rest
  | '-' :: letter :: rest => progress.short (letter :: rest)
  | _ => progress.plain argument

def finish (progress : Progress) : Option Request :=
  if progress.lacksValue then none else some (.analyse progress.arguments)

/-- Arguments behind `--`, of which there may be one if no path was given before. -/
def trailing (progress : Progress) (values : List String) : Option Request := do
  let request ← progress.finish
  match request with
  | .analyse arguments => return .analyse (← values.foldlM Arguments.givePath arguments)
  | request => return request

def read (progress : Progress) : List String → Option Request
  | [] => progress.finish
  | argument :: rest =>
    if argument = "--" then progress.trailing rest
    else
      match progress.step argument with
      | .next progress => progress.read rest
      | .answer request => request

end Progress

def parse? (arguments : List String) : Option Request := Progress.initial.read arguments

end Orphans.CommandLine
