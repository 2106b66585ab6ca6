import Schematic.Run.Synthesis

/-!
# The command line

The program has three commands: one draws a circuit, one only reports on it, and
one writes the default configuration.  An argument is an option when it starts
with a dash and goes on; options may stand in any order, before and after the
file they are for.

## Main definitions

* `CommandOption`, `Argument` — what arguments are made of.
* `scanArguments` — arguments told apart.
* `Invocation`, `Invocation.parse` — what is asked of the program.
* `Invocation.run` — what the program does.
-/

namespace Schematic

/-- The name of the program. -/
def programName : String := "netweave"

/-- The configuration file that is used when none is given. -/
def defaultConfigPath : String := "netweave.yaml"

/-! ### Options -/

/-- An option. -/
inductive CommandOption where
  /-- A directory, or a file for the default configuration. -/
  | output
  /-- The configuration. -/
  | config
  /-- Further symbols. -/
  | symbols
  /-- The identifiers. -/
  | ids
  /-- Where to put the report. -/
  | report
  /-- No wires. -/
  | noWires
  /-- No symbols. -/
  | noSymbols
  /-- Overwrite a file. -/
  | force
  /-- Say more. -/
  | verbose
  /-- Say how the program is used. -/
  | help
  /-- Say which version of the program this is. -/
  | version
  deriving DecidableEq, Repr, Inhabited

namespace CommandOption

/-- The long name. -/
def longName : CommandOption → String
  | .output => "output"
  | .config => "config"
  | .symbols => "symbols"
  | .ids => "ids"
  | .report => "report"
  | .noWires => "no-wires"
  | .noSymbols => "no-symbols"
  | .force => "force"
  | .verbose => "verbose"
  | .help => "help"
  | .version => "version"

/-- The short name. -/
def shortName? : CommandOption → Option Char
  | .output => some 'o'
  | .config => some 'c'
  | .verbose => some 'v'
  | .help => some 'h'
  | .version => some 'V'
  | _ => none

/-- Whether a value follows. -/
def takesValue : CommandOption → Bool
  | .output | .config | .symbols | .ids | .report => true
  | _ => false

/-- Whether an option may be given more than once. -/
def isRepeatable : CommandOption → Bool
  | .verbose => true
  | _ => false

end CommandOption

/-- A command. -/
inductive CommandName where
  /-- Draw a circuit. -/
  | synth
  /-- Report on a circuit. -/
  | validate
  /-- Write the default configuration. -/
  | init
  deriving DecidableEq, Repr, Inhabited

/-- The command of a name. -/
def CommandName.ofText? (text : String) : Option CommandName :=
  if text = "synth" then some .synth
  else if text = "validate" then some .validate
  else if text = "init" then some .init
  else none

/-- The options of a command. -/
def CommandName.options : CommandName → List CommandOption
  | .synth | .validate =>
      [.output, .config, .symbols, .ids, .noWires, .noSymbols, .report, .verbose, .help]
  | .init => [.output, .force, .verbose, .help]

/-- How many files a command takes that are no option's. -/
def CommandName.places : CommandName → Nat
  | .synth | .validate => 1
  | .init => 0

/-- The options that may stand before the command. -/
def commonOptions : List CommandOption := [.verbose, .help, .version]

/-! ### Arguments -/

/-- An argument. -/
inductive Argument where
  /-- An option with its value, if it takes one. -/
  | option (name : CommandOption) (value : String)
  /-- Something that is no option. -/
  | plain (text : String)
  deriving DecidableEq, Repr, Inhabited

/-- Why nothing is run for some arguments. -/
inductive UsageError where
  /-- Help is asked for. -/
  | help
  /-- The version is asked for. -/
  | version
  /-- They are wrong. -/
  | wrong
  deriving DecidableEq, Repr, Inhabited

/-- What an option asks for instead of a run. -/
def CommandOption.detour? : CommandOption → Option UsageError
  | .help => some .help
  | .version => some .version
  | _ => none

/-- What the first of some arguments says: options, and one whose value is the
next argument. -/
structure OptionGroup where
  /-- The options that are complete. -/
  complete : List Argument
  /-- The option that still lacks its value. -/
  pending : Option CommandOption
  deriving Repr, Inhabited

/-- An option that stands alone: complete, unless it takes a value. -/
def OptionGroup.ofOption (o : CommandOption) : Except UsageError OptionGroup :=
  match o.detour? with
  | some detour => .error detour
  | none => .ok (if o.takesValue then ⟨[], some o⟩ else ⟨[.option o ""], none⟩)

/-- A long option, without its dashes. -/
def longOption (allowed : List CommandOption) (text : List Char) : Except UsageError OptionGroup :=
  let name := String.ofList (text.takeWhile (· ≠ '='))
  match allowed.find? fun o => o.longName == name, text.dropWhile (· ≠ '=') with
  | none, _ => .error .wrong
  | some o, [] => OptionGroup.ofOption o
  | some o, _ :: value =>
      if o.takesValue then .ok ⟨[.option o (String.ofList value)], none⟩ else .error .wrong

/-- Short options, without their dash.  One that takes a value takes the rest of
the argument, if there is any. -/
def shortOptions (allowed : List CommandOption) : List Char → Except UsageError OptionGroup
  | [] => .ok ⟨[], none⟩
  | c :: rest =>
      match allowed.find? fun o => o.shortName? == some c with
      | none => .error .wrong
      | some o =>
          if o.takesValue && !rest.isEmpty then
            let value := if rest.head? = some '=' then rest.tail else rest
            .ok ⟨[.option o (String.ofList value)], none⟩
          else do
            let first ← OptionGroup.ofOption o
            let others ← shortOptions allowed rest
            .ok ⟨first.complete ++ others.complete, first.pending <|> others.pending⟩

/-- The options in an argument; none if it is a plain one. -/
def optionGroup? (allowed : List CommandOption) (text : String) :
    Option (Except UsageError OptionGroup) :=
  match text.toList with
  | '-' :: '-' :: name => some (longOption allowed name)
  | '-' :: c :: rest => some (shortOptions allowed (c :: rest))
  | _ => none

/-- The value of an option, if it is among some arguments. -/
def valueOf? (args : List Argument) (o : CommandOption) : Option String :=
  args.findSome? fun
    | .option name value => if name = o then some value else none
    | .plain _ => none

/-- Whether an option is among some arguments. -/
def isGiven (args : List Argument) (o : CommandOption) : Bool := (valueOf? args o).isSome

/-- Those of some arguments that are no options. -/
def plainOf (args : List Argument) : List String :=
  args.filterMap fun
    | .plain text => some text
    | .option .. => none

/-- Whether an argument may follow others: an option may be given again only if
it is repeatable, a file needs a place, and neither a file nor the value of an
option is the empty text. -/
def Argument.mayFollow (places : Nat) (others : List Argument) : Argument → Bool
  | .option o value => (o.isRepeatable || !isGiven others o) && !(o.takesValue && value = "")
  | .plain text => (plainOf others).length < places && text ≠ ""

/-- Add arguments one by one to those that came before. -/
def acceptArguments (places : Nat) (others args : List Argument) :
    Except UsageError (List Argument) :=
  args.foldlM
    (fun seen arg => if arg.mayFollow places seen then .ok (seen ++ [arg]) else .error .wrong)
    others

/-- Tell the arguments of a command apart, where `seen` came before.  After two
dashes nothing is an option.  The first argument that is wrong or that asks for
something else than a run decides, whatever comes after it. -/
def scanArguments (command : CommandName) (seen : List Argument) :
    List String → Except UsageError (List Argument)
  | [] => .ok seen
  | text :: rest =>
      if text = "--" then acceptArguments command.places seen (rest.map .plain)
      else
        match optionGroup? command.options text with
        | none => do
            let seen ← acceptArguments command.places seen [.plain text]
            scanArguments command seen rest
        | some (.error e) => .error e
        | some (.ok g) =>
            match g.pending, rest with
            | none, rest => do
                let seen ← acceptArguments command.places seen g.complete
                scanArguments command seen rest
            | some _, [] => .error .wrong
            | some o, value :: rest =>
                if (optionGroup? [] value).isSome then .error .wrong
                else do
                  let args := g.complete ++ [.option o value]
                  let seen ← acceptArguments command.places seen args
                  scanArguments command seen rest

/-! ### Invocations -/

/-- What is asked of the program. -/
inductive Invocation where
  /-- Draw a circuit, or only report on it, and put the report into a file. -/
  | draw (write : Bool) (options : RunOptions) (report : Option String)
  /-- Write the default configuration. -/
  | configure (path : String) (force : Bool)
  deriving Repr, Inhabited

namespace Invocation

/-- What a command asks for with some arguments, unless its file is missing. -/
def ofArguments? (command : CommandName) (args : List Argument) : Option Invocation :=
  match command, plainOf args with
  | .init, _ =>
      some (.configure ((valueOf? args .output).getD defaultConfigPath) (isGiven args .force))
  | command, circuit :: _ =>
      let options : RunOptions :=
        { circuit
          outDir := (valueOf? args .output).getD "."
          config := some ((valueOf? args .config).getD defaultConfigPath)
          symbols := valueOf? args .symbols
          ids := valueOf? args .ids
          noWires := isGiven args .noWires
          noSymbols := isGiven args .noSymbols }
      some (.draw (command = .synth) options (valueOf? args .report))
  | _, [] => none

/-- Split the arguments at the command, the first one that is no option. -/
def splitCommand : List String → Except UsageError (String × List String)
  | [] => .error .wrong
  | text :: rest =>
      match optionGroup? commonOptions text with
      | none => .ok (text, rest)
      | some (.error e) => .error e
      | some (.ok _) => splitCommand rest

/-- Asking for help by a command, maybe about one of the commands. -/
def helpAbout : List String → UsageError
  | [] => .help
  | [name] => if name = "help" || (CommandName.ofText? name).isSome then .help else .wrong
  | _ => .wrong

/-- What is asked of the program by its arguments. -/
def parse (args : List String) : Except UsageError Invocation := do
  let (name, rest) ← splitCommand args
  match CommandName.ofText? name with
  | none => .error (if name = "help" then helpAbout rest else .wrong)
  | some command =>
      let args ← scanArguments command [] rest
      match ofArguments? command args with
      | some invocation => .ok invocation
      | none => .error .wrong

/-- The files and directories that an invocation names. -/
def namedPaths : Invocation → List String
  | .draw _ o report =>
      [o.circuit, o.outDir, o.idsPath] ++ o.config.toList ++ o.symbols.toList ++ report.toList
  | .configure path _ => [path]

/-- The files that an invocation writes under the name of its circuit. -/
def artifactPaths (f : Files) : Invocation → List String
  | .draw _ o _ =>
      match RunSetup.load f o with
      | .ok s => [schematicPath o.outDir s.circuit.name, netlistPath o.outDir s.circuit.name]
      | .error _ => []
  | .configure .. => []

end Invocation

/-! ### Running -/

/-- What the program leaves behind. -/
structure Outcome where
  /-- The exit code. -/
  exit : Nat
  /-- What it prints. -/
  output : String
  /-- What it prints about errors. -/
  errors : String
  /-- The files. -/
  files : Files
  deriving Repr

namespace Invocation

/-- Report on a circuit, and draw it if asked to. -/
def report (write : Bool) (o : RunOptions) (mint : String → String) : RunM Report := do
  let setup ← RunM.ofExcept (RunSetup.load (← get) o)
  if write then setup.synthesize mint else RunM.ofExcept setup.validate

/-- What is printed before a run. -/
def greeting (write : Bool) (o : RunOptions) (f : Files) : String :=
  "▶ " ++ (if write then "Synthesizing " else "Validating ") ++ o.circuit ++ "\n" ++
    if o.config.all f.contains then "" else "  ⚠ Config not found, using defaults\n"

/-- The error output about a run. -/
def errorText (message : String) : String := "Error: " ++ message ++ "\n"

/-- A run.  Findings only change the exit code. -/
def runCircuit (write : Bool) (o : RunOptions) (reportPath : Option String)
    (mint : String → String) (f : Files) : Outcome :=
  let greeting := greeting write o f
  match report write o mint f with
  | .error e files => { exit := 1, output := greeting, errors := errorText e.message, files }
  | .ok r files =>
      let output := greeting ++ r.summary
      let exit := if r.isClean then 0 else 1
      match reportPath with
      | none => { exit, output, errors := "", files }
      | some path =>
          match r.save path files with
          | .error e files => { exit := 1, output, errors := errorText e.detail, files }
          | .ok _ files =>
              { exit, output := output ++ "Report saved to: " ++ path ++ "\n", errors := "", files }

/-- Write the default configuration, but overwrite nothing unless forced to. -/
def runInit (path : String) (force : Bool) (f : Files) : Outcome :=
  if f.contains path && !force then
    let message := path ++ " already exists (use --force to overwrite)"
    { exit := 1, output := "", errors := errorText message, files := f }
  else
    match writeDefaultConfig path f with
    | .error e files => { exit := 1, output := "", errors := errorText e.message, files }
    | .ok _ files =>
        { exit := 0
          output := "✓ Created default config at: " ++ path ++
            "\n\nEdit this file to tune placement, routing and assembly.\n"
          errors := ""
          files }

/-- Do what is asked for. -/
def run (i : Invocation) (mint : String → String) (f : Files) : Outcome :=
  match i with
  | .draw write options report => runCircuit write options report mint f
  | .configure path force => runInit path force f

end Invocation

/-- The version of the program. -/
def versionText : String := programName ++ " 0.3.0\n"

/-- How the program is used. -/
def usageText : String :=
  "Usage: " ++ programName ++ " [-v] <COMMAND>\n\n" ++
    "  synth <CIRCUIT> [-o DIR] [-c FILE] [--symbols FILE] [--ids FILE]\n" ++
    "        [--no-wires] [--no-symbols] [--report FILE]\n" ++
    "  validate <CIRCUIT> [the same options]\n" ++
    "  init [-o FILE] [--force]\n"

/-- What the program does when it is called with some arguments. -/
def runProgram (args : List String) (mint : String → String) (f : Files) : Outcome :=
  match Invocation.parse args with
  | .ok invocation => invocation.run mint f
  | .error .help => { exit := 0, output := usageText, errors := "", files := f }
  | .error .version => { exit := 0, output := versionText, errors := "", files := f }
  | .error .wrong => { exit := 2, output := "", errors := usageText, files := f }

end Schematic
