import Tracepoint.Cli.Help
import Tracepoint.Instrument.Run

/-!
# The program

Three commands: to instrument a project, to print its classpath, and to list the
detectors and listeners there are. A command that succeeds ends with code 0, one
that fails with code 1 and an error on the error output. A command line that does
not fit ends with code 2.
-/

namespace Tracepoint.Cli

open Config Detect Instrument

/-! ## The commands -/

def programName : String := "code-injector"

def programVersion : String := "0.1.0"

def projectOperand : Operand := ⟨"project", ".", "Project directory"⟩

def instrumentCommand : Signature where
  name := "instrument"
  help := "Instrument a project's sources"
  operand := some projectOperand
  options := [
    { name := "output", short := some 'o', kind := some .path, required := true
      help := "Output directory" },
    { name := "config", short := some 'c', kind := some .path, required := true
      help := "Injector configuration (TOML)" },
    { name := "production-dir", kind := some .path
      help := "Directory holding the build descriptor, relative to the project" },
    { name := "source-dir", kind := some .path
      help := "Source directory relative to the project (overrides the configuration)" },
    { name := "file-by-file"
      help := "Process each file separately, retrying failures without classpath" },
    { name := "no-classpath"
      help := "Do not resolve the classpath; unresolved imports are tolerated" },
    { name := "pom", kind := some .path, help := "Build descriptor override" },
    { name := "classpath", kind := some .path, repetition := .often
      help := "Extra classpath entries (repeatable)" },
    { name := "maven-repo", kind := some .path, help := "Local Maven repository" },
    { name := "compliance", kind := some (.number (Nat.pow 2 32)), default := some "8"
      help := "Target language level" },
    { name := "no-auto-imports"
      help := "Write fully qualified names instead of adding imports" },
    { name := "id-file", kind := some .text, default := some "id.map"
      help := "Name of the id map file written below <output>/log" },
    { name := "copy-project"
      help := "Copy the whole project into the output directory first" },
    { name := "run-tests", help := "Compile and test the output after instrumenting" },
    { name := "build-program", kind := some .text, default := some "mvn"
      help := "Build tool executable" },
    { name := "phases", kind := some .text, repetition := .listed, default := some "clean,test"
      help := "Build phases (comma separated)" },
    { name := "build-timeout", kind := some (.number (Nat.pow 2 64)), default := some "600"
      help := "Build timeout in seconds (0 = no timeout)" },
    { name := "verbose-build", help := "Print build tool output" }]

def classpathCommand : Signature where
  name := "classpath"
  help := "Print the resolved compile classpath of a project"
  operand := some projectOperand
  options := [
    { name := "pom", kind := some .path
      help := "Build descriptor (defaults to <project>/pom.xml)" },
    { name := "maven-repo", kind := some .path, help := "Local Maven repository" },
    { name := "classpath", kind := some .path, repetition := .often
      help := "Extra classpath entries appended after the resolved ones" },
    { name := "format", kind := some .text, default := some "text"
      help := "Output format: text or json" }]

def detectorsCommand : Signature where
  name := "detectors"
  help := "List available detector and listener types"

def commands : List Signature := [instrumentCommand, classpathCommand, detectorsCommand]

/-! ## Instrumenting -/

/-- The path that an option gives. -/
def path? (v : Values) (name : String) : Option Path := (v.first? name).map Path.mk

def number (v : Values) (name : String) : Nat := ((v.first? name).bind number?).getD 0

/-- The options of a run. -/
def optionsOf (v : Values) : Instrument.Options :=
  let base : Instrument.Options := {}
  { projectDir := (path? v "project").getD base.projectDir
    outputDir := (path? v "output").getD base.outputDir
    productionDir := (path? v "production-dir").getD base.productionDir
    pom := path? v "pom"
    classpath := (v.all "classpath").map Path.mk
    mavenRepo := path? v "maven-repo"
    useClasspath := !v.has "no-classpath"
    fileByFile := v.has "file-by-file"
    complianceLevel := number v "compliance"
    autoImports := !v.has "no-auto-imports"
    copyProject := v.has "copy-project"
    idFile := (v.first? "id-file").getD base.idFile
    buildProgram := (v.first? "build-program").getD base.buildProgram
    buildPhases := v.all "phases"
    buildTimeout := number v "build-timeout"
    verboseBuild := v.has "verbose-build" }

/-- Prints a title with the number of paths, and the paths, if there are any. -/
def printPaths (title : String) (paths : List Path) : Action Unit := do
  if !paths.isEmpty then
    Action.print s!"{title} ({paths.length}):"
    paths.forM fun p => Action.print s!"  {p.text}"

def printReport (r : Report) : Action Unit := do
  Action.print (s!"Instrumented {r.total.units} files: {r.total.detected} elements detected, " ++
    s!"{r.total.written} files written")
  printPaths "Succeeded without classpath" r.retried
  printPaths "Failed" r.failed
  Action.print s!"Id map: {r.idFile.text}"

/-- Runs, prints the report and tests the output if that is asked for. -/
def instrumentJob (test : Bool) : Job Unit := do
  let report ← Instrument.run
  Job.act (printReport report)
  if test then
    let success ← runTests
    Job.act (Action.print s!"Build succeeded in {secondsText success.milliseconds}")

def instrument (v : Values) : Action Unit := do
  let config ← Configuration.load ((path? v "config").getD ⟨""⟩) .standard
  let config := { config with sourceDir := (path? v "source-dir").getD config.sourceDir }
  if config.description ≠ "" then Action.print config.description
  Job.on (instrumentJob (v.has "run-tests")) (← Instrumenter.start (optionsOf v) config)

/-! ## The classpath -/

/-- A character as it stands in a quoted text. -/
def jsonChar (c : Char) : List Char :=
  match c with
  | '"' => ['\\', '"']
  | '\\' => ['\\', '\\']
  | '\n' => ['\\', 'n']
  | '\r' => ['\\', 'r']
  | '\t' => ['\\', 't']
  | '\x08' => ['\\', 'b']
  | '\x0c' => ['\\', 'f']
  | _ =>
    if c.toNat < 32 then
      ['\\', 'u', '0', '0', Nat.digitChar (c.toNat / 16), Nat.digitChar (c.toNat % 16)]
    else [c]

/-- A text in quotes. -/
def jsonText (text : String) : String :=
  String.ofList ('"' :: text.toList.flatMap jsonChar ++ ['"'])

/-- A list of texts, one on a line. -/
def jsonList (texts : List String) : String :=
  if texts.isEmpty then "[]"
  else "[\n" ++ String.intercalate ",\n" (texts.map fun t => "  " ++ jsonText t) ++ "\n]"

def classpath (v : Values) : Action Unit := do
  let repository ← match path? v "maven-repo" with
    | some repository => pure (some repository)
    | none => Maven.repository?
  let project := (path? v "project").getD ⟨"."⟩
  let descriptor := (path? v "pom").getD (project.join ⟨"pom.xml"⟩)
  let resolved ← (Maven.Resolver.ofRepository repository).classpath descriptor
    ((v.all "classpath").map Path.mk)
  let texts := resolved.entries.map (·.text)
  if v.first? "format" = some "json" then Action.print (jsonList texts)
  else if texts.isEmpty then Action.print "No classpath entries resolved"
  else texts.forM Action.print

/-! ## The catalog -/

def printListing (title : String) (listing : Listing) : Action Unit := do
  Action.print s!"{title}:"
  listing.forM fun (name, description) => Action.print s!"  {padTo 14 name} {description}"

def detectors : Action Unit := do
  printListing "Detectors" Catalog.standard.detectors
  Action.print ""
  printListing "Listeners" Catalog.standard.listeners

/-! ## The program -/

/-- What a command does with its values. -/
def perform (s : Signature) (v : Values) : Action Unit :=
  if s.name = instrumentCommand.name then instrument v
  else if s.name = classpathCommand.name then classpath v
  else detectors

/-- The examples at the end of the full help text. -/
def examples : String := "

EXAMPLES:
    # Instrument a Maven project in batch mode
    code-injector instrument ./shop --output ./shop-instrumented --config tracing.toml

    # Instrument file by file, retrying failures without classpath
    code-injector instrument ./shop -o ./out -c tracing.toml --file-by-file

    # Instrument, then compile and test the output
    code-injector instrument ./shop -o ./out -c tracing.toml --copy-project --run-tests

    # Print the resolved compile classpath
    code-injector classpath ./shop --format json

    # List available detectors and listeners
    code-injector detectors"

/-- The help text of the program. -/
def programHelp (full : Bool) : String :=
  let help := if full then "Print help (see a summary with '-h')"
    else "Print help (see more with '--help')"
  let listed := commands.map (fun c => Item.mk c.name c.help) ++
    [⟨"help", "Print this message or the help of the given subcommand(s)"⟩]
  let overview := HelpSection.render false ⟨"Commands", listed⟩
  let options := HelpSection.render full
    ⟨"Options", [helpItem help, ⟨"-V, --version", "Print version"⟩]⟩
  let head := renderHelp full "CLI tool for tree-sitter based Java source instrumentation"
    (programName ++ " <COMMAND>") []
  String.intercalate "\n\n" [head, overview, options] ++ (if full then "\n" ++ examples else "")

/-- What a command line asks for. -/
inductive Task where
  | run (s : Signature) (v : Values)
  | display (text : String)
  | misuse
deriving Inhabited

/-- The task of a command with its arguments. -/
def taskOf (s : Signature) (args : List String) : Task :=
  match s.values args with
  | .ok v => .run s v
  | .error (.help _) => .display (s.helpText programName)
  | .error .misuse => .misuse

def command? (name : String) : Option Signature := commands.find? (·.name = name)

/-- What the command line of the program asks for. -/
def parse (args : List String) : Task :=
  match args with
  | [] => .misuse
  | ["help"] => .display (programHelp true)
  | ["help", name] =>
    match command? name with
    | some s => .display (s.helpText programName)
    | none => .misuse
  | first :: rest =>
    match command? first, first.toList with
    | some s, _ => taskOf s rest
    | none, '-' :: 'h' :: _ => .display (programHelp false)
    | none, '-' :: 'V' :: _ => .display (programName ++ " " ++ programVersion)
    | none, _ =>
      if first = "--help" then .display (programHelp true)
      else if first = "--version" then .display (programName ++ " " ++ programVersion)
      else .misuse

/-- The code that the program ends with, and what goes to the error output. -/
structure Exit where
  code : Nat
  complaint : String := ""
deriving DecidableEq, Repr, Inhabited

/-- Does what a command line asks for. -/
def execute (args : List String) : StateM World Exit := do
  match parse args with
  | .misuse => return ⟨2, s!"Usage: {programName} <COMMAND>"⟩
  | .display text =>
    let _ ← (Action.print text).run
    return ⟨0, ""⟩
  | .run s v =>
    match ← (perform s v).run with
    | .ok () => return ⟨0, ""⟩
    | .error e => return ⟨1, s!"Error: {e.message}"⟩

end Tracepoint.Cli
