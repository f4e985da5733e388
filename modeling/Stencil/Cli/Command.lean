import Stencil.Cache.Basic
import Stencil.Cli.Arguments
import Stencil.Cli.Report
import Stencil.Directive.Schema
import Stencil.Project.Basic
import Stencil.Project.Data

/-!
# Commands

What the program does for a command line, as a function from the files below the working directory
to what is printed and the files afterwards.
-/
namespace Stencil.Cli

/-- What a run of the program leaves. -/
structure Outcome where
  exit : Nat := 0
  stdout : Bytes := []
  stderr : Bytes := []
  files : FileTree

/-- Ends a run with a failure. -/
def Outcome.fail (o : Outcome) (message : Bytes) : Outcome :=
  { o with exit := 1, stderr := o.stderr ++ "error: " ++ message ++ "\n" }

/-- The commands of the program. -/
inductive Command where
  | render
  | build
  | check
  | schema
  deriving DecidableEq, Repr

namespace Command

def all : List Command := [.render, .build, .check, .schema]

def name : Command → Bytes
  | .render => "render"
  | .build => "build"
  | .check => "check"
  | .schema => "schema"

end Command

/-! ### Flags -/

/-- The flags that may stand anywhere. -/
def commonFlags : List Flag := [{ name := "project", letter := ascii 'C' }]

def helpFlag : Flag := { name := "help", letter := ascii 'h', isSwitch := true }

/-- The flags of the program itself. -/
def programFlags : List Flag :=
  commonFlags ++ [helpFlag, { name := "version", letter := ascii 'v', isSwitch := true }]

def Command.flags (c : Command) : List Flag :=
  commonFlags ++ [helpFlag] ++
    match c with
    | .render =>
      [{ name := "data", letter := ascii 'd' }, { name := "set" },
        { name := "output", letter := ascii 'o' }]
    | .build => [{ name := "output", letter := ascii 'o' }, { name := "no-cache", isSwitch := true }]
    | .check => []
    | .schema => [{ name := "format", letter := ascii 'f' }]

/-! ### What is asked for -/

/-- What a command line asks for. -/
inductive Request where
  | help
  | version
  | run (command : Command) (args : Parsed)

/-- The least number of letters to change, put in or leave out to get from one word to another. -/
def editDistance (a b : Bytes) : Nat :=
  (a.foldl
    (fun (row : List Nat) c =>
      let next := (b.zip (row.zip row.tail)).foldl
        (fun (done : List Nat) (d, diagonal, up) =>
          min (min (up + 1) (done.headD 0 + 1)) (diagonal + if c = d then 0 else 1) :: done)
        [row.headD 0 + 1]
      next.reverse)
    (List.range (b.length + 1))).getLastD 0

/-- The commands that a wrong name may have meant. -/
def similarCommands (name : Bytes) : List Bytes :=
  (Command.all.map Command.name ++ [("completion" : Bytes)]).filter fun known =>
    let typed := name.map Bytes.lowerByte
    editDistance typed known ≤ 2 || Bytes.startsWith typed known

/-- Reads a command line. -/
def request (args : List Bytes) : Except UsageError Request := do
  let words := plain commonFlags args
  match Command.all.find? fun c => some c.name == words.head? with
  | none =>
    match words with
    | word :: _ => throw (.unknownCommand word (similarCommands word))
    | [] =>
      let p ← parse programFlags args
      return if p.isOn "version" && !p.isOn "help" then .version else .help
  | some c =>
    let p ← parse c.flags (without commonFlags c.name args)
    if p.isOn "help" then return .help
    if c = .render ∧ p.args.length ≠ 1 then throw (.wrongCount 1 p.args.length)
    return .run c p

/-! ### Texts -/

def versionText : Bytes := programName ++ " version 0.1.0-preview (commit: dev, built: unknown)\n"

/-- What the program is and what it takes, line by line. -/
def helpLines : List Bytes :=
  ["Sigil compiles @directive templates into render programs, client",
    "scripts and stylesheets named by content hash, and renders them.",
    "",
    "Usage:",
    "  sigil [command]",
    "",
    "Available Commands:",
    "  build       Compile every template into hashed artifacts",
    "  check       Report template errors and warnings",
    "  render      Render a template",
    "  schema      Print the directive schema",
    "",
    "Flags:",
    "  -h, --help             help for sigil",
    "  -C, --project string   Project directory containing sigil.yaml (default \".\")",
    "  -v, --version          version for sigil"]

def helpText : Bytes := helpLines.flatMap (· ++ [10])

/-- How many of some templates had errors. -/
def countText (failed total : Nat) : Bytes :=
  Bytes.ofNat failed ++ " of " ++ Bytes.ofNat total ++ " templates had errors"

/-! ### Rendering -/

/-- Renders a template with data. -/
def render (p : Project) (args : Parsed) (files : FileTree) : Outcome :=
  let template := args.args.headD []
  match TemplateData.load files ((args.value? "data").getD []) (args.all "set") with
  | .error f => ({ files } : Outcome).fail f.message
  | .ok data =>
    match ((p.engine files).render template data false).1 with
    | .error f =>
      ({ files, stderr := failureLines template f } : Outcome).fail ("failed to render " ++ template)
    | .ok out =>
      let target := (args.value? "output").getD []
      if target = [] then { files, stdout := out }
      else match files.write target out with
        | .ok files => { files }
        | .error e => ({ files } : Outcome).fail e.message

/-! ### Checking -/

/-- The report on one template, with the number of its errors. -/
def checkTemplate (e : Engine) (path src : Bytes) : Bytes × Nat :=
  match Markup.parse e.registry {} path src with
  | .error d => (failureLines path (.diagnostic d), 1)
  | .ok nodes =>
    match (Compile.compileSource e.registry e.compileOptions path false src).result with
    | .error f => (failureLines path f, 1)
    | .ok t =>
      let ds := Diagnostic.warnings nodes ++ t.errors
      match t.program with
      | .ok _ => (diagnosticLines path ds, errorCount ds)
      | .error f => (failureLines path (.link f) ++ diagnosticLines path ds, errorCount ds + 1)

/-- Checks templates one by one, up to one that cannot be read. -/
def checkAll (p : Project) (files : FileTree) (failed : Nat) (report : Bytes) :
    List Bytes → Bytes × Except Failure Nat
  | [] => (report, .ok failed)
  | path :: paths =>
    match p.read files path with
    | .error f => (report, .error f)
    | .ok src =>
      let (lines, errors) := checkTemplate (p.engine files) path src
      checkAll p files (if errors = 0 then failed else failed + 1) (report ++ lines) paths

/-- Checks the named templates, or all of them. -/
def check (p : Project) (args : Parsed) (files : FileTree) : Outcome :=
  match if args.args = [] then p.pages files else .ok args.args with
  | .error f => ({ files } : Outcome).fail f.message
  | .ok paths =>
    match checkAll p files 0 [] paths with
    | (stderr, .error f) => ({ files, stderr } : Outcome).fail f.message
    | (stderr, .ok 0) =>
      { files, stderr, stdout := "✅ " ++ Bytes.ofNat paths.length ++ " templates OK\n" }
    | (stderr, .ok failed) => ({ files, stderr } : Outcome).fail (countText failed paths.length)

/-! ### Building -/

/-- The most bytes in the unit cache of a project. -/
def cacheSize : Int := 64 * 1024 * 1024

/-- The greatest age of a unit: seven days. -/
def cacheAge : Int := 7 * 24 * 3600 * Instant.nanosPerSecond

/-- A build on its way. The files are those of the cache. -/
structure BuildRun where
  builder : Builder
  held : TimedCache
  stderr : Bytes := []
  failed : Nat := 0

/-- Adds templates one by one, up to one that cannot be read. -/
def addAll (p : Project) (store : Option (UnitStore TimedCache)) (s : BuildRun) :
    List Bytes → Option Failure × BuildRun
  | [] => (none, s)
  | path :: paths =>
    let files := s.held.cache.files
    match p.read files path with
    | .error f => (some f, s)
    | .ok src =>
      let b := { s.builder with options := p.compileOptions files }
      let a := b.addFile store false path src s.held
      let (lines, errors) := match a.failure with
        | some f => (failureLines path f, 1)
        | none => (diagnosticLines path a.errors, errorCount a.errors)
      addAll p store
        { builder := a.builder, held := a.store, stderr := s.stderr ++ lines
          failed := if errors = 0 then s.failed else s.failed + 1 } paths

/-- Writes what was added, and says what went wrong. -/
def finish (output : Bytes) (total : Nat) (s : BuildRun) : Option Bytes × BuildRun :=
  let (r, files) := s.builder.build (Sink.directory output false) s.held.cache.files
  let s := { s with held := { s.held with cache := { s.held.cache with files } } }
  match r with
  | .error f => (some ("failed to write artifacts: " ++ f.message), s)
  | .ok _ => (if s.failed = 0 then none else some (countText s.failed total), s)

/-- Clears the output directory. -/
def clearOutput (files : FileTree) (output : Bytes) : Except Failure FileTree :=
  match files.removeAll output with
  | .error e => .error (.within "failed to clean output directory" (.file e))
  | .ok files =>
    match files.makeDirectory output with
    | .error e => .error (.within "failed to create output directory" (.file e))
    | .ok files => .ok files

/-- Compiles every template into the output directory, and says what went wrong. -/
def buildPages (p : Project) (store : Option (UnitStore TimedCache)) (output : Bytes)
    (held : TimedCache) : Option Bytes × BuildRun :=
  let b : Builder :=
    { registry := Directive.Standard.registry, channels := p.settings.build.channels
      manifestName := p.settings.build.manifest }
  let started (held : TimedCache) : BuildRun := { builder := b, held }
  match p.pages held.cache.files with
  | .error f => (some f.message, started held)
  | .ok paths =>
    match clearOutput held.cache.files output with
    | .error f => (some f.message, started held)
    | .ok files =>
      match addAll p store (started { held with cache := { held.cache with files } }) paths with
      | (some f, s) => (some f.message, s)
      | (none, s) => finish output paths.length s

/-- Builds the project, with a unit cache unless that is switched off or there can be none. -/
def build (p : Project) (args : Parsed) (now : Instant) (files : FileTree) : Outcome :=
  let output := match (args.value? "output").getD [] with
    | [] => Path.join [p.root, p.settings.build.output]
    | path => path
  let opened := if args.isOn "no-cache" then none
    else (UnitCache.openAt (Path.join [p.root, ".sigil", "cache"]) cacheSize cacheAge now files).toOption
  let store := opened.map fun _ => UnitStore.cached
  let held : TimedCache := { cache := opened.getD { dir := [], files }, now }
  let (problem, s) := buildPages p store output held
  let cache := if opened.isSome then s.held.cache.close.2 else s.held.cache
  let o : Outcome := { files := cache.files, stderr := s.stderr }
  match problem with
  | some message => o.fail message
  | none => o

/-! ### The program -/

/-- Runs a command. -/
def Command.run (c : Command) (args : Parsed) (now : Instant) (files : FileTree) : Outcome :=
  let inProject (f : Project → Outcome) : Outcome :=
    match Project.load files ((args.value? "project").getD Path.here) with
    | .error e => ({ files } : Outcome).fail e.message
    | .ok p => f p
  match c with
  | .render => inProject fun p => Cli.render p args files
  | .check => inProject fun p => Cli.check p args files
  | .build => inProject fun p => Cli.build p args now files
  | .schema =>
    match Directive.Standard.registry.writeSchema ((args.value? "format").getD "json") with
    | .ok text => { files, stdout := text }
    | .error f => ({ files } : Outcome).fail f.message

/-- Runs the program on a command line, at an instant, among some files. -/
def run (args : List Bytes) (now : Instant) (files : FileTree) : Outcome :=
  match request args with
  | .error e => ({ files } : Outcome).fail e.message
  | .ok .help => { files, stdout := helpText }
  | .ok .version => { files, stdout := versionText }
  | .ok (.run c p) => c.run p now files

end Stencil.Cli
