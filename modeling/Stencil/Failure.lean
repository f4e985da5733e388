import Stencil.Argument.Read
import Stencil.Diagnostic
import Stencil.FileTree
import Stencil.Program.Basic

/-!
# Failures

Why compiling, rendering or building did not succeed. Each cause is a constructor and each wording
is in `Failure.message`; a failure inside a larger activity is kept as the cause of the activity's
own failure.
-/
namespace Stencil

/-- A cause of failure. -/
inductive Failure where
  /-- The activity was cancelled. -/
  | canceled
  /-- No template has this path. -/
  | notFound (path : Bytes)
  /-- A registry takes no more definitions once something was compiled with it. -/
  | registrySealed
  /-- Text was added before a file was selected. -/
  | noFile
  | arguments (e : Argument.ReadError)
  | link (e : LinkError)
  /-- A template that cannot be read. -/
  | diagnostic (d : Diagnostic)
  /-- Templates whose directives have errors. -/
  | diagnostics (ds : List Diagnostic)
  /-- A file or directory that cannot be used. -/
  | file (e : FileError)
  /-- A text that is not of its format. -/
  | malformed (format : Bytes)
  -- compiling
  | noResolver (path : Bytes)
  | includeTooDeep (limit : Nat) (path : Bytes)
  /-- The includes from the first occurrence of `path` on. -/
  | includeCycle (through : List Bytes) (path : Bytes)
  | includesItself (path : Bytes)
  | inLiteralContent (name : Bytes) (line : Nat)
  | notIdentifier (what name : Bytes)
  /-- A hook gave up, in its own words. -/
  | refused (text : Bytes)
  /-- A hook stopped abruptly. -/
  | panicked (text : Bytes)
  -- rendering
  | noEvaluator
  | invalidExpression (expr : Bytes)
  | evaluation (expr : Bytes)
  | undefinedVariable (name : Bytes)
  | cannotIterate (type : Bytes)
  | notBindings (type : Bytes)
  | exitWithoutEnter
  | nextWithoutRange
  | unknownOp (op : Op)
  | unknownMode (mode : ScopeMode)
  | noLoader (path : Bytes)
  | renderTooDeep (path : Bytes) (limit : Int)
  | leftOpen (program : Bytes) (scopes : Nat)
  | outOfSteps
  /-- The failure of one instruction of a program. -/
  | instruction (program : Bytes) (index : Nat) (instr : Instr) (cause : Failure)
  /-- A failure of an activity, with what the activity was. -/
  | within (activity : Bytes) (cause : Failure)

def Failure.message : Failure → Bytes
  | .canceled => "context canceled"
  | .notFound path => "template not found: " ++ path
  | .registrySealed => "registry is sealed: directives must be registered before compilation"
  | .noFile => "no file selected"
  | .arguments e => e.message
  | .link e => e.message
  | .diagnostic d => d.text
  | .diagnostics ds => Diagnostic.listText ds
  | .file e => e.message
  | .malformed format => "<" ++ format ++ ">"
  | .noResolver path => "cannot resolve " ++ path ++ ": no resolver configured"
  | .includeTooDeep limit path =>
    "maximum include depth (" ++ Bytes.ofNat limit ++ ") exceeded at " ++ path
  | .includeCycle through path =>
    "include cycle: " ++ Bytes.join " -> " through ++ " -> " ++ path
  | .includesItself path => "include cycle: " ++ path ++ " includes itself"
  | .inLiteralContent name line =>
    "@" ++ name ++ " cannot be used inside literal content (line " ++ Bytes.ofNat line ++ ")"
  | .notIdentifier what name => what ++ " " ++ Text.quoted name ++ " is not a valid identifier"
  | .refused text => text
  | .panicked text => "panic: " ++ text
  | .noEvaluator => "no evaluator configured"
  | .invalidExpression expr => "invalid expression " ++ Text.quoted expr ++ ": <expr>"
  | .evaluation expr => "failed to evaluate " ++ Text.quoted expr ++ ": <expr>"
  | .undefinedVariable name => "undefined variable " ++ name
  | .cannotIterate type => "cannot iterate over " ++ type
  | .notBindings type => "expected a map of bindings, got " ++ type
  | .exitWithoutEnter => "scope exit without enter"
  | .nextWithoutRange => "next without range"
  | .unknownOp op => "unknown op " ++ op.name
  | .unknownMode mode => "unknown scope mode " ++ mode.name
  | .noLoader path => "cannot render " ++ path ++ ": no loader configured"
  | .renderTooDeep path limit =>
    "cannot render " ++ path ++ ": maximum render depth (" ++ Bytes.ofInt limit ++ ") exceeded"
  | .leftOpen program scopes => program ++ ": " ++ Bytes.ofNat scopes ++ " scopes left open"
  | .outOfSteps => "step limit exceeded"
  | .instruction program index instr cause =>
    program ++ ": " ++ Program.listingLine index instr ++ ": " ++ cause.message
  | .within activity cause => activity ++ ": " ++ cause.message

/-- The innermost cause. -/
def Failure.root : Failure → Failure
  | .instruction _ _ _ cause => cause.root
  | .within _ cause => cause.root
  | f => f

/-- The diagnostics that a failure carries. -/
def Failure.diagnosticsOf (f : Failure) : List Diagnostic :=
  match f.root with
  | .diagnostic d => [d]
  | .diagnostics ds => ds
  | _ => []

end Stencil
