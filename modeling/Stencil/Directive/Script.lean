import Stencil.Failure

/-!
# Hook scripts

What a directive does while a template is compiled is written as a script: a tree of requests to
the compiler, each with what to do next. The compiler decides what a request does; a script only
sees the answers. Requests that can fail hand the failure to the script, which may go on.
-/
namespace Stencil.Directive

/-- Where instructions go: the section at hand, or the one before or after the body. -/
inductive Place where
  | here
  | before
  | after
  deriving DecidableEq, Repr

/-- Which children of a node a request is about. -/
inductive Selection where
  /-- Those that are not parts of the chain. -/
  | regular
  /-- All of them. -/
  | all
  deriving DecidableEq, Repr

/-- A script with a result in `α`. -/
inductive Script (α : Type) : Type where
  | done (a : α)
  /-- Gives up with a failure. -/
  | fail (e : Failure)
  /-- Stops abruptly. -/
  | abort (text : Bytes)
  | emit (place : Place) (instrs : List Instr) (next : Script α)
  /-- A label that no other request gets. -/
  | newLabel (next : Nat → Script α)
  /-- Adds literal text to the output of the selected loader. -/
  | add (text : Bytes) (next : Script α)
  | loader (next : Bytes → Script α)
  | useLoader (name : Bytes) (next : Script α)
  /-- Compiles children of the node at hand. -/
  | compile (which : Selection) (next : Except Failure Unit → Script α)
  /-- Runs the parts of the chain of the node at hand. -/
  | chain (next : Except Failure Unit → Script α)
  /-- The children as literal text. -/
  | literalText (which : Selection) (next : Except Failure Bytes → Script α)
  /-- The source of another template. -/
  | resolve (path : Bytes) (next : Except Failure Bytes → Script α)
  /-- Compiles a source in place, in a scope of its own. -/
  | embed (path src bindings : Bytes) (next : Except Failure Unit → Script α)
  /-- What the compilation remembers under a key. -/
  | getState (key : Bytes) (next : Option Value → Script α)
  | setState (key : Bytes) (value : Value) (next : Script α)
  /-- What the chain at hand remembers under a key. -/
  | getData (key : Bytes) (next : Option Value → Script α)
  | setData (key : Bytes) (value : Value) (next : Script α)
  /-- Writes a line to the log. -/
  | log (line : Bytes) (next : Script α)
  /-- Cancels the whole activity. -/
  | cancel (next : Script α)

namespace Script

variable {α β : Type}

/-- Goes on with another script. -/
def bind (s : Script α) (f : α → Script β) : Script β :=
  match s with
  | .done a => f a
  | .fail e => .fail e
  | .abort t => .abort t
  | .emit p is k => .emit p is (bind k f)
  | .newLabel k => .newLabel fun l => bind (k l) f
  | .add t k => .add t (bind k f)
  | .loader k => .loader fun n => bind (k n) f
  | .useLoader n k => .useLoader n (bind k f)
  | .compile w k => .compile w fun r => bind (k r) f
  | .chain k => .chain fun r => bind (k r) f
  | .literalText w k => .literalText w fun r => bind (k r) f
  | .resolve p k => .resolve p fun r => bind (k r) f
  | .embed p s w k => .embed p s w fun r => bind (k r) f
  | .getState n k => .getState n fun v => bind (k v) f
  | .setState n v k => .setState n v (bind k f)
  | .getData n k => .getData n fun v => bind (k v) f
  | .setData n v k => .setData n v (bind k f)
  | .log l k => .log l (bind k f)
  | .cancel k => .cancel (bind k f)

instance : Monad Script where
  pure := .done
  bind := bind

/-- The answer, or the failure as the script's own. -/
def ofExcept : Except Failure α → Script α
  | .ok a => .done a
  | .error e => .fail e

/-- The answer of a reader of arguments. -/
def ofRead : Except Argument.ReadError α → Script α
  | .ok a => .done a
  | .error e => .fail (.arguments e)

/-! ### Requests -/

def emits (instrs : List Instr) : Script Unit := .emit .here instrs (.done ())

def label : Script Nat := .newLabel .done

def text (s : Bytes) : Script Unit := .add s (.done ())

/-- Runs a request, failing with it. -/
def compiled (which : Selection) : Script Unit := .compile which ofExcept

def chained : Script Unit := .chain ofExcept

def literal (which : Selection) : Script Bytes := .literalText which ofExcept

def state? (key : Bytes) : Script (Option Value) := .getState key .done

def remember (key : Bytes) (value : Value) : Script Unit := .setState key value (.done ())

def data? (key : Bytes) : Script (Option Value) := .getData key .done

def keep (key : Bytes) (value : Value) : Script Unit := .setData key value (.done ())

def refuse (text : Bytes) : Script α := .fail (.refused text)

/-- Adds text to the output of another loader. -/
def addTo (name text : Bytes) : Script Unit :=
  .loader fun previous => .useLoader name (.add text (.useLoader previous (.done ())))

end Script

end Stencil.Directive
