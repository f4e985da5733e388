import Stencil.Directive.Definition

/-!
# Hooks as lists of actions

A plain notation for hooks: each action is a request with fixed arguments, or writes what it finds
to the log. The first failure ends the hook.
-/
namespace Stencil.Directive

/-- The ways to read an argument. -/
inductive Accessor where
  | string
  | number
  | bool
  | value
  | object
  | array
  | has
  | raw
  deriving DecidableEq, Repr

/-- The accessor of a name; every other name means the argument as it is written. -/
def Accessor.ofName (name : Bytes) : Accessor :=
  match name.toString with
  | "string" => .string
  | "number" => .number
  | "bool" => .bool
  | "value" => .value
  | "object" => .object
  | "array" => .array
  | "has" => .has
  | _ => .raw

/-- One step of a hook. -/
inductive Action where
  /-- Logs a mark with the name of the directive. -/
  | trace (mark : Bytes)
  | emit (place : Place) (instrs : List Instr)
  | add (text : Bytes)
  /-- Selects a loader and keeps the one before it for `restore`. -/
  | use (loader : Bytes)
  /-- Goes back to the loader before the last `use` of this hook. -/
  | restore
  | loader
  /-- Keeps a new label in the data of the chain. -/
  | label (key : Bytes)
  /-- Marks, or jumps to, the label kept under a key. -/
  | mark (key : Bytes)
  | jump (key : Bytes)
  | compile (which : Selection)
  | chain
  /-- Adds the children as literal text. -/
  | literal (which : Selection)
  /-- Finds another template and compiles it in place. -/
  | include (path bindings : Bytes)
  | arg (accessor : Accessor) (name : Bytes)
  | setData (key : Bytes) (value : Value)
  | getData (key : Bytes)
  | setState (key : Bytes) (value : Value)
  | getState (key : Bytes)
  | used (name : Bytes)
  | path
  | owner
  | cancel
  | fail (text : Bytes)
  | panic (text : Bytes)

/-- What an accessor gives; an absent object, list or argument is an absent value. -/
def Accessor.read (a : Accessor) (args : Argument.Arguments) (name : Bytes) :
    Except Argument.ReadError Value :=
  match a with
  | .string => (args.string name).map .text
  | .number => (args.number name).map .float
  | .bool => (args.bool name).map .bool
  | .value => args.value name
  | .object => (args.object name).map fun o => (o.map .record).getD .null
  | .array => (args.array name).map fun o => (o.map .items).getD .null
  | .has => .ok (.bool (args.has name))
  | .raw => .ok (((args.raw? name).map .text).getD .null)

/-- The label kept under a key; zero when none is. -/
def labelOf : Option Value → Int
  | some (.int n) => n
  | _ => 0

/-- Where a hook runs: at a use of a directive, or at the start or end of a template. -/
inductive Site where
  | call (c : Call)
  | file (u : UnitInfo)

def Site.unit : Site → UnitInfo
  | .call c => c.unit
  | .file u => u

def Site.name : Site → Bytes
  | .call c => c.tag.name
  | .file _ => "file"

/-- The script of a list of actions; `kept` are the loaders to go back to, the last one first. -/
def Action.script (site : Site) : (kept : List Bytes) → List Action → Script Unit
  | _, [] => .done ()
  | kept, a :: rest =>
    let next := Action.script site kept rest
    match a with
    | .trace note => .log (note ++ ":" ++ site.name) next
    | .emit place instrs => .emit place instrs next
    | .add text => .add text next
    | .use name =>
      .loader fun previous => .useLoader name (Action.script site (previous :: kept) rest)
    | .restore =>
      match kept with
      | [] => next
      | previous :: older => .useLoader previous (Action.script site older rest)
    | .loader => .loader fun name => .log ("loader=" ++ name) next
    | .label key => .newLabel fun l => .setData key (.int l) next
    | .mark key => .getData key fun v => .emit .here [.mark (labelOf v)] next
    | .jump key => .getData key fun v => .emit .here [.jump (labelOf v)] next
    | .compile which => .compile which fun r => (Script.ofExcept r).bind fun _ => next
    | .chain => .chain fun r => (Script.ofExcept r).bind fun _ => next
    | .literal which => .literalText which fun r => (Script.ofExcept r).bind fun s => .add s next
    | .include target bindings =>
      .resolve target fun r => (Script.ofExcept r).bind fun src =>
        .embed target src bindings fun r => (Script.ofExcept r).bind fun _ => next
    | .arg accessor name =>
      match site with
      | .call c =>
        match accessor.read c.args name with
        | .ok v => .log (name ++ "=" ++ v.display) next
        | .error e => .log (name ++ "=error: " ++ e.message) next
      | .file _ => next
    | .setData key value => .setData key value next
    | .getData key => .getData key fun v => .log ("data " ++ key ++ "=" ++ (v.getD .null).display) next
    | .setState key value => .setState key value next
    | .getState key => .getState key fun v =>
        .log ("state " ++ key ++ "=" ++ (v.getD .null).display ++ " " ++ Bytes.ofBool v.isSome) next
    | .used name =>
      .log ("used " ++ name ++ "=" ++ Bytes.ofBool (site.unit.uses name) ++ " count="
        ++ Bytes.ofNat (site.unit.count name)) next
    | .path => .log ("path=" ++ site.unit.path) next
    | .owner =>
      match site with
      | .call c => .log ("owner=" ++ c.owner) next
      | .file _ => next
    | .cancel => .cancel next
    | .fail text => .fail (.refused text)
    | .panic text => .abort text

/-- An action by its name and its arguments, which are texts, a value after the first text, or
instructions. -/
def Action.ofName? (name : Bytes) (texts : List Bytes) (value : Value) (instrs : List Instr) :
    Option Action :=
  let first := texts.headD []
  let second := texts.tail.headD []
  match name.toString with
  | "trace" => some (.trace first)
  | "emit" => some (.emit .here instrs)
  | "emit_pre" => some (.emit .before instrs)
  | "emit_post" => some (.emit .after instrs)
  | "add" => some (.add first)
  | "use" => some (.use first)
  | "restore" => some .restore
  | "loader" => some .loader
  | "label" => some (.label first)
  | "mark" => some (.mark first)
  | "jump" => some (.jump first)
  | "compile" => some (.compile .regular)
  | "compile_all" => some (.compile .all)
  | "chain" => some .chain
  | "string" => some (.literal .regular)
  | "string_all" => some (.literal .all)
  | "include" => some (.include first second)
  | "arg" => some (.arg (.ofName first) second)
  | "set_data" => some (.setData first value)
  | "get_data" => some (.getData first)
  | "set_state" => some (.setState first value)
  | "get_state" => some (.getState first)
  | "used" => some (.used first)
  | "path" => some .path
  | "owner" => some .owner
  | "cancel" => some .cancel
  | "fail" => some (.fail first)
  | "panic" => some (.panic first)
  | _ => none

/-- A hook at uses of a directive. -/
def Action.hook (actions : List Action) : Call → Script Unit :=
  fun c => Action.script (.call c) [] actions

/-- A hook at the start or end of a template. -/
def Action.fileHook (actions : List Action) : UnitInfo → Script Unit :=
  fun u => Action.script (.file u) [] actions

end Stencil.Directive
