import Stencil.Text.Quoted

/-!
# Instructions

The code that templates compile to. An instruction is a record: its operation says which of the
other fields mean something, and the fields that mean nothing are still carried along, because
stored programs keep them.
-/
namespace Stencil

/-- What an instruction does. -/
inductive Op where
  /-- Appends `text` to the output. -/
  | text
  /-- Appends the value of `expr`, escaped for markup when `escape` is set. -/
  | emit
  /-- Does nothing; `text` says why it stands here. -/
  | comment
  /-- Marks the place `label`. -/
  | label
  /-- Goes on at `label`. -/
  | jump
  /-- Goes on at `label` when the value of `expr` counts as false. -/
  | jumpIfNot
  /-- Binds `name` to the value of `expr` in the current scope. -/
  | set
  /-- Binds every name of the map `expr` in the current scope. -/
  | bind
  /-- Opens a scope; mode `component` makes it the one that collects slots. -/
  | enterScope
  /-- Closes the current scope and disposes of its output as `mode` says. -/
  | exitScope
  /-- Starts a loop over `expr`, binding `name` and `key`; goes on at `label` when there is
  nothing to loop over. -/
  | range
  /-- Advances the innermost loop and goes on at `label` while items remain. -/
  | next
  /-- Renders the template `name` in a scope bound to the map `expr`. -/
  | render
  /-- Writes a placeholder of kind `key` for `name`, with `text` to fall back to. -/
  | placeholder
  /-- Fills in the placeholders of the top level output. -/
  | resolve
  /-- An operation that no machine knows. -/
  | unknown (code : Nat)
  deriving DecidableEq, Repr

/-- What closing a scope does with the scope's output. -/
inductive ScopeMode where
  /-- Appends it to the enclosing output. -/
  | merge
  /-- Drops it. -/
  | discard
  /-- Appends it to the stack `name`. -/
  | push
  /-- Keeps it as the section `name`. -/
  | define
  /-- Keeps it as slot `name` of the enclosing component. -/
  | slot
  /-- Renders the component `name` with it as the default slot. -/
  | component
  /-- A mode that no machine knows. -/
  | unknown (code : Nat)
  deriving DecidableEq, Repr

/-- One instruction. -/
structure Instr where
  op : Op
  text : Bytes := []
  expr : Bytes := []
  name : Bytes := []
  key : Bytes := []
  label : Int := 0
  escape : Bool := false
  mode : ScopeMode := .merge
  deriving DecidableEq, Repr

/-- The known operations in the order of their codes. -/
def Op.all : List Op :=
  [.text, .emit, .comment, .label, .jump, .jumpIfNot, .set, .bind, .enterScope, .exitScope, .range,
    .next, .render, .placeholder, .resolve]

def Op.name : Op → Bytes
  | .text => "text"
  | .emit => "emit"
  | .comment => "comment"
  | .label => "label"
  | .jump => "jump"
  | .jumpIfNot => "jump_if_not"
  | .set => "set"
  | .bind => "bind"
  | .enterScope => "enter_scope"
  | .exitScope => "exit_scope"
  | .range => "range"
  | .next => "next"
  | .render => "render"
  | .placeholder => "placeholder"
  | .resolve => "resolve"
  | .unknown code => "op(" ++ Bytes.ofNat code ++ ")"

/-- The code of an operation. -/
def Op.code : Op → Nat
  | .unknown code => code
  | op => Op.all.findIdx (· == op)

def Op.ofCode (code : Nat) : Op := Op.all[code]?.getD (.unknown code)

/-- The operation of a name. -/
def Op.ofName? (name : Bytes) : Option Op := Op.all.find? fun op => op.name == name

def ScopeMode.all : List ScopeMode := [.merge, .discard, .push, .define, .slot, .component]

def ScopeMode.name : ScopeMode → Bytes
  | .merge => "merge"
  | .discard => "discard"
  | .push => "push"
  | .define => "define"
  | .slot => "slot"
  | .component => "component"
  | .unknown code => "mode(" ++ Bytes.ofNat code ++ ")"

def ScopeMode.code : ScopeMode → Nat
  | .unknown code => code
  | mode => ScopeMode.all.findIdx (· == mode)

def ScopeMode.ofCode (code : Nat) : ScopeMode := ScopeMode.all[code]?.getD (.unknown code)

def ScopeMode.ofName? (name : Bytes) : Option ScopeMode :=
  ScopeMode.all.find? fun mode => mode.name == name

namespace Instr

def literal (s : Bytes) : Instr := { op := .text, text := s }

def emit (expr : Bytes) (escape : Bool) : Instr := { op := .emit, expr, escape }

def comment (s : Bytes) : Instr := { op := .comment, text := s }

def mark (label : Int) : Instr := { op := .label, label }

def jump (label : Int) : Instr := { op := .jump, label }

def jumpIfNot (expr : Bytes) (label : Int) : Instr := { op := .jumpIfNot, expr, label }

def set (name expr : Bytes) : Instr := { op := .set, name, expr }

def bind (expr : Bytes) : Instr := { op := .bind, expr }

def enter : Instr := { op := .enterScope }

def enterComponent : Instr := { op := .enterScope, mode := .component }

def exit (mode : ScopeMode) (name : Bytes) : Instr := { op := .exitScope, mode, name }

/-- The text of an instruction in a listing: the operation and the fields it uses. -/
def listing (i : Instr) : Bytes :=
  let l := "L" ++ Bytes.ofInt i.label
  i.op.name ++
    match i.op with
    | .text | .comment => " " ++ Text.quoted i.text
    | .emit => " " ++ i.expr ++ " escape=" ++ Bytes.ofBool i.escape
    | .label | .jump | .next => " " ++ l
    | .jumpIfNot => " " ++ i.expr ++ " " ++ l
    | .set => " " ++ i.name ++ " = " ++ i.expr
    | .bind => " " ++ i.expr
    | .enterScope => if i.mode = .component then " " ++ i.mode.name else []
    | .exitScope => " " ++ i.mode.name ++ " " ++ i.name
    | .range => " " ++ i.key ++ ", " ++ i.name ++ " in " ++ i.expr ++ " else " ++ l
    | .render => " " ++ i.name ++ " " ++ i.expr
    | .placeholder => " " ++ i.key ++ ":" ++ i.name
    | .resolve | .unknown _ => []

end Instr

end Stencil
