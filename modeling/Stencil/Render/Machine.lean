import Stencil.Render.State

/-!
# The render machine

Runs programs. A frame is the execution of one program: where it stands, how many scopes it has
opened and which loops are running. One step executes one instruction; rendering another template
runs its program to the end within the step.
-/
namespace Stencil.Render

/-- A running loop. -/
structure Loop where
  /-- The entries after the current one. -/
  rest : List Value.Entry
  index : Nat
  length : Nat
  /-- The scope that the loop binds its names in, by the number of scopes around it; none once
  that scope is closed. -/
  level : Option Nat
  item : Bytes
  key : Bytes

/-- The execution of one program. -/
structure Frame where
  pc : Nat := 0
  /-- How many scopes the program has opened. -/
  opened : Nat := 0
  loops : List Loop := []
  state : State

/-- What a run comes to: an error leaves the state as it was reached. -/
abbrev Outcome := Except Failure Unit × State

/-- What one step comes to. -/
inductive Step where
  | next (f : Frame)
  | stop (e : Failure) (f : Frame)

/-- What loops tell about the step they are at. -/
def Loop.info (l : Loop) : Value :=
  .record [("index", .nat l.index), ("first", .bool (l.index = 0)),
    ("last", .bool (l.index + 1 = l.length)), ("length", .nat l.length)]

/-- The bindings of the current step of a loop. -/
def Loop.bindings (l : Loop) (e : Value.Entry) : Bindings :=
  (if l.item = [] then [] else [(l.item, e.value)])
    ++ (if l.key = [] then [] else [(l.key, e.key)])
    ++ [(("loop" : Bytes), l.info)]

/-- Binds the names of a loop to the current entry. -/
def Loop.bind (l : Loop) (e : Value.Entry) (m : State) : State :=
  match l.level with
  | none => m
  | some level =>
    m.atLevel level fun s => { s with vars := Assoc.insertAll s.vars (l.bindings e) }

/-- A loop once the scope at a level is closed. -/
def Loop.detach (level : Nat) (l : Loop) : Loop :=
  if l.level = some level then { l with level := none } else l

/-- Loads the template `name` and opens the scope that it is rendered in. -/
def openTemplate (host : Host) (name : Bytes) (vars : Bindings) (m : State) :
    Except Failure Program × State :=
  match host.compile with
  | none => (.error (.noLoader name), m)
  | some compile =>
    if host.maxDepth ≤ m.shared.depth then (.error (.renderTooDeep name host.maxDepth), m)
    else if m.shared.session.canceled then (.error .canceled, m)
    else
      let (loaded, session) := m.shared.session.load compile name
      let m := { m with shared := { m.shared with session } }
      match loaded with
      | .error e => (.error e, m)
      | .ok p => (.ok p, (m.enter { vars }).deepen)

/-- Renders the template `name` in a scope of its own and appends its output. `run` runs a program
in the state it is given. -/
def renderTemplate (host : Host) (run : Program → State → Outcome) (name : Bytes) (vars : Bindings)
    (m : State) : Outcome :=
  match openTemplate host name vars m with
  | (.error e, m) => (.error e, m)
  | (.ok p, inner) =>
    let (result, after) := run p inner
    let back := after.leave.rise
    match result with
    | .error e => (.error e, back)
    | .ok _ => (.ok (), back.write after.top.out)

/-- What an instruction binds in the template that it renders. -/
def templateVars (host : Host) (i : Instr) (m : State) : Except Failure Bindings :=
  if i.expr = [] then .ok [] else m.evalBindings host i.expr

/-- What the template of a component is rendered with: also the captured slots, and the output of the
body as the slot without a name. -/
def componentVars (host : Host) (i : Instr) (m : State) : Except Failure Bindings :=
  match templateVars host i m with
  | .error e => .error e
  | .ok props =>
    let slots := Value.record (m.top.slots.map fun s => (s.1, Value.text s.2))
    let props := Assoc.insert ("slot" : Bytes) (.text m.top.out) props
    .ok (Assoc.insert ("slots" : Bytes) slots props)

/-- Disposes of the innermost scope, which `i` closes. -/
def closeScope (host : Host) (run : Program → State → Outcome) (i : Instr) (m : State) : Outcome :=
  let child := m.top
  let parent := m.leave
  match i.mode with
  | .merge => (.ok (), parent.write child.out)
  | .discard => (.ok (), parent)
  | .push => (.ok (), { parent with shared := parent.shared.push i.name child.out })
  | .define => (.ok (), { parent with shared := parent.shared.define i.name child.out })
  | .slot => (.ok (), parent.setSlot i.name child.out)
  | .component =>
    match componentVars host i m with
    | .error e => (.error e, parent)
    | .ok vars => renderTemplate host run i.name vars parent
  | .unknown _ => (.error (.unknownMode i.mode), parent)

/-- Why a value cannot be looped over. A loop over a map with a key that is not found breaks off. -/
def loopFailure : Value → Failure
  | .table type es =>
    if es.any fun e => e.1.isNaN then .panicked "reflect: call of reflect.Value.Interface on zero Value"
    else .cannotIterate (Value.table type es).typeName
  | v => .cannotIterate v.typeName

/-- Starts a loop over entries, or goes on at the label when there are none. -/
def startLoop (p : Program) (i : Instr) (entries : List Value.Entry) (f : Frame) : Frame :=
  match entries with
  | [] => { f with pc := p.target i.label + 1 }
  | e :: rest =>
    let l : Loop :=
      { rest, index := 0, length := entries.length, level := some f.state.outer.length,
        item := i.name, key := i.key }
    { f with pc := f.pc + 1, loops := l :: f.loops, state := l.bind e f.state }

/-- Advances a loop, or ends it. -/
def advanceLoop (p : Program) (i : Instr) (l : Loop) (others : List Loop) (f : Frame) : Frame :=
  match l.rest with
  | [] => { f with pc := f.pc + 1, loops := others }
  | e :: rest =>
    let l := { l with rest, index := l.index + 1 }
    { f with pc := p.target i.label + 1, loops := l :: others, state := l.bind e f.state }

/-- Executes the instruction `i` that a frame stands at. -/
def step (host : Host) (run : Program → State → Outcome) (p : Program) (i : Instr) (f : Frame) :
    Step :=
  let m := f.state
  let fail (e : Failure) (f : Frame) : Step := .stop (.instruction p.name f.pc i e) f
  let go (m : State) : Step := .next { f with pc := f.pc + 1, state := m }
  let jump : Step := .next { f with pc := p.target i.label + 1 }
  let value (use : Value → Step) : Step :=
    match m.eval host i.expr with
    | .error e => fail e f
    | .ok v => use v
  let settle (f : Frame) (o : Outcome) : Step :=
    match o with
    | (.error e, m) => fail e { f with state := m }
    | (.ok _, m) => .next { f with pc := f.pc + 1, state := m }
  match i.op with
  | .text => go (m.write i.text)
  | .emit => value fun v => go (if i.escape then m.writeEscaped v.rendered else m.write v.rendered)
  | .comment => go m
  | .label => go m
  | .jump => jump
  | .jumpIfNot => value fun v => if v.truthy then go m else jump
  | .set => value fun v => go (m.set i.name v)
  | .bind =>
    match m.evalBindings host i.expr with
    | .error e => fail e f
    | .ok bindings => go (m.setAll bindings)
  | .enterScope =>
    .next { f with pc := f.pc + 1, opened := f.opened + 1,
                   state := m.enter { isComponent := i.mode = .component } }
  | .exitScope =>
    match f.opened with
    | 0 => fail .exitWithoutEnter f
    | opened + 1 =>
      let f := { f with opened, loops := f.loops.map (Loop.detach m.outer.length) }
      settle f (closeScope host run i m)
  | .range => value fun v =>
    match v.entries? with
    | none => fail (loopFailure v) f
    | some entries => .next (startLoop p i entries f)
  | .next =>
    match f.loops with
    | [] => fail .nextWithoutRange f
    | l :: others =>
      if m.shared.session.canceled then .stop .canceled f
      else .next (advanceLoop p i l others f)
  | .render =>
    match templateVars host i m with
    | .error e => fail e f
    | .ok vars => settle f (renderTemplate host run i.name vars m)
  | .placeholder => go (m.placeholder i.key i.name i.text)
  | .resolve => go m.resolve
  | .unknown _ => fail (.unknownOp i.op) f

/-- The state once a frame is given up: the scopes it opened are closed. -/
def Frame.abandon (f : Frame) : State := f.state.leaveAll f.opened

/-- The end of a program. -/
def Frame.finish (f : Frame) (p : Program) : Outcome :=
  if f.opened = 0 then (.ok (), f.state.resolve)
  else (.error (.leftOpen p.name f.opened), f.abandon)

/-- Runs a program from where a frame stands. `fuel` bounds the number of steps, and the steps of
rendered templates count anew from what is left. -/
def exec (host : Host) : (fuel : Nat) → Program → Frame → Outcome
  | 0, _, f => (.error .outOfSteps, f.abandon)
  | fuel + 1, p, f =>
    match p.instrs[f.pc]? with
    | none => f.finish p
    | some i =>
      match step host (fun q m => exec host fuel q { state := m }) p i f with
      | .stop e f => (.error e, f.abandon)
      | .next f => exec host fuel p f

/-- Runs a program in a state. -/
def run (host : Host) (p : Program) (m : State) : Outcome :=
  exec host host.stepLimit p { state := m }

end Stencil.Render
