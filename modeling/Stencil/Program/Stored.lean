import Stencil.Json.Fields
import Stencil.Program.Basic

/-!
# Stored programs

Programs as JSON: the fields of an instruction that are empty are left out. Reading keeps to the
types of the fields, takes field names in any letter case, passes over unknown fields, and refuses
operations and modes without a name. What is read is linked again.
-/
namespace Stencil

/-- The content of a stored program, not yet linked; the instructions may be missing. -/
structure StoredProgram where
  name : Bytes := []
  instrs : Option (List Instr) := none

/-- Why a stored program cannot be read. -/
inductive StoredError where
  | malformed
  | unknownOp (name : Bytes)
  | unknownMode (name : Bytes)
  | link (e : LinkError)
  deriving DecidableEq, Repr

def StoredError.message : StoredError → Bytes
  | .malformed => "<json>"
  | .unknownOp name => "unknown op " ++ Text.quoted name
  | .unknownMode name => "unknown scope mode " ++ Text.quoted name
  | .link e => e.message

namespace Instr

/-- A text member, left out when empty. -/
def textMember (name : Bytes) (s : Bytes) : List (Bytes × Json) :=
  if s = [] then [] else [(name, .string s)]

def toJson (i : Instr) : Json :=
  .object <|
    [Json.member "op" (.string i.op.name)] ++ textMember "text" i.text ++ textMember "expr" i.expr
      ++ textMember "name" i.name ++ textMember "key" i.key
      ++ (if i.label = 0 then [] else [Json.member "label" (.ofInt i.label)])
      ++ (if i.escape then [Json.member "escape" (.bool true)] else [])
      ++ (if i.mode = .merge then [] else [Json.member "mode" (.string i.mode.name)])

end Instr

def StoredProgram.toJson (p : StoredProgram) : Json :=
  .object [("name", .string p.name),
    ("instrs", match p.instrs with
      | some instrs => .array (instrs.map Instr.toJson)
      | none => .null)]

def Program.stored (p : Program) : StoredProgram := ⟨p.name, some p.instrs⟩

/-- The stored text of a program. -/
def Program.encode (p : Program) : Bytes := p.stored.toJson.compact

namespace StoredProgram

open Json

/-- A program that is being read. -/
structure Draft where
  name : Bytes := []
  instrs : Option (Slots Instr) := none

/-- What was read, unless it was of the wrong type. -/
def typed {α : Type} (a : Option α) : Except StoredError α :=
  match a with
  | some a => .ok a
  | none => .error .malformed

/-- A name of an operation or a mode, or what the field held before. -/
def readNamed {α : Type} (ofName? : Bytes → Option α) (unknown : Bytes → StoredError) (old : α) :
    Json → Except StoredError α
  | .string s =>
    match ofName? s with
    | some a => .ok a
    | none => .error (unknown s)
  | .null => .ok old
  | _ => .error .malformed

/-- Sets a field of an instruction from a member. An absent value leaves the field alone. -/
def setField (i : Instr) (key : Bytes) (j : Json) : Except StoredError Instr :=
  if sameField key "op" then
    (readNamed Op.ofName? .unknownOp i.op j).map fun op => { i with op }
  else if sameField key "mode" then
    (readNamed ScopeMode.ofName? .unknownMode i.mode j).map fun mode => { i with mode }
  else if sameField key "text" then (typed (readText i.text j)).map fun text => { i with text }
  else if sameField key "expr" then (typed (readText i.expr j)).map fun expr => { i with expr }
  else if sameField key "name" then (typed (readText i.name j)).map fun name => { i with name }
  else if sameField key "key" then (typed (readText i.key j)).map fun key => { i with key }
  else if sameField key "label" then (typed (readInt i.label j)).map fun label => { i with label }
  else if sameField key "escape" then
    (typed (readBool i.escape j)).map fun escape => { i with escape }
  else .ok i

/-- An instruction, laid over an earlier one in its place. -/
def readInstr (old : Instr) : Json → Except StoredError Instr
  | .object members => members.foldlM (fun i m => setField i m.1 m.2) old
  | .null => .ok old
  | _ => .error .malformed

/-- Sets a field of a program from a member. -/
def setDraft (d : Draft) (key : Bytes) (j : Json) : Except StoredError Draft :=
  if sameField key "name" then (typed (readText d.name j)).map fun name => { d with name }
  else if sameField key "instrs" then do
    match ← typed (items? j) with
    | some js =>
      let instrs ← Slots.laidOver readInstr { op := .text } (d.instrs.getD {}) js
      return { d with instrs := some instrs }
    | none => return { d with instrs := none }
  else .ok d

/-- Reads a tree. The first fault in the order of the text counts. -/
def ofJson : Json → Except StoredError StoredProgram
  | .object members =>
    (members.foldlM (fun d m => setDraft d m.1 m.2) {}).map fun d => ⟨d.name, d.instrs.map (·.items)⟩
  | .null => .ok {}
  | _ => .error .malformed

def link (p : StoredProgram) : Except StoredError Program :=
  (Program.link p.name (p.instrs.getD [])).mapError StoredError.link

/-- Reads the text of a stored program. -/
def decode (text : Bytes) : Except StoredError StoredProgram :=
  match Json.parse text with
  | some j => ofJson j
  | none => .error .malformed

end StoredProgram

end Stencil
