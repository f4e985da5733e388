import Stencil.Program.Instr

/-!
# Programs

A program is a list of instructions in which every jump has a place to go to and every scope that
is opened is closed. `link` accepts exactly such lists.
-/
namespace Stencil

/-- A linked list of instructions. -/
structure Program where
  name : Bytes
  instrs : List Instr
  deriving DecidableEq, Repr

/-- Why a list of instructions cannot be linked. -/
inductive LinkError where
  | duplicateLabel (program : Bytes) (label : Int)
  | exitWithoutEnter (program : Bytes) (index : Nat)
  | leftOpen (program : Bytes) (scopes : Nat)
  | undefinedLabel (program : Bytes) (label : Int) (index : Nat)
  deriving DecidableEq, Repr

def LinkError.message : LinkError → Bytes
  | .duplicateLabel p l => p ++ ": duplicate label L" ++ Bytes.ofInt l
  | .exitWithoutEnter p i => p ++ ": scope exit without enter at " ++ Bytes.ofNat i
  | .leftOpen p n => p ++ ": " ++ Bytes.ofNat n ++ " scopes left open"
  | .undefinedLabel p l i =>
    p ++ ": undefined label L" ++ Bytes.ofInt l ++ " at " ++ Bytes.ofNat i

/-- Operations that name a label to go to. -/
def Op.jumps : Op → Bool
  | .jump | .jumpIfNot | .range | .next => true
  | _ => false

namespace Program

/-- Reads the list once from index `i`: labels are new, and no scope is closed that is not open.
`seen` are the labels so far and `depth` counts the open scopes. -/
def checkShape (name : Bytes) : (i : Nat) → (seen : List Int) → (depth : Nat) → List Instr →
    Except LinkError Unit
  | _, _, 0, [] => .ok ()
  | _, _, depth + 1, [] => .error (.leftOpen name (depth + 1))
  | i, seen, depth, instr :: rest =>
    match instr.op with
    | .label =>
      if instr.label ∈ seen then .error (.duplicateLabel name instr.label)
      else checkShape name (i + 1) (instr.label :: seen) depth rest
    | .enterScope => checkShape name (i + 1) seen (depth + 1) rest
    | .exitScope =>
      match depth with
      | 0 => .error (.exitWithoutEnter name i)
      | depth + 1 => checkShape name (i + 1) seen depth rest
    | _ => checkShape name (i + 1) seen depth rest

/-- The labels that the instructions mark. -/
def marked (instrs : List Instr) : List Int :=
  (instrs.filter fun i => i.op == .label).map (·.label)

/-- Every jump names a marked label. -/
def checkJumps (name : Bytes) (labels : List Int) : (i : Nat) → List Instr → Except LinkError Unit
  | _, [] => .ok ()
  | i, instr :: rest =>
    if instr.op.jumps ∧ instr.label ∉ labels then .error (.undefinedLabel name instr.label i)
    else checkJumps name labels (i + 1) rest

/-- Makes a program of instructions, if they can be run. -/
def link (name : Bytes) (instrs : List Instr) : Except LinkError Program := do
  checkShape name 0 [] 0 instrs
  checkJumps name (marked instrs) 0 instrs
  return ⟨name, instrs⟩

/-- The index of the instruction that marks a label; zero when none does. -/
def target (p : Program) (label : Int) : Nat :=
  match p.instrs.findIdx? fun i => i.op == .label && i.label == label with
  | some i => i
  | none => 0

/-- A line of the listing. -/
def listingLine (i : Nat) (instr : Instr) : Bytes := Bytes.padded 4 i ++ " " ++ instr.listing

def listingFrom : Nat → List Instr → Bytes
  | _, [] => []
  | i, instr :: rest => listingLine i instr ++ "\n" ++ listingFrom (i + 1) rest

/-- The listing of a program, one numbered instruction a line. -/
def listing (p : Program) : Bytes := listingFrom 0 p.instrs

end Program

end Stencil
