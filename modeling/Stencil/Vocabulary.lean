import Stencil.Loader

/-!
# Vocabularies

The kinds that have both a number and a name, and the way from one to the other. A number beyond a
vocabulary still has a text; a name outside it is refused.
-/
namespace Stencil

/-- A family of named kinds. -/
inductive Vocabulary where
  | op
  | scopeMode
  | paramKind
  | policy
  | diagnosticKind
  | nodeKind
  deriving DecidableEq, Repr

namespace Vocabulary

/-- The vocabulary of a name; every other name means the kinds of nodes. -/
def ofName (name : Bytes) : Vocabulary :=
  match name.toString with
  | "op" => .op
  | "mode" => .scopeMode
  | "param" => .paramKind
  | "policy" => .policy
  | "diag" => .diagnosticKind
  | _ => .nodeKind

/-- The kinds of nodes; the first is that of a whole template. -/
def nodeKinds : List Bytes := ["root", "text", "interpolation", "directive", "subdirective"]

/-- The text of a number that has no name. -/
def unnamed (n : Int) : Bytes := "kind(" ++ Bytes.ofInt n ++ ")"

/-- The names of a list by number. -/
def listed (names : List Bytes) (n : Int) : Bytes :=
  if 0 ≤ n then names[n.toNat]?.getD (unnamed n) else unnamed n

/-- The text of the kind with a number. -/
def text : Vocabulary → Int → Bytes
  | .op, n => (Op.ofCode n.toNat).name
  | .scopeMode, n => (ScopeMode.ofCode n.toNat).name
  | .paramKind, n => listed (Argument.ParamKind.all.map (·.name)) n
  | .policy, n => (if n = 1 then Policy.never else Policy.always).name
  | .diagnosticKind, n => (DiagnosticKind.ofCode n).name
  | .nodeKind, n => listed nodeKinds n

/-- The number of a name in a list of names. -/
def find (what : Bytes) (names : List Bytes) (name : Bytes) : Except Failure Nat :=
  if names.contains name then .ok (names.findIdx (· == name))
  else .error (.refused ("unknown " ++ what ++ " " ++ Text.quoted name))

/-- The number of the kind with a name. -/
def number : Vocabulary → Bytes → Except Failure Nat
  | .op, name => find "op" (Op.all.map (·.name)) name
  | .scopeMode, name => find "scope mode" (ScopeMode.all.map (·.name)) name
  | .paramKind, name => find "parameter kind" (Argument.ParamKind.all.map (·.name)) name
  | .policy, name => (Policy.ofName name).map fun p => if p = .never then 1 else 0
  | .diagnosticKind, name => find "diagnostic kind" (DiagnosticKind.all.map (·.name)) name
  | .nodeKind, name => find "node kind" nodeKinds name

end Vocabulary

end Stencil
