import Stencil.Markup.Position

/-!
# Template trees

A template is a list of nodes: literal text, interpolations, and directives with their children.
The parts of a chain, such as the alternatives of a condition, are children of the directive that
started the chain.
-/
namespace Stencil.Markup

/-- What is wrong with the place or the name of a directive. -/
inductive Problem where
  | none
  /-- No directive has this name. -/
  | unknown
  /-- The name belongs to a part of a chain, and no such chain is open here. -/
  | misplaced
  /-- A terminator with nothing to close. -/
  | strayTerminator
  deriving DecidableEq, Repr, Inhabited

def Problem.code : Problem → Nat
  | .none => 0
  | .unknown => 1
  | .misplaced => 2
  | .strayTerminator => 3

/-- The head of a directive and what became of its block. -/
structure Tag where
  name : Bytes
  /-- The argument text without the blanks around it, when there are brackets. -/
  args : Option Bytes
  span : Span
  /-- The block was still open at the end of the template. -/
  autoClosed : Bool := false
  problem : Problem := .none
  deriving DecidableEq, Repr, Inhabited

/-- The argument text; empty without brackets. -/
def Tag.expr (t : Tag) : Bytes := t.args.getD []

/-- A node of a template. -/
inductive Node where
  | text (value : Bytes) (span : Span)
  | interpolation (expr : Bytes) (escaped : Bool) (span : Span)
  | directive (tag : Tag) (children : List Node)
  /-- A part of the chain that a directive named `owner` started. -/
  | part (owner : Bytes) (tag : Tag) (children : List Node)
  deriving Repr, Inhabited

namespace Node

/-- The head of a directive or of a part of a chain. -/
def tag? : Node → Option Tag
  | .directive t _ => some t
  | .part _ t _ => some t
  | _ => none

def isPart : Node → Bool
  | .part _ _ _ => true
  | _ => false

def children : Node → List Node
  | .directive _ cs => cs
  | .part _ _ cs => cs
  | _ => []

mutual

/-- The heads of a node and everything below it, in document order. -/
def tags : Node → List Tag
  | .text _ _ => []
  | .interpolation _ _ _ => []
  | .directive t cs => t :: tagsList cs
  | .part _ t cs => t :: tagsList cs

def tagsList : List Node → List Tag
  | [] => []
  | n :: ns => tags n ++ tagsList ns

end

end Node

end Stencil.Markup

/-! ### Induction -/

namespace Stencil.Markup

mutual

/-- Induction on the children of nodes. -/
theorem Node.byChildren {P : Node → Prop} (h : ∀ n, (∀ c ∈ n.children, P c) → P n) : ∀ n, P n
  | .text value span => h (.text value span) nofun
  | .interpolation expr escaped span => h (.interpolation expr escaped span) nofun
  | .directive tag children => h (.directive tag children) (Node.byChildrenAll h children)
  | .part owner tag children => h (.part owner tag children) (Node.byChildrenAll h children)

theorem Node.byChildrenAll {P : Node → Prop} (h : ∀ n, (∀ c ∈ n.children, P c) → P n) : ∀ ns : List Node, ∀ n ∈ ns, P n
  | [] => nofun
  | n :: ns => List.forall_mem_cons.mpr ⟨Node.byChildren h n, Node.byChildrenAll h ns⟩

end

theorem Node.mem_tagsList {tag : Tag} {ns : List Node} : tag ∈ Node.tagsList ns ↔ ∃ n ∈ ns, tag ∈ n.tags := by
  induction ns with
  | nil => simp [Node.tagsList]
  | cons n ns ih => simp [Node.tagsList, ih]

end Stencil.Markup
