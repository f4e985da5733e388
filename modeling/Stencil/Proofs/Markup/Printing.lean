import Stencil.Proofs.Markup.Spelling

/-! # Printing of trees

A tree is printed with one form for each node. `Canonical` are the trees that this form can stand for;
which parts may follow one another in a chain is left open. -/

namespace Stencil.Markup

open Stencil.Directive

/-! ### Trees without locations -/

def Tag.bare (t : Tag) : Tag := { t with span := default }

/-- The head `@name(expr)` at no place. -/
def Tag.written (name expr : Bytes) : Tag := { name, args := some expr, span := default }

mutual

/-- The node without its locations. -/
def Node.bare : Node → Node
  | .text value _ => .text value default
  | .interpolation expr escaped _ => .interpolation expr escaped default
  | .directive tag children => .directive tag.bare (Node.bareAll children)
  | .part owner tag children => .part owner tag.bare (Node.bareAll children)

def Node.bareAll : List Node → List Node
  | [] => []
  | n :: ns => n.bare :: Node.bareAll ns

end

@[simp] theorem Node.bareAll_append (a b : List Node) : Node.bareAll (a ++ b) = Node.bareAll a ++ Node.bareAll b := by
  induction a with
  | nil => rfl
  | cons n a ih => simp [Node.bareAll, ih]

/-! ### Printing -/

/-- Literal text: at signs are doubled. -/
def doubled : Bytes → Bytes
  | [] => []
  | c :: s => if c = ascii '@' then c :: c :: doubled s else c :: doubled s

def printHead (name expr : Bytes) : Bytes := ascii '@' :: (name ++ ascii '(' :: (expr ++ [ascii ')']))

section
variable (r : Registry)

mutual

/-- A node as it is written: expressions between single spaces, heads with brackets, and a terminator
after each block. -/
def print : Node → Bytes
  | .text value _ => doubled value
  | .interpolation expr escaped _ => opening escaped ++ 32 :: (expr ++ 32 :: closing escaped)
  | .directive tag children =>
    printHead tag.name tag.expr ++ (printAll children ++
      if (r.lookup tag.name).any (·.block) then printHead terminator [] else [])
  | .part _ tag children => printHead tag.name tag.expr ++ printAll children

def printAll : List Node → Bytes
  | [] => []
  | n :: ns => print n ++ printAll ns

end

@[simp] theorem printAll_append (a b : List Node) : printAll r (a ++ b) = printAll r a ++ printAll r b := by
  induction a with
  | nil => simp [printAll]
  | cons n a ih => simp [printAll, ih]

end

/-! ### Canonical trees -/

/-- Names as they are read: without a dash at the end. -/
structure IsName (name : Bytes) : Prop where
  start : name.head?.any isNameStart = true
  bytes : name.all isNameByte = true
  last : name.getLast? ≠ some (ascii '-')

/-- A head with brackets around balanced arguments, in its place and with nothing left open. -/
structure Tag.Canonical (t : Tag) : Prop where
  name : IsName t.name
  notEnd : t.name ≠ terminator
  bracketed : t.args.isSome = true
  trimmed : Text.trim t.expr = t.expr
  balanced : Argument.Balanced t.expr
  closed : t.autoClosed = false
  problem : t.problem = .none

/-- Text in which nothing else starts. -/
structure IsText (value : Bytes) : Prop where
  nonempty : value ≠ []
  escaped : Bytes.contains (opening true) value = false
  raw : Bytes.contains (opening false) value = false
  last : value.getLast? ≠ some openBrace

def startsWithText : List Node → Bool
  | .text _ _ :: _ => true
  | _ => false

section
variable (r : Registry) (follows : Definition → List Node → Bytes → Prop)

mutual

/-- A canonical list of nodes that are no parts, in a chain that may have the parts `chain`. In a verbatim
block there are only text and interpolations. -/
inductive Canonical : (chain : List Definition) → (verbatim : Bool) → List Node → Prop
  | nil {chain : List Definition} {verbatim : Bool} : Canonical chain verbatim []
  | text {chain : List Definition} {verbatim : Bool} {value : Bytes} {span : Span} {ns : List Node} (hvalue : IsText value)
      (hnext : startsWithText ns = false) (rest : Canonical chain verbatim ns) :
      Canonical chain verbatim (.text value span :: ns)
  | interpolation {chain : List Definition} {verbatim : Bool} {expr : Bytes} {escaped : Bool} {span : Span}
      {ns : List Node} (htrim : Text.trim expr = expr) (hclose : Bytes.contains (closing escaped) expr = false)
      (rest : Canonical chain verbatim ns) : Canonical chain verbatim (.interpolation expr escaped span :: ns)
  | lone {chain : List Definition} {tag : Tag} {d : Definition} {ns : List Node} (htag : tag.Canonical)
      (hfree : ∀ p ∈ chain, p.name ≠ tag.name) (hlookup : r.lookup tag.name = some d) (hblock : d.block = false)
      (rest : Canonical chain false ns) : Canonical chain false (.directive tag [] :: ns)
  | block {chain : List Definition} {tag : Tag} {d : Definition} {body parts ns : List Node} (htag : tag.Canonical)
      (hfree : ∀ p ∈ chain, p.name ≠ tag.name) (hlookup : r.lookup tag.name = some d) (hblock : d.block = true)
      (hbody : Canonical d.parts d.isVerbatim body) (hparts : CanonicalParts tag.name d d body parts)
      (hverbatim : d.isVerbatim = true → parts = []) (rest : Canonical chain false ns) :
      Canonical chain false (.directive tag (body ++ parts) :: ns)

/-- The canonical parts of a chain that starts with a directive `owner`, defined by `d`, after a link that
`link` defines and that holds the nodes `body`. -/
inductive CanonicalParts : (owner : Bytes) → (d link : Definition) → (body : List Node) → List Node → Prop
  | nil {owner : Bytes} {d link : Definition} {body : List Node} : CanonicalParts owner d link body []
  | cons {owner : Bytes} {d link p : Definition} {before body ns : List Node} {tag : Tag} (htag : tag.Canonical)
      (hpart : d.part? tag.name = some p) (hfollows : follows link before tag.name)
      (hbody : Canonical d.parts p.isVerbatim body) (rest : CanonicalParts owner d p body ns) :
      CanonicalParts owner d link before (.part owner tag body :: ns)

end

end

/-! ### Glued parts -/

/-- Whether a word ends right before what follows some nodes, if it does so before them. -/
def gluedAfter (glued : Bool) : List Node → Bool
  | [] => glued
  | .text value _ :: ns => gluedAfter (value.getLast?.any isWordByte) ns
  | _ :: ns => gluedAfter false ns

/-- A part is recognised after a link: the link is not verbatim, and a part that is glued to a word
has a name that the registry knows. -/
def Recognised (r : Registry) (link : Definition) (body : List Node) (name : Bytes) : Prop :=
  link.isVerbatim = false ∧
    (gluedAfter false body = true → r.isPart name = true ∨ (r.lookup name).isSome = true)

end Stencil.Markup
