import Stencil.Directive.Registry

/-!
# Open blocks

A template tree under construction. The blocks that are still open form a stack; each is a chain
in which every link is a part of the link outside it, and the innermost link takes the nodes that
come. A new part either opens inside the innermost link or takes its place.
-/
namespace Stencil.Markup

open Stencil.Directive

/-- A node that is still open. Lists of nodes are kept last first. -/
structure Link where
  tag : Tag
  definition : Definition
  /-- The name of the directive it is a part of; not used for the first link of a chain. -/
  owner : Bytes
  children : List Node
  /-- Parts without a block that came while an inner link was open; they follow it. -/
  later : List Node

/-- An open block: the innermost link of its chain, and the links outside it. -/
structure Block where
  top : Link
  outer : List Link

/-- The tree so far. -/
structure Outline where
  root : List Node := []
  /-- The open blocks, innermost first. -/
  blocks : List Block := []

def Link.ofTag (tag : Tag) (definition : Definition) (owner : Bytes) : Link :=
  ⟨tag, definition, owner, [], []⟩

/-- Takes in the inner link, now closed. -/
def Link.adopt (l : Link) (n : Node) : Link :=
  { l with children := l.later ++ n :: l.children, later := [] }

def Link.closedAt (l : Link) (stop : Position) (auto : Bool) : Link :=
  { l with tag := { l.tag with span := ⟨l.tag.span.start, stop⟩, autoClosed := auto } }

def Link.partNode (l : Link) : Node := .part l.owner l.tag l.children.reverse

namespace Block

/-- The finished node of a chain, folded from the innermost link outwards. -/
def collapse (top : Link) : List Link → Node
  | [] => .directive top.tag top.children.reverse
  | o :: os => collapse (o.adopt top.partNode) os

/-- Closes the chain. The innermost link and the one it is a part of end at `stop`. -/
def finish (b : Block) (stop : Position) (auto : Bool) : Node :=
  let top := b.top.closedAt stop auto
  match b.outer with
  | [] => collapse top []
  | o :: os => collapse top (o.closedAt stop auto :: os)

/-- The part that a name stands for here, and whether it opens inside the innermost link or next
to it. -/
def partFor (b : Block) (name : Bytes) : Option (Bool × Definition) :=
  match b.top.definition.part? name with
  | some d => some (true, d)
  | none =>
    match b.outer with
    | [] => none
    | o :: _ => (o.definition.part? name).map (false, ·)

/-- Adds a part to the chain. -/
def addPart (b : Block) (inner : Bool) (tag : Tag) (d : Definition) : Block :=
  if inner then
    if d.block then ⟨Link.ofTag tag d b.top.tag.name, b.top :: b.outer⟩
    else ⟨{ b.top with children := .part b.top.tag.name tag [] :: b.top.children }, b.outer⟩
  else match b.outer with
    | [] => b
    | o :: os =>
      if d.block then ⟨Link.ofTag tag d o.tag.name, o.adopt b.top.partNode :: os⟩
      else ⟨b.top, { o with later := .part o.tag.name tag [] :: o.later } :: os⟩

end Block

namespace Outline

/-- The nodes of the innermost open link, or of the template itself. -/
def current (o : Outline) : List Node :=
  match o.blocks with
  | [] => o.root
  | b :: _ => b.top.children

def withCurrent (o : Outline) (nodes : List Node) : Outline :=
  match o.blocks with
  | [] => { o with root := nodes }
  | b :: bs => { o with blocks := ⟨{ b.top with children := nodes }, b.outer⟩ :: bs }

def push (o : Outline) (n : Node) : Outline := o.withCurrent (n :: o.current)

/-- Adds literal text, joined to the text node before it. -/
def pushText (o : Outline) (value : Bytes) (span : Span) : Outline :=
  match o.current with
  | .text before s :: rest => o.withCurrent (.text (before ++ value) ⟨s.start, span.stop⟩ :: rest)
  | _ => o.push (.text value span)

/-- Whether the innermost open block holds literal script or style text. -/
def verbatim (o : Outline) : Bool :=
  match o.blocks with
  | [] => false
  | b :: _ => b.top.definition.isVerbatim

/-- Closes the innermost block. -/
def closeTop (o : Outline) (stop : Position) (auto : Bool) : Outline :=
  match o.blocks with
  | [] => o
  | b :: bs => Outline.push { o with blocks := bs } (b.finish stop auto)

/-- Closes what is open at the end of the template. -/
def closeAll (stop : Position) : (root : List Node) → List Block → List Node
  | root, [] => root
  | root, [b] => b.finish stop true :: root
  | root, b :: outer :: bs =>
    closeAll stop root
      (⟨{ outer.top with children := b.finish stop true :: outer.top.children }, outer.outer⟩ :: bs)
termination_by _ bs => bs.length

/-- The finished tree. -/
def nodes (o : Outline) (stop : Position) : List Node := (closeAll stop o.root o.blocks).reverse

end Outline

end Stencil.Markup
