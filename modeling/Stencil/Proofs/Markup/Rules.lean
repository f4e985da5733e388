import Stencil.Proofs.Markup.Course
import Stencil.Markup.Node
import Stencil.Proofs.Markup.Spelling

/-! # What may stand in a tree

Rules for nodes say what may stand among the children of a directive or a part, by its name and its definition, or
at the top. If new leaves obey them, and closed directives and parts do when their children do, then the finished
tree does (`obeys_of_parse`): while it is read, the links of an open chain are parts of one another, and all nodes
that are closed stand where the rules allow them. -/

namespace Stencil.Markup

open Stencil.Directive

/-- Rules for the nodes of a tree. -/
structure Rules where
  /-- What may stand in `around`: a directive or part with its definition, or none at the top. -/
  node : (around : Option (Bytes × Definition)) → Node → Prop
  /-- What is asked of heads, wherever they end. -/
  head : Tag → Prop
  /-- What is asked of the head of a directive whose block is closed. -/
  closed : Tag → Prop

/-- The rules fit the way in which trees are made. -/
structure Rules.Lawful (R : Rules) (r : Registry) : Prop where
  text : ∀ around value span, R.node around (.text value span)
  interpolation : ∀ around expr escaped span, R.node around (.interpolation expr escaped span)
  lone : ∀ around tag, R.head tag → ¬OwnsBlock r tag → R.node around (.directive tag [])
  directive : ∀ around tag d children, R.closed tag → tag.problem = .none → r.lookup tag.name = some d →
    (∀ n ∈ children, R.node (some (tag.name, d)) n) → R.node around (.directive tag children)
  part : ∀ name d tag p children, R.head tag → d.part? tag.name = some p →
    (∀ n ∈ children, R.node (some (tag.name, p)) n) → R.node (some (name, d)) (.part name tag children)
  closedAt : ∀ (l : Link) stop auto, R.head l.tag → R.head (l.closedAt stop auto).tag
  problem : ∀ tag problem, R.head tag → R.head { tag with problem }

section
variable {R : Rules} {r : Registry}

/-! ### Links -/

variable (R r)

/-- The head and the nodes of an open link obey the rules. -/
structure Link.Obeys (l : Link) : Prop where
  head : R.head l.tag
  children : ∀ n ∈ l.children, R.node (some (l.tag.name, l.definition)) n
  later : ∀ n ∈ l.later, R.node (some (l.tag.name, l.definition)) n

/-- Each link is a part of the link outside it, and the first one is a directive with a block. -/
inductive Chained : Link → List Link → Prop
  | first {l : Link} (howns : l.Owns r) : Chained l []
  | part {l o : Link} {os : List Link} (howner : l.owner = o.tag.name)
      (hpart : o.definition.part? l.tag.name = some l.definition) (houter : Chained o os) : Chained l (o :: os)

structure Block.Obeys (b : Block) : Prop where
  chained : Chained r b.top b.outer
  top : b.top.Obeys R
  outer : ∀ l ∈ b.outer, l.Obeys R

structure Outline.Obeys (o : Outline) : Prop where
  root : ∀ n ∈ o.root, R.node none n
  blocks : ∀ b ∈ o.blocks, b.Obeys R r

variable {R r}

/-- The link that started a chain. -/
def firstLink : Link → List Link → Link
  | l, [] => l
  | _, o :: os => firstLink o os

def Block.first (b : Block) : Link := firstLink b.top b.outer

/-- The two innermost links end here. -/
def Block.closedAt (b : Block) (stop : Position) (auto : Bool) : Block where
  top := b.top.closedAt stop auto
  outer :=
    match b.outer with
    | [] => []
    | o :: os => o.closedAt stop auto :: os

theorem Block.finish_eq (b : Block) (stop : Position) (auto : Bool) :
    b.finish stop auto = collapse (b.closedAt stop auto).top (b.closedAt stop auto).outer := by
  obtain ⟨top, _ | ⟨o, os⟩⟩ := b <;> rfl

theorem Chained.congr {l l' : Link} {outer : List Link} (h : Chained r l outer) (hname : l'.tag.name = l.tag.name)
    (hproblem : l'.tag.problem = l.tag.problem) (hdefinition : l'.definition = l.definition)
    (howner : l'.owner = l.owner) : Chained r l' outer := by
  cases h with
  | first howns => exact .first ⟨by rw [hname, hdefinition, howns.lookup], hdefinition ▸ howns.block, hproblem.trans howns.problem⟩
  | part ho hpart houter => exact .part (howner.trans ho) (by rw [hname, hdefinition, hpart]) houter

/-- A link outside may change, as long as it is the same use of the same directive. -/
theorem Chained.congr_outer {l o o' : Link} {os : List Link} (h : Chained r l (o :: os)) (hname : o'.tag.name = o.tag.name)
    (hproblem : o'.tag.problem = o.tag.problem) (hdefinition : o'.definition = o.definition)
    (howner : o'.owner = o.owner) : Chained r l (o' :: os) := by
  cases h with
  | part ho hpart houter =>
    exact .part (ho.trans hname.symm) (hdefinition ▸ hpart) (houter.congr hname hproblem hdefinition howner)

variable (hR : R.Lawful r)
include hR

theorem Link.Obeys.closedAt {l : Link} (h : l.Obeys R) (stop : Position) (auto : Bool) :
    (l.closedAt stop auto).Obeys R :=
  ⟨hR.closedAt l stop auto h.head, h.children, h.later⟩

/-- A closed part takes its place in the link around it. -/
theorem Link.Obeys.adopt {o l : Link} {os : List Link} (ho : o.Obeys R) (hl : l.Obeys R)
    (hchain : Chained r l (o :: os)) : (o.adopt l.partNode).Obeys R := by
  cases hchain with
  | part howner hpart houter =>
    have hnode : R.node (some (o.tag.name, o.definition)) l.partNode := by
      rw [partNode, howner]
      refine hR.part _ _ _ _ _ hl.head hpart fun n hn => hl.children n (List.mem_reverse.mp hn)
    refine ⟨ho.head, fun n hn => ?_, nofun⟩
    rcases List.mem_append.mp hn with hn | hn
    · exact ho.later n hn
    · rcases List.mem_cons.mp hn with rfl | hn
      · exact hnode
      · exact ho.children n hn

/-! ### Blocks -/

theorem Block.Obeys.closedAt {b : Block} (h : b.Obeys R r) (stop : Position) (auto : Bool) :
    (b.closedAt stop auto).Obeys R r := by
  obtain ⟨top, _ | ⟨o, os⟩⟩ := b
  · exact ⟨h.chained.congr rfl rfl rfl rfl, h.top.closedAt hR stop auto, nofun⟩
  · have hchain : Chained r (top.closedAt stop auto) (o :: os) := h.chained.congr rfl rfl rfl rfl
    obtain ⟨ho, hos⟩ := List.forall_mem_cons.mp h.outer
    exact ⟨hchain.congr_outer rfl rfl rfl rfl, h.top.closedAt hR stop auto,
      List.forall_mem_cons.mpr ⟨ho.closedAt hR stop auto, hos⟩⟩

/-- The induction folds the chain from the inside; the directive at its start is what is left. -/
theorem node_collapse {outer : List Link} : ∀ {top : Link}, Block.Obeys R r ⟨top, outer⟩ →
    R.closed (firstLink top outer).tag → ∀ around, R.node around (Block.collapse top outer) := by
  induction outer with
  | nil =>
    intro top h hclosed around
    cases h.chained with
    | first howns =>
      exact hR.directive around top.tag top.definition _ hclosed howns.problem howns.lookup
        fun n hn => h.top.children n (List.mem_reverse.mp hn)
  | cons o os ih =>
    intro top h hclosed around
    obtain ⟨ho, hos⟩ := List.forall_mem_cons.mp h.outer
    have hadopt : (o.adopt top.partNode).Obeys R := ho.adopt hR h.top h.chained
    cases h.chained with
    | part howner hpart houter =>
      have hchain : Chained r (o.adopt top.partNode) os := houter.congr rfl rfl rfl rfl
      have hfirst : (firstLink (o.adopt top.partNode) os).tag = (firstLink o os).tag := by cases os <;> rfl
      have hclosed' : R.closed (firstLink (o.adopt top.partNode) os).tag := hfirst ▸ hclosed
      exact ih ⟨hchain, hadopt, hos⟩ hclosed' around

omit hR in
theorem firstLink_mem (outer : List Link) : ∀ top : Link, firstLink top outer ∈ top :: outer := by
  induction outer with
  | nil => exact fun top => List.mem_cons_self
  | cons o os ih => exact fun top => List.mem_cons_of_mem top (ih o)

omit hR in
theorem Block.Obeys.first {b : Block} (h : b.Obeys R r) : b.first.Obeys R :=
  List.forall_mem_cons.mpr ⟨h.top, h.outer⟩ _ (firstLink_mem b.outer b.top)

theorem Block.Obeys.finish {b : Block} (h : b.Obeys R r) {stop : Position} {auto : Bool}
    (hclosed : R.closed (b.closedAt stop auto).first.tag) (around : Option (Bytes × Definition)) :
    R.node around (b.finish stop auto) := by
  rw [Block.finish_eq]
  exact node_collapse hR (h.closedAt hR stop auto) hclosed around

/-- A part opens inside the innermost link, or next to it. -/
theorem Block.Obeys.addPart {b : Block} (h : b.Obeys R r) {tag : Tag} {inner : Bool} {d : Definition}
    (hpart : b.partFor tag.name = some (inner, d)) (hhead : R.head tag) : (b.addPart inner tag d).Obeys R r := by
  obtain ⟨top, outer⟩ := b
  have hfresh (owner : Bytes) : (Link.ofTag tag d owner).Obeys R := ⟨hhead, List.forall_mem_nil _, List.forall_mem_nil _⟩
  have hnode {l : Link} (hd : l.definition.part? tag.name = some d) :
      R.node (some (l.tag.name, l.definition)) (.part l.tag.name tag []) :=
    hR.part _ _ _ _ _ hhead hd (List.forall_mem_nil _)
  unfold Block.partFor at hpart
  split at hpart
  · rename_i d' hd
    cases hpart
    simp only [Block.addPart, if_true]
    split
    · exact ⟨.part rfl hd h.chained, hfresh _, List.forall_mem_cons.mpr ⟨h.top, h.outer⟩⟩
    · exact ⟨h.chained.congr rfl rfl rfl rfl,
        ⟨h.top.head, List.forall_mem_cons.mpr ⟨hnode hd, h.top.children⟩, h.top.later⟩, h.outer⟩
  · cases outer with
    | nil => cases hpart
    | cons o os =>
      obtain ⟨d', hd, heq⟩ := Option.map_eq_some_iff.mp hpart
      cases heq
      obtain ⟨ho, hos⟩ := List.forall_mem_cons.mp h.outer
      simp only [Block.addPart, Bool.false_eq_true, if_false]
      split
      · have hadopt : (o.adopt top.partNode).Obeys R := ho.adopt hR h.top h.chained
        cases h.chained with
        | part howner _ houter =>
          exact ⟨.part rfl hd (houter.congr rfl rfl rfl rfl), hfresh _, List.forall_mem_cons.mpr ⟨hadopt, hos⟩⟩
      · refine ⟨h.chained.congr_outer rfl rfl rfl rfl, h.top, List.forall_mem_cons.mpr ⟨?_, hos⟩⟩
        exact ⟨ho.head, ho.children, List.forall_mem_cons.mpr ⟨hnode hd, ho.later⟩⟩

omit hR

/-! ### Outlines -/

/-- What new nodes stand in. -/
def Outline.around (o : Outline) : Option (Bytes × Definition) :=
  match o.blocks with
  | [] => none
  | b :: _ => some (b.top.tag.name, b.top.definition)

variable {o : Outline}

theorem Outline.Obeys.current (h : o.Obeys R r) : ∀ n ∈ o.current, R.node o.around n := by
  obtain ⟨root, _ | ⟨b, bs⟩⟩ := o
  · exact h.root
  · exact (List.forall_mem_cons.mp h.blocks).1.top.children

theorem Outline.Obeys.withCurrent (h : o.Obeys R r) {nodes : List Node} (hnodes : ∀ n ∈ nodes, R.node o.around n) :
    (o.withCurrent nodes).Obeys R r := by
  obtain ⟨root, _ | ⟨b, bs⟩⟩ := o
  · exact ⟨hnodes, nofun⟩
  · obtain ⟨hb, hbs⟩ := List.forall_mem_cons.mp h.blocks
    refine ⟨h.root, List.forall_mem_cons.mpr ⟨⟨hb.chained.congr rfl rfl rfl rfl, ?_, hb.outer⟩, hbs⟩⟩
    exact ⟨hb.top.head, hnodes, hb.top.later⟩

theorem Outline.Obeys.push (h : o.Obeys R r) {n : Node} (hn : R.node o.around n) : (o.push n).Obeys R r :=
  h.withCurrent (List.forall_mem_cons.mpr ⟨hn, h.current⟩)

include hR

theorem Outline.Obeys.pushText (h : o.Obeys R r) (value : Bytes) (span : Span) : (o.pushText value span).Obeys R r := by
  unfold Outline.pushText
  split
  · rename_i before span' rest hcurrent
    have hrest := h.current
    rw [hcurrent] at hrest
    exact h.withCurrent (List.forall_mem_cons.mpr ⟨hR.text _ _ _, (List.forall_mem_cons.mp hrest).2⟩)
  · exact h.push (hR.text _ _ _)

theorem Outline.Obeys.closeTop (h : o.Obeys R r) {stop : Position} {auto : Bool}
    (hclosed : ∀ b ∈ o.blocks.head?, b.Obeys R r → R.closed (b.closedAt stop auto).first.tag) :
    (o.closeTop stop auto).Obeys R r := by
  obtain ⟨root, _ | ⟨b, bs⟩⟩ := o
  · exact h
  · obtain ⟨hb, hbs⟩ := List.forall_mem_cons.mp h.blocks
    have hrest : Outline.Obeys R r ⟨root, bs⟩ := ⟨h.root, hbs⟩
    exact hrest.push (hb.finish hR (hclosed b rfl hb) _)

/-- A head finds its place, or stays text as a whole. -/
theorem Outline.Obeys.addHead (h : o.Obeys R r) (options : ParseOptions) {tag : Tag} (raw : Bytes)
    (hproblem : tag.problem = .none) (hhead : R.head tag)
    (hclosed : tag.name = terminator → ∀ b ∈ o.blocks.head?, b.Obeys R r →
      R.closed (b.closedAt tag.span.stop false).first.tag) : (o.addHead r options tag raw).Obeys R r := by
  have hlone {problem : Problem} (hne : problem ≠ .none) :
      (o.push (.directive { tag with problem } [])).Obeys R r :=
    h.push (hR.lone _ _ (hR.problem tag problem hhead) fun howns => hne howns.1)
  unfold Outline.addHead
  split
  · rename_i hname
    split
    · exact hlone nofun
    · exact h.closeTop hR (hclosed hname)
  split
  · rename_i b inner d hpart
    obtain ⟨root, _ | ⟨b', bs⟩⟩ := o
    · cases hpart
    · obtain ⟨pair, hpart, hpair⟩ := Option.map_eq_some_iff.mp hpart
      cases hpair
      obtain ⟨hb, hbs⟩ := List.forall_mem_cons.mp h.blocks
      exact ⟨h.root, List.forall_mem_cons.mpr ⟨hb.addPart hR hpart hhead, hbs⟩⟩
  split
  · rename_i d hlookup
    split
    · rename_i hblock
      refine ⟨h.root, List.forall_mem_cons.mpr ⟨⟨.first ⟨hlookup, hblock, hproblem⟩, ?_, nofun⟩, h.blocks⟩⟩
      exact ⟨hhead, nofun, nofun⟩
    · rename_i hblock
      refine h.push (hR.lone _ _ hhead ?_)
      rintro ⟨-, d', hlookup', hblock'⟩
      cases hlookup.symm.trans hlookup'
      exact hblock hblock'
  split
  · exact h.pushText hR raw _
  · refine hlone ?_
    split <;> exact nofun

/-- Closing what is open at the end. -/
theorem nodes_closeAll {stop : Position} {root : List Node} {blocks : List Block} (h : Outline.Obeys R r ⟨root, blocks⟩)
    (hclosed : ∀ b ∈ blocks, b.Obeys R r → R.closed (b.closedAt stop true).first.tag) :
    ∀ n ∈ Outline.closeAll stop root blocks, R.node none n := by
  induction root, blocks using Outline.closeAll.induct stop with
  | case1 root =>
    rw [Outline.closeAll]
    exact h.root
  | case2 root b =>
    rw [Outline.closeAll]
    have hb : b.Obeys R r := h.blocks b List.mem_cons_self
    exact List.forall_mem_cons.mpr ⟨hb.finish hR (hclosed b List.mem_cons_self hb) none, h.root⟩
  | case3 root b outer bs ih =>
    rw [Outline.closeAll]
    obtain ⟨hb, hrest⟩ := List.forall_mem_cons.mp h.blocks
    obtain ⟨hbclosed, hclosed⟩ := List.forall_mem_cons.mp hclosed
    obtain ⟨houter, hbs⟩ := List.forall_mem_cons.mp hclosed
    have hbefore : Outline.Obeys R r ⟨root, outer :: bs⟩ := ⟨h.root, hrest⟩
    refine ih (hbefore.push (hb.finish hR (hbclosed hb) _)) (List.forall_mem_cons.mpr ⟨fun _ => ?_, hbs⟩)
    have hclosed' := houter (List.forall_mem_cons.mp hrest).1
    obtain ⟨top, _ | ⟨o, os⟩⟩ := outer <;> exact hclosed'

/-! ### Reading -/

section
variable {options : ParseOptions} {src : Bytes}
  (hheads : ∀ {s : Reading} {name : Bytes} {args : Option Bytes} {stop : Nat}, Reaches r options src s →
    s.Head r name args stop → R.head { name, args, span := (LineTable.ofText src).span s.offset stop })
  (hends : ∀ {s : Reading} {args : Option Bytes} {stop : Nat} {b : Block}, Reaches r options src s →
    s.Head r terminator args stop → b ∈ s.tree.blocks.head? → b.Obeys R r →
      R.closed (b.closedAt ((LineTable.ofText src).position stop) false).first.tag)
include hheads hends

theorem obeys_of_reaches {s : Reading} (h : Reaches r options src s) : s.tree.Obeys R r := by
  induction h with
  | refl => exact ⟨nofun, nofun⟩
  | @tail s s' hs hstep ih =>
    cases hstep with
    | @mk o offset n before c cs p hpiece =>
      cases p with
      | text value => exact ih.pushText hR value _
      | interpolation expr escaped => exact ih.push (hR.interpolation _ _ _ _)
      | head name args =>
        have hhead : Reading.Head r ⟨o, offset, before, c :: cs⟩ name args _ := ⟨c, cs, n, rfl, hpiece, rfl⟩
        refine ih.addHead hR options _ rfl (hheads hs hhead) fun hname b hb hobeys => ?_
        cases hname
        exact hends hs hhead hb hobeys

/-- The nodes of a template stand where the rules allow them. -/
theorem obeys_of_parse {path : Bytes} {nodes : List Node} (h : parse r options path src = .ok nodes)
    (hopen : ∀ {s : Reading} {b : Block}, Reaches r options src s → s.rest = [] → b ∈ s.tree.blocks → b.Obeys R r →
      R.closed (b.closedAt ((LineTable.ofText src).position src.length) true).first.tag) :
    ∀ n ∈ nodes, R.node none n := by
  obtain ⟨o, before, hreaches, rfl⟩ := exists_reaches_of_parse h
  intro n hn
  exact nodes_closeAll hR (obeys_of_reaches hR hheads hends hreaches) (fun b => hopen hreaches rfl) n
    (List.mem_reverse.mp hn)

end

end

/-! ### Heads -/

/-- The rules for a tree in which something is asked of every head: of its name, its arguments and its start. -/
def heading (P : Bytes → Option Bytes → Position → Prop) : Rules where
  node _ n := ∀ tag ∈ n.tags, P tag.name tag.args tag.span.start
  head tag := P tag.name tag.args tag.span.start
  closed tag := P tag.name tag.args tag.span.start

section
variable {P : Bytes → Option Bytes → Position → Prop} {r : Registry} {options : ParseOptions} {src : Bytes}

theorem lawful_heading : (heading P).Lawful r where
  text _ _ _ := nofun
  interpolation _ _ _ _ := nofun
  lone around tag hhead _ := List.forall_mem_cons.mpr ⟨hhead, nofun⟩
  directive around tag d children hclosed _ _ hchildren := by
    refine List.forall_mem_cons.mpr ⟨hclosed, fun t ht => ?_⟩
    obtain ⟨n, hn, ht⟩ := Node.mem_tagsList.mp ht
    exact hchildren n hn t ht
  part name d tag p children hhead _ hchildren := by
    refine List.forall_mem_cons.mpr ⟨hhead, fun t ht => ?_⟩
    obtain ⟨n, hn, ht⟩ := Node.mem_tagsList.mp ht
    exact hchildren n hn t ht
  closedAt _ _ _ h := h
  problem _ _ h := h

/-- What holds of every head that is read holds of every head of the tree. -/
theorem heads_of_parse {path : Bytes} {nodes : List Node} (h : parse r options path src = .ok nodes)
    (hheads : ∀ {s : Reading} {name : Bytes} {args : Option Bytes} {stop : Nat}, Reaches r options src s →
      s.Head r name args stop → P name args ((LineTable.ofText src).position s.offset)) :
    ∀ tag ∈ Node.tagsList nodes, P tag.name tag.args tag.span.start := by
  have hclosed {b : Block} (hb : b.Obeys (heading P) r) (stop : Position) (auto : Bool) :
      (heading P).closed (b.closedAt stop auto).first.tag := (hb.closedAt lawful_heading stop auto).first.head
  have hnodes := obeys_of_parse lawful_heading hheads (fun _ _ _ hb => hclosed hb _ _) h fun _ _ _ hb => hclosed hb _ _
  intro tag htag
  obtain ⟨n, hn, htag⟩ := Node.mem_tagsList.mp htag
  exact hnodes n hn tag htag

end

end Stencil.Markup

/-! ### Parts stand where they are declared

Which definition a part has is found by going down the tree: that of a directive by its name in the registry, that
of a part by its name among the parts of what it stands in. Reading finds the definitions on its way, in the links
that are open; `declaredAll_of_parse` says that both ways agree. -/

namespace Stencil.Markup

open Stencil.Directive

mutual

/-- Every part stands in a directive or part that declares it, and bears the name of that. `around` is what the node
stands in, with its definition. -/
def Node.Declared (r : Registry) (around : Option (Bytes × Definition)) : Node → Prop
  | .text _ _ => True
  | .interpolation _ _ _ => True
  | .directive tag children =>
    Node.DeclaredAll r (if tag.problem = .none then (r.lookup tag.name).map fun d => (tag.name, d) else none) children
  | .part owner tag children =>
    ∃ d p, around = some (owner, d) ∧ d.part? tag.name = some p ∧ Node.DeclaredAll r (some (tag.name, p)) children

def Node.DeclaredAll (r : Registry) (around : Option (Bytes × Definition)) : List Node → Prop
  | [] => True
  | n :: ns => Node.Declared r around n ∧ Node.DeclaredAll r around ns

end

variable {r : Registry} {options : ParseOptions}

theorem declaredAll_iff {around : Option (Bytes × Definition)} {ns : List Node} :
    Node.DeclaredAll r around ns ↔ ∀ n ∈ ns, n.Declared r around := by
  induction ns with
  | nil => simp [Node.DeclaredAll]
  | cons n ns ih => rw [Node.DeclaredAll, ih, List.forall_mem_cons]

theorem not_isPart_of_declared {n : Node} (h : n.Declared r none) : n.isPart = false := by
  cases n with
  | part owner tag children =>
    obtain ⟨d, p, haround, -⟩ := h
    cases haround
  | text _ _ | interpolation _ _ _ | directive _ _ => rfl

/-- The rules for a tree in which parts stand where they are declared. -/
def declaring (r : Registry) : Rules where
  node := Node.Declared r
  head _ := True
  closed _ := True

theorem lawful_declaring : (declaring r).Lawful r where
  text _ _ _ := trivial
  interpolation _ _ _ _ := trivial
  lone _ _ _ _ := trivial
  directive around tag d children _ hproblem hlookup hchildren := by
    simp only [declaring, Node.Declared, hproblem, hlookup]
    exact declaredAll_iff.mpr hchildren
  part name d tag p children _ hpart hchildren := ⟨d, p, rfl, hpart, declaredAll_iff.mpr hchildren⟩
  closedAt _ _ _ _ := trivial
  problem _ _ _ := trivial

theorem declaredAll_of_parse {path src : Bytes} {nodes : List Node} (h : parse r options path src = .ok nodes) :
    Node.DeclaredAll r none nodes :=
  declaredAll_iff.mpr (obeys_of_parse lawful_declaring (fun _ _ => trivial) (fun _ _ _ _ => trivial) h fun _ _ _ _ => trivial)

end Stencil.Markup
