import Stencil.Markup.Parse

/-! # Places of directives

No two directives of a template start at the same place (`headsAtAll_parse`). While it is read, every head stands
in the tree under construction at most once and starts before the offset at hand; the next one starts there. -/

namespace Stencil.Markup

open Stencil.Directive

/-! ### Heads in trees -/

/-- One for a head that starts at the place. -/
def Tag.startsAt (place : Position) (t : Tag) : Nat := if t.span.start = place then 1 else 0

/-- How many directives start at a place, of a node and all below it. -/
def Node.headsAt (place : Position) (n : Node) : Nat := n.tags.countP fun t => t.span.start = place

/-- How many directives in the nodes start at a place. -/
def Node.headsAtAll (place : Position) (ns : List Node) : Nat :=
  (Node.tagsList ns).countP fun t => t.span.start = place

theorem Node.tagsList_append (ns ms : List Node) :
    Node.tagsList (ns ++ ms) = Node.tagsList ns ++ Node.tagsList ms := by
  induction ns with
  | nil => rfl
  | cons n ns ih => rw [List.cons_append, tagsList, ih, tagsList, List.append_assoc]

section Nodes
variable (place : Position)

@[simp] theorem headsAtAll_nil : Node.headsAtAll place [] = 0 := rfl

@[simp] theorem headsAtAll_cons (n : Node) (ns : List Node) :
    Node.headsAtAll place (n :: ns) = n.headsAt place + Node.headsAtAll place ns :=
  List.countP_append

@[simp] theorem headsAtAll_append (ns ms : List Node) :
    Node.headsAtAll place (ns ++ ms) = Node.headsAtAll place ns + Node.headsAtAll place ms := by
  simp only [Node.headsAtAll, Node.tagsList_append, List.countP_append]

@[simp] theorem headsAtAll_reverse (ns : List Node) : Node.headsAtAll place ns.reverse = Node.headsAtAll place ns := by
  induction ns with
  | nil => rfl
  | cons n ns ih => simp [ih, Nat.add_comm]

@[simp] theorem headsAt_text (value : Bytes) (span : Span) : (Node.text value span).headsAt place = 0 := rfl

@[simp] theorem headsAt_interpolation (expr : Bytes) (escaped : Bool) (span : Span) :
    (Node.interpolation expr escaped span).headsAt place = 0 := rfl

@[simp] theorem headsAt_directive (tag : Tag) (children : List Node) :
    (Node.directive tag children).headsAt place = tag.startsAt place + Node.headsAtAll place children := by
  by_cases h : tag.span.start = place <;>
    simp [Node.headsAt, Node.headsAtAll, Node.tags, Tag.startsAt, h, Nat.add_comm]

@[simp] theorem headsAt_part (owner : Bytes) (tag : Tag) (children : List Node) :
    (Node.part owner tag children).headsAt place = tag.startsAt place + Node.headsAtAll place children :=
  headsAt_directive place tag children

/-- A choice of nodes and the others have the heads of all. -/
theorem headsAtAll_filter (choose : Node → Bool) (ns : List Node) : Node.headsAtAll place (ns.filter choose) +
    Node.headsAtAll place (ns.filter fun n => !choose n) = Node.headsAtAll place ns := by
  induction ns with
  | nil => rfl
  | cons n ns ih => cases hn : choose n <;> simp [hn] <;> omega

end Nodes

/-! ### Heads in outlines -/

def Link.headsAt (place : Position) (l : Link) : Nat :=
  l.tag.startsAt place + Node.headsAtAll place l.children + Node.headsAtAll place l.later

def Block.headsAt (place : Position) (b : Block) : Nat :=
  b.top.headsAt place + b.outer.foldr (fun l heads => l.headsAt place + heads) 0

def Outline.headsAt (place : Position) (o : Outline) : Nat :=
  Node.headsAtAll place o.root + o.blocks.foldr (fun b heads => b.headsAt place + heads) 0

section Outlines
variable (place : Position)

theorem headsAt_partNode (l : Link) : l.partNode.headsAt place ≤ l.headsAt place := by
  simp only [Link.partNode, headsAt_part, headsAtAll_reverse, Link.headsAt]
  omega

theorem headsAt_adopt (l : Link) (n : Node) :
    (l.adopt n).headsAt place = l.headsAt place + n.headsAt place := by
  simp only [Link.adopt, Link.headsAt, headsAtAll_append, headsAtAll_cons, headsAtAll_nil]
  omega

theorem headsAt_ofTag (tag : Tag) (d : Definition) (owner : Bytes) :
    (Link.ofTag tag d owner).headsAt place = tag.startsAt place := rfl

theorem headsAt_collapse (outer : List Link) (top : Link) :
    (Block.collapse top outer).headsAt place ≤ top.headsAt place + outer.foldr (fun l heads => l.headsAt place + heads) 0 := by
  induction outer generalizing top with
  | nil =>
    simp only [Block.collapse, headsAt_directive, headsAtAll_reverse, Link.headsAt, List.foldr_nil]
    omega
  | cons o os ih =>
    have hrest := ih (o.adopt top.partNode)
    have htop := headsAt_partNode place top
    rw [headsAt_adopt] at hrest
    simp only [Block.collapse, List.foldr_cons]
    omega

theorem headsAt_finish (b : Block) (stop : Position) (auto : Bool) :
    (b.finish stop auto).headsAt place ≤ b.headsAt place := by
  obtain ⟨top, _ | ⟨o, os⟩⟩ := b
  · exact headsAt_collapse place [] (top.closedAt stop auto)
  · exact headsAt_collapse place (o.closedAt stop auto :: os) (top.closedAt stop auto)

theorem headsAt_push (o : Outline) (n : Node) :
    (o.push n).headsAt place = o.headsAt place + n.headsAt place := by
  obtain ⟨root, _ | ⟨b, bs⟩⟩ := o
  · simp only [Outline.push, Outline.withCurrent, Outline.current, Outline.headsAt, headsAtAll_cons]
    omega
  · simp only [Outline.push, Outline.withCurrent, Outline.current, Outline.headsAt, List.foldr_cons,
      Block.headsAt, Link.headsAt, headsAtAll_cons]
    omega

theorem headsAt_pushText (o : Outline) (value : Bytes) (span : Span) :
    (o.pushText value span).headsAt place = o.headsAt place := by
  unfold Outline.pushText
  split
  · rename_i before s rest hcurrent
    -- only the text of the last node changes
    obtain ⟨root, _ | ⟨b, bs⟩⟩ := o <;> simp only [Outline.current] at hcurrent <;>
      simp only [Outline.withCurrent, Outline.headsAt, Block.headsAt, Link.headsAt, List.foldr_cons,
        hcurrent, headsAtAll_cons, headsAt_text]
  · rw [headsAt_push, headsAt_text, Nat.add_zero]

theorem headsAt_closeTop (o : Outline) (stop : Position) (auto : Bool) :
    (o.closeTop stop auto).headsAt place ≤ o.headsAt place := by
  obtain ⟨root, _ | ⟨b, bs⟩⟩ := o
  · exact Nat.le_refl _
  · have hfinish := headsAt_finish place b stop auto
    rw [Outline.closeTop, headsAt_push]
    simp only [Outline.headsAt, List.foldr_cons]
    omega

/-- Closing what is open loses heads at most. -/
theorem headsAtAll_closeAll (stop : Position) (root : List Node) (blocks : List Block) :
    Node.headsAtAll place (Outline.closeAll stop root blocks) ≤ Outline.headsAt place ⟨root, blocks⟩ := by
  induction root, blocks using Outline.closeAll.induct stop with
  | case1 root => simp [Outline.closeAll, Outline.headsAt]
  | case2 root b =>
    have hfinish := headsAt_finish place b stop true
    rw [Outline.closeAll, headsAtAll_cons]
    simp only [Outline.headsAt, List.foldr_cons, List.foldr_nil]
    omega
  | case3 root b outer bs ih =>
    have hfinish := headsAt_finish place b stop true
    rw [Outline.closeAll]
    simp only [Outline.headsAt, Block.headsAt, Link.headsAt, List.foldr_cons, headsAtAll_cons] at ih hfinish ⊢
    omega

theorem headsAt_addPart (b : Block) (inner : Bool) (tag : Tag) (d : Definition) :
    (b.addPart inner tag d).headsAt place ≤ b.headsAt place + tag.startsAt place := by
  have htop := headsAt_partNode place b.top
  unfold Block.addPart
  split
  · split
    · simp only [Block.headsAt, headsAt_ofTag, List.foldr_cons]
      omega
    · simp only [Block.headsAt, Link.headsAt, headsAtAll_cons, headsAt_part, headsAtAll_nil]
      omega
  · split
    · omega
    · rename_i o os houter
      split
      · simp only [Block.headsAt, houter, headsAt_ofTag, List.foldr_cons, headsAt_adopt]
        omega
      · simp only [Block.headsAt, houter, Link.headsAt, List.foldr_cons, headsAtAll_cons, headsAt_part, headsAtAll_nil]
        omega

theorem headsAt_addHead (o : Outline) (r : Registry) (options : ParseOptions) (tag : Tag) (raw : Bytes) :
    (o.addHead r options tag raw).headsAt place ≤ o.headsAt place + tag.startsAt place := by
  have hlone (problem : Problem) : (o.push (.directive { tag with problem } [])).headsAt place =
      o.headsAt place + tag.startsAt place := (headsAt_push place o _).trans (by simp [Tag.startsAt])
  unfold Outline.addHead
  split
  · split
    · exact Nat.le_of_eq (hlone _)
    · exact Nat.le_add_right_of_le (headsAt_closeTop place o _ _)
  split
  · rename_i b inner d hpart
    obtain ⟨root, _ | ⟨b', bs⟩⟩ := o
    · cases hpart
    · obtain ⟨pair, -, hpair⟩ := Option.map_eq_some_iff.mp hpart
      cases hpair
      have hadd := headsAt_addPart place b inner tag d
      simp only [Outline.headsAt, List.drop_one, List.tail_cons, List.foldr_cons]
      omega
  split
  · split
    · simp only [Outline.headsAt, List.foldr_cons, Block.headsAt, headsAt_ofTag, List.foldr_nil]
      omega
    · exact Nat.le_of_eq ((headsAt_push place o _).trans (by simp))
  split
  · exact Nat.le_add_right_of_le (Nat.le_of_eq (headsAt_pushText place o raw _))
  · exact Nat.le_of_eq (hlone _)

/-- A piece adds one head at most, which starts where the piece does. -/
theorem headsAt_add (o : Outline) (r : Registry) (options : ParseOptions) (lines : LineTable) (start : Nat) (raw : Bytes)
    (p : Piece) : (o.add r options lines start raw p).headsAt place ≤
      o.headsAt place + if lines.position start = place then 1 else 0 := by
  cases p with
  | text value => exact Nat.le_add_right_of_le (Nat.le_of_eq (headsAt_pushText place o value _))
  | interpolation expr escaped => exact Nat.le_add_right_of_le (Nat.le_of_eq (headsAt_push place o _))
  | head name args => exact headsAt_addHead place o r options _ raw

end Outlines

/-! ### Reading -/

/-- Every head starts before an offset, and none stands in the tree twice. -/
def Outline.PlacedBefore (offset : Nat) (o : Outline) : Prop :=
  ∀ place, o.headsAt place ≤ if place.offset < offset then 1 else 0

theorem Outline.PlacedBefore.add {o : Outline} {offset : Nat} (h : o.PlacedBefore offset) (r : Registry)
    (options : ParseOptions) (lines : LineTable) {raw : Bytes} (hraw : raw ≠ []) (p : Piece) :
    (o.add r options lines offset raw p).PlacedBefore (offset + raw.length) := by
  intro place
  have hlength : 0 < raw.length := List.length_pos_iff.mpr hraw
  have hbefore := h place
  have hadd := headsAt_add place o r options lines offset raw p
  by_cases hplace : lines.position offset = place
  · have hoffset : place.offset = offset := hplace ▸ rfl
    rw [if_pos hplace] at hadd
    rw [if_neg (by omega)] at hbefore
    rw [if_pos (by omega)]
    omega
  · rw [if_neg hplace] at hadd
    split at hbefore
    · rw [if_pos (by omega)]
      omega
    · omega

theorem placedBefore_parseFrom {r : Registry} {options : ParseOptions} {path : Bytes} {lines : LineTable}
    {o o' : Outline} {offset : Nat} {before : Option UInt8} {rest : Bytes}
    (h : parseFrom r options path lines o offset before rest = .ok o') (ho : o.PlacedBefore offset) :
    ∃ stop, o'.PlacedBefore stop := by
  induction hn : rest.length using Nat.strongRecOn generalizing o offset before rest with
  | _ n ih =>
    cases rest with
    | nil =>
      rw [parseFrom] at h
      cases h
      exact ⟨offset, ho⟩
    | cons c cs =>
      rw [parseFrom] at h
      split at h
      · cases h
      · rename_i p k hpiece
        have hshorter : (cs.drop k).length < n := by
          rw [← hn, List.length_drop, List.length_cons]
          omega
        exact ih _ hshorter h (ho.add r options lines (List.cons_ne_nil c _) p) rfl

/-- No two directives of a template start at the same place. -/
theorem headsAtAll_parse {r : Registry} {options : ParseOptions} {path src : Bytes} {nodes : List Node}
    (h : parse r options path src = .ok nodes) (place : Position) : Node.headsAtAll place nodes ≤ 1 := by
  simp only [parse] at h
  split at h
  · rename_i o ho
    cases h
    obtain ⟨stop, hplaced⟩ := placedBefore_parseFrom ho fun _ => Nat.zero_le _
    have hclose := headsAtAll_closeAll place ((LineTable.ofText src).position src.length) o.root o.blocks
    have hone : o.headsAt place ≤ 1 := by
      refine Nat.le_trans (hplaced place) ?_
      split <;> omega
    rw [Outline.nodes, headsAtAll_reverse]
    exact Nat.le_trans hclose hone
  · cases h

end Stencil.Markup
