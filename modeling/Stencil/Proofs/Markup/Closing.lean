import Mathlib.Data.List.Nodup
import Stencil.Compile.Template
import Stencil.Proofs.Markup.Lines

/-! # How blocks end

The chain of a directive with a block ends once, at a terminator or with the input (`Ends`, `Ends.unique`): while it is
open its directive is known by the place of its head, and no other chain starts there. In the finished tree the
directive bears the end of its chain, unless more than one link is open outside the innermost one. -/

namespace Stencil.Markup

open Stencil.Directive
open Stencil.Compile (directiveTags directiveTagsList)
open Relation (ReflTransGen)

/-! ### Ends -/

section
variable (r : Registry) (options : ParseOptions) (src : Bytes)

/-- The open block ends at this offset, by a terminator or with the input. -/
inductive Ends : (b : Block) → (stop : Nat) → (auto : Bool) → Prop
  | closed {s : Reading} {args : Option Bytes} {stop : Nat} {b : Block} (hs : Reaches r options src s)
      (hhead : s.Head r terminator args stop) (hb : s.tree.blocks.head? = some b) : Ends b stop false
  | leftOpen {s : Reading} {b : Block} (hs : Reaches r options src s) (hend : s.rest = []) (hb : b ∈ s.tree.blocks) :
      Ends b src.length true

end

def Block.start (b : Block) : Nat := b.first.tag.span.start.offset

/-! ### The directives of open chains -/

/-- The heads of the directives whose chains are open, innermost first. -/
def Outline.firsts (o : Outline) : List Tag := o.blocks.map fun b => b.first.tag

theorem firstLink_congr {l l' : Link} (outer : List Link) (h : l'.tag = l.tag) :
    (firstLink l' outer).tag = (firstLink l outer).tag := by
  cases outer with
  | nil => exact h
  | cons o os => rfl

theorem first_addPart {b : Block} {inner : Bool} {tag : Tag} {d : Definition} :
    (b.addPart inner tag d).first.tag = b.first.tag := by
  obtain ⟨top, outer⟩ := b
  unfold Block.addPart
  split
  · split
    · rfl
    · exact firstLink_congr outer rfl
  · cases outer with
    | nil => rfl
    | cons o os =>
      dsimp only
      split <;> exact firstLink_congr os rfl

section Firsts
variable (r : Registry) (options : ParseOptions) (o : Outline)

@[simp] theorem firsts_withCurrent (nodes : List Node) : (o.withCurrent nodes).firsts = o.firsts := by
  obtain ⟨root, _ | ⟨⟨top, outer⟩, bs⟩⟩ := o
  · rfl
  · exact congrArg (· :: _) (firstLink_congr outer rfl)

@[simp] theorem firsts_push (n : Node) : (o.push n).firsts = o.firsts := firsts_withCurrent o _

@[simp] theorem firsts_pushText (value : Bytes) (span : Span) : (o.pushText value span).firsts = o.firsts := by
  unfold Outline.pushText
  split <;> simp

theorem firsts_closeTop (stop : Position) (auto : Bool) : (o.closeTop stop auto).firsts = o.firsts.tail := by
  obtain ⟨root, _ | ⟨b, bs⟩⟩ := o
  · rfl
  · exact firsts_push ⟨root, bs⟩ _

theorem firsts_addHead_terminator (tag : Tag) (raw : Bytes) (h : tag.name = terminator) :
    (o.addHead r options tag raw).firsts = o.firsts.tail := by
  rw [Outline.addHead, if_pos h]
  split
  · rename_i hnone
    rw [firsts_push, Outline.firsts, hnone]
    rfl
  · exact firsts_closeTop o _ _

/-- Another head starts a chain, or is in one. -/
theorem firsts_addHead (tag : Tag) (raw : Bytes) (h : tag.name ≠ terminator) :
    (o.addHead r options tag raw).firsts = o.firsts ∨ (o.addHead r options tag raw).firsts = tag :: o.firsts := by
  rw [Outline.addHead, if_neg h]
  split
  · rename_i b inner d hpart
    left
    obtain ⟨root, _ | ⟨b', bs⟩⟩ := o
    · cases hpart
    · obtain ⟨pair, -, hpair⟩ := Option.map_eq_some_iff.mp hpart
      cases hpair
      exact congrArg (· :: _) first_addPart
  · split
    · split
      · exact .inr rfl
      · exact .inl (firsts_push o _)
    · split
      · exact .inl (firsts_pushText o _ _)
      · exact .inl (firsts_push o _)

end Firsts

section Steps
variable {r : Registry} {options : ParseOptions} {src : Bytes} {s s' : Reading}

theorem offset_step (h : Reading.Step r options src s s') : s.offset < s'.offset := by
  cases h
  simp only [List.length_cons]
  omega

/-- What one piece does to the open chains: it ends the innermost one, starts one, or does neither. -/
theorem firsts_step (h : Reading.Step r options src s s') :
    s'.tree.firsts = s.tree.firsts ∨ s'.tree.firsts = s.tree.firsts.tail ∨
      ∃ name args stop,
        s'.tree.firsts = { name, args, span := (LineTable.ofText src).span s.offset stop } :: s.tree.firsts := by
  cases h with
  | @mk o offset n before c cs p hpiece =>
    cases p with
    | text value => exact .inl (firsts_pushText o _ _)
    | interpolation expr escaped => exact .inl (firsts_push o _)
    | head name args =>
      by_cases hname : name = terminator
      · exact .inr (.inl (firsts_addHead_terminator r options o _ _ hname))
      · rcases firsts_addHead r options o
          { name, args, span := (LineTable.ofText src).span offset (offset + (c :: cs.take n).length) } (c :: cs.take n) hname
          with hsame | hnew
        · exact .inl hsame
        · exact .inr (.inr ⟨name, args, _, hnew⟩)

theorem firsts_terminator {args : Option Bytes} {stop : Nat} (hhead : s.Head r terminator args stop)
    (h : Reading.Step r options src s s') : s'.tree.firsts = s.tree.firsts.tail := by
  obtain ⟨c, cs, n, hrest, hpiece, -⟩ := hhead
  cases h with
  | mk hpiece' =>
    cases hrest
    cases hpiece.symm.trans hpiece'
    exact firsts_addHead_terminator r options _ _ _ rfl

/-- The heads of open chains are as they were read, and stand at different places, the inner ones later. -/
structure Reading.Fresh (s : Reading) : Prop where
  before : ∀ tag ∈ s.tree.firsts, tag.autoClosed = false ∧ tag.span.start.offset < s.offset
  order : s.tree.firsts.Pairwise fun inner outer => outer.span.start.offset < inner.span.start.offset

theorem fresh_of_reaches (h : Reaches r options src s) : s.Fresh := by
  induction h with
  | refl => exact ⟨nofun, .nil⟩
  | @tail s s' _ hstep ih =>
    have hoffset := offset_step hstep
    have hbefore : ∀ tag ∈ s.tree.firsts, tag.autoClosed = false ∧ tag.span.start.offset < s'.offset := fun tag htag =>
      ⟨(ih.before tag htag).1, Nat.lt_trans (ih.before tag htag).2 hoffset⟩
    rcases firsts_step hstep with hsame | htail | ⟨name, args, stop, hnew⟩
    · exact ⟨hsame ▸ hbefore, hsame ▸ ih.order⟩
    · exact ⟨htail ▸ fun tag htag => hbefore tag (List.mem_of_mem_tail htag), htail ▸ ih.order.tail⟩
    · refine ⟨hnew ▸ List.forall_mem_cons.mpr ⟨⟨rfl, hoffset⟩, hbefore⟩, hnew ▸ ih.order.cons ?_⟩
      exact fun tag htag => (ih.before tag htag).2

/-- No open chain starts here, and none will. -/
structure Reading.Past (s : Reading) (start : Nat) : Prop where
  before : start < s.offset
  gone : ∀ tag ∈ s.tree.firsts, tag.span.start.offset ≠ start

theorem past_of_steps {start : Nat} (h : s.Past start) (hsteps : ReflTransGen (Reading.Step r options src) s s') :
    s'.Past start := by
  induction hsteps with
  | refl => exact h
  | tail _ hstep ih =>
    refine ⟨Nat.lt_trans ih.before (offset_step hstep), ?_⟩
    rcases firsts_step hstep with hsame | htail | ⟨name, args, stop, hnew⟩
    · exact hsame ▸ ih.gone
    · exact htail ▸ fun tag htag => ih.gone tag (List.mem_of_mem_tail htag)
    · exact hnew ▸ List.forall_mem_cons.mpr ⟨Nat.ne_of_gt ih.before, ih.gone⟩

theorem Reading.Past.not_mem {start : Nat} {b : Block} (h : s.Past start) (hb : b ∈ s.tree.blocks) : b.start ≠ start :=
  h.gone b.first.tag (List.mem_map.mpr ⟨b, hb, rfl⟩)

theorem past_of_terminator (hs : Reaches r options src s) {args : Option Bytes} {stop : Nat}
    (hhead : s.Head r terminator args stop) {b : Block} (hb : s.tree.blocks.head? = some b)
    (hstep : Reading.Step r options src s s') : s'.Past b.start := by
  obtain ⟨hbefore, horder⟩ := fresh_of_reaches hs
  have hfirsts : s.tree.firsts = b.first.tag :: s'.tree.firsts := by
    rw [firsts_terminator hhead hstep]
    obtain ⟨tree, _, _, _⟩ := s
    obtain ⟨root, _ | ⟨b', bs⟩⟩ := tree <;> cases hb
    rfl
  rw [hfirsts] at hbefore horder
  refine ⟨Nat.lt_trans (hbefore _ List.mem_cons_self).2 (offset_step hstep), fun tag htag => ?_⟩
  exact Nat.ne_of_lt ((List.pairwise_cons.mp horder).1 tag htag)

theorem eq_of_terminator (hs : Reaches r options src s) {args : Option Bytes} {stop : Nat}
    (hhead : s.Head r terminator args stop) {b b' : Block} (hb : s.tree.blocks.head? = some b)
    (hsteps : ReflTransGen (Reading.Step r options src) s s') (hb' : b' ∈ s'.tree.blocks) (hstart : b'.start = b.start) :
    s' = s := by
  rcases hsteps.cases_head with rfl | ⟨s₁, hstep, hrest⟩
  · rfl
  · exact absurd hstart ((past_of_steps (past_of_terminator hs hhead hb hstep) hrest).not_mem hb')

theorem eq_of_start (hs : Reaches r options src s) {b b' : Block} (hb : b ∈ s.tree.blocks) (hb' : b' ∈ s.tree.blocks)
    (hstart : b'.start = b.start) : b' = b := by
  have horder : s.tree.blocks.Pairwise fun inner outer => outer.start < inner.start :=
    List.pairwise_map.mp (fresh_of_reaches hs).order
  have hnodup : (s.tree.blocks.map Block.start).Nodup := List.pairwise_map.mpr (horder.imp Nat.ne_of_gt)
  exact List.inj_on_of_nodup_map hnodup hb' hb hstart

theorem Reading.Head.stop_unique {name name' : Bytes} {args args' : Option Bytes} {stop stop' : Nat}
    (h : s.Head r name args stop) (h' : s.Head r name' args' stop') : stop' = stop := by
  obtain ⟨c, cs, n, hrest, hpiece, rfl⟩ := h
  obtain ⟨c', cs', n', hrest', hpiece', rfl⟩ := h'
  cases hrest.symm.trans hrest'
  cases hpiece.symm.trans hpiece'
  rfl

/-- A chain ends once. -/
theorem Ends.unique {b b' : Block} {stop stop' : Nat} {auto auto' : Bool} (h : Ends r options src b stop auto)
    (h' : Ends r options src b' stop' auto') (hstart : b'.start = b.start) : b' = b ∧ stop' = stop ∧ auto' = auto := by
  have hmem {s : Reading} {b : Block} (hb : s.tree.blocks.head? = some b) : b ∈ s.tree.blocks := List.mem_of_head? hb
  cases h with
  | @closed s args _ _ hs hhead hb =>
    cases h' with
    | @closed s' args' _ _ hs' hhead' hb' =>
      have heq : s' = s := by
        rcases hs.total hs' with hsteps | hsteps
        · exact eq_of_terminator hs hhead hb hsteps (hmem hb') hstart
        · exact (eq_of_terminator hs' hhead' hb' hsteps (hmem hb) hstart.symm).symm
      subst heq
      exact ⟨Option.some.inj (hb'.symm.trans hb), hhead.stop_unique hhead', rfl⟩
    | @leftOpen s' _ hs' hend hb' =>
      have heq := eq_of_terminator hs hhead hb (hs.steps_end hs' hend) hb' hstart
      subst heq
      obtain ⟨c, cs, n, hrest, -⟩ := hhead
      cases hend.symm.trans hrest
  | @leftOpen s _ hs hend hb =>
    cases h' with
    | @closed s' args' _ _ hs' hhead' hb' =>
      have heq := eq_of_terminator hs' hhead' hb' (hs'.steps_end hs hend) hb hstart.symm
      subst heq
      obtain ⟨c, cs, n, hrest, -⟩ := hhead'
      cases hend.symm.trans hrest
    | @leftOpen s' _ hs' hend' hb' =>
      have heq := hs.end_unique hs' hend hend'
      subst heq
      exact ⟨eq_of_start hs hb hb' hstart, rfl, rfl⟩

end Steps

/-! ### The finished tree -/

theorem first_closedAt_of_shallow {b : Block} (h : b.outer.length ≤ 1) (stop : Position) (auto : Bool) :
    (b.closedAt stop auto).first = b.first.closedAt stop auto := by
  obtain ⟨top, _ | ⟨o, _ | ⟨o', os⟩⟩⟩ := b
  · rfl
  · rfl
  · simp at h

/-- Only the two innermost links take note of the end. -/
theorem first_closedAt_of_deep {b : Block} (h : 1 < b.outer.length) (stop : Position) (auto : Bool) :
    (b.closedAt stop auto).first = b.first := by
  obtain ⟨top, _ | ⟨o, _ | ⟨o', os⟩⟩⟩ := b
  · simp at h
  · simp at h
  · rfl

theorem start_closedAt (b : Block) (stop : Position) (auto : Bool) :
    (b.closedAt stop auto).first.tag.name = b.first.tag.name ∧
      (b.closedAt stop auto).first.tag.span.start = b.first.tag.span.start := by
  obtain ⟨top, _ | ⟨o, _ | ⟨o', os⟩⟩⟩ := b <;> exact ⟨rfl, rfl⟩

section Trees
variable (r : Registry) (options : ParseOptions) (src : Bytes)

/-- The head bears the end of the chain that it started. -/
def Settled (tag : Tag) : Prop :=
  ∃ b stop auto, Ends r options src b stop auto ∧
    tag = (b.closedAt ((LineTable.ofText src).position stop) auto).first.tag

/-- The rules for a tree in which each directive with a block bears the end of its chain. -/
def settling : Rules where
  node _ n := ∀ tag ∈ directiveTags n, OwnsBlock r tag → Settled r options src tag
  head _ := True
  closed tag := Settled r options src tag

variable {r options src}

theorem mem_directiveTagsList {tag : Tag} {ns : List Node} :
    tag ∈ directiveTagsList ns ↔ ∃ n ∈ ns, tag ∈ directiveTags n := by
  induction ns with
  | nil => simp [directiveTagsList]
  | cons n ns ih => simp [directiveTagsList, ih]

theorem lawful_settling : (settling r options src).Lawful r where
  text _ _ _ := nofun
  interpolation _ _ _ _ := nofun
  lone around tag _ hlone := List.forall_mem_cons.mpr ⟨fun howns => absurd howns hlone, nofun⟩
  directive around tag d children hclosed _ _ hchildren := by
    refine List.forall_mem_cons.mpr ⟨fun _ => hclosed, fun t ht => ?_⟩
    obtain ⟨n, hn, ht⟩ := mem_directiveTagsList.mp ht
    exact hchildren n hn t ht
  part name d tag p children _ _ hchildren := by
    intro t ht
    obtain ⟨n, hn, ht⟩ := mem_directiveTagsList.mp ht
    exact hchildren n hn t ht
  closedAt _ _ _ _ := trivial
  problem _ _ _ := trivial

theorem settled_of_parse {path : Bytes} {nodes : List Node} (h : parse r options path src = .ok nodes) :
    ∀ tag ∈ directiveTagsList nodes, OwnsBlock r tag → Settled r options src tag := by
  have hnodes := obeys_of_parse lawful_settling (fun _ _ => trivial)
    (fun hs hhead hb _ => ⟨_, _, _, .closed hs hhead hb, rfl⟩) h fun hs hend hb _ => ⟨_, _, _, .leftOpen hs hend hb, rfl⟩
  intro tag htag
  obtain ⟨n, hn, htag⟩ := mem_directiveTagsList.mp htag
  exact hnodes n hn tag htag

/-! ### Chains that the input leaves open -/

theorem first_mem_collapse (outer : List Link) : ∀ top : Link,
    (firstLink top outer).tag ∈ (Block.collapse top outer).tags ∧
      ∀ n ∈ top.children, n.tags ⊆ (Block.collapse top outer).tags := by
  induction outer with
  | nil =>
    refine fun top => ⟨List.mem_cons_self, fun n hn t ht => List.mem_cons_of_mem _ ?_⟩
    exact Node.mem_tagsList.mpr ⟨n, List.mem_reverse.mpr hn, ht⟩
  | cons o os ih =>
    intro top
    obtain ⟨hfirst, hchildren⟩ := ih (o.adopt top.partNode)
    have hpart : top.partNode.tags ⊆ (Block.collapse top (o :: os)).tags :=
      hchildren _ (List.mem_append_right _ List.mem_cons_self)
    have hsame : (firstLink (o.adopt top.partNode) os).tag = (firstLink o os).tag := firstLink_congr os rfl
    rw [hsame] at hfirst
    refine ⟨hfirst, fun n hn t ht => hpart (List.mem_cons_of_mem _ ?_)⟩
    exact Node.mem_tagsList.mpr ⟨n, List.mem_reverse.mpr hn, ht⟩

theorem mem_finish (b : Block) (stop : Position) (auto : Bool) :
    (b.closedAt stop auto).first.tag ∈ (b.finish stop auto).tags ∧
      ∀ n ∈ b.top.children, n.tags ⊆ (b.finish stop auto).tags := by
  rw [Block.finish_eq]
  exact first_mem_collapse _ _

/-- Whatever is open is in the finished tree, with all that is in it. The induction closes the innermost block. -/
theorem mem_closeAll (stop : Position) (root : List Node) (blocks : List Block) :
    (∀ b ∈ blocks, (b.closedAt stop true).first.tag ∈ Node.tagsList (Outline.closeAll stop root blocks)) ∧
      ∀ b ∈ blocks.head?, ∀ n ∈ b.top.children, n.tags ⊆ Node.tagsList (Outline.closeAll stop root blocks) := by
  induction root, blocks using Outline.closeAll.induct stop with
  | case1 root =>
    refine ⟨List.forall_mem_nil _, ?_⟩
    rintro b ⟨⟩
  | case2 root b =>
    obtain ⟨hfirst, hchildren⟩ := mem_finish b stop true
    rw [Outline.closeAll]
    refine ⟨List.forall_mem_singleton.mpr (List.mem_append_left _ hfirst), ?_⟩
    rintro b ⟨⟩ n hn t ht
    exact List.mem_append_left _ (hchildren n hn ht)
  | case3 root b outer bs ih =>
    obtain ⟨hfirst, hchildren⟩ := mem_finish b stop true
    obtain ⟨hblocks, hinner⟩ := ih
    obtain ⟨houter, hbs⟩ := List.forall_mem_cons.mp hblocks
    rw [Outline.closeAll]
    -- the closed block is a child of the next one, which the rest of the run finishes
    have hfinished := hinner _ rfl _ List.mem_cons_self
    refine ⟨List.forall_mem_cons.mpr ⟨hfinished hfirst, List.forall_mem_cons.mpr ⟨?_, hbs⟩⟩, ?_⟩
    · obtain ⟨top, _ | ⟨o, os⟩⟩ := outer <;> exact houter
    · rintro b ⟨⟩ n hn t ht
      exact hfinished (hchildren n hn ht)

section Flat
variable (hflat : ∀ name d, r.lookup name = some d → ∀ p ∈ d.parts, p.parts = [])
include hflat

theorem Chained.shallow {l : Link} {outer : List Link} (h : Chained r l outer) :
    outer.length ≤ 1 ∧ (outer ≠ [] → l.definition.parts = []) := by
  induction h with
  | first _ => exact ⟨Nat.zero_le _, fun h => absurd rfl h⟩
  | @part l o os _ hpart houter ih =>
    have hmem : l.definition ∈ o.definition.parts := List.mem_of_find?_eq_some hpart
    cases houter with
    | first howns => exact ⟨Nat.le_refl _, fun _ => hflat _ _ howns.lookup _ hmem⟩
    | part _ _ _ =>
      have hnone := ih.2 (List.cons_ne_nil _ _)
      rw [hnone] at hmem
      cases hmem

/-- In a registry whose parts have no parts of their own, no chain is deep. -/
theorem Ends.shallow {b : Block} {stop : Nat} {auto : Bool} (h : Ends r options src b stop auto) : b.outer.length ≤ 1 := by
  have hchained {s : Reading} (hs : Reaches r options src s) (hb : b ∈ s.tree.blocks) : Chained r b.top b.outer :=
    ((obeys_of_reaches lawful_settling (fun _ _ => trivial)
      (fun hs hhead hb _ => ⟨_, _, _, .closed hs hhead hb, rfl⟩) hs).blocks b hb).chained
  cases h with
  | closed hs _ hb => exact ((hchained hs (List.mem_of_head? hb)).shallow hflat).1
  | leftOpen hs _ hb => exact ((hchained hs hb).shallow hflat).1

end Flat

/-- The chain of each directive with a block ends once: at a terminator, or open at the end of the input. Unless more
than one link was open outside the innermost one, its head says which of them, and bears the place; a deep chain leaves
the head as it was read. Each chain that is left open is listed in the warnings, unless it is deep. -/
theorem block_ends_once {path : Bytes} {nodes : List Node} (hparse : parse r options path src = .ok nodes) :
    (∀ tag ∈ directiveTagsList nodes, OwnsBlock r tag → ∃ b stop auto,
      (Ends r options src b stop auto ∧ b.first.tag.name = tag.name ∧ b.start = tag.span.start.offset) ∧
      (∀ b' stop' auto', Ends r options src b' stop' auto' → b'.start = tag.span.start.offset →
        b' = b ∧ stop' = stop ∧ auto' = auto) ∧
      (b.outer.length ≤ 1 → tag.autoClosed = auto ∧ tag.span.stop = (LineTable.ofText src).position stop) ∧
      (1 < b.outer.length → tag.autoClosed = false ∧ tag = b.first.tag)) ∧
    ∀ b, Ends r options src b src.length true → b.outer.length ≤ 1 →
      ∃ w ∈ Diagnostic.warnings nodes, w.name = b.first.tag.name ∧ w.at? = some b.first.tag.span.start := by
  refine ⟨fun tag htag howns => ?_, fun b hends hshallow => ?_⟩
  · obtain ⟨b, stop, auto, hends, rfl⟩ := settled_of_parse hparse tag htag howns
    obtain ⟨hname, hstart⟩ := start_closedAt b ((LineTable.ofText src).position stop) auto
    rw [hname, hstart]
    refine ⟨b, stop, auto, ⟨hends, rfl, rfl⟩, fun b' stop' auto' hends' hstart' => hends.unique hends' hstart', ?_, ?_⟩
    · intro hshallow
      rw [first_closedAt_of_shallow hshallow]
      exact ⟨rfl, rfl⟩
    · intro hdeep
      rw [first_closedAt_of_deep hdeep]
      refine ⟨?_, rfl⟩
      have hfresh {s : Reading} (hs : Reaches r options src s) (hb : b ∈ s.tree.blocks) : b.first.tag.autoClosed = false :=
        ((fresh_of_reaches hs).before _ (List.mem_map.mpr ⟨b, hb, rfl⟩)).1
      cases hends with
      | closed hs _ hb => exact hfresh hs (List.mem_of_head? hb)
      | leftOpen hs _ hb => exact hfresh hs hb
  · cases hends with
    | @leftOpen s _ hs hend hb =>
      obtain ⟨o, before, hlast, rfl⟩ := exists_reaches_of_parse hparse
      cases hs.end_unique hlast hend rfl
      have hmem := (mem_closeAll ((LineTable.ofText src).position src.length) o.root o.blocks).1 b hb
      rw [first_closedAt_of_shallow hshallow] at hmem
      obtain ⟨n, hn, hmem⟩ := Node.mem_tagsList.mp hmem
      have htags := Node.mem_tagsList.mpr ⟨n, List.mem_reverse.mpr hn, hmem⟩
      exact ⟨_, List.mem_map.mpr ⟨_, List.mem_filter.mpr ⟨htags, rfl⟩, rfl⟩, rfl, rfl⟩

end Trees

/-- Parts with parts of their own. -/
def nestRegistry : Registry where
  entries := [{ definition := {
    name := "a", block := true
    parts := [{ name := "b", block := true, parts := [{ name := "c", block := true }] }] } }]

/-- What is read with these directives; nothing, if it cannot be read. -/
def nested (src : Bytes) : List Node := (parse nestRegistry {} "page" src).toOption.getD []

theorem parse_nested (src : Bytes) (h : (parse nestRegistry {} "page" src).isOk = true) :
    parse nestRegistry {} "page" src = .ok (nested src) := by
  unfold nested
  cases hparse : parse nestRegistry {} "page" src with
  | error d => simp [hparse, Except.isOk, Except.toBool] at h
  | ok nodes => rfl

theorem ownsBlock_nest {tag : Tag} (h : tag.name = "a" ∧ tag.problem = .none) : OwnsBlock nestRegistry tag := by
  obtain ⟨hname, hproblem⟩ := h
  have hlookup : nestRegistry.lookup "a" = nestRegistry.definitions.head? := rfl
  exact ⟨hproblem, _, hname ▸ hlookup, rfl⟩

/-- One chain is closed, one is left open. -/
theorem block_ends_once_nest : parse nestRegistry {} "page" "@a()@b()x@end()@a()@b()y" =
      .ok (nested "@a()@b()x@end()@a()@b()y") ∧
    (directiveTagsList (nested "@a()@b()x@end()@a()@b()y")).map (fun t => (t.autoClosed, t.span.stop.offset)) =
      [(false, 15), (true, 24)] ∧
    ∀ tag ∈ directiveTagsList (nested "@a()@b()x@end()@a()@b()y"), ∃ b stop auto,
      Ends nestRegistry {} "@a()@b()x@end()@a()@b()y" b stop auto ∧ b.start = tag.span.start.offset := by
  have hparse := parse_nested "@a()@b()x@end()@a()@b()y" (by decide +kernel)
  have hnames : ∀ tag ∈ directiveTagsList (nested "@a()@b()x@end()@a()@b()y"), tag.name = "a" ∧ tag.problem = .none := by
    decide +kernel
  refine ⟨hparse, by decide +kernel, fun tag htag => ?_⟩
  obtain ⟨b, stop, auto, ⟨hends, -, hstart⟩, -⟩ := (block_ends_once hparse).1 tag htag (ownsBlock_nest (hnames tag htag))
  exact ⟨b, stop, auto, hends, hstart⟩

/-- With two links open outside the innermost one, the directive at the start is neither closed nor flagged. -/
theorem not_block_closed_or_flagged : parse nestRegistry {} "page" "@a()@b()@c()" = .ok (nested "@a()@b()@c()") ∧
    ∃ tag ∈ directiveTagsList (nested "@a()@b()@c()"), OwnsBlock nestRegistry tag ∧
      ¬(∃ b stop, Ends nestRegistry {} "@a()@b()@c()" b stop false ∧ b.start = tag.span.start.offset) ∧
      ¬(tag.autoClosed = true ∧ tag.span.stop = (LineTable.ofText "@a()@b()@c()").position 12) ∧
      ∀ w ∈ Diagnostic.warnings (nested "@a()@b()@c()"), w.name ≠ tag.name := by
  have hsource : ∀ offset ≤ 12, ¬ (ascii '@' :: terminator <+: ("@a()@b()@c()" : Bytes).drop offset) := by decide
  have htags : ∃ tag ∈ directiveTagsList (nested "@a()@b()@c()"), (tag.name = "a" ∧ tag.problem = .none) ∧
      tag.autoClosed = false ∧ ∀ w ∈ Diagnostic.warnings (nested "@a()@b()@c()"), w.name ≠ tag.name := by
    decide +kernel
  obtain ⟨tag, htag, howns, hauto, hwarnings⟩ := htags
  refine ⟨parse_nested _ (by decide +kernel), tag, htag, ownsBlock_nest howns, ?_, ?_, hwarnings⟩
  · rintro ⟨b, stop, hends, -⟩
    cases hends with
    | closed hs hhead _ =>
      obtain ⟨hat, hstands⟩ := pointsAt_of_head hs hhead
      exact hsource _ hat.inside hstands
  · rintro ⟨hclosed, -⟩
    cases hauto.symm.trans hclosed

end Stencil.Markup
