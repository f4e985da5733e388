import Stencil.Proofs.Markup.Reading

/-! # Reading of printed trees

What a canonical tree is printed as is read as that tree again (`parse_printAll`). Reading goes over the
print of a node and puts the node at the end of the tree under construction, wherever that stands. -/

namespace Stencil.Markup

open Stencil.Directive

/-! ### Places for directives -/

/-- New nodes stand in a chain that may have the parts `chain`. -/
structure Outline.Open (o : Outline) (chain : List Definition) (verbatim : Bool) : Prop where
  isVerbatim : o.verbatim = verbatim
  noPart : ∀ name, (∀ p ∈ chain, p.name ≠ name) → ∀ b ∈ o.blocks.head?, b.partFor name = none

theorem Outline.Open.withCurrent {o : Outline} {chain : List Definition} {verbatim : Bool} (h : o.Open chain verbatim)
    (ns : List Node) : (o.withCurrent ns).Open chain verbatim := by
  refine ⟨(verbatim_withCurrent o ns).trans h.isVerbatim, fun name hname => ?_⟩
  have hpart := h.noPart name hname
  obtain ⟨root, _ | ⟨b, bs⟩⟩ := o
  · exact nofun
  · rintro _ ⟨⟩
    exact hpart b rfl

theorem part?_eq_none {d : Definition} {name : Bytes} (h : ∀ p ∈ d.parts, p.name ≠ name) : d.part? name = none := by
  refine List.find?_eq_none.mpr fun p hp => ?_
  simpa using h p hp

/-- A chain so far: its directive with a tag, the definition of the link that is open, and the children. -/
inductive Block.Holds (tag : Tag) (d : Definition) : Block → (link : Definition) → List Node → Prop
  | directive {l : Link} (htag : l.tag.bare = tag.bare) (hdefinition : l.definition = d) (hlater : l.later = []) :
      Holds tag d ⟨l, []⟩ d l.children.reverse
  | part {o l : Link} (htag : o.tag.bare = tag.bare) (hdefinition : o.definition = d) (hlater : o.later = [])
      (hparts : l.definition.parts = []) (hopen : l.tag.autoClosed = false) :
      Holds tag d ⟨l, [o]⟩ l.definition (o.children.reverse ++ [l.partNode])

section
variable {r : Registry} {options : ParseOptions} {tag : Tag} {d link p : Definition} {b : Block} {cs : List Node}

theorem Block.Holds.link_eq (h : b.Holds tag d link cs) : b.top.definition = link := by
  cases h with
  | directive _ hdefinition _ => exact hdefinition
  | part _ _ _ _ _ => rfl

/-- In a chain only the parts of its directive are found. -/
theorem Block.Holds.partFor_eq (h : b.Holds tag d link cs) (name : Bytes) :
    (b.partFor name).map Prod.snd = d.part? name := by
  cases h with
  | directive _ hdefinition _ =>
    simp only [Block.partFor, hdefinition]
    cases d.part? name <;> rfl
  | part _ hdefinition _ hparts _ =>
    simp only [Block.partFor, Definition.part?, hparts, hdefinition, List.find?_nil]
    rw [Option.map_map]
    cases d.parts.find? fun p => p.name == name <;> rfl

theorem name_eq_of_bare {t t' : Tag} (h : t.bare = t'.bare) : t.name = t'.name :=
  show t.bare.name = t'.bare.name from congrArg Tag.name h

theorem bare_closedAt {l : Link} {t : Tag} (h : l.tag.bare = t.bare) (hclosed : t.autoClosed = false) (stop : Position) :
    (l.closedAt stop false).tag.bare = t.bare := by
  have hl : l.tag.autoClosed = false := (congrArg Tag.autoClosed h).trans hclosed
  rw [← h]
  simp only [Link.closedAt, Tag.bare, hl]

/-- Closing a chain gives its directive. -/
theorem Block.Holds.bare_finish (h : b.Holds tag d link cs) (hclosed : tag.autoClosed = false) (stop : Position) :
    (b.finish stop false).bare = .directive tag.bare (Node.bareAll cs) := by
  cases h with
  | @directive l htag _ _ =>
    simp only [Block.finish, Block.collapse, Node.bare, bare_closedAt htag hclosed]
    rfl
  | @part o l htag _ hlater _ hopen =>
    have hpart : (l.closedAt stop false).partNode.bare = l.partNode.bare := by
      simp only [Link.partNode, Node.bare, bare_closedAt rfl hopen]
      rfl
    have hchildren : ((o.closedAt stop false).adopt (l.closedAt stop false).partNode).children.reverse =
        o.children.reverse ++ [(l.closedAt stop false).partNode] := by
      simp [Link.adopt, Link.closedAt, hlater]
    have howner : ((o.closedAt stop false).adopt (l.closedAt stop false).partNode).tag.bare = tag.bare :=
      bare_closedAt htag hclosed stop
    simp only [Block.finish, Block.collapse, Node.bare, howner, hchildren, Node.bareAll_append, Node.bareAll, hpart]

/-- A new part stands at the end of its chain. -/
theorem Block.Holds.addPart (hflat : r.Flat) (hlookup : r.lookup tag.name = some d) (h : b.Holds tag d link cs)
    {t : Tag} {inner : Bool} (hpart : b.partFor t.name = some (inner, p)) (hopen : t.autoClosed = false) :
    ∃ l o, b.addPart inner t p = ⟨l, [o]⟩ ∧ l.definition = p ∧ l.children = [] ∧
      ∀ body, Holds tag d ⟨{ l with children := List.reverse body }, [o]⟩ p (cs ++ [.part tag.name t body]) := by
  have hfound : d.part? t.name = some p := by
    rw [← h.partFor_eq, hpart]
    rfl
  obtain ⟨hblock, hparts⟩ := hflat _ _ hlookup p (List.mem_of_find?_eq_some hfound)
  cases h with
  | @directive l htag hdefinition hlater =>
    have hname : l.tag.name = tag.name := name_eq_of_bare htag
    simp only [Block.partFor, hdefinition, hfound, Option.some.injEq, Prod.mk.injEq, and_true] at hpart
    refine ⟨Link.ofTag t p tag.name, l, ?_, rfl, rfl, fun body => ?_⟩
    · simp only [Block.addPart, ← hpart, hblock, if_true, hname]
    · have hholds := Block.Holds.part (l := { Link.ofTag t p tag.name with children := body.reverse }) htag hdefinition
        hlater hparts hopen
      simpa [Link.partNode, Link.ofTag] using hholds
  | @part o l htag hdefinition hlater hnone hopen' =>
    have hname : o.tag.name = tag.name := name_eq_of_bare htag
    have hinner : inner = false := by
      simp only [Block.partFor, Definition.part?, hnone, List.find?_nil] at hpart
      obtain ⟨_, _, heq⟩ := Option.map_eq_some_iff.mp hpart
      cases heq
      rfl
    subst hinner
    refine ⟨Link.ofTag t p tag.name, o.adopt l.partNode, ?_, rfl, rfl, fun body => ?_⟩
    · simp only [Block.addPart, hblock, if_true, hname, Bool.false_eq_true, if_false]
    · have hholds := Block.Holds.part (o := o.adopt l.partNode)
        (l := { Link.ofTag t p tag.name with children := body.reverse }) htag hdefinition rfl hparts hopen
      simpa [Link.partNode, Link.ofTag, Link.adopt, hlater] using hholds

end

/-! ### Heads in their places -/

section
variable {r : Registry} {options : ParseOptions} {o : Outline} {chain : List Definition} {tag : Tag} {d : Definition}
  {raw : Bytes}

theorem Outline.Open.head?_eq_none {verbatim : Bool} (h : o.Open chain verbatim) (hfree : ∀ p ∈ chain, p.name ≠ tag.name) :
    (o.blocks.head?.bind fun b => (b.partFor tag.name).map (b, ·)) = none := by
  cases hhead : o.blocks.head? with
  | none => rfl
  | some b => simp [h.noPart tag.name hfree b hhead]

theorem addHead_lone {verbatim : Bool} (h : o.Open chain verbatim) (hend : tag.name ≠ terminator)
    (hfree : ∀ p ∈ chain, p.name ≠ tag.name) (hlookup : r.lookup tag.name = some d) (hblock : d.block = false) :
    o.addHead r options tag raw = o.push (.directive tag []) := by
  simp only [Outline.addHead, hend, if_false, h.head?_eq_none hfree, hlookup, hblock, Bool.false_eq_true]

theorem addHead_block {verbatim : Bool} (h : o.Open chain verbatim) (hend : tag.name ≠ terminator)
    (hfree : ∀ p ∈ chain, p.name ≠ tag.name) (hlookup : r.lookup tag.name = some d) (hblock : d.block = true) :
    o.addHead r options tag raw = { o with blocks := ⟨Link.ofTag tag d [], []⟩ :: o.blocks } := by
  simp only [Outline.addHead, hend, if_false, h.head?_eq_none hfree, hlookup, hblock, if_true]

theorem addHead_part {root : List Node} {b : Block} {bs : List Block} {inner : Bool} (hend : tag.name ≠ terminator)
    (hpart : b.partFor tag.name = some (inner, d)) :
    Outline.addHead ⟨root, b :: bs⟩ r options tag raw = ⟨root, b.addPart inner tag d :: bs⟩ := by
  simp only [Outline.addHead, hend, if_false, List.head?_cons, Option.bind_some, hpart, Option.map_some]
  rfl

theorem addHead_end {root : List Node} {b : Block} {bs : List Block} (hend : tag.name = terminator) :
    Outline.addHead ⟨root, b :: bs⟩ r options tag raw = Outline.push ⟨root, bs⟩ (b.finish tag.span.stop false) := by
  simp only [Outline.addHead, hend, if_true, Outline.closeTop]

end

/-! ### Printed nodes -/

/-- Reading the print of a node puts the node at the end of the tree. -/
def Reader.ReadsNode (e : Reader) (n : Node) (more : Bytes) (offset : Nat) (o : Outline) (before : Option UInt8) : Prop :=
  ∃ n' before', n'.bare = n.bare ∧ before'.any isWordByte = gluedAfter (before.any isWordByte) [n] ∧
    e.Passes (print e.registry n) more offset o before (o.withCurrent (n' :: o.current)) before'

def Reader.ReadsNodes (e : Reader) (ns : List Node) (more : Bytes) (offset : Nat) (o : Outline) (before : Option UInt8) :
    Prop :=
  ∃ ns' before', Node.bareAll ns' = Node.bareAll ns ∧ before'.any isWordByte = gluedAfter (before.any isWordByte) ns ∧
    e.Passes (printAll e.registry ns) more offset o before (o.withCurrent (ns'.reverse ++ o.current)) before'

/-- Nodes that are no parts are read wherever their chain is open. -/
def Reader.ReadsBody (e : Reader) (chain : List Definition) (verbatim : Bool) (ns : List Node) : Prop :=
  ∀ more offset o before, Outline.Open o chain verbatim →
    (startsWithText ns = true → startsWithText o.current = false) → isBoundary more →
    e.ReadsNodes ns more offset o before

/-- The parts of a chain are read after one of its links. -/
def Reader.ReadsParts (e : Reader) (owner : Bytes) (d link : Definition) (body ps : List Node) : Prop :=
  ∀ (tag : Tag) root b bs cs (before : Option UInt8) more offset, e.registry.lookup tag.name = some d → tag.name = owner →
    Block.Holds tag d b link cs → before.any isWordByte = gluedAfter false body → isBoundary more →
    ∃ b' link' cs' before', Block.Holds tag d b' link' cs' ∧ Node.bareAll cs' = Node.bareAll cs ++ Node.bareAll ps ∧
      e.Passes (printAll e.registry ps) more offset ⟨root, b :: bs⟩ before ⟨root, b' :: bs⟩ before'

section
variable {e : Reader} {chain : List Definition} {verbatim : Bool} {n : Node} {ns : List Node}

theorem gluedAfter_cons (glued : Bool) (n : Node) (ns : List Node) :
    gluedAfter glued (n :: ns) = gluedAfter (gluedAfter glued [n]) ns := by
  cases n <;> rfl

theorem startsWithText_of_bare {n n' : Node} (h : n'.bare = n.bare) (a b : List Node) :
    startsWithText (n' :: a) = startsWithText (n :: b) := by
  cases n <;> cases n' <;> simp only [Node.bare, reduceCtorEq] at h <;> rfl

/-- Nodes that start with no text print as nothing, or start with a special byte. -/
theorem isBoundary_printAll (r : Registry) {more : Bytes} (hmore : isBoundary more) (hns : startsWithText ns = false) :
    isBoundary (printAll r ns ++ more) := by
  cases ns with
  | nil => exact hmore
  | cons n ns =>
    cases n with
    | text value span => cases hns
    | interpolation expr escaped span => cases escaped <;> rfl
    | directive tag children => rfl
    | part owner tag children => rfl

/-- One node after another is read. -/
theorem readsBody_cons (hn : ∀ more offset o before, Outline.Open o chain verbatim →
      (startsWithText [n] = true → startsWithText o.current = false) →
      (startsWithText [n] = true → isBoundary more) → e.ReadsNode n more offset o before)
    (hnext : startsWithText [n] = true → startsWithText ns = false) (hns : e.ReadsBody chain verbatim ns) :
    e.ReadsBody chain verbatim (n :: ns) := by
  intro more offset o before hopen hstart hmore
  have hfirst : startsWithText [n] = startsWithText (n :: ns) := startsWithText_of_bare rfl [] ns
  obtain ⟨n', before₁, hbare, hglued, hpasses⟩ := hn (printAll e.registry ns ++ more) offset o before hopen
    (fun h => hstart (hfirst ▸ h)) fun h => isBoundary_printAll e.registry hmore (hnext h)
  have hcurrent : startsWithText ns = true → startsWithText (o.withCurrent (n' :: o.current)).current = false := by
    intro h
    rw [current_withCurrent, startsWithText_of_bare hbare _ [], Bool.eq_false_iff]
    intro hn
    rw [hnext hn] at h
    cases h
  obtain ⟨ns', before₂, hbares, hglued₂, hpasses₂⟩ := hns more (offset + (print e.registry n).length) _ before₁
    (hopen.withCurrent _) hcurrent hmore
  refine ⟨n' :: ns', before₂, by rw [Node.bareAll, Node.bareAll, hbare, hbares], ?_, ?_⟩
  · rw [hglued₂, hglued, ← gluedAfter_cons]
  · rw [current_withCurrent, withCurrent_withCurrent] at hpasses₂
    rw [List.reverse_cons, List.append_assoc, List.singleton_append]
    exact hpasses.trans hpasses₂

theorem readsBody_nil : e.ReadsBody chain verbatim [] := by
  intro more offset o before _ _ _
  refine ⟨[], before, rfl, rfl, ?_⟩
  rw [List.reverse_nil, List.nil_append, withCurrent_current]
  exact .refl

theorem readsBody_text {value : Bytes} {span : Span} (hvalue : IsText value) (hnext : startsWithText ns = false)
    (hns : e.ReadsBody chain verbatim ns) : e.ReadsBody chain verbatim (.text value span :: ns) := by
  refine readsBody_cons (fun more offset o before _ hstart hmore => ?_) (fun _ => hnext) hns
  obtain ⟨place, hpasses⟩ := passes_text hvalue (hmore rfl) e o before offset
  have hpush : o.pushText value place = o.withCurrent (.text value place :: o.current) := by
    rcases pushText_eq o value place with ⟨t, x, rest, hcurrent, -⟩ | ⟨-, h⟩
    · have htext := hstart rfl
      rw [hcurrent] at htext
      cases htext
    · exact h
  rw [hpush] at hpasses
  exact ⟨.text value place, value.getLast?, rfl, rfl, hpasses⟩

theorem readsBody_interpolation {expr : Bytes} {escaped : Bool} {span : Span} (htrim : Text.trim expr = expr)
    (hclose : Bytes.contains (closing escaped) expr = false) (hns : e.ReadsBody chain verbatim ns) :
    e.ReadsBody chain verbatim (.interpolation expr escaped span :: ns) := by
  refine readsBody_cons (fun more offset o before _ _ _ => ?_) (fun h => nomatch h) hns
  obtain ⟨place, hpasses⟩ := passes_interpolation htrim hclose e more offset o before
  exact ⟨.interpolation expr escaped place, some closeBrace, rfl, by rfl, hpasses⟩

/-- The head of a canonical directive is read. -/
theorem passes_tag {tag : Tag} (htag : tag.Canonical) (before : Option UInt8) (more : Bytes) (offset : Nat) {o : Outline}
    (hverbatim : o.verbatim = false)
    (hknown : before.any isWordByte = true → e.registry.isPart tag.name = true ∨ (e.registry.lookup tag.name).isSome = true) :
    ∃ t raw, Tag.bare t = tag.bare ∧ t.name = tag.name ∧ t.autoClosed = false ∧
      e.Passes (printHead tag.name tag.expr) more offset o before (o.addHead e.registry e.options t raw)
        (some (ascii ')')) := by
  obtain ⟨span, raw, hpasses⟩ := passes_head htag.name htag.balanced e more offset o before
    (fun h => by rw [hverbatim] at h; cases h) fun h => Or.inr (hknown h)
  rw [htag.trimmed] at hpasses
  refine ⟨{ name := tag.name, args := some tag.expr, span }, raw, ?_, rfl, rfl, hpasses⟩
  obtain ⟨expr, hexpr⟩ := Option.isSome_iff_exists.mp htag.bracketed
  have hargs : some tag.expr = tag.args := by
    rw [Tag.expr, hexpr]
    rfl
  simp only [Tag.bare, hargs, htag.closed, htag.problem]

/-- The terminator closes the innermost block. -/
theorem passes_end (e : Reader) (more : Bytes) (offset : Nat) (root : List Node) (b : Block) (bs : List Block)
    (before : Option UInt8) :
    ∃ stop, e.Passes (printHead terminator []) more offset ⟨root, b :: bs⟩ before
      (Outline.push ⟨root, bs⟩ (b.finish stop false)) (some (ascii ')')) := by
  have hname : IsName terminator := ⟨by decide, by decide, by decide⟩
  obtain ⟨span, raw, hpasses⟩ := passes_head hname .nil e more offset ⟨root, b :: bs⟩ before (fun _ => rfl)
    fun _ => Or.inl rfl
  rw [addHead_end rfl] at hpasses
  exact ⟨_, hpasses⟩

theorem readsBody_lone {tag : Tag} {d : Definition} (htag : tag.Canonical) (hfree : ∀ p ∈ chain, p.name ≠ tag.name)
    (hlookup : e.registry.lookup tag.name = some d) (hblock : d.block = false) (hns : e.ReadsBody chain false ns) :
    e.ReadsBody chain false (.directive tag [] :: ns) := by
  refine readsBody_cons (fun more offset o before hopen _ _ => ?_) (fun h => nomatch h) hns
  obtain ⟨t, raw, hbare, hname, -, hpasses⟩ := passes_tag htag before more offset hopen.isVerbatim
    fun _ => Or.inr (by rw [hlookup]; rfl)
  rw [← hname] at hfree hlookup
  rw [addHead_lone hopen (hname ▸ htag.notEnd) hfree hlookup hblock] at hpasses
  refine ⟨.directive t [], some (ascii ')'), by rw [Node.bare, Node.bare, hbare], by rfl, ?_⟩
  rw [hname] at hlookup
  simp only [print, printAll, hlookup, Option.any_some, hblock, List.append_nil, Bool.false_eq_true, if_false]
  exact hpasses

theorem readsBody_block {tag : Tag} {d : Definition} {body parts : List Node} (htag : tag.Canonical)
    (hfree : ∀ p ∈ chain, p.name ≠ tag.name) (hlookup : e.registry.lookup tag.name = some d) (hblock : d.block = true)
    (hbody : e.ReadsBody d.parts d.isVerbatim body) (hparts : e.ReadsParts tag.name d d body parts)
    (htext : startsWithText parts = false) (hns : e.ReadsBody chain false ns) :
    e.ReadsBody chain false (.directive tag (body ++ parts) :: ns) := by
  refine readsBody_cons (fun more offset o before hopen _ _ => ?_) (fun h => nomatch h) hns
  -- the head opens the block
  obtain ⟨t, raw, hbare, hname, -, hhead⟩ := passes_tag htag before
    (printAll e.registry body ++ (printAll e.registry parts ++ printHead terminator []) ++ more) offset hopen.isVerbatim
    fun _ => Or.inr (by rw [hlookup]; rfl)
  rw [addHead_block hopen (hname ▸ htag.notEnd) (hname ▸ hfree) (hname ▸ hlookup) hblock] at hhead
  have hinside : Outline.Open { o with blocks := ⟨Link.ofTag t d [], []⟩ :: o.blocks } d.parts d.isVerbatim := by
    refine ⟨rfl, fun name hfree' b hb => ?_⟩
    cases hb
    simp only [Block.partFor, Link.ofTag, part?_eq_none hfree']
  -- its children
  have hboundary : isBoundary (printAll e.registry parts ++ printHead terminator [] ++ more) := by
    rw [List.append_assoc]
    exact isBoundary_printAll e.registry rfl htext
  obtain ⟨body', before₁, hbares, hglued, hchildren⟩ := hbody (printAll e.registry parts ++ printHead terminator [] ++ more)
    (offset + (printHead tag.name tag.expr).length) _ (some (ascii ')')) hinside (fun _ => rfl) hboundary
  have hcurrent : Outline.current { o with blocks := ⟨Link.ofTag t d [], []⟩ :: o.blocks } = [] := rfl
  rw [hcurrent, List.append_nil] at hchildren
  have hholds : Block.Holds tag d ⟨{ Link.ofTag t d [] with children := body'.reverse }, []⟩ d body'.reverse.reverse :=
    .directive hbare rfl rfl
  -- its parts
  obtain ⟨b', link', cs', before₂, hholds', hbares', hchain⟩ := hparts tag o.root _ o.blocks _ before₁
    (printHead terminator [] ++ more) (offset + (printHead tag.name tag.expr).length + (printAll e.registry body).length)
    hlookup rfl hholds hglued rfl
  -- and its end
  obtain ⟨stop, hend⟩ := passes_end e more (offset + (printHead tag.name tag.expr).length +
    (printAll e.registry body).length + (printAll e.registry parts).length) o.root b' o.blocks before₂
  refine ⟨b'.finish stop false, some (ascii ')'), ?_, by rfl, ?_⟩
  · rw [hholds'.bare_finish htag.closed, hbares', List.reverse_reverse, hbares, Node.bare, Node.bareAll_append]
  · simp only [print, printAll_append, hlookup, Option.any_some, hblock, if_true, List.append_assoc]
    exact hhead.trans (hchildren.trans (hchain.trans hend))

theorem readsParts_nil {owner : Bytes} {d link : Definition} {body : List Node} : e.ReadsParts owner d link body [] := by
  intro tag root b bs cs before more offset _ _ hholds _ _
  exact ⟨b, link, cs, before, hholds, by simp [Node.bareAll], .refl⟩

theorem readsParts_cons (hflat : e.registry.Flat) {owner : Bytes} {d link p : Definition} {body prior : List Node} {tag : Tag}
    (htag : tag.Canonical) (hpart : d.part? tag.name = some p) (hfollows : Recognised e.registry link prior tag.name)
    (hbody : e.ReadsBody d.parts p.isVerbatim body) (hns : e.ReadsParts owner d p body ns)
    (htext : startsWithText ns = false) : e.ReadsParts owner d link prior (.part owner tag body :: ns) := by
  rintro first root b bs cs before more offset hlookup rfl hholds hglued hmore
  -- the head opens the part
  have hverbatim : Outline.verbatim ⟨root, b :: bs⟩ = false := by
    rw [← hfollows.1, ← hholds.link_eq]
    rfl
  obtain ⟨t, raw, hbare, hname, hopen, hhead⟩ := passes_tag htag before
    (printAll e.registry body ++ printAll e.registry ns ++ more) offset hverbatim fun h => hfollows.2 (hglued ▸ h)
  obtain ⟨inner, hfound⟩ : ∃ inner, b.partFor t.name = some (inner, p) := by
    have hsecond := hholds.partFor_eq t.name
    rw [hname, hpart] at hsecond
    obtain ⟨⟨inner, _⟩, hfound, rfl⟩ := Option.map_eq_some_iff.mp hsecond
    exact ⟨inner, hname ▸ hfound⟩
  rw [addHead_part (hname ▸ htag.notEnd) hfound] at hhead
  obtain ⟨l, o, hadd, hdefinition, hchildren, hholds'⟩ := hholds.addPart hflat hlookup hfound hopen
  rw [hadd] at hhead
  have hinside : Outline.Open ⟨root, ⟨l, [o]⟩ :: bs⟩ d.parts p.isVerbatim := by
    refine ⟨by rw [← hdefinition]; rfl, fun name hfree b hb => ?_⟩
    cases hb
    have hnone := (hholds' []).partFor_eq name
    rw [part?_eq_none hfree] at hnone
    exact Option.map_eq_none_iff.mp hnone
  -- its children
  have hboundary : isBoundary (printAll e.registry ns ++ more) := isBoundary_printAll e.registry hmore htext
  obtain ⟨body', before₁, hbares, hglued₁, hread⟩ := hbody (printAll e.registry ns ++ more)
    (offset + (printHead tag.name tag.expr).length) _ (some (ascii ')')) hinside
    (fun _ => by simp only [Outline.current, hchildren, startsWithText]) hboundary
  have hcurrent : Outline.withCurrent ⟨root, ⟨l, [o]⟩ :: bs⟩ (body'.reverse ++ Outline.current ⟨root, ⟨l, [o]⟩ :: bs⟩) =
      ⟨root, ⟨{ l with children := body'.reverse }, [o]⟩ :: bs⟩ := by
    simp [Outline.withCurrent, Outline.current, hchildren]
  rw [hcurrent] at hread
  -- and the parts after it
  obtain ⟨b', link', cs', before₂, hholds₂, hbares₂, hrest⟩ := hns first root _ bs _ before₁ more
    (offset + (printHead tag.name tag.expr).length + (printAll e.registry body).length) hlookup rfl (hholds' body') hglued₁ hmore
  refine ⟨b', link', cs', before₂, hholds₂, ?_, ?_⟩
  · rw [hbares₂]
    simp [Node.bareAll, Node.bare, hbares, hbare]
  · simp only [printAll, print, List.append_assoc]
    exact hhead.trans (hread.trans hrest)

theorem startsWithText_parts {r : Registry} {follows : Definition → List Node → Bytes → Prop} {owner : Bytes}
    {d link : Definition} {body : List Node} (h : CanonicalParts r follows owner d link body ns) :
    startsWithText ns = false := by
  cases h <;> rfl

mutual

theorem readsBody_of_canonical (hflat : e.registry.Flat) : ∀ {chain : List Definition} {verbatim : Bool} {ns : List Node},
    Canonical e.registry (Recognised e.registry) chain verbatim ns → e.ReadsBody chain verbatim ns
  | _, _, _, .nil => readsBody_nil
  | _, _, _, .text hvalue hnext rest => readsBody_text hvalue hnext (readsBody_of_canonical hflat rest)
  | _, _, _, .interpolation htrim hclose rest =>
    readsBody_interpolation htrim hclose (readsBody_of_canonical hflat rest)
  | _, _, _, .lone htag hfree hlookup hblock rest =>
    readsBody_lone htag hfree hlookup hblock (readsBody_of_canonical hflat rest)
  | _, _, _, .block htag hfree hlookup hblock hbody hparts _ rest =>
    readsBody_block htag hfree hlookup hblock (readsBody_of_canonical hflat hbody)
      (readsParts_of_canonical hflat hparts) (startsWithText_parts hparts) (readsBody_of_canonical hflat rest)

theorem readsParts_of_canonical (hflat : e.registry.Flat) : ∀ {owner : Bytes} {d link : Definition} {body ps : List Node},
    CanonicalParts e.registry (Recognised e.registry) owner d link body ps → e.ReadsParts owner d link body ps
  | _, _, _, _, _, .nil => readsParts_nil
  | _, _, _, _, _, .cons htag hpart hfollows hbody rest =>
    readsParts_cons hflat htag hpart hfollows (readsBody_of_canonical hflat hbody)
      (readsParts_of_canonical hflat rest) (startsWithText_parts rest)

end

end

/-- A printed tree is read as it was, up to the locations. -/
theorem parse_printAll {r : Registry} (hflat : r.Flat) (options : ParseOptions) (path : Bytes) {nodes : List Node}
    (h : Canonical r (Recognised r) [] false nodes) :
    ∃ nodes', parse r options path (printAll r nodes) = .ok nodes' ∧ Node.bareAll nodes' = Node.bareAll nodes := by
  let e : Reader := ⟨r, options, path, LineTable.ofText (printAll r nodes)⟩
  have hopen : Outline.Open {} [] false := ⟨rfl, fun _ _ => nofun⟩
  obtain ⟨nodes', before, hbare, -, hpasses⟩ := readsBody_of_canonical (e := e) hflat h [] 0 {} none hopen (fun _ => rfl) rfl
  have hread : parseFrom r options path e.lines {} 0 none (printAll r nodes) = .ok ⟨nodes'.reverse, []⟩ := by
    have hpasses : parseFrom r options path e.lines {} 0 none (printAll r nodes ++ []) =
        parseFrom r options path e.lines ⟨nodes'.reverse ++ [], []⟩ (0 + (printAll r nodes).length) before [] := hpasses
    rwa [List.append_nil, List.append_nil, parseFrom] at hpasses
  refine ⟨nodes', ?_, hbare⟩
  simp only [parse]
  rw [hread]
  simp [Outline.nodes, Outline.closeAll]

/-- A condition with an alternative right after a word. -/
def conditionTree : List Node :=
  [.text "a@b " default,
    .directive (.written "if" "x") [.text "yes" default, .part "if" (.written "else" []) [.interpolation "y" true default]]]

theorem parse_printAll_condition :
    printAll Standard.registry conditionTree = "a@@b @if(x)yes@else(){{ y }}@end()" ∧
      ∃ nodes, parse Standard.registry {} "page" "a@@b @if(x)yes@else(){{ y }}@end()" = .ok nodes ∧
        Node.bareAll nodes = conditionTree := by
  have hif : Tag.Canonical (.written "if" "x") :=
    ⟨⟨by decide, by decide, by decide⟩, by decide, rfl, by decide, .byte rfl rfl rfl .nil, rfl, rfl⟩
  have helse : Tag.Canonical (.written "else" []) :=
    ⟨⟨by decide, by decide, by decide⟩, by decide, rfl, by decide, .nil, rfl, rfl⟩
  have hbody : Canonical Standard.registry (Recognised Standard.registry) Standard.ifDirective.parts false
      [.text "yes" default] := .text ⟨by decide, by decide, by decide, by decide⟩ rfl .nil
  have hparts : CanonicalParts Standard.registry (Recognised Standard.registry) "if" Standard.ifDirective
      Standard.ifDirective [.text "yes" default] [.part "if" (.written "else" []) [.interpolation "y" true default]] :=
    .cons helse (p := Standard.elsePart) rfl ⟨rfl, fun _ => Or.inl (by decide +kernel)⟩
      (.interpolation (by decide) (by decide) .nil) .nil
  have hblock : Canonical Standard.registry (Recognised Standard.registry) [] false [.directive (.written "if" "x")
      ([.text "yes" default] ++ [.part "if" (.written "else" []) [.interpolation "y" true default]])] :=
    .block hif nofun rfl rfl hbody hparts (fun h => nomatch h) .nil
  have htree : Canonical Standard.registry (Recognised Standard.registry) [] false conditionTree :=
    .text ⟨by decide, by decide, by decide, by decide⟩ rfl hblock
  have hprint : printAll Standard.registry conditionTree = "a@@b @if(x)yes@else(){{ y }}@end()" := by decide +kernel
  obtain ⟨nodes, hparse, hbare⟩ := parse_printAll Standard.flat_registry {} "page" htree
  rw [hprint] at hparse
  exact ⟨hprint, nodes, hparse, hbare⟩

/-- A chain with a script as its first part. -/
def scriptChain : Definition :=
  { name := "tabs", block := true,
    parts := [{ name := "code", block := true, content := "script" }, { name := "note", block := true }] }

def scriptRegistry : Registry := ⟨[{ definition := scriptChain }], false⟩

def scriptTree : List Node :=
  [.directive (.written "tabs" []) [.part "tabs" (.written "code" []) [], .part "tabs" (.written "note" []) []]]

theorem flat_scriptRegistry : scriptRegistry.Flat := by
  intro name d hlookup
  have hexact : ∀ d ∈ scriptRegistry.definitions, d.matching = .exact := by
    simp [scriptRegistry, scriptChain, Registry.definitions]
  obtain ⟨hmem, -⟩ := Registry.mem_of_lookup hexact hlookup
  simp only [scriptRegistry, Registry.definitions, List.map_cons, List.map_nil, List.mem_singleton] at hmem
  subst hmem
  simp [scriptChain]

/-- A chain that a pattern makes for a name, so that the registry does not know its parts. -/
def madeChain : Definition := { name := "tabs", block := true, parts := [{ name := "note", block := true }] }

def madeRegistry : Registry :=
  ⟨[{ definition := { name := "tabs", matching := .pattern (some ⟨"x", .literal 120⟩) }, resolve := some fun _ => some madeChain }],
    false⟩

def madeTree : List Node := [.directive (.written "x" []) [.text "a" default, .part "x" (.written "note" []) []]]

theorem eq_madeChain_of_lookup {name : Bytes} {d : Definition} (h : madeRegistry.lookup name = some d) : d = madeChain := by
  have hnamed : madeRegistry.named? name = none := rfl
  rw [Registry.lookup, hnamed] at h
  obtain ⟨e, he, hmatched⟩ := List.exists_of_findSome?_eq_some h
  obtain rfl := List.mem_singleton.mp he
  simp only [Registry.Registration.matched?] at hmatched
  split at hmatched
  · cases hmatched
    rfl
  · cases hmatched

theorem lookup_madeRegistry : madeRegistry.lookup "x" = some madeChain := by
  have hsome : (madeRegistry.lookup "x").isSome = true := by decide +kernel
  obtain ⟨d, hd⟩ := Option.isSome_iff_exists.mp hsome
  rw [hd, eq_madeChain_of_lookup hd]

def hasOnlyChild : Except Diagnostic (List Node) → Bool
  | .ok [.directive _ [_]] => true
  | _ => false

theorem exists_of_hasOnlyChild {nodes : List Node} (h : hasOnlyChild (.ok nodes) = true) :
    ∃ tag child, nodes = [.directive tag [child]] := by
  unfold hasOnlyChild at h
  split at h
  · rename_i tag child hnodes
    cases hnodes
    exact ⟨tag, child, rfl⟩
  · cases h

/-- Inside a script the next part is text, and so is a part with an unknown name right after a word: such
chains are not read again. -/
theorem not_parse_printAll :
    (scriptRegistry.Flat ∧ Canonical scriptRegistry (fun _ _ _ => True) [] false scriptTree ∧
      ¬∃ nodes, parse scriptRegistry {} "page" (printAll scriptRegistry scriptTree) = .ok nodes ∧
        Node.bareAll nodes = Node.bareAll scriptTree) ∧
    madeRegistry.Flat ∧ Canonical madeRegistry (fun _ _ _ => True) [] false madeTree ∧
      ¬∃ nodes, parse madeRegistry {} "page" (printAll madeRegistry madeTree) = .ok nodes ∧
        Node.bareAll nodes = Node.bareAll madeTree := by
  have htag : ∀ name : Bytes, IsName name → name ≠ terminator → Tag.Canonical (.written name []) :=
    fun name hname hend => ⟨hname, hend, rfl, rfl, .nil, rfl, rfl⟩
  have hnote : Tag.Canonical (.written "note" []) := htag "note" ⟨by decide, by decide, by decide⟩ (by decide)
  refine ⟨⟨flat_scriptRegistry, ?_, ?_⟩, ?_, ?_, ?_⟩
  · have hparts : CanonicalParts scriptRegistry (fun _ _ _ => True) "tabs" scriptChain scriptChain []
        [.part "tabs" (.written "code" []) [], .part "tabs" (.written "note" []) []] :=
      .cons (htag "code" ⟨by decide, by decide, by decide⟩ (by decide)) rfl trivial .nil (.cons hnote rfl trivial .nil .nil)
    have hblock : Canonical scriptRegistry (fun _ _ _ => True) [] false [.directive (.written "tabs" [])
        ([] ++ [.part "tabs" (.written "code" []) [], .part "tabs" (.written "note" []) []])] :=
      .block (htag "tabs" ⟨by decide, by decide, by decide⟩ (by decide)) (List.forall_mem_nil _) rfl rfl .nil hparts (fun h => by cases h) .nil
    exact hblock
  · rintro ⟨nodes, hparse, hbare⟩
    have hread : hasOnlyChild (parse scriptRegistry {} "page" (printAll scriptRegistry scriptTree)) = true := by decide +kernel
    rw [hparse] at hread
    obtain ⟨tag, child, rfl⟩ := exists_of_hasOnlyChild hread
    simp [Node.bareAll, Node.bare, scriptTree] at hbare
  · intro name d hlookup
    rw [eq_madeChain_of_lookup hlookup]
    simp [madeChain]
  · have hbody : Canonical madeRegistry (fun _ _ _ => True) madeChain.parts false [.text "a" default] :=
      .text ⟨by decide, by decide, by decide, by decide⟩ rfl .nil
    have hparts : CanonicalParts madeRegistry (fun _ _ _ => True) "x" madeChain madeChain [.text "a" default]
        [.part "x" (.written "note" []) []] := .cons hnote rfl trivial .nil .nil
    have hblock : Canonical madeRegistry (fun _ _ _ => True) [] false [.directive (.written "x" [])
        ([.text "a" default] ++ [.part "x" (.written "note" []) []])] :=
      .block (htag "x" ⟨by decide, by decide, by decide⟩ (by decide)) (List.forall_mem_nil _) lookup_madeRegistry rfl hbody hparts
        (fun h => by cases h) .nil
    exact hblock
  · rintro ⟨nodes, hparse, hbare⟩
    have hread : hasOnlyChild (parse madeRegistry {} "page" (printAll madeRegistry madeTree)) = true := by decide +kernel
    rw [hparse] at hread
    obtain ⟨tag, child, rfl⟩ := exists_of_hasOnlyChild hread
    simp [Node.bareAll, Node.bare, madeTree] at hbare

end Stencil.Markup
