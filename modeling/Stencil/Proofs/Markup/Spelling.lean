import Stencil.Markup.Parse
import Stencil.Proofs.Argument.Balanced
import Stencil.Proofs.Directive.Lookup
import Stencil.Proofs.Text.Pieces

/-! # The source of a tree

A template is, from left to right, what its tree was read from: text with its doubled at signs,
interpolations, directive heads, and one terminator for each block that has an end
(`spells_of_parse`). The tree under construction spells what was read so far, and each piece adds
its own source to it. -/

namespace Stencil.Markup

open Stencil.Directive

/-! ### Sources -/

/-- The source of a directive head. -/
inductive HeadSource (name : Bytes) : Option Bytes → Bytes → Prop
  | bare : HeadSource name none (ascii '@' :: name)
  | bracketed {before expr after : Bytes} (hbefore : Text.isBlank before = true) (hafter : Text.isBlank after = true) :
      HeadSource name (some expr) (ascii '@' :: (name ++ ascii '(' :: (before ++ expr ++ after ++ [ascii ')'])))

def opening (escaped : Bool) : Bytes := if escaped then [openBrace, openBrace] else openBrace :: "!!"

def closing (escaped : Bool) : Bytes := if escaped then [closeBrace, closeBrace] else "!!" ++ [closeBrace]

/-- The source of an interpolation. -/
inductive InterpolationSource (expr : Bytes) (escaped : Bool) : Bytes → Prop
  | mk {before after : Bytes} (hbefore : Text.isBlank before = true) (hafter : Text.isBlank after = true) :
      InterpolationSource expr escaped (opening escaped ++ (before ++ expr ++ after) ++ closing escaped)

/-- The end of a block: nothing when the template ends first. -/
def EndSource (autoClosed : Bool) (source : Bytes) : Prop :=
  if autoClosed then source = [] else ∃ args, HeadSource terminator args source

/-- The directive owns a block. -/
def OwnsBlock (r : Registry) (tag : Tag) : Prop :=
  tag.problem = .none ∧ ∃ d, r.lookup tag.name = some d ∧ d.block = true

section
variable (r : Registry) (options : ParseOptions)

/-- The source of literal text, when `after` follows: two at signs stand for one, a single one has no
other behind it, and the head of an unknown directive may be text as a whole. -/
inductive TextSource (after : Bytes) : (value source : Bytes) → Prop
  | nil : TextSource after [] []
  | pair {value source : Bytes} (rest : TextSource after value source) :
      TextSource after (ascii '@' :: value) (ascii '@' :: ascii '@' :: source)
  | byte {c : UInt8} {value source : Bytes} (hc : c = ascii '@' → ¬Bytes.startsWith "@" (source ++ after))
      (rest : TextSource after value source) : TextSource after (c :: value) (c :: source)
  | unknown {name head : Bytes} {args : Option Bytes} {value source : Bytes} (hoption : options.unknownAsText = true)
      (hname : name ≠ terminator) (hlookup : r.lookup name = none) (hhead : HeadSource name args head)
      (rest : TextSource after value source) : TextSource after (head ++ value) (head ++ source)

mutual

/-- The source of a node, when `after` follows. -/
inductive Spells : (after : Bytes) → Node → (source : Bytes) → Prop
  | text {after value source : Bytes} {span : Span} (htext : TextSource r options after value source) :
      Spells after (.text value span) source
  | interpolation {after expr source : Bytes} {escaped : Bool} {span : Span}
      (hexpr : InterpolationSource expr escaped source) : Spells after (.interpolation expr escaped span) source
  | lone {after head : Bytes} {tag : Tag} (hlone : ¬OwnsBlock r tag) (hhead : HeadSource tag.name tag.args head) :
      Spells after (.directive tag []) head
  | block {after head body stop : Bytes} {tag : Tag} {children : List Node} (hblock : OwnsBlock r tag)
      (hhead : HeadSource tag.name tag.args head) (hbody : SpellsAll (stop ++ after) children body)
      (hstop : EndSource tag.autoClosed stop) : Spells after (.directive tag children) (head ++ body ++ stop)
  | part {after head body owner : Bytes} {tag : Tag} {children : List Node}
      (hhead : HeadSource tag.name tag.args head) (hbody : SpellsAll after children body) :
      Spells after (.part owner tag children) (head ++ body)

/-- The source of a list of nodes: the sources of the nodes in order. -/
inductive SpellsAll : (after : Bytes) → List Node → (source : Bytes) → Prop
  | nil {after : Bytes} : SpellsAll after [] []
  | cons {after source rest : Bytes} {n : Node} {ns : List Node} (hn : Spells (rest ++ after) n source)
      (hrest : SpellsAll after ns rest) : SpellsAll after (n :: ns) (source ++ rest)

end

end

section
variable {r : Registry} {options : ParseOptions}

/-! ### One source after another -/

theorem TextSource.append {after v s v' s' : Bytes} (h : TextSource r options (s' ++ after) v s)
    (h' : TextSource r options after v' s') : TextSource r options after (v ++ v') (s ++ s') := by
  induction h with
  | nil => exact h'
  | pair _ ih => exact .pair ih
  | byte hc _ ih => exact .byte (by simpa using hc) ih
  | unknown hoption hname hlookup hhead _ ih =>
    rw [List.append_assoc, List.append_assoc]
    exact .unknown hoption hname hlookup hhead ih

theorem Spells.single {after s : Bytes} {n : Node} (h : Spells r options after n s) : SpellsAll r options after [n] s := by
  rw [← List.append_nil s]
  exact .cons h .nil

theorem SpellsAll.append {after s s' : Bytes} {ns ns' : List Node} (h : SpellsAll r options (s' ++ after) ns s)
    (h' : SpellsAll r options after ns' s') : SpellsAll r options after (ns ++ ns') (s ++ s') := by
  induction ns generalizing s with
  | nil =>
    cases h
    exact h'
  | cons n ns ih =>
    cases h with
    | @cons _ source rest _ _ hn hrest =>
      rw [List.append_assoc]
      rw [← List.append_assoc] at hn
      exact .cons hn (ih hrest)

/-- The source of a list is that of its front and that of its end. -/
theorem SpellsAll.split {after s : Bytes} {ns ns' : List Node} (h : SpellsAll r options after (ns ++ ns') s) :
    ∃ a b, s = a ++ b ∧ SpellsAll r options (b ++ after) ns a ∧ SpellsAll r options after ns' b := by
  induction ns generalizing s with
  | nil => exact ⟨[], s, rfl, .nil, h⟩
  | cons n ns ih =>
    cases h with
    | @cons _ source rest _ _ hn hrest =>
      obtain ⟨a, b, rfl, ha, hb⟩ := ih hrest
      rw [List.append_assoc] at hn
      exact ⟨source ++ a, b, (List.append_assoc _ _ _).symm, .cons hn ha, hb⟩

theorem SpellsAll.of_single {after s : Bytes} {n : Node} (h : SpellsAll r options after [n] s) :
    Spells r options after n s := by
  cases h with
  | cons hn hrest =>
    cases hrest
    rwa [List.append_nil]

/-! ### Pieces -/

variable (r options) in
/-- The source of a piece, when `after` follows. -/
def PieceSource (after : Bytes) : Piece → (source : Bytes) → Prop
  | .text value, source => TextSource r options after value source
  | .interpolation expr escaped, source => InterpolationSource expr escaped source
  | .head name args, source => HeadSource name args source

theorem takeName_append_drop (s : Bytes) : takeName s ++ s.drop (takeName s).length = s := by
  have hrun : s.takeWhile isNameByte <+: s := List.takeWhile_prefix _
  have hbody : ((s.takeWhile isNameByte).reverse.dropWhile (· == ascii '-')).reverse <+: s.takeWhile isNameByte := by
    rw [← List.reverse_suffix, List.reverse_reverse]
    exact List.dropWhile_suffix _
  have hfirst : (s.takeWhile isNameByte).take 1 <+: s.takeWhile isNameByte := List.take_prefix 1 _
  apply List.prefix_iff_eq_append.mp
  unfold takeName
  simp only
  split
  · exact hfirst.trans hrun
  · exact hbody.trans hrun

theorem textSource_plain {after s : Bytes} (h : ∀ c ∈ s, c ≠ ascii '@') : TextSource r options after s s := by
  induction s with
  | nil => exact .nil
  | cons c s ih =>
    exact .byte (fun hc => absurd hc (h c List.mem_cons_self)) (ih fun d hd => h d (List.mem_cons_of_mem c hd))

theorem take_eq_of_append {x s b : Bytes} {n : Nat} (hs : s = x ++ b) (hn : x.length = n) : s.take n = x := by
  rw [hs, ← hn, List.take_left]

theorem startsWith_eq {lead s : Bytes} (h : Bytes.startsWith lead s = true) : s = lead ++ s.drop lead.length :=
  List.prefix_iff_eq_append.mp (List.isPrefixOf_iff_prefix.mp h) |>.symm

theorem interpolationSource {escaped : Bool} {c : UInt8} {l cs : Bytes} {p : Piece} {n : Nat}
    (hopen : opening escaped = c :: l) (hlead : Bytes.startsWith l cs = true)
    (h : interpolation (closing escaped) escaped (cs.drop l.length) = some (p, n)) :
    PieceSource r options (cs.drop (l.length + n)) p (c :: cs.take (l.length + n)) := by
  obtain ⟨⟨a, b⟩, hcut, hpiece⟩ := Option.map_eq_some_iff.mp h
  cases hpiece
  obtain ⟨x, y, hx, hy, hxy⟩ := Text.exists_trim a
  have hcs : cs = l ++ (a ++ closing escaped ++ b) := by
    rw [← Bytes.eq_of_cut hcut]
    exact startsWith_eq hlead
  have htake : cs.take (l.length + (a.length + (closing escaped).length)) = l ++ (a ++ closing escaped) :=
    take_eq_of_append (b := b) (by rw [hcs]; simp only [List.append_assoc]) (by simp only [List.length_append])
  have hsource : c :: (l ++ (a ++ closing escaped)) = opening escaped ++ (x ++ Text.trim a ++ y) ++ closing escaped := by
    rw [hopen, ← hxy]
    simp only [List.cons_append, List.append_assoc]
  rw [htake, hsource]
  exact .mk hx hy

/-- A directive head is read from its name and its brackets. -/
theorem headSource {offset : Nat} {cs : Bytes} {p : Piece} {n : Nat}
    (h : (match cs.drop (takeName cs).length with
      | d :: ds =>
        if d = ascii '(' then
          match Argument.closingFrom (ascii ')') [] .plain (offset + 1 + (takeName cs).length + 1) ds with
          | .ok stop =>
            .ok (.head (takeName cs) (some (Text.trim (ds.take (stop - (offset + 1 + (takeName cs).length + 1))))),
              (takeName cs).length + 1 + (ds.take (stop - (offset + 1 + (takeName cs).length + 1))).length + 1)
          | .error e => .error ("malformed directive head @" ++ takeName cs ++ ": " ++ e.message)
        else .ok (.head (takeName cs) none, (takeName cs).length)
      | [] => .ok (.head (takeName cs) none, (takeName cs).length) : Except Bytes (Piece × Nat)) = .ok (p, n)) :
    PieceSource r options (cs.drop n) p (ascii '@' :: cs.take n) := by
  have hcs := takeName_append_drop cs
  have hname : cs.take (takeName cs).length = takeName cs := take_eq_of_append hcs.symm rfl
  split at h
  · rename_i d ds hdrop
    rw [hdrop] at hcs
    split at h
    · rename_i hd
      split at h
      · rename_i stop hstop
        obtain ⟨a, b, rfl, rfl⟩ := Argument.exists_of_closingFrom hstop
        rw [Nat.add_sub_cancel_left, List.take_left] at h
        cases h
        obtain ⟨x, y, hx, hy, hxy⟩ := Text.exists_trim a
        have hsource : cs.take ((takeName cs).length + 1 + a.length + 1) =
            takeName cs ++ ascii '(' :: (x ++ Text.trim a ++ y ++ [ascii ')']) := by
          rw [← hxy]
          refine take_eq_of_append (b := b) ?_ ?_
          · rw [hd] at hcs
            simpa using hcs.symm
          · simp only [List.length_append, List.length_cons, List.length_nil]
            omega
        rw [hsource]
        exact .bracketed hx hy
      · cases h
    · cases h
      rw [hname]
      exact .bare
  · cases h
    rw [hname]
    exact .bare

/-- A piece is read from the bytes that it takes. -/
theorem pieceSource {verbatim : Bool} {offset : Nat} {before : Option UInt8} {c : UInt8} {cs : Bytes} {p : Piece}
    {n : Nat} (h : piece r verbatim offset before c cs = .ok (p, n)) :
    PieceSource r options (cs.drop n) p (c :: cs.take n) := by
  unfold piece at h
  split at h
  · rename_i hopen
    split at h
    · rename_i q k hpiece
      cases h
      exact interpolationSource (l := [openBrace]) (by rw [hopen.1]; rfl) hopen.2 hpiece
    · cases h
  split at h
  · rename_i hopen
    split at h
    · rename_i q k hpiece
      cases h
      exact interpolationSource (l := "!!") (by rw [hopen.1]; rfl) hopen.2 hpiece
    · cases h
  split at h
  · rename_i hpair
    cases h
    have hcs := startsWith_eq hpair.2
    have hsource : c :: cs.take 1 = [ascii '@', ascii '@'] := by
      rw [hpair.1, hcs]
      rfl
    rw [hsource, hpair.1]
    exact .pair .nil
  rename_i hpair
  -- one at sign or brace that starts nothing
  have hsingle : PieceSource r options (cs.drop 0) (.text [c]) (c :: cs.take 0) :=
    .byte (fun hc hnext => hpair ⟨hc, hnext⟩) .nil
  split at h
  · cases h
    exact hsingle
  split at h
  · rename_i hstart
    rw [hstart.1]
    exact headSource h
  split at h
  · cases h
    exact hsingle
  · rename_i hplain
    cases h
    have hrun : cs.take (cs.takeWhile fun d => !isSpecial d).length = cs.takeWhile fun d => !isSpecial d :=
      take_eq_of_append (List.takeWhile_append_dropWhile).symm rfl
    rw [hrun]
    have hspecial : ∀ d, isSpecial d = false → d ≠ ascii '@' := by
      rintro d hd rfl
      cases hd
    refine textSource_plain fun d hd => hspecial d ?_
    rcases List.mem_cons.mp hd with rfl | hd
    · exact Bool.eq_false_iff.mpr hplain
    · simpa using List.all_eq_true.mp List.all_takeWhile d hd

/-! ### The tree under construction -/

/-- The directive that a link was opened by owns a block. -/
structure Link.Owns (r : Registry) (l : Link) : Prop where
  lookup : r.lookup l.tag.name = some l.definition
  block : l.definition.block = true
  problem : l.tag.problem = .none

theorem Link.Owns.ownsBlock {l : Link} (h : l.Owns r) : OwnsBlock r l.tag := ⟨h.problem, l.definition, h.lookup, h.block⟩

variable (r options)

/-- The source of an open link: its head and its children so far. -/
inductive Link.Spelled (after : Bytes) (l : Link) : (source : Bytes) → Prop
  | mk {head body : Bytes} (hlater : l.later = []) (hhead : HeadSource l.tag.name l.tag.args head)
      (hbody : SpellsAll r options after l.children.reverse body) : Spelled after l (head ++ body)

/-- The source of an open block: a directive, and maybe the part of its chain that is open. -/
inductive Block.Spelled (after : Bytes) : Block → (source : Bytes) → Prop
  | directive {l : Link} {source : Bytes} (howns : l.Owns r) (hl : l.Spelled r options after source) :
      Spelled after ⟨l, []⟩ source
  | part {o l : Link} {before source : Bytes} (howns : o.Owns r) (hparts : l.definition.parts = [])
      (ho : o.Spelled r options (source ++ after) before) (hl : l.Spelled r options after source) :
      Spelled after ⟨l, [o]⟩ (before ++ source)

/-- The source of the tree so far: what is closed, and the open blocks from the outermost inwards. -/
inductive Outline.Spelled : (after : Bytes) → Outline → (source : Bytes) → Prop
  | root {after source : Bytes} {root : List Node} (h : SpellsAll r options after root.reverse source) :
      Spelled after ⟨root, []⟩ source
  | block {after before source : Bytes} {root : List Node} {b : Block} {bs : List Block}
      (hbefore : Spelled (source ++ after) ⟨root, bs⟩ before) (hb : b.Spelled r options after source) :
      Spelled after ⟨root, b :: bs⟩ (before ++ source)

variable {r options}

/-- The nodes at the end of the tree may be exchanged for others. -/
theorem Outline.Spelled.current {after s : Bytes} {o : Outline} (h : o.Spelled r options after s) :
    ∃ x y, s = x ++ y ∧ SpellsAll r options after o.current.reverse y ∧
      ∀ {after' y' : Bytes} {nodes : List Node}, y' ++ after' = y ++ after → SpellsAll r options after' nodes.reverse y' →
        (o.withCurrent nodes).Spelled r options after' (x ++ y') := by
  cases h with
  | root h => exact ⟨[], s, rfl, h, fun _ h' => .root h'⟩
  | @block _ before source root b bs hbefore hb =>
    cases hb with
    | directive howns hl =>
      cases hl with
      | @mk head body hlater hhead hbody =>
        refine ⟨before ++ head, body, by rw [List.append_assoc], hbody, fun {after' y' nodes} heq h' => ?_⟩
        rw [List.append_assoc, ← heq] at hbefore
        rw [List.append_assoc]
        exact .block (by rwa [List.append_assoc]) (.directive ⟨howns.lookup, howns.block, howns.problem⟩ (.mk hlater hhead h'))
    | @part o l first second howns hparts ho hl =>
      cases hl with
      | @mk head body hlater hhead hbody =>
        refine ⟨before ++ (first ++ head), body, by simp only [List.append_assoc], hbody, fun {after' y' nodes} heq h' => ?_⟩
        have hbefore' : Outline.Spelled r options ((first ++ (head ++ y')) ++ after') ⟨root, bs⟩ before := by
          simpa [heq] using hbefore
        have ho' : o.Spelled r options ((head ++ y') ++ after') first := by
          simpa [heq] using ho
        rw [List.append_assoc, List.append_assoc]
        exact .block hbefore' (.part howns hparts ho' (.mk hlater hhead h'))

theorem Outline.Spelled.push {after raw s : Bytes} {o : Outline} {n : Node} (h : o.Spelled r options (raw ++ after) s)
    (hn : Spells r options after n raw) : (o.push n).Spelled r options after (s ++ raw) := by
  obtain ⟨x, y, rfl, hy, hnext⟩ := h.current
  rw [List.append_assoc]
  refine hnext (List.append_assoc _ _ _) ?_
  rw [List.reverse_cons]
  exact hy.append hn.single

/-- Text joins the text before it. -/
theorem Outline.Spelled.pushText {after raw s value : Bytes} {o : Outline} {span : Span}
    (h : o.Spelled r options (raw ++ after) s) (hvalue : TextSource r options after value raw) :
    (o.pushText value span).Spelled r options after (s ++ raw) := by
  unfold Outline.pushText
  split
  · rename_i before span' rest hcurrent
    obtain ⟨x, y, rfl, hy, hnext⟩ := h.current
    rw [hcurrent, List.reverse_cons] at hy
    obtain ⟨a, b, rfl, ha, hb⟩ := hy.split
    rw [List.append_assoc]
    refine hnext (List.append_assoc _ _ _) ?_
    cases hb.of_single with
    | text htext =>
      rw [List.reverse_cons, List.append_assoc]
      refine SpellsAll.append ?_ (Spells.text (htext.append hvalue)).single
      rwa [List.append_assoc]
  · exact h.push (.text hvalue)

/-! ### Blocks -/

/-- A closed part follows the children of its chain. -/
theorem Link.Spelled.adopt {after s s' : Bytes} {o l : Link} (ho : o.Spelled r options (s' ++ after) s)
    (hl : l.Spelled r options after s') : (o.adopt l.partNode).Spelled r options after (s ++ s') := by
  cases ho with
  | @mk head body hlater hhead hbody =>
    cases hl with
    | mk _ hhead' hbody' =>
      rw [List.append_assoc]
      refine .mk rfl hhead ?_
      simp only [Link.adopt, hlater, List.nil_append, List.reverse_cons]
      exact hbody.append (Spells.part hhead' hbody').single

theorem Link.Spelled.closedAt {after s : Bytes} {l : Link} (h : l.Spelled r options after s) (stop : Position)
    (auto : Bool) : (l.closedAt stop auto).Spelled r options after s := by
  cases h with
  | mk hlater hhead hbody => exact .mk hlater hhead hbody

theorem Link.Spelled.directive {after s stop : Bytes} {l : Link} (howns : l.Owns r)
    (h : l.Spelled r options (stop ++ after) s) (hstop : EndSource l.tag.autoClosed stop) :
    Spells r options after (.directive l.tag l.children.reverse) (s ++ stop) := by
  cases h with
  | mk hlater hhead hbody => exact .block howns.ownsBlock hhead hbody hstop

/-- A block that ends is spelled by its source and its end. -/
theorem Block.Spelled.finish {after s stop : Bytes} {b : Block} (h : b.Spelled r options (stop ++ after) s)
    (place : Position) {auto : Bool} (hstop : EndSource auto stop) :
    Spells r options after (b.finish place auto) (s ++ stop) := by
  cases h with
  | @directive l _ howns hl =>
    have howns' : (l.closedAt place auto).Owns r := ⟨howns.lookup, howns.block, howns.problem⟩
    exact Link.Spelled.directive howns' (hl.closedAt place auto) hstop
  | @part o l before source howns hparts ho hl =>
    have howns' : ((o.closedAt place auto).adopt (l.closedAt place auto).partNode).Owns r :=
      ⟨howns.lookup, howns.block, howns.problem⟩
    exact Link.Spelled.directive howns' ((ho.closedAt place auto).adopt (hl.closedAt place auto)) hstop

theorem Outline.Spelled.closeTop {after s stop : Bytes} {o : Outline} (h : o.Spelled r options (stop ++ after) s)
    (hopen : o.blocks ≠ []) (place : Position) {auto : Bool} (hstop : EndSource auto stop) :
    (o.closeTop place auto).Spelled r options after (s ++ stop) := by
  cases h with
  | root h => exact absurd rfl hopen
  | @block _ before source root b bs hbefore hb =>
    rw [List.append_assoc]
    rw [← List.append_assoc] at hbefore
    exact hbefore.push (hb.finish place hstop)

theorem closeAll_eq (place : Position) (root : List Node) (b : Block) (bs : List Block) :
    Outline.closeAll place root (b :: bs) =
      Outline.closeAll place (Outline.closeTop ⟨root, b :: bs⟩ place true).root
        (Outline.closeTop ⟨root, b :: bs⟩ place true).blocks := by
  cases bs with
  | nil => simp only [Outline.closeAll, Outline.closeTop, Outline.push, Outline.withCurrent, Outline.current]
  | cons outer bs =>
    rw [Outline.closeAll]
    rfl

/-- The finished tree spells what the tree under construction does. -/
theorem Outline.Spelled.nodes {s : Bytes} (place : Position) {o : Outline} (h : o.Spelled r options [] s) :
    SpellsAll r options [] (o.nodes place) s := by
  obtain ⟨root, blocks⟩ := o
  induction hn : blocks.length generalizing root blocks with
  | zero =>
    obtain rfl := List.eq_nil_of_length_eq_zero hn
    cases h with
    | root h => simpa [Outline.nodes, Outline.closeAll] using h
  | succ n ih =>
    cases blocks with
    | nil => cases hn
    | cons b bs =>
      have hclosed : (Outline.closeTop ⟨root, b :: bs⟩ place true).Spelled r options [] (s ++ []) :=
        h.closeTop (List.cons_ne_nil b bs) place rfl
      rw [List.append_nil] at hclosed
      have hlength : (Outline.closeTop ⟨root, b :: bs⟩ place true).blocks.length = n := by
        rw [List.length_cons, Nat.add_right_cancel_iff] at hn
        rw [← hn]
        cases bs <;> rfl
      rw [Outline.nodes, closeAll_eq]
      exact ih _ _ hclosed hlength

/-- A new part is spelled by its head. -/
theorem Block.Spelled.addPart (hflat : r.Flat) {after raw s : Bytes} {b : Block} {tag : Tag} {inner : Bool}
    {d : Definition} (h : b.Spelled r options (raw ++ after) s) (hpart : b.partFor tag.name = some (inner, d))
    (hhead : HeadSource tag.name tag.args raw) : (b.addPart inner tag d).Spelled r options after (s ++ raw) := by
  have hfresh : ∀ owner, (Link.ofTag tag d owner).Spelled r options after raw := by
    intro owner
    rw [← List.append_nil raw]
    exact .mk rfl hhead .nil
  unfold Block.partFor at hpart
  cases h with
  | @directive l _ howns hl =>
    split at hpart
    · rename_i d' hd'
      cases hpart
      obtain ⟨hblock, hparts⟩ := hflat _ _ howns.lookup d (List.mem_of_find?_eq_some hd')
      simp only [Block.addPart, hblock, if_true]
      exact .part howns hparts hl (hfresh _)
    · cases hpart
  | @part o l before source howns hnone ho hl =>
    simp only [Definition.part?, hnone, List.find?_nil] at hpart
    obtain ⟨d', hd', heq⟩ := Option.map_eq_some_iff.mp hpart
    cases heq
    obtain ⟨hblock, hparts⟩ := hflat _ _ howns.lookup d (List.mem_of_find?_eq_some hd')
    have howns' : (o.adopt l.partNode).Owns r := ⟨howns.lookup, howns.block, howns.problem⟩
    simp only [Block.addPart, hblock, if_true, Bool.false_eq_true, if_false]
    refine .part howns' hparts ?_ (hfresh _)
    exact ho.adopt hl

/-! ### Reading -/

/-- A directive head finds its place, or stays text as a whole. -/
theorem Outline.Spelled.addHead (hflat : r.Flat) {after raw s : Bytes} {o : Outline} {tag : Tag}
    (h : o.Spelled r options (raw ++ after) s) (hhead : HeadSource tag.name tag.args raw) (hproblem : tag.problem = .none) :
    (o.addHead r options tag raw).Spelled r options after (s ++ raw) := by
  unfold Outline.addHead
  split
  · rename_i hname
    split
    · exact h.push (.lone (fun hblock => Problem.noConfusion hblock.1) hhead)
    · rename_i hblocks
      refine h.closeTop (by rw [hblocks]; exact List.cons_ne_nil _ _) _ ?_
      exact ⟨tag.args, hname ▸ hhead⟩
  rename_i hname
  split
  · rename_i b inner d hpart
    cases h with
    | root h => cases hpart
    | @block _ before source root b' bs hbefore hb =>
      obtain ⟨pair, hpart, hpair⟩ := Option.map_eq_some_iff.mp hpart
      cases hpair
      rw [List.append_assoc]
      rw [← List.append_assoc] at hbefore
      exact .block hbefore (hb.addPart hflat hpart hhead)
  split
  · rename_i d hlookup
    split
    · rename_i hblock
      refine .block h (.directive ⟨hlookup, hblock, hproblem⟩ ?_)
      rw [← List.append_nil raw]
      exact .mk rfl hhead .nil
    · rename_i hblock
      refine h.push (.lone ?_ hhead)
      rintro ⟨-, d', hlookup', hblock'⟩
      cases hlookup.symm.trans hlookup'
      exact hblock hblock'
  rename_i hlookup
  split
  · rename_i hoption
    have htext : TextSource r options after (raw ++ []) (raw ++ []) := .unknown hoption hname hlookup hhead .nil
    rw [List.append_nil] at htext
    exact h.pushText htext
  · refine h.push (.lone ?_ hhead)
    rintro ⟨-, d, hlookup', -⟩
    cases hlookup.symm.trans hlookup'

theorem Outline.Spelled.add (hflat : r.Flat) {after raw s : Bytes} {o : Outline} {p : Piece} (lines : LineTable)
    (start : Nat) (h : o.Spelled r options (raw ++ after) s) (hpiece : PieceSource r options after p raw) :
    (o.add r options lines start raw p).Spelled r options after (s ++ raw) := by
  cases p with
  | text value => exact h.pushText hpiece
  | interpolation expr escaped => exact h.push (.interpolation hpiece)
  | head name args => exact h.addHead hflat hpiece rfl

/-- Reading on spells the rest as well. -/
theorem spelled_of_parseFrom (hflat : r.Flat) {path : Bytes} {lines : LineTable} {o o' : Outline} {offset : Nat}
    {before : Option UInt8} {rest s : Bytes} (h : parseFrom r options path lines o offset before rest = .ok o')
    (ho : o.Spelled r options rest s) : o'.Spelled r options [] (s ++ rest) := by
  induction hn : rest.length using Nat.strongRecOn generalizing o offset before rest s with
  | _ n ih =>
    cases rest with
    | nil =>
      rw [parseFrom] at h
      cases h
      rwa [List.append_nil]
    | cons c cs =>
      rw [parseFrom] at h
      split at h
      · cases h
      · rename_i p k hpiece
        have hsplit : c :: cs = (c :: cs.take k) ++ cs.drop k := by
          rw [List.cons_append, List.take_append_drop]
        rw [hsplit] at ho
        have hadd := ho.add hflat lines offset (pieceSource hpiece)
        have hshorter : (cs.drop k).length < n := by
          rw [← hn, List.length_drop, List.length_cons]
          omega
        have hrest := ih _ hshorter h hadd rfl
        rwa [List.append_assoc, ← hsplit] at hrest

/-- No byte is lost, made up or moved: a template is the source of the tree that it is read as. -/
theorem spells_of_parse (hflat : r.Flat) {path src : Bytes} {nodes : List Node}
    (h : parse r options path src = .ok nodes) : SpellsAll r options [] nodes src := by
  simp only [parse] at h
  split at h
  · rename_i o ho
    cases h
    have hstart : Outline.Spelled r options src {} [] := .root .nil
    exact (spelled_of_parseFrom hflat ho hstart).nodes _
  · cases h

end

/-- A condition with an alternative, and one that is left open. -/
theorem spells_of_parse_conditions :
    ∃ nodes, parse Standard.registry {} "page" "a@@b @if( x )yes@else {{ y }}@end(z)@if c" = .ok nodes ∧
      SpellsAll Standard.registry {} [] nodes "a@@b @if( x )yes@else {{ y }}@end(z)@if c" := by
  have hok : (parse Standard.registry {} "page" "a@@b @if( x )yes@else {{ y }}@end(z)@if c").isOk = true := by
    decide +kernel
  cases hnodes : parse Standard.registry {} "page" "a@@b @if( x )yes@else {{ y }}@end(z)@if c" with
  | error d => simp [hnodes, Except.isOk, Except.toBool] at hok
  | ok nodes => exact ⟨nodes, rfl, spells_of_parse Standard.flat_registry hnodes⟩

end Stencil.Markup
