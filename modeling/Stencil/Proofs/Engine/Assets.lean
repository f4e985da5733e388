import Mathlib.Data.List.Infix
import Stencil.Proofs.Compile.Standard
import Stencil.Proofs.Engine.Literal
import Stencil.Proofs.Markup.Positions
import Stencil.Proofs.Markup.RoundTrip

/-! # Scripts and styles

In the block of a script or style only the end of the block, interpolations and pairs of at signs mean something. A text
without them is read as it stands (`passes_verbatim`), whatever else looks like markup in it, goes to the channel of its
directive, and leaves nothing in the rendered output. -/

namespace Stencil

theorem Text.head?_trimReversed (s : Bytes) : (trimReversed s).head?.any isAsciiBlank = false := by
  fun_induction trimReversed s <;> simp_all

/-- A trimmed text does not end with a line break. -/
theorem Text.endsWith_trim (s : Bytes) : Bytes.endsWith "\n" (trim s) = false := by
  have hhead := head?_trimReversed (trimLeft s).reverse
  rw [Bool.eq_false_iff]
  intro hends
  obtain ⟨before, h⟩ := List.isSuffixOf_iff_suffix.mp hends
  rw [trim, trimRight] at h
  rw [← List.reverse_reverse (trimReversed _), ← h, List.reverse_append] at hhead
  cases hhead

/-! ### Reading -/

namespace Markup

open Stencil.Directive

/-- Text in which nothing starts or ends in the block of a script or style, also when the end follows it. -/
structure IsVerbatim (s : Bytes) : Prop where
  escaped : Bytes.contains (opening true) s = false
  raw : Bytes.contains (opening false) s = false
  pairs : Bytes.contains [ascii '@', ascii '@'] s = false
  last : s.getLast? ≠ some (ascii '@')
  noEnd : ∀ a b, s = a ++ ascii '@' :: b → takeName b ≠ terminator

theorem IsVerbatim.tail {c : UInt8} {s : Bytes} (h : IsVerbatim (c :: s)) : IsVerbatim s := by
  refine ⟨(Bytes.contains_cons h.escaped).2, (Bytes.contains_cons h.raw).2, (Bytes.contains_cons h.pairs).2, ?_, ?_⟩
  · intro hlast
    obtain ⟨a, rfl⟩ := List.getLast?_eq_some_iff.mp hlast
    exact h.last (List.getLast?_eq_some_iff.mpr ⟨c :: a, rfl⟩)
  · rintro a b rfl
    exact h.noEnd (c :: a) b rfl

theorem IsVerbatim.of_append {a b : Bytes} (h : IsVerbatim (a ++ b)) : IsVerbatim b := by
  induction a with
  | nil => exact h
  | cons c a ih => exact ih h.tail

/-- A name ends where an at sign follows. -/
theorem takeName_append (b x : Bytes) : takeName (b ++ ascii '@' :: x) = takeName b := by
  have hrun : (b ++ ascii '@' :: x).takeWhile isNameByte = b.takeWhile isNameByte := by
    induction b with
    | nil => rfl
    | cons c b ih => simp only [List.cons_append, List.takeWhile_cons, ih]
  rw [takeName, takeName, hrun]

/-- What a text starts with does not depend on what comes from a byte on that is not in it. -/
theorem startsWith_append {c : UInt8} {sep : Bytes} (hc : c ∉ sep) (s x : Bytes) :
    Bytes.startsWith sep (s ++ c :: x) = Bytes.startsWith sep s := by
  unfold Bytes.startsWith
  induction sep generalizing s with
  | nil => simp
  | cons d sep ih =>
    have hd : d ≠ c := fun h => hc (h ▸ List.mem_cons_self)
    cases s with
    | nil => simp [List.isPrefixOf, hd]
    | cons a s => simp only [List.cons_append, List.isPrefixOf, ih fun h => hc (List.mem_cons_of_mem d h)]

/-- Adds text to the innermost open link. -/
def Outline.addText (o : Outline) (value : Bytes) (span : Span) : Outline :=
  if value = [] then o else o.pushText value span

section
variable {e : Reader} {o : Outline} {s more : Bytes} {before : Option UInt8} {offset : Nat}

theorem addText_addText (o : Outline) (a b : Bytes) (x y : Span) :
    ∃ span, (o.addText a x).addText b y = o.addText (a ++ b) span := by
  unfold Outline.addText
  by_cases ha : a = []
  · exact ⟨y, by simp [ha]⟩
  · by_cases hb : b = []
    · exact ⟨x, by simp [hb]⟩
    · refine ⟨⟨x.start, y.stop⟩, ?_⟩
      rw [if_neg ha, if_neg hb, if_neg (List.append_ne_nil_of_left_ne_nil ha b), pushText_pushText]

theorem verbatim_addText (value : Bytes) (span : Span) : (o.addText value span).verbatim = o.verbatim := by
  unfold Outline.addText
  split
  · rfl
  · rcases pushText_eq o value span with ⟨t, s, rest, -, h⟩ | ⟨-, h⟩ <;> rw [h, verbatim_withCurrent]

/-- An at sign in verbatim text stands for itself. -/
theorem piece_of_isVerbatim (h : IsVerbatim (ascii '@' :: s)) (ho : o.verbatim = true) (x : Bytes) :
    piece e.registry o.verbatim offset before (ascii '@') (s ++ ascii '@' :: x) = .ok (.text [ascii '@'], 0) := by
  have hpair : Bytes.startsWith "@" (s ++ ascii '@' :: x) = false := by
    cases s with
    | nil => exact absurd rfl h.last
    | cons d s =>
      have hfirst := (Bytes.contains_cons h.pairs).1
      have hd : (ascii '@' == d) = false := by simpa [List.isPrefixOf] using hfirst
      show (ascii '@' == d && _) = false
      rw [hd, Bool.false_and]
  have hname : takeName (s ++ ascii '@' :: x) ≠ terminator := by
    rw [takeName_append]
    exact h.noEnd [] s rfl
  have hbrace : ascii '@' ≠ openBrace := by decide
  unfold piece
  rw [if_neg (fun h => hbrace h.1), if_neg (fun h => hbrace h.1), if_neg (by simp [hpair]),
    if_pos ⟨ho, rfl, fun h => hname h.2⟩]

/-- So does a brace, which opens no interpolation. -/
theorem piece_brace_of_isVerbatim (h : IsVerbatim (openBrace :: s)) (verbatim : Bool) (x : Bytes) :
    piece e.registry verbatim offset before openBrace (s ++ ascii '@' :: x) = .ok (.text [openBrace], 0) := by
  refine piece_brace ?_ ?_
  · rw [startsWith_append (by decide)]
    exact (Bytes.contains_cons h.escaped).1
  · rw [startsWith_append (by decide)]
    exact (Bytes.contains_cons h.raw).1

/-- The first piece of verbatim text. -/
theorem exists_verbatim_piece {c : UInt8} (h : IsVerbatim (c :: s)) (ho : o.verbatim = true)
    (hmore : more.head? = some (ascii '@')) :
    ∃ a b span, c :: s = a ++ b ∧ a ≠ [] ∧ e.Passes a (b ++ more) offset o before (o.pushText a span) a.getLast? := by
  obtain ⟨x, rfl⟩ : ∃ x, more = ascii '@' :: x := by
    cases more with
    | nil => cases hmore
    | cons d x => exact ⟨x, by rw [Option.some.inj hmore]⟩
  by_cases hat : c = ascii '@'
  · subst hat
    have hpiece : piece e.registry o.verbatim offset before (ascii '@') ([] ++ (s ++ ascii '@' :: x)) = _ :=
      piece_of_isVerbatim h ho x
    obtain ⟨span, hpasses⟩ := passes_text_piece hpiece
    exact ⟨[ascii '@'], s, span, rfl, List.cons_ne_nil _ _, hpasses⟩
  by_cases hbrace : c = openBrace
  · subst hbrace
    have hpiece : piece e.registry o.verbatim offset before openBrace ([] ++ (s ++ ascii '@' :: x)) = _ :=
      piece_brace_of_isVerbatim h o.verbatim x
    obtain ⟨span, hpasses⟩ := passes_text_piece hpiece
    exact ⟨[openBrace], s, span, rfl, List.cons_ne_nil _ _, hpasses⟩
  · have hc : isSpecial c = false := by simp [isSpecial, hat, hbrace]
    obtain ⟨run, rest, rfl, hplain, hspecial⟩ := exists_run s
    have hboundary : isBoundary (rest ++ ascii '@' :: x) := by
      cases rest with
      | nil => exact rfl
      | cons d rest => exact hspecial
    obtain ⟨span, hpasses⟩ := passes_run hc hplain hboundary
    exact ⟨c :: run, rest, span, rfl, List.cons_ne_nil _ _, hpasses⟩

/-- Verbatim text is read as text, up to the at sign of the end. -/
theorem passes_verbatim (h : IsVerbatim s) (hmore : more.head? = some (ascii '@')) (e : Reader) (o : Outline)
    (ho : o.verbatim = true) (before : Option UInt8) (offset : Nat) :
    ∃ span before', e.Passes s more offset o before (o.addText s span) before' := by
  induction hn : s.length using Nat.strongRecOn generalizing s o before offset with
  | _ n ih =>
    cases s with
    | nil => exact ⟨default, before, .refl⟩
    | cons c s =>
      obtain ⟨a, b, span, hsplit, ha, hfirst⟩ := exists_verbatim_piece h ho hmore
      have hadd : o.pushText a span = o.addText a span := by rw [Outline.addText, if_neg ha]
      rw [hsplit] at h hn ⊢
      rw [hadd] at hfirst
      have hshorter : b.length < n := by
        have := List.length_pos_iff.mpr ha
        rw [← hn, List.length_append]
        omega
      obtain ⟨span', before', hrest⟩ := ih _ hshorter h.of_append _ ((verbatim_addText a span).trans ho) a.getLast?
        (offset + a.length) rfl
      obtain ⟨whole, hwhole⟩ := addText_addText o a b span span'
      exact ⟨whole, before', hwhole ▸ hfirst.trans hrest⟩

/-- Text without a byte that is special is read as text. -/
theorem passes_plain {value : Bytes} (h : ∀ c ∈ value, isSpecial c = false) (hmore : isBoundary more) (e : Reader)
    (o : Outline) (before : Option UInt8) (offset : Nat) :
    ∃ span before', e.Passes value more offset o before (o.addText value span) before' := by
  cases value with
  | nil => exact ⟨default, before, .refl⟩
  | cons c run =>
    obtain ⟨hc, hrun⟩ := List.forall_mem_cons.mp h
    obtain ⟨span, hpasses⟩ := passes_run hc hrun hmore
    exact ⟨span, _, hpasses⟩

end

/-- Blocks of one directive without arguments, each with the text after it. -/
def printBlocks (name : Bytes) (blocks : List (Bytes × Bytes)) : Bytes :=
  blocks.flatMap fun b => printHead name [] ++ (b.1 ++ (printHead terminator [] ++ b.2))

theorem isBoundary_printBlocks (name : Bytes) (blocks : List (Bytes × Bytes)) :
    isBoundary (printBlocks name blocks ++ []) := by
  cases blocks with
  | nil => exact rfl
  | cons b blocks => exact rfl

/-- The nodes of such blocks and texts. -/
inductive IsBlocks (name : Bytes) : List (Bytes × Bytes) → List Node → Prop
  | nil : IsBlocks name [] []
  | cons {body text : Bytes} {span within after : Span} {blocks : List (Bytes × Bytes)} {ns : List Node}
      (rest : IsBlocks name blocks ns) : IsBlocks name ((body, text) :: blocks)
        (.directive { name, args := some [], span } (textNodes body within) :: (textNodes text after ++ ns))

theorem reverse_textNodes (value : Bytes) (span : Span) : (textNodes value span).reverse = textNodes value span := by
  unfold textNodes
  split <;> rfl

theorem tagsList_textNodes (value : Bytes) (span : Span) : Node.tagsList (textNodes value span) = [] := by
  unfold textNodes
  split <;> rfl

/-- Only the one directive is used. -/
theorem IsBlocks.name_eq {name : Bytes} {blocks : List (Bytes × Bytes)} {ns : List Node} (h : IsBlocks name blocks ns) :
    ∀ t ∈ Node.tagsList ns, t.name = name := by
  induction h with
  | nil => nofun
  | cons _ ih =>
    simpa [Node.tagsList, Node.tags, Node.tagsList_append, tagsList_textNodes] using ih

theorem addText_inside (root : List Node) (tag : Tag) (d : Definition) (owner value : Bytes) (span : Span) :
    Outline.addText ⟨root, [⟨Link.ofTag tag d owner, []⟩]⟩ value span =
      ⟨root, [⟨{ Link.ofTag tag d owner with children := textNodes value span }, []⟩]⟩ := by
  unfold Outline.addText textNodes
  split <;> rfl

theorem push_finish (root : List Node) (tag : Tag) (d : Definition) (owner : Bytes) (nodes : List Node)
    (stop : Position) :
    Outline.push ⟨root, []⟩ (Block.finish ⟨{ Link.ofTag tag d owner with children := nodes }, []⟩ stop false) =
      ⟨.directive { tag with span := ⟨tag.span.start, stop⟩, autoClosed := false } nodes.reverse :: root, []⟩ := rfl

theorem addText_behind (root : List Node) (tag : Tag) (children : List Node) (value : Bytes) (span : Span) :
    Outline.addText ⟨.directive tag children :: root, []⟩ value span =
      ⟨textNodes value span ++ .directive tag children :: root, []⟩ := by
  unfold Outline.addText textNodes
  split <;> rfl

section
variable {e : Reader} {name : Bytes} {d : Definition} (hname : IsName name) (hend : name ≠ terminator)
  (hlookup : e.registry.lookup name = some d) (hblock : d.block = true) (hverbatim : d.isVerbatim = true)
include hname hend hlookup hblock hverbatim

/-- A block with verbatim text is read as one node with the text. -/
theorem passes_block {body : Bytes} (hbody : IsVerbatim body) (more : Bytes) (offset : Nat) (root : List Node)
    (before : Option UInt8) :
    ∃ span within before',
      e.Passes (printHead name [] ++ (body ++ printHead terminator [])) more offset ⟨root, []⟩ before
        ⟨.directive { name, args := some [], span } (textNodes body within) :: root, []⟩ before' := by
  have hopen : Outline.Open ⟨root, []⟩ [] false := ⟨rfl, nofun⟩
  obtain ⟨start, raw, hhead⟩ := passes_head hname .nil e (body ++ printHead terminator [] ++ more) offset
    ⟨root, []⟩ before nofun fun _ => .inr (.inr (by rw [hlookup]; rfl))
  rw [addHead_block hopen hend nofun hlookup hblock] at hhead
  have hstop : (printHead terminator [] ++ more).head? = some (ascii '@') := rfl
  obtain ⟨within, before₁, htext⟩ := passes_verbatim hbody hstop e
    ⟨root, [⟨Link.ofTag { name, args := some [], span := start } d [], []⟩]⟩ hverbatim (some (ascii ')'))
    (offset + (printHead name []).length)
  rw [addText_inside] at htext
  obtain ⟨stop, hstop⟩ := passes_end e more (offset + (printHead name []).length + body.length) root
    ⟨{ Link.ofTag { name, args := some [], span := start } d [] with children := textNodes body within }, []⟩ [] before₁
  rw [push_finish, reverse_textNodes] at hstop
  exact ⟨⟨start.start, stop⟩, within, _, hhead.trans (htext.trans hstop)⟩

theorem passes_blocks {blocks : List (Bytes × Bytes)} (hbodies : ∀ b ∈ blocks, IsVerbatim b.1)
    (htexts : ∀ b ∈ blocks, ∀ c ∈ b.2, isSpecial c = false) (root : List Node) (offset : Nat) (before : Option UInt8) :
    ∃ ns before', IsBlocks name blocks ns ∧
      e.Passes (printBlocks name blocks) [] offset ⟨root, []⟩ before ⟨ns.reverse ++ root, []⟩ before' := by
  induction blocks generalizing root offset before with
  | nil => exact ⟨[], before, .nil, .refl⟩
  | cons b blocks ih =>
    obtain ⟨hbody, hbodies⟩ := List.forall_mem_cons.mp hbodies
    obtain ⟨htext, htexts⟩ := List.forall_mem_cons.mp htexts
    obtain ⟨span, within, before₁, hfirst⟩ := passes_block hname hend hlookup hblock hverbatim hbody
      (b.2 ++ printBlocks name blocks ++ []) offset root before
    obtain ⟨after, before₂, hafter⟩ := passes_plain htext (isBoundary_printBlocks name blocks) e
      ⟨.directive { name, args := some [], span } (textNodes b.1 within) :: root, []⟩ before₁
      (offset + (printHead name [] ++ (b.1 ++ printHead terminator [])).length)
    rw [addText_behind] at hafter
    obtain ⟨ns, before₃, hns, hrest⟩ := ih hbodies htexts
      (textNodes b.2 after ++ .directive { name, args := some [], span } (textNodes b.1 within) :: root)
      (offset + (printHead name [] ++ (b.1 ++ printHead terminator [])).length + b.2.length) before₂
    refine ⟨.directive { name, args := some [], span } (textNodes b.1 within) :: (textNodes b.2 after ++ ns), before₃,
      .cons hns, ?_⟩
    have hsource : printBlocks name (b :: blocks) =
        (printHead name [] ++ (b.1 ++ printHead terminator [])) ++ (b.2 ++ printBlocks name blocks) := by
      simp [printBlocks]
    have hroot : (Node.directive { name, args := some [], span } (textNodes b.1 within) ::
          (textNodes b.2 after ++ ns)).reverse ++ root =
        ns.reverse ++
          (textNodes b.2 after ++ .directive { name, args := some [], span } (textNodes b.1 within) :: root) := by
      simp [reverse_textNodes]
    rw [hsource, hroot]
    exact hfirst.trans (hafter.trans hrest)

end

/-- Text without anything special, then blocks with verbatim text, are read as just these. -/
theorem parse_blocks {r : Registry} {name first : Bytes} {d : Definition} (hname : IsName name)
    (hend : name ≠ terminator) (hlookup : r.lookup name = some d) (hblock : d.block = true) (hverbatim : d.isVerbatim = true)
    {blocks : List (Bytes × Bytes)} (hfirst : ∀ c ∈ first, isSpecial c = false)
    (hbodies : ∀ b ∈ blocks, IsVerbatim b.1) (htexts : ∀ b ∈ blocks, ∀ c ∈ b.2, isSpecial c = false)
    (options : ParseOptions) (path : Bytes) :
    ∃ span ns, IsBlocks name blocks ns ∧
      parse r options path (first ++ printBlocks name blocks) = .ok (textNodes first span ++ ns) := by
  let e : Reader := ⟨r, options, path, .ofText (first ++ printBlocks name blocks)⟩
  obtain ⟨span, before₁, hstart⟩ := passes_plain hfirst (isBoundary_printBlocks name blocks) e {} none 0
  have hadd : Outline.addText {} first span = ⟨textNodes first span, []⟩ := by
    unfold Outline.addText textNodes
    split <;> rfl
  rw [hadd] at hstart
  obtain ⟨ns, before₂, hns, hrest⟩ := passes_blocks (e := e) hname hend hlookup hblock hverbatim hbodies htexts
    (textNodes first span) (0 + first.length) before₁
  have hwhole := hstart.trans hrest
  unfold Reader.Passes at hwhole
  rw [List.append_nil, parseFrom.eq_1] at hwhole
  refine ⟨span, ns, hns, ?_⟩
  rw [parse, hwhole]
  simp [Outline.nodes, Outline.closeAll, reverse_textNodes]

end Markup

/-! ### Compiling -/

namespace Compile

open Stencil.Directive
open Stencil.Directive.Standard
open Stencil.Markup (Node textNodes IsBlocks)

/-- What a channel holds, which is there once there is text for it. -/
def channelOf (name text : Bytes) : Assoc Bytes Bytes := if text = [] then [] else [(name, text)]

/-- The code of a literal text. -/
def literals (text : Bytes) : List Instr := if text = [] then [] else [.literal text]

/-- What a block leaves in its channel. -/
def assetText (body : Bytes) : Bytes := Text.trim body ++ ("\n" : Bytes)

theorem assetText_ne_nil (body : Bytes) : assetText body ≠ [] :=
  List.append_ne_nil_of_right_ne_nil _ (List.cons_ne_nil _ _)

/-- Adds text to a channel. -/
def State.addTo (st : State) (channel text : Bytes) : State :=
  { st with out := { st.out with
      channels := Assoc.insert channel ((Assoc.get? channel st.out.channels).getD [] ++ text) st.out.channels } }

/-- A state that has produced code for the body and text for one channel. -/
def State.holding (st : State) (name : Bytes) (code : List Instr) (text : Bytes) : State :=
  { st with out := { st.out with body := code, channels := channelOf name text } }

theorem addTo_holding (st : State) (name : Bytes) (code : List Instr) (text : Bytes) {more : Bytes}
    (hmore : more ≠ []) :
    (st.holding name code text).addTo name more = st.holding name code (text ++ more) := by
  unfold State.addTo State.holding channelOf
  by_cases htext : text = []
  · simp [htext, hmore, Assoc.insert, Assoc.get?]
  · simp [htext, Assoc.insert, Assoc.get?]

theorem add_holding (st : State) (hloader : st.out.loader = primaryLoader) (name : Bytes) (code : List Instr)
    (text more : Bytes) : (st.holding name code text).add .body more = st.holding name (code ++ literals more) text := by
  unfold State.add Output.add literals
  by_cases hmore : more = []
  · simp [hmore]
  · rw [if_neg hmore, if_pos (show (st.holding name code text).out.loader = primaryLoader from hloader), if_neg hmore]
    rfl

section
variable (env : Env) (ask : Requests) (st : State)

theorem runScript_addAsset {channel : Bytes} (hchannel : channel ≠ primaryLoader) (body : Bytes) :
    runScript env ask (addAsset channel (Text.trim body)) st = (.ok (), st.addTo channel (assetText body)) := by
  have hne : Text.trim body ++ ("\n" : Bytes) ≠ [] := assetText_ne_nil body
  simp only [addAsset, Text.endsWith_trim, Bool.false_eq_true, if_false]
  simp only [Script.addTo, runScript, State.add, Output.add, if_neg hne, if_neg hchannel]
  rfl

/-- A directive for scripts or styles, whose uses without arguments move their text to the channel with its name. -/
structure IsAsset (name : Bytes) (d : Definition) : Prop where
  isName : Markup.IsName name
  notEnd : name ≠ terminator
  lookup : registry.lookup name = some d
  hookless : ∀ other ∈ ([("extends" : Bytes), "yield", "stack"] : List Bytes), other ∉ [name]
  block : d.block = true
  verbatim : d.isVerbatim = true
  life : ∀ (env : Env) (ask : Requests) (span : Markup.Span) (body : Bytes) (st : State),
    ask.literalText .regular = .ok body →
      lifecycle env ask { name, args := some [], span } d name st = (.ok (), st.addTo name (assetText body))

theorem isAsset_client : IsAsset clientChannel clientDirective := by
  refine ⟨⟨by decide, by decide, by decide⟩, by decide, rfl, by decide, rfl, rfl, fun env ask span body st hbody => ?_⟩
  obtain ⟨args, hargs, hoptions⟩ : ∃ args, Argument.read [] clientDirective.params = .ok args ∧
      args.object "options" = .ok none := ⟨_, rfl, rfl⟩
  have hread : Argument.read (Markup.Tag.expr { name := clientChannel, args := some [], span }) clientDirective.params =
      .ok args := hargs
  rw [lifecycle, hread]
  simp only [clientDirective, runHook, andThen, runScript_bind, runScript_ofRead, runScript_literal, hoptions, hbody,
    Except.mapError, Option.getD_none, Assoc.get?,
    runScript_addAsset env ask st (show clientChannel ≠ primaryLoader by decide)]

theorem isAsset_style : IsAsset styleChannel styleDirective := by
  refine ⟨⟨by decide, by decide, by decide⟩, by decide, rfl, by decide, rfl, rfl, fun env ask span body st hbody => ?_⟩
  obtain ⟨args, hargs, hmedia⟩ : ∃ args, Argument.read [] styleDirective.params = .ok args ∧
      args.string "media" = .ok [] := ⟨_, rfl, rfl⟩
  have hread : Argument.read (Markup.Tag.expr { name := styleChannel, args := some [], span }) styleDirective.params =
      .ok args := hargs
  rw [lifecycle, hread]
  simp only [styleDirective, runHook, andThen, runScript_bind, runScript_ofRead, runScript_literal, hmedia, hbody,
    Except.mapError, if_true, runScript_addAsset env ask st (show styleChannel ≠ primaryLoader by decide)]

end

section
variable (embed : Embedder) {env : Env} {name : Bytes} {d : Definition}

theorem literalText_textNodes (body : Bytes) (span : Markup.Span) :
    literalText .regular (textNodes body span) = .ok body := by
  unfold textNodes
  split
  · rename_i hbody
    rw [hbody]
    rfl
  · simp [literalText, selects, Node.isPart, Except.map]

/-- One use adds its text to the channel and nothing else. -/
theorem compileNode_asset (h : IsAsset name d) (hregistry : env.registry = registry) (body : Bytes)
    (span within : Markup.Span) (st : State) :
    compileNode embed env (.directive { name, args := some [], span } (textNodes body within)) st =
      st.addTo name (assetText body) := by
  simp only [compileNode, hregistry, h.lookup, contained]
  rw [h.life env _ span body _ (literalText_textNodes body within)]
  rfl

/-- Blocks of scripts or styles add all their texts to the channel, and the texts around them are what stays in the
body. -/
theorem compileNodes_blocks (h : IsAsset name d) (hregistry : env.registry = registry) (hpart : env.part = .body)
    {blocks : List (Bytes × Bytes)} {ns : List Node} (hns : IsBlocks name blocks ns) (st : State)
    (hrunning : st.canceled = false) (hloader : st.out.loader = primaryLoader) (code : List Instr) (text : Bytes) :
    compileNodes embed env .all ns (st.holding name code text) =
      (.ok (), st.holding name (code ++ blocks.flatMap fun b => literals b.2)
        (text ++ blocks.flatMap fun b => assetText b.1)) := by
  induction hns generalizing code text with
  | nil => simp [compileNodes]
  | @cons body after span within place blocks ns _ ih =>
    have hheld (code : List Instr) (text : Bytes) : (st.holding name code text).canceled = false := hrunning
    have hasset : compileNodes embed env .all
        (.directive { name, args := some [], span } (textNodes body within) :: (textNodes after place ++ ns))
          (st.holding name code text) =
        compileNodes embed env .all (textNodes after place ++ ns) (st.holding name code (text ++ assetText body)) := by
      simp only [compileNodes, selects, if_true, hheld, Bool.false_eq_true, if_false]
      rw [compileNode_asset embed h hregistry, addTo_holding st name code text (assetText_ne_nil body)]
    rw [hasset, compileNodes_textNodes _ _ _ _ (hheld code _), hpart, add_holding st hloader, ih]
    simp only [List.flatMap_cons, List.append_assoc]

end

theorem mergeLiterals_literals (texts : List Bytes) :
    mergeLiterals (texts.flatMap literals) = literals texts.flatten := by
  induction texts with
  | nil => rfl
  | cons text texts ih =>
    rw [List.flatMap_cons, List.flatten_cons]
    by_cases htext : text = []
    · rw [htext]
      exact ih
    · rw [literals, if_neg htext, List.singleton_append, mergeLiterals, ih, literals, literals,
        if_neg (List.append_ne_nil_of_left_ne_nil htext _)]
      by_cases hrest : texts.flatten = []
      · simp [hrest]
      · simp [hrest, Instr.literal]

theorem link_literals (path text : Bytes) : Program.link path (literals text) = .ok ⟨path, literals text⟩ := by
  unfold literals
  split <;> rfl

/-- A template with scripts or styles. -/
theorem compileSource_blocks {name : Bytes} {d : Definition} (h : IsAsset name d) {first : Bytes}
    {blocks : List (Bytes × Bytes)} (hblocks : blocks ≠ []) (hfirst : ∀ c ∈ first, Markup.isSpecial c = false)
    (hbodies : ∀ b ∈ blocks, Markup.IsVerbatim b.1) (htexts : ∀ b ∈ blocks, ∀ c ∈ b.2, Markup.isSpecial c = false)
    (options : Options) (path : Bytes) :
    ∃ t, (compileSource registry options path false (first ++ Markup.printBlocks name blocks)).result = .ok t ∧
      t.errors = [] ∧ t.channels = [(name, blocks.flatMap fun b => assetText b.1)] ∧
      t.program = .ok ⟨path, literals (first ++ blocks.flatMap (·.2))⟩ := by
  obtain ⟨span, ns, hns, hparse⟩ := Markup.parse_blocks h.isName h.notEnd h.lookup h.block h.verbatim hfirst hbodies
    htexts options.parse path
  have hnames : ∀ t ∈ Node.tagsList (textNodes first span ++ ns), t.name ∈ [name] := by
    rw [Markup.Node.tagsList_append, Markup.tagsList_textNodes, List.nil_append]
    exact fun t ht => List.mem_singleton.mpr (hns.name_eq t ht)
  have hunhooked : Control.Unhooked (options.env registry path (textNodes first span ++ ns)) :=
    Control.unhooked_of (Control.mem_names_of_used hnames) h.hookless
  have hresult := generate_result registry options path (textNodes first span ++ ns)
  obtain ⟨start, hstart⟩ : ∃ start : State, start = { memory := Assoc.insert stackNamesKey (.record []) [] } := ⟨_, rfl⟩
  have hempty : start = start.holding name [] [] := by rw [hstart]; rfl
  have hrunning : start.canceled = false := by rw [hstart]
  have hloader : start.out.loader = primaryLoader := by rw [hstart]
  rw [Control.start_eq hunhooked rfl, ← hstart, compileNodes_textNodes _ _ _ _ hrunning,
    show (options.env registry path (textNodes first span ++ ns)).part = .body from rfl, hempty,
    add_holding start hloader, compileNodes_blocks embedder h rfl rfl hns start hrunning hloader, andThen,
    Control.finish_eq hunhooked rfl] at hresult
  refine ⟨_, by rw [compileSource, hparse]; exact hresult, ?_, ?_, ?_⟩
  · rw [hstart]
    rfl
  · show channelOf name _ = _
    rw [List.nil_append, channelOf, if_neg]
    cases blocks with
    | nil => exact absurd rfl hblocks
    | cons b blocks => exact List.append_ne_nil_of_left_ne_nil (assetText_ne_nil b.1) _
  · have hinstrs : [] ++ literals first ++ (blocks.flatMap fun b => literals b.2) =
        (first :: blocks.map (·.2)).flatMap literals := by
      simp [List.flatMap_map]
    have htemplate : Template.program ((start.holding name ([] ++ literals first ++ blocks.flatMap fun b => literals b.2)
        ([] ++ blocks.flatMap fun b => assetText b.1)).template path) =
          Program.link path (mergeLiterals ((first :: blocks.map (·.2)).flatMap literals)) := by
      rw [← hinstrs, hstart]
      simp [Template.program, Template.instrs, State.template, State.holding]
    rw [htemplate, mergeLiterals_literals, link_literals, List.flatten_cons, List.flatMap_def]

end Compile

/-! ### Rendering -/

namespace Engine

open Compile (compileSource assetText)
open Directive.Standard (clientChannel styleChannel)
open Markup (IsVerbatim isSpecial printBlocks)
open Render (mark)

/-- Scripts, or styles, go to their channel as they stand, whatever in them looks like markup: only blanks around them
are taken away, and each is a line of its own. The text around them is what a render gives. -/
theorem renderText_blocks (e : Engine) (he : e.registry.entries = Directive.Standard.registry.entries)
    (hsteps : 2 ≤ e.stepLimit) {channel : Bytes} (hchannel : channel = clientChannel ∨ channel = styleChannel)
    {first : Bytes} {blocks : List (Bytes × Bytes)} (hblocks : blocks ≠ []) (hbodies : ∀ b ∈ blocks, IsVerbatim b.1)
    (htexts : ∀ text ∈ first :: blocks.map (·.2), ∀ c ∈ text, isSpecial c = false ∧ c ≠ mark) (path : Bytes)
    (data : Bindings) :
    (∃ t, (compileSource e.registry e.compileOptions path false (first ++ printBlocks channel blocks)).result = .ok t ∧
      t.errors = [] ∧ t.channels = [(channel, blocks.flatMap fun b => Text.trim b.1 ++ ("\n" : Bytes))]) ∧
    (e.renderText path (first ++ printBlocks channel blocks) data false).1 = first ++ blocks.flatMap (·.2) ∧
    (e.renderText path (first ++ printBlocks channel blocks) data false).2.1 = none := by
  obtain ⟨d, hd⟩ : ∃ d, Compile.IsAsset channel d := by
    rcases hchannel with rfl | rfl
    · exact ⟨_, Compile.isAsset_client⟩
    · exact ⟨_, Compile.isAsset_style⟩
  obtain ⟨hfirst, hrest⟩ := List.forall_mem_cons.mp htexts
  have hafter (b : Bytes × Bytes) (hb : b ∈ blocks) := hrest b.2 (List.mem_map_of_mem hb)
  have hmark : mark ∉ first ++ blocks.flatMap (·.2) := by
    rw [List.mem_append, List.mem_flatMap]
    rintro (h | ⟨b, hb, h⟩)
    · exact (hfirst mark h).2 rfl
    · exact (hafter b hb mark h).2 rfl
  obtain ⟨t, hresult, herrors, hchannels, hprogram⟩ := Compile.compileSource_blocks hd hblocks
    (fun c hc => (hfirst c hc).1) hbodies (fun b hb c hc => (hafter b hb c hc).1) e.compileOptions path
  have hsource : (compileSource e.registry e.compileOptions path false (first ++ printBlocks channel blocks)).result =
      .ok t := by
    rw [Compile.eq_sealedAs he, Compile.compileSource_sealed]
    exact hresult
  have hrun (session : Session) := Render.run_text e.host hsteps path hmark data session
  refine ⟨⟨t, hsource, herrors, hchannels⟩, ?_⟩
  unfold renderText runProgram
  unfold Render.State.root at hrun
  simp only [hsource, hprogram, Compile.literals, herrors, hrun, if_true, and_self]

/-- A style sheet in which much looks like markup, and an empty one, with the texts after them. -/
def sheets : List (Bytes × Bytes) := [(" @media print \x7ba \x7b\x7d\x7d x@y.z @if(1) '@ends", " b"), ("", "c")]

theorem renderText_blocks_sheets :
    sheets ≠ [] ∧ (∀ b ∈ sheets, IsVerbatim b.1) ∧
      (∀ text ∈ ("a" : Bytes) :: sheets.map (·.2), ∀ c ∈ text, isSpecial c = false ∧ c ≠ mark) ∧
      (∃ t, (compileSource pageEngine.registry pageEngine.compileOptions "t" false
          (("a" : Bytes) ++ printBlocks styleChannel sheets)).result = .ok t ∧ t.errors = [] ∧
        t.channels = [(styleChannel, ("@media print \x7ba \x7b\x7d\x7d x@y.z @if(1) '@ends\n\n" : Bytes))]) ∧
      (pageEngine.renderText "t" (("a" : Bytes) ++ printBlocks styleChannel sheets) [] false).1 = "a bc" := by
  have hends : ∀ b ∈ sheets, ∀ rest ∈ b.1.tails, rest.head? = some (ascii '@') →
      Markup.takeName rest.tail ≠ Directive.terminator := by decide +kernel
  have hbodies : ∀ b ∈ sheets, IsVerbatim b.1 := by
    have hplain : ∀ b ∈ sheets, Bytes.contains (Markup.opening true) b.1 = false ∧
        Bytes.contains (Markup.opening false) b.1 = false ∧ Bytes.contains [ascii '@', ascii '@'] b.1 = false ∧
        b.1.getLast? ≠ some (ascii '@') := by decide +kernel
    intro b hb
    obtain ⟨hescaped, hraw, hpairs, hlast⟩ := hplain b hb
    exact ⟨hescaped, hraw, hpairs, hlast, fun x y hsplit =>
      hends b hb (ascii '@' :: y) ((List.mem_tails _ _).mpr ⟨x, hsplit.symm⟩) rfl⟩
  have htexts : ∀ text ∈ ("a" : Bytes) :: sheets.map (·.2), ∀ c ∈ text, isSpecial c = false ∧ c ≠ mark := by
    decide +kernel
  have hblocks : sheets ≠ [] := List.cons_ne_nil _ _
  obtain ⟨⟨t, hresult, herrors, hchannels⟩, hout, -⟩ :=
    renderText_blocks pageEngine rfl (by decide) (.inr rfl) hblocks hbodies htexts "t" []
  refine ⟨hblocks, hbodies, htexts, ⟨t, hresult, herrors, ?_⟩, hout⟩
  rw [hchannels]
  decide +kernel

end Engine

end Stencil
