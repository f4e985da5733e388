import Stencil.Directive.Standard
import Stencil.Proofs.Argument.Quoting
import Stencil.Proofs.Markup.Reading
import Stencil.Proofs.Markup.Rules

/-! # Arguments of directives

The brackets of a head end where the search for a closing bracket stops, so the text between them is balanced and can
be split: reading it fails only for the number of the arguments or for one that is not there (`splits_of_parse`).

What a template starts with does not change how the rest is read: a node in front stays in front
(`parseFrom_behind`). So a directive head in front of a template gives its node, and texts that are written as
its arguments are bound to its parameters (`parse_strings`). -/

namespace Stencil.Markup

open Stencil.Directive
open Stencil.Argument (StringArgument Param Balanced)

/-! ### Spans -/

/-- The text in the brackets of a head is balanced. -/
theorem balanced_of_piece {r : Registry} {verbatim : Bool} {offset n : Nat} {before : Option UInt8} {c : UInt8}
    {cs name expr : Bytes} (h : piece r verbatim offset before c cs = .ok (.head name (some expr), n)) :
    ∃ inside, Balanced inside ∧ expr = Text.trim inside := by
  -- an interpolation is no head
  have hinterpolation {close : Bytes} {escaped : Bool} {s : Bytes} {k : Nat} :
      interpolation close escaped s ≠ some (.head name (some expr), k) := by
    intro h
    obtain ⟨ab, -, hpiece⟩ := Option.map_eq_some_iff.mp h
    cases hpiece
  unfold piece at h
  split at h
  · split at h
    · rename_i hpiece
      cases h
      exact absurd hpiece hinterpolation
    · cases h
  split at h
  · split at h
    · rename_i hpiece
      cases h
      exact absurd hpiece hinterpolation
    · cases h
  split at h
  · cases h
  split at h
  · cases h
  split at h
  · dsimp only at h
    split at h
    · split at h
      · split at h
        · rename_i stop hstop
          obtain ⟨inside, rest, rfl, hinside, hstop⟩ := Argument.exists_balanced_of_closingFrom hstop
          cases hstop
          cases h
          rw [Nat.add_sub_cancel_left, List.take_left]
          exact ⟨inside, hinside, rfl⟩
        · cases h
      · cases h
    · cases h
  split at h
  · cases h
  · cases h

/-- The text in the brackets of every head of a template can be split. -/
theorem exists_split_of_parse {r : Registry} {options : ParseOptions} {path src : Bytes} {nodes : List Node}
    (h : parse r options path src = .ok nodes) {tag : Tag} (htag : tag ∈ Node.tagsList nodes) :
    ∃ args, Argument.split tag.expr = .ok args := by
  refine heads_of_parse (P := fun _ args _ => ∃ list, Argument.split (args.getD []) = .ok list) h ?_ tag htag
  rintro s name args stop - ⟨c, cs, n, -, hpiece, -⟩
  cases args with
  | none => exact ⟨[], rfl⟩
  | some expr =>
    obtain ⟨inside, hinside, rfl⟩ := balanced_of_piece hpiece
    obtain ⟨list, hlist⟩ := hinside.exists_split
    exact ⟨list, Argument.split_trim hlist⟩

/-- The arguments of every directive and every part of a template can be split. Reading them fails only when there are
more than parameters, or none for a parameter that is required. -/
theorem splits_of_parse {r : Registry} {options : ParseOptions} {path src : Bytes} {nodes : List Node}
    (h : parse r options path src = .ok nodes) : ∀ tag ∈ Node.tagsList nodes,
      ∃ args, Argument.split tag.expr = .ok args ∧ ∀ schema e, Argument.read tag.expr schema = .error e →
        (schema.length < args.length ∧ e = .tooMany args.length schema.length) ∨
          ∃ (i : Nat) (p : Param), schema[i]? = some p ∧ p.required = true ∧ args[i]?.getD [] = [] ∧ e = .missing p.name := by
  intro tag htag
  obtain ⟨args, hsplit⟩ := exists_split_of_parse h htag
  exact ⟨args, hsplit, fun schema e he => Argument.read_error_cases hsplit he⟩

/-- A bracket in a literal, a list in brackets, and an argument too many. -/
theorem splits_of_parse_conditions :
    ∃ nodes, parse Standard.registry {} "page" "@if( x == ')' )a@elseif(y, [1, 2])b@end" = .ok nodes ∧
      (Node.tagsList nodes).map Tag.expr = ["x == ')'", "y, [1, 2]"] ∧
      ∀ tag ∈ Node.tagsList nodes, ∃ args, Argument.split tag.expr = .ok args ∧
        ∀ schema e, Argument.read tag.expr schema = .error e →
          (schema.length < args.length ∧ e = .tooMany args.length schema.length) ∨
            ∃ (i : Nat) (p : Param), schema[i]? = some p ∧ p.required = true ∧ args[i]?.getD [] = [] ∧
              e = .missing p.name := by
  have hexprs : (parse Standard.registry {} "page" "@if( x == ')' )a@elseif(y, [1, 2])b@end").toOption.map
      (fun nodes => (Node.tagsList nodes).map Tag.expr) = some (["x == ')'", "y, [1, 2]"] : List Bytes) := by
    decide +kernel
  cases hnodes : parse Standard.registry {} "page" "@if( x == ')' )a@elseif(y, [1, 2])b@end" with
  | error d =>
    rw [hnodes] at hexprs
    cases hexprs
  | ok nodes =>
    rw [hnodes] at hexprs
    exact ⟨nodes, rfl, Option.some.inj hexprs, splits_of_parse hnodes⟩

/-! ### A node in front -/

/-- The tree behind one more node. -/
def Outline.behind (o : Outline) (n : Node) : Outline := { o with root := o.root ++ [n] }

section
variable {n : Node} (o : Outline)

@[simp] theorem verbatim_behind : (o.behind n).verbatim = o.verbatim := rfl

@[simp] theorem blocks_behind : (o.behind n).blocks = o.blocks := rfl

theorem push_behind (m : Node) : (o.behind n).push m = (o.push m).behind n := by
  obtain ⟨root, _ | ⟨b, bs⟩⟩ := o <;> rfl

theorem pushText_behind (hn : ∀ value span, n ≠ .text value span) (value : Bytes) (span : Span) :
    (o.behind n).pushText value span = (o.pushText value span).behind n := by
  obtain ⟨root, _ | ⟨⟨⟨tag, d, owner, children, later⟩, outer⟩, bs⟩⟩ := o
  · cases root with
    | nil =>
      cases n with
      | text v s => exact absurd rfl (hn v s)
      | _ => rfl
    | cons m root => cases m <;> rfl
  · cases children with
    | nil => rfl
    | cons m children => cases m <;> rfl

theorem closeTop_behind (stop : Position) (auto : Bool) :
    (o.behind n).closeTop stop auto = (o.closeTop stop auto).behind n := by
  obtain ⟨root, _ | ⟨b, bs⟩⟩ := o
  · rfl
  · exact push_behind ⟨root, bs⟩ _

theorem addHead_behind (hn : ∀ value span, n ≠ .text value span) (r : Registry) (options : ParseOptions) (tag : Tag)
    (raw : Bytes) : (o.behind n).addHead r options tag raw = (o.addHead r options tag raw).behind n := by
  unfold Outline.addHead
  rw [blocks_behind]
  split
  · split
    · exact push_behind o _
    · exact closeTop_behind o _ _
  split
  · rfl
  split
  · split
    · rfl
    · exact push_behind o _
  split
  · exact pushText_behind o hn raw tag.span
  · exact push_behind o _

theorem add_behind (hn : ∀ value span, n ≠ .text value span) (r : Registry) (options : ParseOptions) (lines : LineTable)
    (start : Nat) (raw : Bytes) (p : Piece) :
    (o.behind n).add r options lines start raw p = (o.add r options lines start raw p).behind n := by
  cases p with
  | text value => exact pushText_behind o hn value _
  | interpolation expr escaped => exact push_behind o _
  | head name args => exact addHead_behind o hn r options _ raw

theorem closeAll_append (stop : Position) (root : List Node) (bs : List Block) :
    Outline.closeAll stop (root ++ [n]) bs = Outline.closeAll stop root bs ++ [n] := by
  fun_induction Outline.closeAll stop root bs with
  | case1 root => rw [Outline.closeAll]
  | case2 root b => rw [Outline.closeAll, List.cons_append]
  | case3 root b outer bs ih => rw [Outline.closeAll, ih]

theorem nodes_behind (stop : Position) : (o.behind n).nodes stop = n :: o.nodes stop := by
  rw [Outline.nodes, Outline.behind, closeAll_append, List.reverse_append, Outline.nodes]
  rfl

end

/-- A template is read the same way behind a node that is no text. -/
theorem parseFrom_behind {n : Node} (hn : ∀ value span, n ≠ .text value span) {r : Registry} {options : ParseOptions}
    {path : Bytes} {lines : LineTable} {o o' : Outline} {offset : Nat} {before : Option UInt8} {rest : Bytes}
    (h : parseFrom r options path lines o offset before rest = .ok o') :
    parseFrom r options path lines (o.behind n) offset before rest = .ok (o'.behind n) := by
  induction hlen : rest.length using Nat.strongRecOn generalizing o offset before rest with
  | _ k ih =>
    cases rest with
    | nil =>
      rw [parseFrom] at h ⊢
      cases h
      rfl
    | cons c cs =>
      rw [parseFrom] at h ⊢
      rw [verbatim_behind]
      split at h
      · cases h
      · simp only [add_behind o hn]
        refine ih _ ?_ h rfl
        rw [← hlen, List.length_drop, List.length_cons]
        omega

/-- A template that starts with the head of a directive without a block. -/
theorem parse_printHead {r : Registry} {options : ParseOptions} {path name inside : Bytes} (hname : IsName name)
    (hend : name ≠ terminator) {d : Definition} (hlookup : r.lookup name = some d) (hblock : d.block = false)
    (hinside : Argument.Balanced inside) {more : Bytes} {o : Outline}
    (hmore : parseFrom r options path (.ofText (printHead name inside ++ more)) {} (printHead name inside).length
      (some (ascii ')')) more = .ok o) :
    ∃ span stop, parse r options path (printHead name inside ++ more) =
      .ok (.directive { name, args := some (Text.trim inside), span } [] :: o.nodes stop) := by
  let lines := LineTable.ofText (printHead name inside ++ more)
  obtain ⟨span, raw, hhead⟩ := passes_head hname hinside ⟨r, options, path, lines⟩ more 0 {} none nofun nofun
  have hadd (tag : Tag) (htag : tag.name = name) :
      ({} : Outline).addHead r options tag raw = ({} : Outline).behind (.directive tag []) := by
    unfold Outline.addHead
    rw [htag, if_neg hend]
    simp only [List.head?_nil, Option.bind_none, hlookup, hblock, Bool.false_eq_true, if_false]
    rfl
  have hnode (tag : Tag) (value : Bytes) (place : Span) : Node.directive tag [] ≠ .text value place := nofun
  refine ⟨span, lines.position (printHead name inside ++ more).length, ?_⟩
  unfold Reader.Passes at hhead
  rw [Nat.zero_add, hadd _ rfl, parseFrom_behind (hnode _) hmore] at hhead
  rw [parse, hhead]
  simp only [nodes_behind, lines]

/-! ### Texts as arguments -/

/-- Texts that are written as the arguments of a directive without a block, in front of a template, come back from
the parameters that they are bound to. -/
theorem parse_strings {r : Registry} {options : ParseOptions} {path name : Bytes} (hname : IsName name)
    (hend : name ≠ terminator) {d : Definition} (hlookup : r.lookup name = some d) (hblock : d.block = false)
    {args : List StringArgument} (hargs : args ≠ []) (hlen : args.length ≤ d.params.length)
    (hdistinct : ((d.params.take args.length).map (·.name)).Nodup)
    (hrest : ∀ p ∈ d.params.drop args.length, p.required = false) {more : Bytes} {o : Outline}
    (hmore : parseFrom r options path (.ofText (printHead name (StringArgument.list args) ++ more)) {}
      (printHead name (StringArgument.list args)).length (some (ascii ')')) more = .ok o) :
    ∃ tag stop a, parse r options path (printHead name (StringArgument.list args) ++ more) =
        .ok (.directive tag [] :: o.nodes stop) ∧
      tag.name = name ∧ tag.problem = .none ∧ Argument.read tag.expr d.params = .ok a ∧
      ∀ i (hi : i < args.length), a.string d.params[i].name = .ok args[i].text := by
  obtain ⟨span, stop, hparse⟩ := parse_printHead hname hend hlookup hblock (StringArgument.balanced_list args) hmore
  obtain ⟨a, hread, hstrings⟩ := Argument.read_list hargs hlen hdistinct hrest
  exact ⟨_, stop, a, hparse, rfl, rfl, hread, hstrings⟩

def linkDirective : Definition where
  name := "link"
  params := [{ name := "path", kind := .string, required := true }, { name := "label", kind := .string }]

def linkRegistry : Registry := { entries := [⟨linkDirective, none⟩] }

/-- A text with what the scanners look for, and an empty one. -/
def linkArguments : List StringArgument :=
  [{ text := "a\\', )\"@\x7b\x7b\n", quote := ascii '\'', isQuote := .inl rfl, before := "\t", after := [] },
    { text := [], quote := ascii '"', isQuote := .inr rfl, before := [], after := " \n" }]

def linkHead : Bytes := printHead "link" (StringArgument.list linkArguments)

/-- What follows the first link, read in its place. -/
def linkRest : Except Diagnostic Outline :=
  parseFrom linkRegistry {} "page" (.ofText (linkHead ++ "@link('b')!")) {} linkHead.length (some (ascii ')'))
    "@link('b')!"

theorem parse_strings_link :
    ∃ tag rest a, parse linkRegistry {} "page" (linkHead ++ "@link('b')!") = .ok (.directive tag [] :: rest) ∧
      tag.name = "link" ∧ tag.problem = .none ∧ Argument.read tag.expr linkDirective.params = .ok a ∧
      a.string "path" = .ok "a\\', )\"@\x7b\x7b\n" ∧ a.string "label" = .ok [] := by
  have hname : IsName "link" := ⟨by decide, by decide, by decide⟩
  have hargs : linkArguments ≠ [] := List.cons_ne_nil _ _
  have hok : linkRest.isOk = true := by decide +kernel
  cases hmore : linkRest with
  | error d => simp [hmore, Except.isOk, Except.toBool] at hok
  | ok o =>
    obtain ⟨tag, stop, a, hparse, htag, hproblem, hread, hstrings⟩ :=
      parse_strings hname (by decide) (d := linkDirective) rfl rfl hargs (by decide) (by decide) (List.forall_mem_nil _)
        hmore
    exact ⟨tag, _, a, hparse, htag, hproblem, hread, hstrings 0 (by decide), hstrings 1 (by decide)⟩

end Stencil.Markup
