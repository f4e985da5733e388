import Stencil.Proofs.Compile.Asking
import Stencil.Proofs.Compile.Discipline
import Stencil.Proofs.Markup.Rules

/-! # Parts are compiled where they belong

Reading finds the definition of a part in the chain that is open, compiling among the parts of the definition at hand.
If hooks compile only regular children as nodes, then compiling comes to a part only in the chain of what declares it:
both go down the same tree of definitions, also in sources that are included (`parts_belong`). -/

namespace Stencil.Compile

open Stencil.Directive
open Stencil.Markup (Node Tag declaredAll_iff declaredAll_of_parse not_isPart_of_declared)
open StateTransition (Reaches)

/-- A part is about to be refused: it is compiled as a node, or the directive of the chain has no such part. -/
inductive RejectsPart (m : Moment) : Prop
  | asNode {which : Selection} {owner : Bytes} {tag : Tag} {children : List Node}
      (h : m.doing = .node (.children which) (.part owner tag children))
  | inChain {d : Definition} {owner parent : Bytes} {tag : Tag} {children : List Node}
      (h : m.doing = .node (.chain d owner) (.part parent tag children)) (hnone : d.part? tag.name = none)

/-- The hooks of the registry leave parts to chains. -/
abbrev Restrained (r : Registry) : Prop := r.Asks (· = .regular) fun _ _ => True

/-- Nodes are no parts, and the parts of a chain are declared by its directive. -/
def belonging (r : Registry) : Discipline where
  node _ way n :=
    match way with
    | .children _ => n.isPart = false ∧ n.Declared r none
    | .chain d _ => d.AsksDeep (· = .regular) (fun _ _ => True) ∧ ∃ name, n.Declared r (some (name, d))
  site _ site :=
    site.definition.AsksDeep (· = .regular) (fun _ _ => True) ∧
      ∃ name, ∀ n ∈ site.children, n.Declared r (some (name, site.definition))
  script s := s.Asks (· = .regular) fun _ _ => True
  tag _ _ := True

/-- What a node stands in matters only to parts. -/
theorem declared_of_not_isPart {r : Registry} {n : Node} {around around' : Option (Bytes × Definition)}
    (h : n.Declared r around) (hpart : n.isPart = false) : n.Declared r around' := by
  cases n with
  | text _ _ | interpolation _ _ _ => trivial
  | directive tag children => exact h
  | part owner tag children => cases hpart

theorem belongs_of_parse {r : Registry} {options : Markup.ParseOptions} {path src : Bytes} {nodes : List Node}
    (h : Markup.parse r options path src = .ok nodes) (current : Bytes) :
    ∀ n ∈ nodes, (belonging r).node current (.children .all) n := by
  intro n hn
  have hdeclared : n.Declared r none := declaredAll_iff.mp (declaredAll_of_parse h) n hn
  exact ⟨not_isPart_of_declared hdeclared, hdeclared⟩

theorem lawful_belonging (env : Env) (h : Restrained env.registry) : (belonging env.registry).Lawful env where
  lives := by
    intro path way n tag site hn hleads
    cases hleads with
    | @directive which tag children d hproblem hlookup =>
      obtain ⟨-, hdeclared⟩ := hn
      simp only [Node.Declared, hproblem, hlookup, if_true, Option.map_some] at hdeclared
      have hd := h.lookup tag.name d hlookup
      exact ⟨⟨hd, tag.name, declaredAll_iff.mp hdeclared⟩, asks_lifeScript hd.own rfl tag tag.name _, trivial⟩
    | @part d p owner parent tag children hpart =>
      obtain ⟨hd, name, d', p', haround, hpart', hdeclared⟩ := hn
      cases haround
      cases hpart.symm.trans hpart'
      have hp := hd.part hpart
      exact ⟨⟨hp, tag.name, declaredAll_iff.mp hdeclared⟩, asks_lifeScript hp.own rfl tag owner _, trivial⟩
  hook hd hf := ⟨⟨h.definitions _ hd, [], nofun⟩, asks_fileHook h hd hf _⟩
  compile := by
    rintro path site which next ⟨-, name, hchildren⟩ ⟨rfl, hnext⟩
    refine ⟨fun n hn hselects => ?_, hnext⟩
    have hpart : n.isPart = false := by simpa [selects] using hselects
    exact ⟨hpart, declared_of_not_isPart (hchildren n hn) hpart⟩
  chain := by
    rintro path site next ⟨hd, name, hchildren⟩ hnext
    exact ⟨fun n hn _ => ⟨hd, name, hchildren n hn⟩, hnext⟩
  embed hs := ⟨fun nodes _ hreads => belongs_of_parse hreads _, hs.2⟩
  reply m children hs := asks_reply (fun _ _ _ => trivial) children hs

theorem not_rejectsPart_of_obeys {r : Registry} {env : Env} {m : Moment} (h : m.Obeys (belonging r) env) :
    ¬RejectsPart m := by
  rintro (hdoing | ⟨hdoing, hnone⟩) <;> have hn := h.doing <;> rw [hdoing] at hn
  · obtain ⟨hpart, -⟩ := hn
    cases hpart
  · obtain ⟨-, name, d', p, haround, hpart, -⟩ := hn
    cases haround
    exact nomatch hnone.symm.trans hpart

/-- Every part in a tree stands in the directive or part that declares it and bears its name, none stands at the top;
and when hooks leave parts to chains, no part is refused while the tree is compiled. -/
theorem parts_belong {r : Registry} {options : Options} {path src : Bytes} {nodes : List Node}
    (hparse : Markup.parse r options.parse path src = .ok nodes) :
    Node.DeclaredAll r none nodes ∧ (∀ n ∈ nodes, n.isPart = false) ∧
      (Restrained r → ∀ canceled m,
        Reaches (Moment.next (options.env r path nodes)) (options.begin r canceled nodes) m → ¬RejectsPart m) := by
  have hnodes := belongs_of_parse hparse path
  refine ⟨declaredAll_of_parse hparse, fun n hn => (hnodes n hn).1, fun hrestrained canceled m hreaches => ?_⟩
  have hbegin : (options.begin r canceled nodes).Obeys (belonging r) (options.env r path nodes) := obeys_begin hnodes
  have hlawful : (belonging r).Lawful (options.env r path nodes) := lawful_belonging (options.env r path nodes) hrestrained
  exact not_rejectsPart_of_obeys (obeys_of_reaches hlawful hbegin hreaches)

/-- A chain inside a chain, with hooks of its own. -/
def shelfRegistry : Registry where
  entries := [{ definition := {
    name := "shelf", block := true
    parts := [{
      name := "book", block := true
      onChildren := some fun _ => do
        Script.chained
        Script.compiled .regular
      parts := [{ name := "page" }] }] } }]

theorem restrained_shelfRegistry : Restrained shelfRegistry := by
  have hdeep : ∀ d ∈ shelfRegistry.definitions, d.AsksDeep (· = .regular) fun _ _ => True := by
    refine List.forall_mem_cons.mpr ⟨.intro ⟨nofun, nofun, nofun, nofun⟩ ?_, nofun⟩
    refine List.forall_mem_cons.mpr ⟨.intro ⟨nofun, nofun, ?_, nofun⟩ ?_, nofun⟩
    · rintro f ⟨⟩ call
      exact Script.asks_chained.bind fun _ => Script.asks_compiled rfl
    · exact List.forall_mem_cons.mpr ⟨.intro ⟨nofun, nofun, nofun, nofun⟩ nofun, nofun⟩
  have hexact : ∀ d ∈ shelfRegistry.definitions, d.matching = .exact := List.forall_mem_cons.mpr ⟨rfl, nofun⟩
  refine ⟨hdeep, fun name d hlookup => hdeep d (Registry.mem_of_lookup hexact hlookup).1, ?_, ?_⟩ <;>
    exact List.forall_mem_cons.mpr ⟨nofun, nofun⟩

theorem parts_belong_shelf : ∃ nodes,
    Markup.parse shelfRegistry {} "page" "@shelf @book a @page b @book c @end @page" = .ok nodes ∧
      Restrained shelfRegistry ∧ Node.DeclaredAll shelfRegistry none nodes ∧
      ∀ m, Reaches (Moment.next (Options.env {} shelfRegistry "page" nodes)) (Options.begin {} shelfRegistry false nodes) m →
        ¬RejectsPart m := by
  have hok : (Markup.parse shelfRegistry {} "page" "@shelf @book a @page b @book c @end @page").isOk = true := by
    decide +kernel
  cases hnodes : Markup.parse shelfRegistry {} "page" "@shelf @book a @page b @book c @end @page" with
  | error d => simp [hnodes, Except.isOk, Except.toBool] at hok
  | ok nodes =>
    obtain ⟨hdeclared, -, haccepted⟩ := @parts_belong shelfRegistry {} _ _ _ hnodes
    exact ⟨nodes, rfl, restrained_shelfRegistry, hdeclared, haccepted restrained_shelfRegistry false⟩

end Stencil.Compile
