import Mathlib.Data.List.Basic
import Stencil.Proofs.Compile.Trees

/-! # Sealed registries

A registry that is sealed takes no more directives; templates compile with it as they did before
(`compileSource_sealed`). -/

namespace Stencil.Compile

open Stencil.Directive
open Stencil.Markup (Node Tag ParseOptions)

/-- The same registry, sealed or not. -/
def sealedAs (sealed : Bool) (r : Registry) : Registry := { r with isSealed := sealed }

theorem eq_sealedAs {r r' : Registry} (h : r.entries = r'.entries) : r = sealedAs r.isSealed r' := by
  cases r
  cases h
  rfl

variable (sealed : Bool)

theorem parseFrom_sealed (r : Registry) (options : ParseOptions) (path : Bytes) (lines : Markup.LineTable)
    (o : Markup.Outline) (offset : Nat) (before : Option UInt8) (rest : Bytes) :
    Markup.parseFrom (sealedAs sealed r) options path lines o offset before rest =
      Markup.parseFrom r options path lines o offset before rest := by
  induction o, offset, before, rest using Markup.parseFrom.induct r options lines with
  | case1 => simp only [Markup.parseFrom]
  | case2 o offset before c cs message hpiece =>
    have hpiece' : Markup.piece (sealedAs sealed r) o.verbatim offset before c cs = .error message := hpiece
    rw [Markup.parseFrom, Markup.parseFrom, hpiece, hpiece']
  | case3 o offset before c cs p n hpiece raw ih =>
    have hpiece' : Markup.piece (sealedAs sealed r) o.verbatim offset before c cs = .ok (p, n) := hpiece
    rw [Markup.parseFrom, Markup.parseFrom, hpiece, hpiece']
    exact ih

theorem parse_sealed (r : Registry) (options : ParseOptions) (path src : Bytes) :
    Markup.parse (sealedAs sealed r) options path src = Markup.parse r options path src := by
  unfold Markup.parse
  simp only [parseFrom_sealed]

/-- The same with the registry sealed or not. -/
def Env.sealedAs (env : Env) : Env := { env with registry := Compile.sealedAs sealed env.registry }

/-- Included sources compile as they do with the registry unsealed. -/
def IgnoresSeal (embed : Embedder) : Prop := ∀ env : Env, embed (env.sealedAs sealed) = embed env

section Nodes
variable {sealed} {embed : Embedder} {env : Env}

theorem runScript_sealed {α : Type} (ask : Requests) (s : Script α) (st : State) :
    runScript (env.sealedAs sealed) ask s st = runScript env ask s st := by
  induction s generalizing st with
  | done | fail | abort => rfl
  | emit _ _ _ ih | add _ _ ih | newLabel _ ih | loader _ ih | useLoader _ _ ih | literalText _ _ ih | getState _ _ ih
  | setState _ _ _ ih | getData _ _ ih | setData _ _ _ ih | log _ _ ih | cancel _ ih | resolve _ _ ih
  | embed _ _ _ _ ih | compile _ _ ih | chain _ ih => exact ih ..

theorem contained_sealed (ask : Requests) (tag : Tag) (d : Definition) (owner : Bytes) (st : State) :
    contained (env.sealedAs sealed) ask tag d owner st = contained env ask tag d owner st := by
  have hhook (call : Call) (hook : Option (Call → Script Unit)) (st : State) :
      runHook (env.sealedAs sealed) ask call hook st = runHook env ask call hook st := by
    cases hook with
    | none => rfl
    | some f => exact runScript_sealed ask (f call) st
  have hlife : lifecycle (env.sealedAs sealed) ask tag d owner st = lifecycle env ask tag d owner st := by
    simp only [lifecycle, hhook, runScript_sealed]
    rfl
  simp only [contained, hlife]
  rfl

/-- A node compiles to the same, as a node of its own and as a part of a chain. -/
def NodeIgnoresSeal (sealed : Bool) (embed : Embedder) (env : Env) (n : Node) : Prop :=
  (∀ st, compileNode embed (env.sealedAs sealed) n st = compileNode embed env n st) ∧
    ∀ d owner st, compilePart embed (env.sealedAs sealed) d owner n st = compilePart embed env d owner n st

theorem compileNodes_sealed (which : Selection) : ∀ ns : List Node, (∀ n ∈ ns, NodeIgnoresSeal sealed embed env n) →
    ∀ st, compileNodes embed (env.sealedAs sealed) which ns st = compileNodes embed env which ns st
  | [], _, st => by simp only [compileNodes]
  | n :: ns, h, st => by
    obtain ⟨hn, hns⟩ := List.forall_mem_cons.mp h
    simp only [compileNodes, hn.1, compileNodes_sealed which ns hns]

theorem compileParts_sealed (d : Definition) (owner : Bytes) : ∀ ns : List Node,
    (∀ n ∈ ns, NodeIgnoresSeal sealed embed env n) →
    ∀ st, compileParts embed (env.sealedAs sealed) d owner ns st = compileParts embed env d owner ns st
  | [], _, st => by simp only [compileParts]
  | n :: ns, h, st => by
    obtain ⟨hn, hns⟩ := List.forall_mem_cons.mp h
    simp only [compileParts, hn.2, compileParts_sealed d owner ns hns]

theorem nodeIgnoresSeal (hembed : IgnoresSeal sealed embed) (n : Node) : NodeIgnoresSeal sealed embed env n := by
  induction n using Node.byChildren with
  | h n ih =>
    cases n with
    | text value span => exact ⟨fun st => rfl, fun d owner st => rfl⟩
    | interpolation expr escaped span => exact ⟨fun st => rfl, fun d owner st => rfl⟩
    | directive tag children =>
      have hnodes (which : Selection) (st : State) := compileNodes_sealed which children ih st
      have hparts (d : Definition) (owner : Bytes) (st : State) := compileParts_sealed d owner children ih st
      refine ⟨fun st => ?_, fun d owner st => rfl⟩
      simp only [compileNode, hnodes, hparts, hembed env, contained_sealed]
      rfl
    | part owner tag children =>
      have hnodes (which : Selection) (st : State) := compileNodes_sealed which children ih st
      have hparts (d : Definition) (owner : Bytes) (st : State) := compileParts_sealed d owner children ih st
      refine ⟨fun st => rfl, fun d owner st => ?_⟩
      simp only [compilePart, hnodes, hparts, hembed env, contained_sealed]
      rfl

end Nodes

/-- The induction is on the includes that may still follow. -/
theorem ignoresSeal_embedAt : ∀ depth, IgnoresSeal sealed (embedAt depth)
  | 0, _ => rfl
  | depth + 1, env => by
    funext path src bindings st
    have hparse : Markup.parse (env.sealedAs sealed).registry (env.sealedAs sealed).options path src =
        Markup.parse env.registry env.options path src := parse_sealed sealed _ _ _ _
    have hnodes (env : Env) (ns : List Node) (st : State) :
        compileNodes (embedAt depth) (env.sealedAs sealed) .all ns st = compileNodes (embedAt depth) env .all ns st :=
      compileNodes_sealed .all ns (fun n _ => nodeIgnoresSeal (ignoresSeal_embedAt depth) n) st
    have hinside (ns : List Node) (st : State) :
        compileNodes (embedAt depth) { env.sealedAs sealed with embeds := (env.sealedAs sealed).embeds ++ [path] } .all
          ns st = compileNodes (embedAt depth) { env with embeds := env.embeds ++ [path] } .all ns st :=
      hnodes { env with embeds := env.embeds ++ [path] } ns st
    simp only [embedAt, hparse, hinside]
    rfl

theorem runFileHook_sealed (env : Env) (d : Definition) (hook : Option (UnitInfo → Script Unit)) (st : State) :
    runFileHook (env.sealedAs sealed) d hook st = runFileHook env d hook st := by
  have hask : fileRequests (env.sealedAs sealed) = fileRequests env := by
    rw [fileRequests, embedder, ignoresSeal_embedAt sealed maxIncludes env]
    rfl
  cases hook with
  | none => rfl
  | some f =>
    simp only [runFileHook, hask, runScript_sealed]
    rfl

theorem start_sealed (env : Env) : (env.sealedAs sealed).start = env.start :=
  List.foldl_ext _ _ _ fun st d _ => runFileHook_sealed sealed { env with part := .pre } d d.onInitFile st

theorem finish_sealed (env : Env) (st : State) : (env.sealedAs sealed).finish st = env.finish st :=
  List.foldl_ext _ _ _ fun st d _ => runFileHook_sealed sealed { env with part := .post } d d.onEndFile st

theorem generate_sealed (r : Registry) (options : Options) (path : Bytes) (nodes : List Node) :
    generate (sealedAs sealed r) options path false nodes = generate r options path false nodes := by
  have henv : options.env (sealedAs sealed r) path nodes = (options.env r path nodes).sealedAs sealed := rfl
  have hnodes (env : Env) (st : State) :
      compileNodes embedder (env.sealedAs sealed) .all nodes st = compileNodes embedder env .all nodes st :=
    compileNodes_sealed .all nodes (fun n _ => nodeIgnoresSeal (ignoresSeal_embedAt sealed maxIncludes) n) st
  rw [generate_eq_outcome, generate_eq_outcome, henv, hnodes, start_sealed]
  rcases compileNodes embedder (options.env r path nodes) .all nodes (options.env r path nodes).start with ⟨e | u, st⟩
  · rfl
  · simp only [Env.outcome, finish_sealed]

/-- Templates compile the same with the registry sealed. -/
theorem compileSource_sealed (r : Registry) (options : Options) (path src : Bytes) :
    compileSource (sealedAs sealed r) options path false src = compileSource r options path false src := by
  simp only [compileSource, parse_sealed, generate_sealed]

end Stencil.Compile
