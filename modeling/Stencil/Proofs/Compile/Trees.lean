import Stencil.Proofs.Compile.Standard
import Stencil.Proofs.Directive.Lookup
import Stencil.Markup.Node
import Stencil.Proofs.Program.Merge
import Stencil.Proofs.Render.Safety

/-! # Compiled trees are well structured

Every tree that is compiled with the standard directives emits statements. With the instructions of
the hooks for whole templates around them, they link and never fail by themselves when they run. -/

namespace Stencil.Compile

open Stencil.Directive
open Stencil.Directive.Standard
open Stencil.Markup (Node Tag)
open Statement (codeAll AllWellFormed)

/-! ### Nodes -/

/-- Included sources emit statements, or fail before they leave anything open. -/
def Embeds (embed : Embedder) : Prop :=
  ∀ env : Env, env.registry = registry → env.part = .body → ∀ path src bindings st, st.canceled = false →
    Ends (embed env path src bindings st) (fun _ st' => ∃ ss, Emits st st' ss) (Survives st)

section Nodes
variable {embed : Embedder} {env : Env}

/-- Compiling the node emits statements and keeps what the chain at hand remembers. -/
def NodeEmits (embed : Embedder) (env : Env) (n : Node) : Prop :=
  ∀ st, st.canceled = false → ∃ ss, Emits st (compileNode embed env n st) ss ∧ (compileNode embed env n st).data = st.data

theorem steady_compileNodes (which : Selection) : ∀ ns : List Node, (∀ n ∈ ns, NodeEmits embed env n) →
    Steady (compileNodes embed env which ns)
  | [], _, st, _ => ⟨st, [], rfl, .refl st, rfl⟩
  | n :: ns, h, st, hst => by
    have ih := steady_compileNodes which ns fun m hm => h m (List.mem_cons_of_mem n hm)
    rw [compileNodes]
    split
    · obtain ⟨ss, hss, hdata⟩ := h n List.mem_cons_self st hst
      obtain ⟨st', ts, hrest, hts, hdata'⟩ := ih _ (hss.running.trans hst)
      simp only [hst, Bool.false_eq_true, if_false]
      exact ⟨st', ss ++ ts, hrest, hss.trans hts, hdata'.trans hdata⟩
    · exact ih st hst

/-- What stays true of a chain while statements are added to it. -/
structure Carried (I : State → Prop) : Prop where
  running : ∀ st, I st → st.canceled = false
  emits : ∀ st st' ss, I st → Emits st st' ss → st'.data = st.data → I st'

variable (hpart : env.part = .body)
include hpart

/-- Without parts of its own a link turns away all that follow. -/
theorem steady_compileParts {d : Definition} (hd : d.parts = []) (owner : Bytes) : ∀ ns : List Node,
    Steady (compileParts embed env d owner ns)
  | [], st, _ => ⟨st, [], rfl, .refl st, rfl⟩
  | n :: ns, st, hst => by
    rw [compileParts]
    split
    · simp only [hst, Bool.false_eq_true, if_false]
      cases n with
      | part name tag children =>
        have hreject := emits_reject hpart st tag .misplacedPart
          ("@" ++ tag.name ++ " is not a sub-directive of @" ++ d.name)
        obtain ⟨st', ss, hrest, hss, hdata⟩ := steady_compileParts hd owner ns _ (hreject.running.trans hst)
        simp only [compilePart, Definition.part?, hd, List.find?_nil]
        exact ⟨st', _, hrest, hreject.trans hss, hdata⟩
      | _ => exact steady_compileParts hd owner ns st hst
    · exact steady_compileParts hd owner ns st hst

variable (hregistry : env.registry = registry) (hembed : Embeds embed)
include hregistry hembed

theorem serves_requests {children : List Node} (hchildren : ∀ which, Steady (compileNodes embed env which children))
    (chain : State → Outcome Unit) :
    Serves ⟨fun which st => compileNodes embed env which children st, chain, fun which => literalText which children,
      embed env⟩ :=
  ⟨hchildren, hembed env hregistry hpart⟩

/-- The parts of a chain keep what each of them keeps. -/
theorem carries_compileParts {d : Definition} {owner : Bytes} {I : State → Prop} (hI : Carried I)
    (hd : ∀ p ∈ d.parts, p.parts = [] ∧
      ∀ ask tag, Serves ask → Steady ask.chain → Continues env ask tag owner I p) :
    ∀ ns : List Node, (∀ n ∈ ns, ∀ which, Steady (compileNodes embed env which n.children)) →
      Carries (compileParts embed env d owner ns) I
  | [], _, st, _, h => ⟨st, rfl, h⟩
  | n :: ns, hns, st, hst, h => by
    have ih := carries_compileParts hI hd ns fun m hm => hns m (List.mem_cons_of_mem n hm)
    rw [compileParts]
    split
    · simp only [hst, Bool.false_eq_true, if_false]
      suffices hstep : I (compilePart embed env d owner n st) from ih _ (hI.running _ hstep) hstep
      cases n with
      | part name tag children =>
        rw [compilePart]
        split
        · exact hI.emits _ _ _ h (emits_reject hpart st tag _ _) rfl
        · rename_i p hp
          obtain ⟨hparts, hlife⟩ := hd p (List.mem_of_find?_eq_some hp)
          have hask := serves_requests hpart hregistry hembed (hns _ List.mem_cons_self)
            fun st => compileParts embed env p owner children st
          rcases contained_cases (hlife _ tag hask (steady_compileParts hpart hparts owner children) st hst h)
            with hkept | ⟨after, e, ⟨hafter, hdata⟩, heq⟩
          · exact hkept
          · exact heq ▸ hI.emits _ _ _ h (emits_rollback hpart hafter tag e) hdata
      | _ => exact h
    · exact ih st hst h

/-- What is rendered for no items adds statements. -/
theorem steady_compileParts_each (owner : Bytes) {ns : List Node}
    (hns : ∀ n ∈ ns, ∀ which, Steady (compileNodes embed env which n.children)) :
    Steady (compileParts embed env eachDirective owner ns) := by
  intro st hst
  have hI : Carried fun st' => st'.data = st.data ∧ ∃ ss, Emits st st' ss := by
    refine ⟨?_, ?_⟩
    · rintro st₁ ⟨-, ss, hss⟩
      exact hss.running.trans hst
    · rintro st₁ st₂ ts ⟨hdata₁, ss, hss⟩ hts hdata₂
      exact ⟨hdata₂.trans hdata₁, _, hss.trans hts⟩
  have hempty : ∀ p ∈ eachDirective.parts, p.parts = [] ∧ ∀ ask tag, Serves ask → Steady ask.chain →
      Continues env ask tag owner (fun st' => st'.data = st.data ∧ ∃ ss, Emits st st' ss) p := by
    intro p hp
    obtain rfl : p = emptyPart := by simpa [eachDirective] using hp
    refine ⟨rfl, fun ask tag hask hchain st₁ hst₁ h₁ => ?_⟩
    refine ends_lifecycle (A := (st₁ = ·)) (B := (st₁ = ·)) ⟨.refl st₁, rfl⟩
      fun args _ => ⟨rfl, fun _ h => h, ?_, fun _ h => h⟩
    rintro _ rfl
    refine ((hask.children hchain rfl _).ends hst₁).mono ?_
    rintro _ st₂ ⟨ts, hts, hdata⟩
    exact hI.emits _ _ _ h₁ hts hdata
  obtain ⟨st', hrun, hdata, ss, hss⟩ :=
    carries_compileParts hpart hregistry hembed hI hempty ns hns st hst ⟨rfl, [], .refl st⟩
  exact ⟨st', ss, hrun, hss, hdata⟩

theorem carries_compileParts_if {start : State} (hstart : start.canceled = false) (owner : Bytes) {ns : List Node}
    (hns : ∀ n ∈ ns, ∀ which, Steady (compileNodes embed env which n.children)) :
    Carries (compileParts embed env ifDirective owner ns) (IfChain start) := by
  refine carries_compileParts hpart hregistry hembed
    ⟨fun st h => h.running.trans hstart, fun _ _ _ h hss hdata => h.emit hss hdata⟩ ?_ ns hns
  intro p hp
  obtain rfl | rfl : p = elseifPart ∨ p = elsePart := by simpa [ifDirective] using hp
  · exact ⟨rfl, fun ask tag hask hchain => continues_elseif hpart hask hchain start⟩
  · exact ⟨rfl, fun ask tag hask hchain => continues_else hpart hask hchain start⟩

theorem carries_compileParts_switch {start : State} (hstart : start.canceled = false) (owner : Bytes) {ns : List Node}
    (hns : ∀ n ∈ ns, ∀ which, Steady (compileNodes embed env which n.children)) :
    Carries (compileParts embed env switchDirective owner ns) (SwitchChain start) := by
  refine carries_compileParts hpart hregistry hembed
    ⟨fun st h => h.running.trans hstart, fun _ _ _ h hss hdata => h.emit hss hdata⟩ ?_ ns hns
  intro p hp
  obtain rfl | rfl : p = casePart ∨ p = defaultPart := by simpa [switchDirective] using hp
  · exact ⟨rfl, fun ask tag hask hchain => continues_case hpart hask hchain start⟩
  · exact ⟨rfl, fun ask tag hask hchain => continues_default hask hchain start⟩

/-- Every standard directive emits statements, when its children and those of its parts do. -/
theorem emitting_standard {d : Definition} (hd : d ∈ all) {tag : Tag} {owner : Bytes} {children : List Node} {st : State}
    (hst : st.canceled = false) (hchildren : ∀ which, Steady (compileNodes embed env which children))
    (hparts : ∀ n ∈ children, ∀ which, Steady (compileNodes embed env which n.children)) :
    Emitting env ⟨fun which st => compileNodes embed env which children st,
      fun st => compileParts embed env d owner children st, fun which => literalText which children, embed env⟩
      tag owner st d := by
  have hask := serves_requests hpart hregistry hembed hchildren fun st => compileParts embed env d owner children st
  simp only [all, List.mem_cons, List.not_mem_nil, or_false] at hd
  rcases hd with rfl | rfl | rfl | rfl | rfl | rfl | rfl | rfl | rfl | rfl | rfl | rfl | rfl | rfl
  · exact emitting_if hpart hask hst (carries_compileParts_if hpart hregistry hembed hst owner hparts)
  · exact emitting_switch hpart hst (carries_compileParts_switch hpart hregistry hembed hst owner hparts)
  · exact emitting_each hpart hask (steady_compileParts_each hpart hregistry hembed owner hparts) hst
  · exact emitting_set hpart hask (steady_compileParts hpart rfl owner children) hst
  · exact emitting_include hpart hask (steady_compileParts hpart rfl owner children) hst
  · exact emitting_extends hask (steady_compileParts hpart rfl owner children) hst
  · exact emitting_section hpart hask (steady_compileParts hpart rfl owner children) hst
  · exact emitting_yield hpart hask (steady_compileParts hpart rfl owner children) hst
  · exact emitting_push hpart hask (steady_compileParts hpart rfl owner children) hst
  · exact emitting_stack hpart hask (steady_compileParts hpart rfl owner children) hst
  · exact emitting_component hpart hask hst
  · exact emitting_slot hpart hask (steady_compileParts hpart rfl owner children) hst
  · exact emitting_client
  · exact emitting_style

theorem nodeEmits_directive {tag : Tag} {children : List Node}
    (hchildren : ∀ which, Steady (compileNodes embed env which children))
    (hparts : ∀ n ∈ children, ∀ which, Steady (compileNodes embed env which n.children)) :
    NodeEmits embed env (.directive tag children) := by
  intro st hst
  rw [compileNode]
  split
  · exact ⟨_, emits_reject hpart st tag _ _, rfl⟩
  · exact ⟨_, emits_reject hpart st tag _ _, rfl⟩
  · exact ⟨_, emits_reject hpart st tag _ _, rfl⟩
  · split
    · exact ⟨_, emits_reject hpart st tag _ _, rfl⟩
    · rename_i d hd
      -- the chain starts without data, and what it keeps is dropped after it
      have hlife : Emitting env _ tag tag.name { st with data := [] } d :=
        emitting_standard hpart hregistry hembed (mem_all_of_lookup (hregistry ▸ hd)).1 hst hchildren hparts
      obtain ⟨ss, hss⟩ := emits_contained hpart hlife
      exact ⟨ss, hss.data, rfl⟩

/-- Every node emits statements. -/
theorem nodeEmits (n : Node) :
    NodeEmits embed env n ∧ ∀ which, Steady (compileNodes embed env which n.children) := by
  induction n using Node.byChildren with
  | h n ih =>
    have hchildren : ∀ which, Steady (compileNodes embed env which n.children) :=
      fun which => steady_compileNodes which n.children fun c hc => (ih c hc).1
    refine ⟨?_, hchildren⟩
    cases n with
    | text value span =>
      intro st hst
      obtain ⟨ss, hss⟩ := Emits.add hpart st value
      exact ⟨ss, hss, rfl⟩
    | interpolation expr escaped span =>
      intro st hst
      rw [compileNode]
      split
      · exact ⟨_, .emit hpart (by cases escaped <;> rfl) st, rfl⟩
      · obtain ⟨ss, hss⟩ := Emits.add hpart st expr
        exact ⟨ss, hss, rfl⟩
    | directive tag children =>
      exact nodeEmits_directive hpart hregistry hembed hchildren fun c hc => (ih c hc).2
    | part owner tag children => exact fun st hst => ⟨_, emits_reject hpart st tag _ _, rfl⟩

end Nodes

/-- Included sources emit statements in a scope. The induction is on the includes that may still
follow. -/
theorem embeds_embedAt : ∀ depth, Embeds (embedAt depth)
  | 0, _, _, _, _, _, _, st, _ => Survives.refl st
  | depth + 1, env, hregistry, hpart, path, src, bindings, st, hst => by
    rw [embedAt]
    split
    · exact Survives.refl st
    · split
      · exact Survives.refl st
      · split
        · exact Survives.refl st
        · rename_i nodes hnodes
          dsimp only
          generalize hst₁ : State.emit _ env.part [.enter] = st₁
          have h₁ : Adds st st₁ [.enter] := hst₁ ▸ (adds_emit hpart _ _).of_start rfl (Nat.le_refl _) rfl
          have hbind : ∃ ss, Emits st₁ (if bindings = [] then st₁ else st₁.emit env.part [.bind bindings]) ss := by
            split
            · exact ⟨[], .refl st₁⟩
            · exact ⟨_, .emit hpart rfl st₁⟩
          obtain ⟨ss, h₂⟩ := hbind
          -- the nodes are compiled where the include stands, with one include less to follow
          have hnode : ∀ n, NodeEmits (embedAt depth) { env with embeds := env.embeds ++ [path] } n :=
            fun n => (nodeEmits (by exact hpart) (by exact hregistry) (embeds_embedAt depth) n).1
          obtain ⟨st₃, ts, hrun, h₃, -⟩ := steady_compileNodes .all nodes (fun n _ => hnode n) _
            (h₂.running.trans (h₁.running.trans hst))
          simp only [hrun, andThen]
          exact ⟨_, .scope rfl rfl rfl h₁ (h₂.trans h₃) (adds_emit hpart st₃ _)⟩

/-! ### Templates -/

/-- Instructions that go on with the one after them. -/
def Straight (code : List Instr) : Prop := ∀ i ∈ code, i.op.isStraight = true

theorem codeAll_plain (code : List Instr) : codeAll (code.map .plain) = code := by
  induction code with
  | nil => rfl
  | cons i code ih => simp [Statement.code, ih]

theorem Straight.wellFormed {code : List Instr} (h : Straight code) : AllWellFormed none (code.map .plain) := by
  induction code with
  | nil => trivial
  | cons i code ih => exact ⟨h i List.mem_cons_self, ih fun j hj => h j (List.mem_cons_of_mem i hj)⟩

theorem Straight.marked_eq_nil {code : List Instr} (h : Straight code) : Program.marked code = [] := by
  have hlabel : ∀ i ∈ code, ¬(i.op == .label) = true := by
    intro i hi hlabel
    have := h i hi
    rw [beq_iff_eq.mp hlabel] at this
    cases this
  rw [Program.marked, List.filter_eq_nil_iff.mpr hlabel, List.map_nil]

/-- Instructions of hooks at the start and the end of a template go around the body. -/
structure Around (st st' : State) (pre post : List Instr) : Prop where
  pre : st'.out.pre = st.out.pre ++ pre
  body : st'.out.body = st.out.body
  post : st'.out.post = st.out.post ++ post
  running : st'.canceled = st.canceled
  errors : st'.errors = st.errors
  deps : st'.deps = st.deps

theorem Around.refl (st : State) : Around st st [] [] :=
  ⟨(List.append_nil _).symm, rfl, (List.append_nil _).symm, rfl, rfl, rfl⟩

theorem Around.trans {st₁ st₂ st₃ : State} {a b c d : List Instr} (h : Around st₁ st₂ a b) (h' : Around st₂ st₃ c d) :
    Around st₁ st₃ (a ++ c) (b ++ d) :=
  ⟨by rw [h'.pre, h.pre, List.append_assoc], h'.body.trans h.body, by rw [h'.post, h.post, List.append_assoc],
    h'.running.trans h.running, h'.errors.trans h.errors, h'.deps.trans h.deps⟩

/-- What hooks remember is no output. -/
theorem Around.memory {st st' : State} {pre post : List Instr} (h : Around st st' pre post) (memory : Bindings) :
    Around st { st' with memory } pre post :=
  ⟨h.pre, h.body, h.post, h.running, h.errors, h.deps⟩

section FileHooks
variable {env : Env}

/-- A hook that cannot fail leaves what its script leaves. -/
theorem runFileHook_of_ends {st : State} {f : UnitInfo → Script Unit} {P : State → Prop} (d : Definition)
    (h : Ends (runScript env (fileRequests env) (f env.unit) st) (fun _ => P) (fun _ => False)) :
    P (runFileHook env d (some f) st) := by
  rcases hrun : runScript env (fileRequests env) (f env.unit) st with ⟨e | u, st'⟩ <;> rw [hrun] at h
  · exact h.elim
  · simp only [runFileHook, hrun]
    exact h

theorem around_pre (hpart : env.part = .pre) (st : State) (code : List Instr) :
    Around st (st.emit env.part code) code [] := by
  rw [hpart]
  exact ⟨rfl, rfl, (List.append_nil _).symm, rfl, rfl, rfl⟩

theorem around_post (hpart : env.part = .post) (st : State) (code : List Instr) :
    Around st (st.emit env.part code) [] code := by
  rw [hpart]
  exact ⟨(List.append_nil _).symm, rfl, rfl, rfl, rfl, rfl⟩

/-- The scope of a template that extends a layout is opened before its body. -/
theorem around_initFile (hpart : env.part = .pre) (st : State) :
    Around st (all.foldl (fun st d => runFileHook env d d.onInitFile st) st)
      (if env.unit.uses "extends" then [.enter] else []) [] := by
  -- only two directives have such a hook
  change Around st (runFileHook env stackDirective stackDirective.onInitFile
    (runFileHook env extendsDirective extendsDirective.onInitFile st)) _ _
  have hextends : Around st (runFileHook env extendsDirective extendsDirective.onInitFile st)
      (if env.unit.uses "extends" then [.enter] else []) [] := by
    refine runFileHook_of_ends (P := fun st' => Around st st' _ []) extendsDirective ?_
    split
    · exact around_pre hpart st [.enter]
    · exact Around.refl st
  exact runFileHook_of_ends (P := fun st' => Around st st' _ []) stackDirective (hextends.memory _)

/-- The end of a template: the layout is rendered, and placeholders are filled in once, which is remembered. -/
structure Ending (st : State) (code : List Instr) : Prop where
  ops : ∀ i ∈ code, i.op = .render ∨ i.op = .resolve
  last : Program.FillsLast code
  known : Assoc.get? resolvedKey st.memory = none → ∀ i ∈ code, i.op ≠ .resolve

theorem Ending.nil (st : State) : Ending st [] := ⟨nofun, trivial, fun _ => nofun⟩

theorem Ending.straight {st : State} {code : List Instr} (h : Ending st code) : Straight code := fun i hi => by
  rcases h.ops i hi with hop | hop <;> simp [hop, Op.isStraight]

/-- The state once placeholders are filled in at the end, which is done once. -/
def State.filling (st : State) : State :=
  if (Assoc.get? resolvedKey st.memory).isSome then st
  else { st with memory := Assoc.insert resolvedKey (.bool true) st.memory }.emit .post [{ op := .resolve }]

theorem runFileHook_ensureResolve (hpart : env.part = .post) (d : Definition) (uses : UnitInfo → Bool) (st : State) :
    runFileHook env d (some fun u => if uses u then ensureResolve else pure ()) st =
      if uses env.unit then st.filling else st := by
  have hfilling : runScript env (fileRequests env) ensureResolve st = (.ok (), st.filling) := by
    rw [ensureResolve, runScript_bind, runScript_state?, andThen, State.filling]
    split
    · rfl
    · simp only [runScript_bind, runScript_remember, runScript_emits, andThen, hpart]
  cases huses : uses env.unit with
  | false => simp [runFileHook, huses]
  | true => simp [runFileHook, huses, hfilling]

/-- Placeholders are filled in, unless they were before. -/
theorem around_ensureResolve (hpart : env.part = .post) (d : Definition) (uses : UnitInfo → Bool) {st : State}
    {code : List Instr} (h : Ending st code) :
    ∃ more, Ending (runFileHook env d (some fun u => if uses u then ensureResolve else pure ()) st) (code ++ more) ∧
      Around st (runFileHook env d (some fun u => if uses u then ensureResolve else pure ()) st) [] more := by
  have hsame : ∃ more, Ending st (code ++ more) ∧ Around st st [] more := ⟨[], by rwa [List.append_nil], .refl st⟩
  rw [runFileHook_ensureResolve hpart]
  split
  · unfold State.filling
    split
    · exact hsame
    · rename_i hnone
      have hknown : Assoc.get? resolvedKey st.memory = none := by simpa using hnone
      refine ⟨[{ op := .resolve }], ⟨?_, .append (h.known hknown) ⟨fun _ => rfl, trivial⟩, ?_⟩, ?_⟩
      · exact fun i hi => (List.mem_append.mp hi).elim (h.ops i) fun hi => .inr (List.mem_singleton.mp hi ▸ rfl)
      · intro hforgot
        simp [State.emit] at hforgot
      · exact ((Around.refl st).memory _).trans (hpart ▸ around_post hpart _ _)
  · exact hsame

/-- The scope of a template that extends a layout is dropped; the layout is rendered in its place. -/
theorem around_extends (hpart : env.part = .post) (st : State) :
    ∃ code, Ending (runFileHook env extendsDirective extendsDirective.onEndFile st) code ∧
      Around st (runFileHook env extendsDirective extendsDirective.onEndFile st) []
        ((if env.unit.uses "extends" then [.exit .discard []] else []) ++ code) := by
  refine runFileHook_of_ends (P := fun st' => ∃ code, Ending st' code ∧ Around st st' []
    ((if env.unit.uses "extends" then [.exit .discard []] else []) ++ code)) extendsDirective ?_
  split
  · simp only [runScript_bind, runScript_emits, runScript_state?, andThen]
    have hexit := around_post hpart st [.exit .discard []]
    split
    · exact ⟨[], .nil _, hexit⟩
    · rename_i path _
      simp only [runScript_bind, runScript_emits, runScript_remember, andThen]
      refine ⟨[{ op := .render, name := path.display }, { op := .resolve }], ⟨by simp, ?_, ?_⟩, ?_⟩
      · exact ⟨by simp, fun _ => rfl, trivial⟩
      · intro hforgot
        simp [State.emit] at hforgot
      · exact ((hexit.trans (around_post hpart _ [{ op := .render, name := path.display }])).memory _).trans
          (around_post hpart _ [{ op := .resolve }])
  · exact ⟨[], .nil _, .refl st⟩

theorem around_endFile (hpart : env.part = .post) (st : State) :
    ∃ code, Ending (all.foldl (fun st d => runFileHook env d d.onEndFile st) st) code ∧
      Around st (all.foldl (fun st d => runFileHook env d d.onEndFile st) st) []
        ((if env.unit.uses "extends" then [.exit .discard []] else []) ++ code) := by
  -- only three directives have such a hook
  have hhooks : all.foldl (fun st d => runFileHook env d d.onEndFile st) st =
      runFileHook env stackDirective (some fun u => if u.uses "stack" then ensureResolve else pure ())
        (runFileHook env yieldDirective (some fun u => if u.uses "yield" then ensureResolve else pure ())
          (runFileHook env extendsDirective extendsDirective.onEndFile st)) := rfl
  rw [hhooks]
  obtain ⟨a, ha, h₁⟩ := around_extends hpart st
  obtain ⟨b, hb, h₂⟩ := around_ensureResolve hpart yieldDirective (fun u => u.uses "yield") ha
  obtain ⟨c, hc, h₃⟩ := around_ensureResolve hpart stackDirective (fun u => u.uses "stack") hb
  refine ⟨a ++ b ++ c, hc, ?_⟩
  rw [List.append_assoc a, ← List.append_assoc _ a]
  exact h₁.trans (h₂.trans h₃)

end FileHooks

/-- Statements stay so between the instructions of the hooks for the whole template. -/
theorem exists_statements_around {ss : List Statement} (hss : AllWellFormed none ss)
    (hnodup : (Program.marked (codeAll ss)).Nodup) {code : List Instr} (hcode : Straight code) (layout : Bool) :
    ∃ ss', (if layout then [.enter] else []) ++ codeAll ss ++ ((if layout then [.exit .discard []] else []) ++ code) =
      codeAll ss' ∧ AllWellFormed none ss' ∧ (Program.marked (codeAll ss')).Nodup := by
  have hrest := hcode.wellFormed
  have hmarked := hcode.marked_eq_nil
  cases layout with
  | false =>
    refine ⟨ss ++ code.map .plain, by simp [codeAll_plain], (Statement.allWellFormed_append _ _).mpr ⟨hss, hrest⟩, ?_⟩
    simpa [codeAll_plain, hmarked] using hnodup
  | true =>
    have hscope := Statement.marked_code_scope .enter (.exit .discard []) ss rfl rfl
    refine ⟨.scope .enter ss (.exit .discard []) :: code.map .plain, by simp [codeAll_plain, Statement.code],
      ⟨⟨rfl, rfl, rfl, hss⟩, hrest⟩, ?_⟩
    rw [Statement.codeAll_cons, Program.marked_append, hscope, codeAll_plain, hmarked, List.append_nil]
    exact hnodup

/-- The state in which the nodes of a template are compiled. -/
def Env.start (env : Env) : State :=
  env.registry.definitions.foldl (fun st d => runFileHook { env with part := .pre } d d.onInitFile st) {}

/-- The state after the hooks at the end of a template. -/
def Env.finish (env : Env) (st : State) : State :=
  env.registry.definitions.foldl (fun st d => runFileHook { env with part := .post } d d.onEndFile st) st

/-- The template that was compiled. -/
def State.template (st : State) (path : Bytes) : Template where
  path
  pre := st.out.pre
  body := st.out.body
  post := st.out.post
  channels := st.out.channels
  deps := st.deps
  errors := st.errors

/-- What the nodes of a template are compiled with. -/
def Options.env (options : Options) (r : Registry) (path : Bytes) (nodes : List Node) : Env where
  registry := r
  options := options.parse
  resolver := options.resolver
  unit := unitInfo path nodes
  prefetched :=
    match options.resolver with
    | some resolver =>
      prefetch resolver (if 1 < options.concurrency ∧ options.resolver.isSome then
        (directiveTagsList nodes).filterMap (prefetchPath r) else [])
    | none => []
  part := .body
  embeds := []

/-- What comes of a template once its nodes are compiled. -/
def Env.outcome (env : Env) (path : Bytes) : Except Failure Unit × State → Compilation
  | (.error e, st) => { result := .error e, log := st.log, canceled := st.canceled, seals := true }
  | (.ok _, st) =>
    { result := .ok ((env.finish st).template path), log := (env.finish st).log, canceled := (env.finish st).canceled,
      seals := true }

/-- The stages of a compilation that nothing cancelled before. -/
theorem generate_eq_outcome (r : Registry) (options : Options) (path : Bytes) (nodes : List Node) :
    generate r options path false nodes = (options.env r path nodes).outcome path
      (compileNodes embedder (options.env r path nodes) .all nodes (options.env r path nodes).start) := by
  rw [generate, if_neg (by simp)]
  rfl

theorem generate_result (r : Registry) (options : Options) (path : Bytes) (nodes : List Node) :
    (generate r options path false nodes).result =
      (andThen (compileNodes embedder (options.env r path nodes) .all nodes (options.env r path nodes).start)
        fun _ st => (.ok (((options.env r path nodes).finish st).template path), st)).1 := by
  rw [generate_eq_outcome]
  rcases compileNodes embedder (options.env r path nodes) .all nodes (options.env r path nodes).start
    with ⟨e | u, st⟩ <;> rfl

/-- A tree compiles to a template of statements, when nothing is cancelled, and nothing cancels it. -/
theorem exists_statements_generate (options : Options) (path : Bytes) (nodes : List Node) :
    ∃ t ss, (generate registry options path false nodes).result = .ok t ∧
      (generate registry options path false nodes).canceled = false ∧ t.path = path ∧
      t.instrs = codeAll ss ∧ AllWellFormed none ss ∧ (Program.marked (codeAll ss)).Nodup := by
  have houtcome := generate_eq_outcome registry options path nodes
  obtain ⟨env, henv⟩ : ∃ env, env = options.env registry path nodes := ⟨_, rfl⟩
  have hregistry : env.registry = registry := henv ▸ rfl
  have hpart : env.part = .body := henv ▸ rfl
  have hdefs : env.registry.definitions = all := henv ▸ rfl
  rw [← henv] at houtcome
  have hinit : Around {} env.start (if env.unit.uses "extends" then [.enter] else []) [] := by
    rw [Env.start, hdefs]
    exact around_initFile rfl {}
  obtain ⟨st, ss, hrun, hss, -⟩ := steady_compileNodes .all nodes
    (fun n _ => (nodeEmits hpart hregistry (embeds_embedAt maxIncludes) n).1) env.start hinit.running
  obtain ⟨code, hcode, hend⟩ : ∃ code, Ending (env.finish st) code ∧ Around st (env.finish st) []
      ((if env.unit.uses "extends" then [.exit .discard []] else []) ++ code) := by
    rw [Env.finish, hdefs]
    exact around_endFile rfl st
  rw [embedder, hrun] at houtcome
  rw [houtcome]
  obtain ⟨all, hall, hwell, hnodup⟩ :=
    exists_statements_around hss.wellFormed hss.fresh.nodup hcode.straight (env.unit.uses "extends")
  refine ⟨_, all, rfl, hend.running.trans (hss.running.trans hinit.running), rfl, ?_, hwell, hnodup⟩
  rw [← hall]
  simp [Template.instrs, State.template, hend.pre, hend.body, hend.post, hss.pre, hss.body, hss.post, hinit.pre,
    hinit.body, hinit.post]

theorem structured_generate (options : Options) (path : Bytes) (nodes : List Node) :
    ∃ t, (generate registry options path false nodes).result = .ok t ∧ t.path = path ∧
      Program.Structured t.instrs := by
  obtain ⟨t, ss, hresult, -, hpath, hinstrs, hwell, hnodup⟩ := exists_statements_generate options path nodes
  exact ⟨t, hresult, hpath, hinstrs ▸ Program.structured_codeAll hwell hnodup⟩

/-- Every source that can be read compiles with the standard directives to a program that links,
whatever errors were recorded on the way; and no run of the program comes to a fault of its own. -/
theorem compileSource_never_failsItself (options : Options) (path src : Bytes) (nodes : List Node)
    (hparse : Markup.parse registry options.parse path src = .ok nodes) :
    ∃ t p, (compileSource registry options path false src).result = .ok t ∧ t.program = .ok p ∧
      ∀ host m, ¬Render.FailsItself host p m := by
  obtain ⟨t, hresult, -, hstructured⟩ := structured_generate options path nodes
  have hmerged := structured_mergeLiterals hstructured
  refine ⟨t, ⟨t.path, mergeLiterals t.instrs⟩, ?_, hmerged.link t.path, ?_⟩
  · rw [compileSource, hparse]
    exact hresult
  · exact fun host m => Render.not_failsItself hmerged host m

/-- A layout, a loop left open, and a part out of place. -/
theorem compileSource_never_failsItself_layout :
    ∃ nodes, Markup.parse registry {} "page" "@extends('main')@each(xs)@elseif(x)" = .ok nodes ∧
      ∃ t p, (compileSource registry {} "page" false "@extends('main')@each(xs)@elseif(x)").result = .ok t ∧
        t.program = .ok p ∧ ∀ host m, ¬Render.FailsItself host p m := by
  have hok : (Markup.parse registry {} "page" "@extends('main')@each(xs)@elseif(x)").isOk = true := by decide +kernel
  cases hnodes : Markup.parse registry {} "page" "@extends('main')@each(xs)@elseif(x)" with
  | error d => simp [hnodes, Except.isOk, Except.toBool] at hok
  | ok nodes => exact ⟨nodes, rfl, compileSource_never_failsItself {} _ _ nodes hnodes⟩

end Stencil.Compile
