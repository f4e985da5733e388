import Stencil.Proofs.Compile.Changes
import Stencil.Proofs.Compile.Trees

/-! # Placeholders in compiled templates

Templates that are compiled with the standard directives place placeholders for sections and stacks only,
and fill them in with their last instruction, if at all. Hooks of nodes leave placeholders as they are; the
hooks at the end of a template add the instruction that fills them in, once. -/

namespace Stencil.Compile

open Stencil.Directive
open Stencil.Directive.Standard
open Stencil.Markup (Node Tag)
open Program (Deferring deferring_mergeLiterals)

/-! ### Nodes -/

/-- All instructions of the template so far. -/
def State.instrs (st : State) : List Instr := st.out.pre ++ st.out.body ++ st.out.post

/-- All instructions that were added leave placeholders for the end. -/
def AddsDeferring (st st' : State) : Prop := ∀ i ∈ st'.instrs, i ∈ st.instrs ∨ Defers i

theorem AddsDeferring.of_instrs {st st' : State} (h : st'.instrs = st.instrs) : AddsDeferring st st' :=
  fun _ hi => .inl (h ▸ hi)

theorem mem_instrs_emit {st : State} {part : Section} {code : List Instr} {i : Instr} (h : i ∈ (st.emit part code).instrs) :
    i ∈ st.instrs ∨ i ∈ code := by
  cases part <;> simp only [State.instrs, State.emit, Output.append, List.mem_append] at h ⊢ <;> grind

theorem AddsDeferring.add (st : State) (part : Section) (text : Bytes) : AddsDeferring st (st.add part text) := by
  have hliteral : Defers (.literal text) := ⟨nofun, nofun⟩
  intro i hi
  unfold State.add Output.add at hi
  split at hi
  · exact .inl hi
  · split at hi
    · rcases mem_instrs_emit hi with hi | hi
      · exact .inl hi
      · exact .inr (List.mem_singleton.mp hi ▸ hliteral)
    · exact .inl hi

theorem mem_instrs_backTo {st : State} {m : Mark} {i : Instr} (h : i ∈ (st.backTo m).instrs) : i ∈ st.instrs := by
  simp only [State.instrs, State.backTo, Output.backTo, List.mem_append] at h ⊢
  exact h.imp (fun h => h.imp List.mem_of_mem_take List.mem_of_mem_take) List.mem_of_mem_take

theorem kept_addsDeferring : Kept Defers AddsDeferring where
  plain i hplaceholder hresolve := ⟨hresolve, fun h => absurd h hplaceholder⟩
  refl st i hi := .inl hi
  trans h h' i hi := (h' i hi).elim (h i) .inr
  emit st part code hcode i hi := (mem_instrs_emit hi).imp_right (hcode i)
  add := .add
  select _ _ := .of_instrs rfl
  silent hout _ _ _ := .of_instrs (by simp only [State.instrs, hout])
  record _ _ _ := .of_instrs rfl
  report _ _ _ := .of_instrs rfl
  backTo h i hi := h i (mem_instrs_backTo hi)

/-- Directives like the standard ones: no hook of a node fills in placeholders, and chains are flat. -/
def LikeStandard (d : Definition) : Prop := d.Only Defers ∧ ∀ p ∈ d.parts, p.Only Defers ∧ p.parts = []

theorem vetted_likeStandard : Vetted Defers LikeStandard where
  only _ h := h.1
  parts _ h p hp := by
    obtain ⟨honly, hflat⟩ := h.2 p hp
    exact ⟨honly, by simp [hflat]⟩

theorem uses_likeStandard {env : Env} (h : env.registry.entries = registry.entries) : env.Uses LikeStandard := by
  intro name d hd
  have hlookup : env.registry.lookup name = registry.lookup name := by
    simp only [Registry.lookup, Registry.named?, Registry.definitions, h]
  exact only_of_mem_all (mem_all_of_lookup (hlookup ▸ hd)).1

/-! ### Templates -/

/-- A template that was compiled with the standard directives places and fills in placeholders as they do. -/
theorem deferring_generate {r : Registry} (hr : r.entries = registry.entries) (options : Options) (path : Bytes)
    (nodes : List Node) {t : Template} (h : (generate r options path false nodes).result = .ok t) :
    Deferring t.instrs := by
  obtain ⟨env, henv⟩ : ∃ env, env = options.env r path nodes := ⟨_, rfl⟩
  have hentries : env.registry.entries = registry.entries := henv ▸ hr
  have hdefs : env.registry.definitions = all := by rw [Registry.definitions, hentries]; rfl
  rw [generate_result, ← henv] at h
  have hinit : Around {} env.start (if env.unit.uses "extends" then [.enter] else []) [] := by
    rw [Env.start, hdefs]
    exact around_initFile rfl {}
  have hnodes : AddsDeferring env.start (compileNodes embedder env .all nodes env.start).2 :=
    kept_addsDeferring.compileNodes vetted_likeStandard (uses_likeStandard hentries)
      (kept_addsDeferring.embedAt vetted_likeStandard maxIncludes) .all nodes env.start
  rcases hrun : compileNodes embedder env .all nodes env.start with ⟨e | u, st⟩ <;> rw [hrun] at h hnodes
  · cases h
  · cases h
    obtain ⟨code, hcode, hend⟩ : ∃ code, Ending (env.finish st) code ∧ Around st (env.finish st) []
        ((if env.unit.uses "extends" then [.exit .discard []] else []) ++ code) := by
      rw [Env.finish, hdefs]
      exact around_endFile rfl st
    -- before the hooks at the end nothing fills placeholders in
    have hfront : ∀ i ∈ st.instrs ++ (if env.unit.uses "extends" then [.exit .discard []] else []), Defers i := by
      have hstart : ∀ i ∈ env.start.instrs, Defers i := by
        simp only [State.instrs, hinit.pre, hinit.body, hinit.post]
        split <;> simp [defers_iff, Instr.enter]
      intro i hi
      rcases List.mem_append.mp hi with hi | hi
      · exact (hnodes i hi).elim (hstart i) id
      · split at hi
        · rw [List.mem_singleton.mp hi, defers_iff]
          simp [Instr.exit]
        · cases hi
    have hinstrs : ((env.finish st).template path).instrs =
        st.instrs ++ (if env.unit.uses "extends" then [.exit .discard []] else []) ++ code := by
      simp [Template.instrs, State.template, State.instrs, hend.pre, hend.body, hend.post]
    rw [hinstrs]
    refine ⟨fun i hi hop => ?_, .append (fun i hi => (hfront i hi).leaves) hcode.last⟩
    rcases List.mem_append.mp hi with hi | hi
    · exact (hfront i hi).kind hop
    · rcases hcode.ops i hi with h | h <;> rw [h] at hop <;> cases hop

/-! ### Programs -/

/-- The program was compiled from a template with the standard directives. -/
def FromTemplate (p : Program) : Prop :=
  ∃ (r : Registry) (options : Options) (path src : Bytes) (t : Template), r.entries = registry.entries ∧
    (compileSource r options path false src).result = .ok t ∧ t.program = .ok p

theorem instrs_of_link {name : Bytes} {code : List Instr} {p : Program} (h : Program.link name code = .ok p) :
    p.instrs = code := by
  rw [(Program.link_eq_ok.mp h).1]

theorem deferring_of_fromTemplate {p : Program} (h : FromTemplate p) : Deferring p.instrs := by
  obtain ⟨r, options, path, src, t, hr, hresult, hprogram⟩ := h
  unfold compileSource at hresult
  split at hresult
  · cases hresult
  · rename_i nodes _
    rw [instrs_of_link hprogram]
    exact deferring_mergeLiterals (deferring_generate hr options path nodes hresult)

end Stencil.Compile
