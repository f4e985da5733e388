import Stencil.Proofs.Compile.Orderly
import Stencil.Proofs.Compile.Trees
import Stencil.Proofs.Program.Comments

/-! # Compilations that differ in comments

Two states match when they have the same code apart from comments, and the same labels and memory; recorded errors,
dependencies, the log and text for other loaders may differ. A tree compiles from matching states to matching
states, also when the two compilations disagree on which directives the template uses: no standard directive looks
at the rest of the template where it is used. -/

namespace Stencil.Compile

open Stencil.Directive
open Stencil.Directive.Standard (registry mem_all_of_lookup)
open Stencil.Markup (Node Tag)
open Program (uncommented uncommented_append)

/-! ### States -/

/-- The same but for comments, and for what is no part of a program. -/
structure State.Matches (st st' : State) : Prop where
  pre : uncommented st'.out.pre = uncommented st.out.pre
  body : uncommented st'.out.body = uncommented st.out.body
  post : uncommented st'.out.post = uncommented st.out.post
  loader : st'.out.loader = st.out.loader
  labels : st'.labels = st.labels
  memory : st'.memory = st.memory
  data : st'.data = st.data
  canceled : st'.canceled = st.canceled

namespace State.Matches
variable {st st' : State}

theorem refl (st : State) : st.Matches st := ⟨rfl, rfl, rfl, rfl, rfl, rfl, rfl, rfl⟩

/-- Code that differs in comments. -/
theorem emit_uncommented (h : st.Matches st') (part : Section) {code code' : List Instr}
    (hcode : uncommented code' = uncommented code) : (st.emit part code).Matches (st'.emit part code') := by
  obtain ⟨hpre, hbody, hpost, hloader, hlabels, hmemory, hdata, hcanceled⟩ := h
  cases part
  · refine ⟨?_, hbody, hpost, hloader, hlabels, hmemory, hdata, hcanceled⟩
    simp only [State.emit, Output.append, uncommented_append, hpre, hcode]
  · refine ⟨hpre, ?_, hpost, hloader, hlabels, hmemory, hdata, hcanceled⟩
    simp only [State.emit, Output.append, uncommented_append, hbody, hcode]
  · refine ⟨hpre, hbody, ?_, hloader, hlabels, hmemory, hdata, hcanceled⟩
    simp only [State.emit, Output.append, uncommented_append, hpost, hcode]

theorem emit (h : st.Matches st') (part : Section) (code : List Instr) :
    (st.emit part code).Matches (st'.emit part code) :=
  h.emit_uncommented part rfl

/-- A comment makes no difference. -/
theorem comment (h : st.Matches st') (part : Section) (text : Bytes) : (st.emit part [.comment text]).Matches st' := by
  have hnone : st'.emit part [] = st' := by cases part <;> simp [State.emit, Output.append]
  have hcomment : (st.emit part [.comment text]).Matches (st'.emit part []) := h.emit_uncommented part rfl
  rwa [hnone] at hcomment

theorem add (h : st.Matches st') (part : Section) (text : Bytes) : (st.add part text).Matches (st'.add part text) := by
  by_cases htext : text = []
  · simpa [State.add, Output.add, htext] using h
  · by_cases hloader : st.out.loader = primaryLoader
    · have hadd {st : State} (hloader : st.out.loader = primaryLoader) : st.add part text = st.emit part [.literal text] := by
        simp [State.add, State.emit, Output.add, htext, hloader]
      rw [hadd hloader, hadd (h.loader.trans hloader)]
      exact h.emit part _
    · -- text for another loader is no code
      simp only [State.add, Output.add, if_neg htext, if_neg hloader, h.loader]
      exact ⟨h.pre, h.body, h.post, rfl, h.labels, h.memory, h.data, h.canceled⟩

/-- What the errors and the dependencies are does not matter. -/
theorem report (h : st.Matches st') (d d' : Diagnostic) : (st.report d).Matches (st'.report d') :=
  ⟨h.pre, h.body, h.post, h.loader, h.labels, h.memory, h.data, h.canceled⟩

/-- What fails gives back what it produced. -/
theorem backTo {after after' : State} (h : st.Matches st') (hlast : after.Matches after') (hgrow : st.Extends after)
    (hgrow' : st'.Extends after') : (after.backTo st.out.mark).Matches (after'.backTo st'.out.mark) := by
  have hback := hgrow.out.backTo
  have hback' := hgrow'.out.backTo
  refine ⟨?_, ?_, ?_, h.loader, hlast.labels, hlast.memory, hlast.data, hlast.canceled⟩
  · exact (congrArg uncommented hback'.pre).trans (h.pre.trans (congrArg uncommented hback.pre).symm)
  · exact (congrArg uncommented hback'.body).trans (h.body.trans (congrArg uncommented hback.body).symm)
  · exact (congrArg uncommented hback'.post).trans (h.post.trans (congrArg uncommented hback.post).symm)

theorem rollback {after after' : State} (h : st.Matches st') (hlast : after.Matches after') (hgrow : st.Extends after)
    (hgrow' : st'.Extends after') (env env' : Env) (hpart : env'.part = env.part) (tag : Tag) (e : Failure) :
    (after.rollback st.out.mark env tag e).Matches (after'.rollback st'.out.mark env' tag e) := by
  have hkept := h.backTo hlast hgrow hgrow'
  unfold State.rollback
  rw [hpart]
  exact (hkept.emit env.part _).report _ _

end State.Matches

/-- The same answer, with states that match. -/
def OutcomeMatches {α : Type} (o o' : Outcome α) : Prop := o'.1 = o.1 ∧ o.2.Matches o'.2

theorem OutcomeMatches.andThen {α β : Type} {o o' : Outcome α} {f f' : α → State → Outcome β} (h : OutcomeMatches o o')
    (hf : ∀ a st st', st.Matches st' → OutcomeMatches (f a st) (f' a st')) :
    OutcomeMatches (Compile.andThen o f) (Compile.andThen o' f') := by
  obtain ⟨r, st⟩ := o
  obtain ⟨r', st'⟩ := o'
  obtain ⟨rfl, hst⟩ : r' = r ∧ st.Matches st' := h
  cases r' with
  | error e => exact ⟨rfl, hst⟩
  | ok a => exact hf a st st' hst

/-! ### Scripts -/

/-- The same template with other uses of directives in it. -/
def Env.using (env : Env) (used : List Bytes) : Env := { env with unit := { env.unit with used } }

structure RequestsMatch (ask ask' : Requests) : Prop where
  growing : ask.Keeps State.Extends
  growing' : ask'.Keeps State.Extends
  compile : ∀ which st st', st.Matches st' → OutcomeMatches (ask.compile which st) (ask'.compile which st')
  chain : ∀ st st', st.Matches st' → OutcomeMatches (ask.chain st) (ask'.chain st')
  literalText : ask'.literalText = ask.literalText
  embed : ∀ path src bindings st st', st.Matches st' →
    OutcomeMatches (ask.embed path src bindings st) (ask'.embed path src bindings st')

section Scripts
variable {α : Type} {env : Env} {used : List Bytes} {ask ask' : Requests}

/-- Where templates are found does not depend on what else is in the state. -/
theorem resolve_using {st st' : State} (h : st.Matches st') (path : Bytes) :
    (env.using used).resolve st' path = env.resolve st path := by
  simp only [Env.resolve, Env.using, h.canceled]

theorem matches_runScript (hask : RequestsMatch ask ask') (s : Script α) {st st' : State} (h : st.Matches st') :
    OutcomeMatches (runScript env ask s st) (runScript (env.using used) ask' s st') := by
  induction s generalizing st st' with
  | done a | fail e | abort text => exact ⟨rfl, h⟩
  | emit place instrs next ih => exact ih (h.emit (env.place place) instrs)
  | add text next ih => exact ih (h.add env.part text)
  | newLabel next ih =>
    have hlabels : ({ st with labels := st.labels + 1 } : State).Matches { st' with labels := st'.labels + 1 } :=
      ⟨h.pre, h.body, h.post, h.loader, congrArg (· + 1) h.labels, h.memory, h.data, h.canceled⟩
    rw [runScript, runScript, ← h.labels]
    exact ih (st'.labels + 1) (h.labels ▸ hlabels)
  | loader next ih =>
    rw [runScript, runScript, h.loader]
    exact ih _ h
  | useLoader name next ih =>
    exact ih ⟨h.pre, h.body, h.post, rfl, h.labels, h.memory, h.data, h.canceled⟩
  | compile which next ih =>
    obtain ⟨hanswer, hafter⟩ := hask.compile which st st' h
    simp only [runScript, hanswer]
    exact ih _ hafter
  | chain next ih =>
    obtain ⟨hanswer, hafter⟩ := hask.chain st st' h
    simp only [runScript, hanswer]
    exact ih _ hafter
  | literalText which next ih =>
    simp only [runScript, hask.literalText]
    exact ih _ h
  | resolve path next ih =>
    simp only [runScript, resolve_using h]
    exact ih _ h
  | embed path src bindings next ih =>
    obtain ⟨hanswer, hafter⟩ := hask.embed path src bindings st st' h
    simp only [runScript, hanswer]
    exact ih _ hafter
  | getState key next ih =>
    rw [runScript, runScript, h.memory]
    exact ih _ h
  | setState key value next ih =>
    exact ih ⟨h.pre, h.body, h.post, h.loader, h.labels, congrArg (Assoc.insert key value) h.memory, h.data, h.canceled⟩
  | getData key next ih =>
    rw [runScript, runScript, h.data]
    exact ih _ h
  | setData key value next ih =>
    exact ih ⟨h.pre, h.body, h.post, h.loader, h.labels, h.memory, congrArg (Assoc.insert key value) h.data, h.canceled⟩
  | log line next ih => exact ih ⟨h.pre, h.body, h.post, h.loader, h.labels, h.memory, h.data, h.canceled⟩
  | cancel next ih => exact ih ⟨h.pre, h.body, h.post, h.loader, h.labels, h.memory, h.data, rfl⟩

theorem matches_contained (hask : RequestsMatch ask ask') {d : Definition} (hd : Orderly d) (tag : Tag) (owner : Bytes)
    {st st' : State} (h : st.Matches st') :
    (contained env ask tag d owner st).Matches (contained (env.using used) ask' tag d owner st') := by
  have hlife : OutcomeMatches (lifecycle env ask tag d owner st) (lifecycle (env.using used) ask' tag d owner st') := by
    rw [lifecycle_eq, lifecycle_eq, hd.alone tag owner env.unit (env.using used).unit]
    exact matches_runScript hask _ h
  have hgrow : st.Extends (lifecycle env ask tag d owner st).2 :=
    kept_extends.lifecycle hask.growing tag d.only_true owner st
  have hgrow' : st'.Extends (lifecycle (env.using used) ask' tag d owner st').2 :=
    kept_extends.lifecycle hask.growing' tag d.only_true owner st'
  unfold contained
  rcases hrun : lifecycle env ask tag d owner st with ⟨e | u, after⟩ <;>
    rcases hrun' : lifecycle (env.using used) ask' tag d owner st' with ⟨e' | u', after'⟩ <;>
    rw [hrun, hrun'] at hlife <;> rw [hrun] at hgrow <;> rw [hrun'] at hgrow' <;> obtain ⟨hanswer, hafter⟩ := hlife
  · cases hanswer
    exact h.rollback hafter hgrow hgrow' env _ rfl tag e
  · cases hanswer
  · cases hanswer
  · exact hafter

end Scripts

/-! ### Nodes -/

/-- Included sources compile to what matches. -/
def EmbedMatches (embed : Embedder) : Prop :=
  ∀ (env : Env) (used : List Bytes), env.registry = registry → ∀ path src bindings st st', st.Matches st' →
    OutcomeMatches (embed env path src bindings st) (embed (env.using used) path src bindings st')

section Nodes
variable {env : Env} {used : List Bytes} {embed : Embedder}

/-- A node compiles to what matches, as a node of its own and as a part of a chain. -/
def NodeMatches (embed : Embedder) (env : Env) (used : List Bytes) (n : Node) : Prop :=
  (∀ st st', st.Matches st' → (compileNode embed env n st).Matches (compileNode embed (env.using used) n st')) ∧
    ∀ d owner st st', (∀ p ∈ d.parts, Orderly p ∧ p.parts = []) → st.Matches st' →
      (compilePart embed env d owner n st).Matches (compilePart embed (env.using used) d owner n st')

theorem matches_compileNodes (which : Selection) : ∀ ns : List Node, (∀ n ∈ ns, NodeMatches embed env used n) →
    ∀ st st', st.Matches st' →
      OutcomeMatches (compileNodes embed env which ns st) (compileNodes embed (env.using used) which ns st')
  | [], _, st, st', h => ⟨rfl, h⟩
  | n :: ns, hns, st, st', h => by
    obtain ⟨hn, hns⟩ := List.forall_mem_cons.mp hns
    have ih := matches_compileNodes which ns hns
    simp only [compileNodes, h.canceled]
    split
    · split
      · exact ⟨rfl, h⟩
      · exact ih _ _ (hn.1 st st' h)
    · exact ih st st' h

theorem matches_compileParts {d : Definition} (hd : ∀ p ∈ d.parts, Orderly p ∧ p.parts = []) (owner : Bytes) :
    ∀ ns : List Node, (∀ n ∈ ns, NodeMatches embed env used n) → ∀ st st', st.Matches st' →
      OutcomeMatches (compileParts embed env d owner ns st) (compileParts embed (env.using used) d owner ns st')
  | [], _, st, st', h => ⟨rfl, h⟩
  | n :: ns, hns, st, st', h => by
    obtain ⟨hn, hns⟩ := List.forall_mem_cons.mp hns
    have ih := matches_compileParts hd owner ns hns
    simp only [compileParts, h.canceled]
    split
    · split
      · exact ⟨rfl, h⟩
      · exact ih _ _ (hn.2 d owner st st' hd h)
    · exact ih st st' h

theorem State.Matches.reject {st st' : State} (h : st.Matches st') (tag : Tag) (kind : DiagnosticKind) (message : Bytes) :
    (st.reject env tag kind message).Matches (st'.reject (env.using used) tag kind message) :=
  (h.emit env.part _).report _ _

variable (hregistry : env.registry = registry) (hextends : embed.Keeps anything State.Extends)
  (hembed : EmbedMatches embed)
include hregistry hextends hembed

theorem nodeMatches (n : Node) : NodeMatches embed env used n := by
  induction n using Node.byChildren with
  | h n ih =>
    -- what hooks ask for comes back to the children
    have hask (d : Definition) (hd : ∀ p ∈ d.parts, Orderly p ∧ p.parts = []) (owner : Bytes) :
        RequestsMatch (requests embed env d owner n.children) (requests embed (env.using used) d owner n.children) :=
      ⟨kept_extends.requests vetted_anything (uses_anything env) hextends (d := d) trivial owner n.children,
        kept_extends.requests vetted_anything (uses_anything _) hextends (d := d) trivial owner n.children,
        fun which => matches_compileNodes which n.children ih, matches_compileParts hd owner n.children ih, rfl,
        hembed env used hregistry⟩
    cases n with
    | text value span => exact ⟨fun st st' h => h.add env.part value, fun _ _ _ _ _ h => h⟩
    | interpolation expr escaped span =>
      refine ⟨fun st st' h => ?_, fun _ _ _ _ _ h => h⟩
      simp only [compileNode, h.loader]
      split
      · exact h.emit env.part _
      · exact h.add env.part expr
    | directive tag children =>
      refine ⟨fun st st' h => ?_, fun _ _ _ _ _ h => h⟩
      have hlookup : (env.using used).registry = env.registry := rfl
      simp only [compileNode, hlookup]
      split
      · exact h.reject tag _ _
      · exact h.reject tag _ _
      · exact h.reject tag _ _
      · split
        · exact h.reject tag _ _
        · rename_i d hd
          obtain ⟨horderly, hparts⟩ := orderly_of_mem_all (mem_all_of_lookup (hregistry ▸ hd)).1
          have hstart : ({ st with data := [] } : State).Matches { st' with data := [] } :=
            ⟨h.pre, h.body, h.post, h.loader, h.labels, h.memory, rfl, h.canceled⟩
          have hcontained : State.Matches
              (contained env (requests embed env d tag.name children) tag d tag.name { st with data := [] })
              (contained (env.using used) (requests embed (env.using used) d tag.name children) tag d tag.name
                { st' with data := [] }) := matches_contained (hask d hparts tag.name) horderly tag tag.name hstart
          exact ⟨hcontained.pre, hcontained.body, hcontained.post, hcontained.loader, hcontained.labels,
            hcontained.memory, h.data, hcontained.canceled⟩
    | part parent tag children =>
      refine ⟨fun st st' h => h.reject tag _ _, fun d owner st st' hd h => ?_⟩
      simp only [compilePart]
      split
      · exact h.reject tag _ _
      · rename_i p hp
        obtain ⟨horderly, hflat⟩ := hd p (List.mem_of_find?_eq_some hp)
        have hnone : ∀ q ∈ p.parts, Orderly q ∧ q.parts = [] := by simp [hflat]
        exact matches_contained (hask p hnone owner) horderly tag owner h

end Nodes

/-- The induction is on the includes that may still follow. -/
theorem embedMatches_embedAt : ∀ depth, EmbedMatches (embedAt depth)
  | 0, _, _, _, _, _, _, _, _, h => ⟨rfl, h⟩
  | depth + 1, env, used, hregistry, path, src, bindings, st, st', h => by
    by_cases haccepts : ∃ nodes, env.Accepts path src nodes
    · obtain ⟨nodes, haccepts⟩ := haccepts
      have haccepts' : (env.using used).Accepts path src nodes := ⟨haccepts.1, haccepts.2, haccepts.3⟩
      have hstart : (st.including env.part path src bindings).Matches (st'.including env.part path src bindings) := by
        have hrecorded : State.Matches { st with deps := Assoc.insert path (Text.Digest.sha256 src) st.deps }
            { st' with deps := Assoc.insert path (Text.Digest.sha256 src) st'.deps } :=
          ⟨h.pre, h.body, h.post, h.loader, h.labels, h.memory, h.data, h.canceled⟩
        have hopened := hrecorded.emit env.part [.enter]
        unfold State.including
        dsimp only
        split
        · exact hopened
        · exact hopened.emit env.part _
      have hinside : (env.inside path).registry = registry := hregistry
      have hnode (n : Node) : NodeMatches (embedAt depth) (env.inside path) used n :=
        nodeMatches hinside (extends_embedAt depth) (embedMatches_embedAt depth) n
      rw [embedAt_of_accepts haccepts, embedAt_of_accepts haccepts']
      refine (matches_compileNodes .all nodes (fun n _ => hnode n) _ _ hstart).andThen fun _ st₁ st₁' h₁ => ?_
      exact ⟨rfl, h₁.emit env.part _⟩
    · rw [embedAt_congr_of_refused (env.using used) haccepts rfl rfl rfl rfl]
      obtain ⟨e, hrefused⟩ := (embedAt_cases depth env path src).resolve_left haccepts
      rw [hrefused, hrefused]
      exact ⟨rfl, h⟩

/-! ### Hooks for whole templates -/

/-- A hook at the start or end of a template to which the two uses of directives are the same. -/
theorem matches_runFileHook (env : Env) (used : List Bytes) (hregistry : env.registry = registry) (d : Definition)
    {hook : UnitInfo → Script Unit} (hsame : hook (env.using used).unit = hook env.unit) {st st' : State}
    (h : st.Matches st') :
    (runFileHook env d (some hook) st).Matches (runFileHook (env.using used) d (some hook) st') := by
  have hask : RequestsMatch (fileRequests env) (fileRequests (env.using used)) :=
    ⟨extends_fileRequests env, extends_fileRequests (env.using used), fun _ _ _ h => ⟨rfl, h⟩, fun _ _ h => ⟨rfl, h⟩, rfl,
      embedMatches_embedAt maxIncludes env used hregistry⟩
  have hrun : OutcomeMatches (runScript env (fileRequests env) (hook env.unit) st)
      (runScript (env.using used) (fileRequests (env.using used)) (hook env.unit) st') :=
    matches_runScript hask _ h
  have hgrow : st.Extends (runScript env (fileRequests env) (hook env.unit) st).2 :=
    kept_extends.runScript hask.growing (Script.only_true _) st
  have hgrow' : st'.Extends (runScript (env.using used) (fileRequests (env.using used)) (hook env.unit) st').2 :=
    kept_extends.runScript hask.growing' (Script.only_true _) st'
  simp only [runFileHook, hsame]
  rcases hscript : runScript env (fileRequests env) (hook env.unit) st with ⟨e | u, after⟩ <;>
    rcases hscript' : runScript (env.using used) (fileRequests (env.using used)) (hook env.unit) st'
      with ⟨e' | u', after'⟩ <;>
    rw [hscript, hscript'] at hrun <;> rw [hscript] at hgrow <;> rw [hscript'] at hgrow' <;>
    obtain ⟨hanswer, hafter⟩ := hrun
  · exact (h.backTo hafter hgrow hgrow').report _ _
  · cases hanswer
  · cases hanswer
  · exact hafter

end Stencil.Compile
