import Stencil.Proofs.Compile.Failing
import Stencil.Proofs.Compile.Matching

/-! # Templates without their failed directives

A template is compiled once more without the directives at which errors were recorded (`Node.withoutAll`). Both
compilations match all along: a directive that fails has not changed anything that lasts, and what it produced is
given back but for a comment (`prunes_compileNodes`). At the start and the end of the template this needs that the
hooks for whole templates, which only see which directives are used, see the same. -/

namespace Stencil

namespace Markup

mutual

/-- The node, unless it is a directive or a part of a chain at one of some places, without those below it. -/
def Node.without (drop : Position → Bool) : Node → List Node
  | .text value span => [.text value span]
  | .interpolation expr escaped span => [.interpolation expr escaped span]
  | .directive tag children =>
    if drop tag.span.start then [] else [.directive tag (withoutAll drop children)]
  | .part owner tag children =>
    if drop tag.span.start then [] else [.part owner tag (withoutAll drop children)]

/-- The nodes without the directives and parts of chains that start at some places, and all below these. -/
def Node.withoutAll (drop : Position → Bool) : List Node → List Node
  | [] => []
  | n :: ns => n.without drop ++ Node.withoutAll drop ns

end

end Markup

namespace Compile

open Stencil.Directive
open Stencil.Directive.Script (Rights)
open Stencil.Directive.Standard (registry mem_all_of_lookup)
open Stencil.Markup (Node Tag Position)
open Program (uncommented)

/-! ### Scripts -/

/-- The places of directives among the nodes that are dropped are those where errors of the template were recorded in
between. -/
def Drops (path : Bytes) (drop : Position → Bool) (ns : List Node) (st after : State) : Prop :=
  ∀ place, 0 < Node.headsAtAll place ns →
    (drop place = true ↔ st.failuresAt path place < after.failuresAt path place)

/-- Requests about children and parts of a chain, and about those of them that are not dropped. -/
structure Prunes (path : Bytes) (drop : Position → Bool) (children parts : List Node) (ask ask' : Requests) : Prop where
  apart : ∀ place, Node.headsAtAll place children + Node.headsAtAll place parts ≤ 1
  tame : Tame path (fun place => Node.headsAtAll place children = 0) (fun place => Node.headsAtAll place parts = 0) ask
  compile : ∀ st st', st.Matches st' → st.canceled = false → Drops path drop children st (ask.compile .regular st).2 →
    OutcomeMatches (ask.compile .regular st) (ask'.compile .regular st')
  chain : ∀ st st', st.Matches st' → st.canceled = false → Drops path drop parts st (ask.chain st).2 →
    OutcomeMatches (ask.chain st) (ask'.chain st')
  literalText : (∀ place, 0 < Node.headsAtAll place children → drop place = false) →
    ask'.literalText .regular = ask.literalText .regular
  embed : ∀ target src bindings st st', st.Matches st' →
    OutcomeMatches (ask.embed target src bindings st) (ask'.embed target src bindings st')

section Scripts
variable {α : Type} {path : Bytes} {drop : Position → Bool} {ns children parts : List Node} {ask ask' : Requests}

theorem Prunes.noPart (hask : Prunes path drop children parts ask ask') {place : Position}
    (h : 0 < Node.headsAtAll place children) : Node.headsAtAll place parts = 0 := by
  have := hask.apart place
  omega

theorem Prunes.noChild (hask : Prunes path drop children parts ask ask') {place : Position}
    (h : 0 < Node.headsAtAll place parts) : Node.headsAtAll place children = 0 := by
  have := hask.apart place
  omega

/-- What was recorded before and after does not matter, where it is not about the nodes. -/
theorem Drops.congr {st st₁ st₂ st₃ : State} (h : Drops path drop ns st st₃)
    (hbefore : ∀ place, 0 < Node.headsAtAll place ns → st₁.failuresAt path place = st.failuresAt path place)
    (hafter : ∀ place, 0 < Node.headsAtAll place ns → st₃.failuresAt path place = st₂.failuresAt path place) :
    Drops path drop ns st₁ st₂ := by
  intro place hplace
  rw [h place hplace, hbefore place hplace, hafter place hplace]

theorem prunes_runScript {env : Env} (used : List Bytes) (hask : Prunes path drop children parts ask ask')
    {P : Rights → α → Prop} (s : Script α) (r : Rights) (st st' : State) (hs : s.Orderly P r) (h : st.Matches st')
    (hst : st.canceled = false)
    (hchildren : r.compiles = true → Drops path drop children st (runScript env ask s st).2)
    (hparts : r.chains = true → Drops path drop parts st (runScript env ask s st).2) :
    OutcomeMatches (runScript env ask s st) (runScript (env.using used) ask' s st') := by
  induction s generalizing r st st' with
  | done a | fail e | abort text => exact ⟨rfl, h⟩
  | emit place instrs next ih => exact ih r _ _ hs (h.emit (env.place place) instrs) hst hchildren hparts
  | add text next ih => exact ih r _ _ hs (h.add env.part text) hst hchildren hparts
  | newLabel next ih =>
    rw [runScript, runScript, h.labels]
    exact ih _ r.committed _ _ (hs _) ⟨h.pre, h.body, h.post, h.loader, rfl, h.memory, h.data, h.canceled⟩ hst hchildren
      hparts
  | loader next ih =>
    rw [runScript, runScript, h.loader]
    exact ih _ r st st' (hs _) h hst hchildren hparts
  | useLoader name next ih =>
    exact ih r _ _ hs ⟨h.pre, h.body, h.post, rfl, h.labels, h.memory, h.data, h.canceled⟩ hst hchildren hparts
  | compile which next ih =>
    obtain ⟨rfl, hright, hnext⟩ := hs
    obtain ⟨after, hrun, hafter, hcalm⟩ := hask.tame.compile st hst
    simp only [runScript, hrun] at hchildren hparts ⊢
    -- children are compiled once, so the rest records no errors at them
    have hrest := tamed_runScript env hask.tame (next (.ok ())) _ after hnext hafter
    have hlater (place : Position) (hplace : 0 < Node.headsAtAll place children) :=
      hrest.failures place (fun hagain => absurd hagain Bool.false_ne_true) fun _ => hask.noPart hplace
    have hfirst := hask.compile st st' h hst (hrun ▸ (hchildren hright).congr (fun _ _ => rfl) hlater)
    rw [hrun] at hfirst
    simp only [hfirst.1]
    refine ih _ _ _ _ hnext hfirst.2 hafter (fun hagain => absurd hagain Bool.false_ne_true) fun hright' => ?_
    exact (hparts hright').congr (fun place hplace => hcalm place (hask.noChild hplace)) fun _ _ => rfl
  | chain next ih =>
    obtain ⟨hright, hnext⟩ := hs
    obtain ⟨after, hrun, hafter, hcalm⟩ := hask.tame.chain st hst
    simp only [runScript, hrun] at hchildren hparts ⊢
    have hrest := tamed_runScript env hask.tame (next (.ok ())) _ after hnext hafter
    have hlater (place : Position) (hplace : 0 < Node.headsAtAll place parts) :=
      hrest.failures place (fun _ => hask.noChild hplace) fun hagain => absurd hagain Bool.false_ne_true
    have hfirst := hask.chain st st' h hst (hrun ▸ (hparts hright).congr (fun _ _ => rfl) hlater)
    rw [hrun] at hfirst
    simp only [hfirst.1]
    refine ih _ _ _ _ hnext hfirst.2 hafter (fun hright' => ?_) fun hagain => absurd hagain Bool.false_ne_true
    exact (hchildren hright').congr (fun place hplace => hcalm place (hask.noPart hplace)) fun _ _ => rfl
  | literalText which next ih =>
    obtain ⟨rfl, hright, hnext⟩ := hs
    -- children that are read as text are not compiled, so none of them is dropped
    have hrest := tamed_runScript env hask.tame (next (ask.literalText .regular)) _ st (hnext _) hst
    have hnone : ask'.literalText .regular = ask.literalText .regular := by
      refine hask.literalText fun place hplace => ?_
      have hsame := hrest.failures place (fun hagain => absurd hagain Bool.false_ne_true) fun _ => hask.noPart hplace
      have hdrop := hchildren hright place hplace
      rw [runScript, hsame] at hdrop
      simpa using hdrop
    rw [runScript, runScript, hnone]
    exact ih _ _ st st' (hnext _) h hst (fun hagain => absurd hagain Bool.false_ne_true) hparts
  | resolve target next ih =>
    simp only [runScript, resolve_using h]
    exact ih _ r st st' (hs _) h hst hchildren hparts
  | embed target src bindings next ih =>
    obtain ⟨hanswer, hmatches⟩ := hask.embed target src bindings st st' h
    obtain ⟨after, answer, hrun, hafter, hcalm, herror⟩ := hask.tame.embed target src bindings st hst
    rw [hrun] at hanswer hmatches
    simp only [runScript, hrun, hanswer] at hchildren hparts ⊢
    cases answer with
    | error e =>
      exact ih _ r _ _ (hs.1 e) hmatches hafter
        (fun hright => (hchildren hright).congr (fun place _ => hcalm place) fun _ _ => rfl)
        fun hright => (hparts hright).congr (fun place _ => hcalm place) fun _ _ => rfl
    | ok u =>
      exact ih _ _ _ _ hs.2 hmatches hafter
        (fun hright => (hchildren hright).congr (fun place _ => hcalm place) fun _ _ => rfl)
        fun hright => (hparts hright).congr (fun place _ => hcalm place) fun _ _ => rfl
  | getState key next ih =>
    rw [runScript, runScript, h.memory]
    exact ih _ r st st' (hs _) h hst hchildren hparts
  | setState key value next ih =>
    exact ih r.committed _ _ hs ⟨h.pre, h.body, h.post, h.loader, h.labels, congrArg (Assoc.insert key value) h.memory,
      h.data, h.canceled⟩ hst hchildren hparts
  | getData key next ih =>
    rw [runScript, runScript, h.data]
    exact ih _ r st st' (hs _) h hst hchildren hparts
  | setData key value next ih =>
    exact ih r.committed _ _ hs ⟨h.pre, h.body, h.post, h.loader, h.labels, h.memory,
      congrArg (Assoc.insert key value) h.data, h.canceled⟩ hst hchildren hparts
  | log line next ih =>
    exact ih r _ _ hs ⟨h.pre, h.body, h.post, h.loader, h.labels, h.memory, h.data, h.canceled⟩ hst hchildren hparts
  | cancel next ih => exact hs.elim

end Scripts

/-! ### Nodes -/

/-- What is left of a node is compiled. -/
def compileLeft (embed : Embedder) (env : Env) (drop : Position → Bool) (n : Node) (st : State) : State :=
  (n.without drop).foldl (fun st n => compileNode embed env n st) st

/-- What is left of a part of a chain is run. -/
def compilePartLeft (embed : Embedder) (env : Env) (d : Definition) (owner : Bytes) (drop : Position → Bool) (n : Node)
    (st : State) : State :=
  (n.without drop).foldl (fun st n => compilePart embed env d owner n st) st

/-- Compiling what is left of a node comes to what matches, as a node of its own and as a part of a chain. -/
def NodePrunes (embed : Embedder) (env : Env) (used : List Bytes) (drop : Position → Bool) (n : Node) : Prop :=
  (∀ place, n.headsAt place ≤ 1) →
  (∀ st st', st.Matches st' → st.canceled = false → Drops env.unit.path drop [n] st (compileNode embed env n st) →
    (compileNode embed env n st).Matches (compileLeft embed (env.using used) drop n st')) ∧
  ∀ d owner st st', (∀ p ∈ d.parts, Orderly p ∧ p.parts = []) → st.Matches st' → st.canceled = false →
    Drops env.unit.path drop [n] st (compilePart embed env d owner n st) →
    (compilePart embed env d owner n st).Matches (compilePartLeft embed (env.using used) d owner drop n st')

section Nodes
variable {env : Env} {embed : Embedder} {used : List Bytes} {drop : Position → Bool}

/-- A node is dropped, or something of its kind is left. -/
theorem without_cases (drop : Position → Bool) (n : Node) :
    n.without drop = [] ∨ ∃ m, n.without drop = [m] ∧ m.isPart = n.isPart := by
  cases n with
  | text value span => exact .inr ⟨_, rfl, rfl⟩
  | interpolation expr escaped span => exact .inr ⟨_, rfl, rfl⟩
  | directive tag children =>
    rw [Node.without]
    split
    · exact .inl rfl
    · exact .inr ⟨_, rfl, rfl⟩
  | part owner tag children =>
    rw [Node.without]
    split
    · exact .inl rfl
    · exact .inr ⟨_, rfl, rfl⟩

theorem selects_eq {n m : Node} (h : m.isPart = n.isPart) (which : Selection) : selects which m = selects which n := by
  cases which with
  | regular => simp only [selects, h]
  | all => rfl

theorem compileNodes_without (which : Selection) (n : Node) (ns : List Node) {st : State} (hst : st.canceled = false) :
    compileNodes embed env which (n.without drop ++ ns) st =
      compileNodes embed env which ns (if selects which n then compileLeft embed env drop n st else st) := by
  unfold compileLeft
  rcases without_cases drop n with hnone | ⟨m, hm, hpart⟩
  · simp [hnone]
  · cases hselects : selects which n <;>
      simp [hm, compileNodes, selects_eq hpart, hselects, hst]

theorem compileParts_without (d : Definition) (owner : Bytes) (n : Node) (ns : List Node) {st : State}
    (hst : st.canceled = false) : compileParts embed env d owner (n.without drop ++ ns) st =
      compileParts embed env d owner ns (if n.isPart then compilePartLeft embed env d owner drop n st else st) := by
  unfold compilePartLeft
  rcases without_cases drop n with hnone | ⟨m, hm, hpart⟩
  · simp [hnone]
  · cases hselects : n.isPart <;> simp [hm, compileParts, hpart, hselects, hst]

/-- The errors of a list are those of its first node and those of the others. -/
theorem Drops.cons {path : Bytes} {n : Node} {ns : List Node} {st st₁ after : State}
    (h : Drops path drop (n :: ns) st after) (hone : ∀ place, Node.headsAtAll place (n :: ns) ≤ 1)
    (hfirst : ∀ place, n.headsAt place = 0 → st₁.failuresAt path place = st.failuresAt path place)
    (hrest : ∀ place, Node.headsAtAll place ns = 0 → after.failuresAt path place = st₁.failuresAt path place) :
    Drops path drop [n] st st₁ ∧ Drops path drop ns st₁ after := by
  have hsum (place : Position) : n.headsAt place + Node.headsAtAll place ns ≤ 1 :=
    Markup.headsAtAll_cons place n ns ▸ hone place
  constructor
  · intro place hplace
    simp only [Markup.headsAtAll_cons, Markup.headsAtAll_nil, Nat.add_zero] at hplace
    have := hsum place
    rw [h place (by rw [Markup.headsAtAll_cons]; omega), hrest place (by omega)]
  · intro place hplace
    have := hsum place
    rw [h place (by rw [Markup.headsAtAll_cons]; omega), hfirst place (by omega)]

/-- Text stays text: what is read as text has no directives in it. -/
theorem literalText_without : ∀ ns : List Node,
    (∀ place, 0 < Node.headsAtAll place (ns.filter (selects .regular)) → drop place = false) →
      literalText .regular (Node.withoutAll drop ns) = literalText .regular ns
  | [], _ => rfl
  | n :: ns, h => by
    have ih := literalText_without ns
    have hrest (hselects : selects .regular n = true) (hnone : ∀ place, n.headsAt place = 0) :
        literalText .regular (Node.withoutAll drop ns) = literalText .regular ns :=
      ih fun place hplace => h place (by simpa [hselects, hnone] using hplace)
    cases n with
    | text value span =>
      simp [Node.withoutAll, Node.without, literalText, selects, Node.isPart, hrest rfl fun _ => rfl]
    | interpolation expr escaped span =>
      simp [Node.withoutAll, Node.without, literalText, selects, Node.isPart, hrest rfl fun _ => rfl]
    | directive tag children =>
      have hkept : drop tag.span.start = false := by
        refine h tag.span.start ?_
        rw [List.filter_cons_of_pos rfl, Markup.headsAtAll_cons, Markup.headsAt_directive, Tag.startsAt, if_pos rfl]
        omega
      simp [Node.withoutAll, Node.without, literalText, selects, Node.isPart, hkept]
    | part owner tag children =>
      have hskip := ih (by simpa [selects, Node.isPart] using h)
      rw [Node.withoutAll, Node.without]
      split <;> simp [literalText, selects, Node.isPart, hskip]

/-- Errors at a head are recorded when the use of the directive fails, and only then. -/
theorem failuresAt_contained {ask : Requests} {d : Definition} {tag : Tag} {owner : Bytes} {st after : State}
    {e : Failure} (h : lifecycle env ask tag d owner st = (.error e, after)) (path : Bytes) (place : Position) :
    (contained env ask tag d owner st).failuresAt path place = after.failuresAt path place +
      if env.currentPath = path ∧ some tag.span.start = some place then 1 else 0 := by
  rw [contained, h]
  exact failuresAt_report ((after.backTo st.out.mark).emit env.part [.comment ("error in @" ++ tag.name)])
    (hookError env tag e) path place

/-- A failure that comes before any change that lasts leaves a comment. -/
theorem State.Matches.rolledBack {st st' after : State} (h : st.Matches st') (hgrow : st.Extends after)
    (hlabels : after.labels = st.labels) (hmemory : after.memory = st.memory) (hdata : after.data = st.data)
    (hcanceled : after.canceled = st.canceled) (env : Env) (tag : Tag) (e : Failure) :
    (after.rollback st.out.mark env tag e).Matches st' := by
  have hback := hgrow.out.backTo
  have hkept : (after.backTo st.out.mark).Matches st' := by
    refine ⟨?_, ?_, ?_, h.loader, h.labels.trans hlabels.symm, h.memory.trans hmemory.symm, h.data.trans hdata.symm,
      h.canceled.trans hcanceled.symm⟩
    · exact h.pre.trans (congrArg uncommented hback.pre).symm
    · exact h.body.trans (congrArg uncommented hback.body).symm
    · exact h.post.trans (congrArg uncommented hback.post).symm
  have hcomment := hkept.comment env.part ("error in @" ++ tag.name)
  exact ⟨hcomment.pre, hcomment.body, hcomment.post, hcomment.loader, hcomment.labels, hcomment.memory, hcomment.data,
    hcomment.canceled⟩

/-- A node that is rejected is dropped. -/
theorem prunes_reject (hown : env.currentPath = env.unit.path) {st st' : State} (h : st.Matches st') {tag : Tag}
    {kind : DiagnosticKind} {message : Bytes} {n : Node} (hn : 0 < n.headsAt tag.span.start)
    (hdrops : Drops env.unit.path drop [n] st (st.reject env tag kind message)) :
    drop tag.span.start = true ∧ (st.reject env tag kind message).Matches st' := by
  have hreport := failuresAt_report (st.emit env.part [.comment message])
    { kind, message, name := tag.name, path := env.currentPath, at? := some tag.span.start } env.unit.path tag.span.start
  rw [if_pos ⟨hown, rfl⟩] at hreport
  have hcomment := h.comment env.part message
  refine ⟨(hdrops tag.span.start (by rwa [Markup.headsAtAll_cons])).mpr ?_, hcomment.pre, hcomment.body, hcomment.post,
    hcomment.loader, hcomment.labels, hcomment.memory, hcomment.data, hcomment.canceled⟩
  exact hreport.symm ▸ Nat.lt_succ_self _

section Uses
variable {ask ask' : Requests} {children parts : List Node} {d : Definition} {tag : Tag} {owner : Bytes} {st st' : State}
variable (hask : Prunes env.unit.path drop children parts ask ask') (hd : Orderly d) (h : st.Matches st')
  (hst : st.canceled = false)
include hask hd h hst

theorem prunes_lifecycle (hchildren : Drops env.unit.path drop children st (lifecycle env ask tag d owner st).2)
    (hparts : Drops env.unit.path drop parts st (lifecycle env ask tag d owner st).2) :
    OutcomeMatches (lifecycle env ask tag d owner st) (lifecycle (env.using used) ask' tag d owner st') := by
  rw [lifecycle_eq] at hchildren hparts
  rw [lifecycle_eq, lifecycle_eq, hd.alone tag owner env.unit (env.using used).unit]
  exact prunes_runScript used hask _ {} st st' (hd.life tag owner env.unit) h hst (fun _ => hchildren) fun _ => hparts

/-- A directive that fails leaves nothing but a comment; any other is compiled with what is left of its children. -/
theorem prunes_contained (hown : env.currentPath = env.unit.path) (hgrow : ask.Keeps State.Extends) {n : Node}
    (hn : ∀ place, n.headsAt place = tag.startsAt place + Node.headsAtAll place children + Node.headsAtAll place parts)
    (hone : ∀ place, n.headsAt place ≤ 1)
    (hdrops : Drops env.unit.path drop [n] st (contained env ask tag d owner st)) :
    if drop tag.span.start then (contained env ask tag d owner st).Matches st'
    else (contained env ask tag d owner st).Matches (contained (env.using used) ask' tag d owner st') := by
  have hlife := tamed_runScript env hask.tame (lifeScript d tag owner env.unit) {} st (hd.life tag owner env.unit) hst
  rw [← lifecycle_eq] at hlife
  have hgrown : st.Extends (lifecycle env ask tag d owner st).2 := kept_extends.lifecycle hgrow tag d.only_true owner st
  -- no child starts where the directive does
  have hhead := hn tag.span.start
  rw [Tag.startsAt, if_pos rfl] at hhead
  have hhead' := hone tag.span.start
  have hsame := hlife.failures tag.span.start (fun _ => by omega) fun _ => by omega
  have hsame (after : State) (r : Except Failure Unit) (hrun : lifecycle env ask tag d owner st = (r, after)) :
      after.failuresAt env.unit.path tag.span.start = st.failuresAt env.unit.path tag.span.start := by
    rwa [hrun] at hsame
  have hdrop := hdrops tag.span.start (by rw [Markup.headsAtAll_cons]; omega)
  rcases hrun : lifecycle env ask tag d owner st with ⟨e | u, after⟩
  · have hfailed := failuresAt_contained hrun env.unit.path tag.span.start
    rw [if_pos ⟨hown, rfl⟩] at hfailed
    rw [hsame after _ hrun] at hfailed
    rw [hrun] at hlife hgrown
    obtain ⟨-, hlabels, hmemory, hdata⟩ := hlife.early e rfl
    rw [if_pos (hdrop.mpr (by omega)), contained, hrun]
    exact h.rolledBack hgrown hlabels hmemory hdata (hlife.running.trans hst.symm) env tag e
  · have hfinal : contained env ask tag d owner st = after := by rw [contained, hrun]
    rw [hfinal] at hdrop hdrops ⊢
    rw [hsame after _ hrun] at hdrop
    rw [if_neg fun hdropped => Nat.lt_irrefl _ (hdrop.mp hdropped)]
    have hbelow (place : Position) (hplace : 0 < Node.headsAtAll place children + Node.headsAtAll place parts) :=
      hdrops place (by rw [Markup.headsAtAll_cons, hn]; omega)
    have hmatches : OutcomeMatches (lifecycle env ask tag d owner st) (lifecycle (env.using used) ask' tag d owner st') :=
      prunes_lifecycle hask hd h hst (hrun ▸ fun place hplace => hbelow place (by omega))
        (hrun ▸ fun place hplace => hbelow place (by omega))
    rcases hrun' : lifecycle (env.using used) ask' tag d owner st' with ⟨e | u', after'⟩ <;> rw [hrun, hrun'] at hmatches
    · cases hmatches.1
    · rw [contained, hrun']
      exact hmatches.2

end Uses

variable (hregistry : env.registry = registry) (hembed : EmbedTame embed)
include hregistry hembed

theorem prunes_compileNodes (which : Selection) : ∀ ns : List Node, (∀ n ∈ ns, NodePrunes embed env used drop n) →
    (∀ place, Node.headsAtAll place (ns.filter (selects which)) ≤ 1) → ∀ st st', st.Matches st' → st.canceled = false →
    Drops env.unit.path drop (ns.filter (selects which)) st (compileNodes embed env which ns st).2 →
    OutcomeMatches (compileNodes embed env which ns st)
      (compileNodes embed (env.using used) which (Node.withoutAll drop ns) st')
  | [], _, _, st, st', h, _, _ => ⟨rfl, h⟩
  | n :: ns, hns, hone, st, st', h, hst, hdrops => by
    obtain ⟨hn, hns⟩ := List.forall_mem_cons.mp hns
    have ih := prunes_compileNodes which ns hns
    rw [Node.withoutAll, compileNodes_without which n _ (h.canceled.trans hst)]
    cases hselects : selects which n with
    | true =>
      rw [List.filter_cons_of_pos hselects] at hone hdrops
      have hfirst := (nodeTame hregistry hembed n).1 st hst
      obtain ⟨after, hrun, hrest⟩ := tame_compileNodes which ns (fun n _ => nodeTame hregistry hembed n) _ hfirst.1
      simp only [compileNodes, hselects, hst, if_true, Bool.false_eq_true, if_false] at hdrops ⊢
      rw [hrun] at hdrops
      obtain ⟨hdrop, hdrops⟩ := hdrops.cons hone (fun place hplace => hfirst.2 place fun _ => by simpa using hplace)
        fun place hplace => hrest.2 place fun _ => hplace
      have hone' (place : Position) : n.headsAt place + Node.headsAtAll place (ns.filter (selects which)) ≤ 1 :=
        Markup.headsAtAll_cons place n _ ▸ hone place
      have hnode := (hn fun place => by have := hone' place; omega).1 st st' h hst hdrop
      exact ih (fun place => by have := hone' place; omega) _ _ hnode hfirst.1 (hrun ▸ hdrops)
    | false =>
      rw [List.filter_cons_of_neg (by simp [hselects])] at hone hdrops
      simp only [compileNodes, hselects, Bool.false_eq_true, if_false] at hdrops ⊢
      exact ih hone st st' h hst hdrops

theorem prunes_compileParts {d : Definition} (hd : ∀ p ∈ d.parts, Orderly p ∧ p.parts = []) (owner : Bytes) :
    ∀ ns : List Node, (∀ n ∈ ns, NodePrunes embed env used drop n) →
    (∀ place, Node.headsAtAll place (ns.filter Node.isPart) ≤ 1) → ∀ st st', st.Matches st' → st.canceled = false →
    Drops env.unit.path drop (ns.filter Node.isPart) st (compileParts embed env d owner ns st).2 →
    OutcomeMatches (compileParts embed env d owner ns st)
      (compileParts embed (env.using used) d owner (Node.withoutAll drop ns) st')
  | [], _, _, st, st', h, _, _ => ⟨rfl, h⟩
  | n :: ns, hns, hone, st, st', h, hst, hdrops => by
    obtain ⟨hn, hns⟩ := List.forall_mem_cons.mp hns
    have ih := prunes_compileParts hd owner ns hns
    rw [Node.withoutAll, compileParts_without d owner n _ (h.canceled.trans hst)]
    cases hpart : n.isPart with
    | true =>
      rw [List.filter_cons_of_pos hpart] at hone hdrops
      have hfirst := (nodeTame hregistry hembed n).2 d owner st hd hst
      obtain ⟨after, hrun, hrest⟩ := tame_compileParts hd owner ns (fun n _ => nodeTame hregistry hembed n) _ hfirst.1
      simp only [compileParts, hpart, hst, if_true, Bool.false_eq_true, if_false] at hdrops ⊢
      rw [hrun] at hdrops
      obtain ⟨hdrop, hdrops⟩ := hdrops.cons hone (fun place hplace => hfirst.2 place fun _ => by simpa using hplace)
        fun place hplace => hrest.2 place fun _ => hplace
      have hone' (place : Position) : n.headsAt place + Node.headsAtAll place (ns.filter Node.isPart) ≤ 1 :=
        Markup.headsAtAll_cons place n _ ▸ hone place
      have hnode := (hn fun place => by have := hone' place; omega).2 d owner st st' hd h hst hdrop
      exact ih (fun place => by have := hone' place; omega) _ _ hnode hfirst.1 (hrun ▸ hdrops)
    | false =>
      rw [List.filter_cons_of_neg (by simp [hpart])] at hone hdrops
      simp only [compileParts, hpart, Bool.false_eq_true, if_false] at hdrops ⊢
      exact ih hone st st' h hst hdrops

theorem prunes_requests (hmatches : EmbedMatches embed) {d : Definition}
    (hd : ∀ p ∈ d.parts, Orderly p ∧ p.parts = []) (owner : Bytes) {children : List Node}
    (hchildren : ∀ c ∈ children, NodePrunes embed env used drop c)
    (hone : ∀ place, Node.headsAtAll place children ≤ 1) :
    Prunes env.unit.path drop (children.filter (selects .regular)) (children.filter Node.isPart)
      (requests embed env d owner children)
      (requests embed (env.using used) d owner (Node.withoutAll drop children)) := by
  have hsum (place : Position) := headsAtAll_regular_parts place children
  have htame := tame_requests hregistry hembed hd owner fun c (_ : c ∈ children) => nodeTame hregistry hembed c
  refine ⟨fun place => by rw [hsum]; exact hone place, ⟨?_, ?_, htame.embed⟩, ?_, ?_, literalText_without children, ?_⟩
  · intro st hst
    obtain ⟨after, hrun, hafter, hcalm⟩ := htame.compile st hst
    exact ⟨after, hrun, hafter, fun place hplace => hcalm place fun _ => hplace⟩
  · intro st hst
    obtain ⟨after, hrun, hafter, hcalm⟩ := htame.chain st hst
    exact ⟨after, hrun, hafter, fun place hplace => hcalm place fun _ => hplace⟩
  · exact prunes_compileNodes hregistry hembed .regular children hchildren fun place => by
      have := hsum place
      have := hone place
      omega
  · exact prunes_compileParts hregistry hembed hd owner children hchildren fun place => by
      have := hsum place
      have := hone place
      omega
  · exact hmatches env used hregistry

variable (hown : env.currentPath = env.unit.path) (hmatches : EmbedMatches embed)
  (hextends : embed.Keeps anything State.Extends)
include hown hmatches hextends

/-- A use of a directive is dropped, or compiled with what is left below it. -/
theorem prunes_use {tag : Tag} {children : List Node} (ih : ∀ c ∈ children, NodePrunes embed env used drop c) {n : Node}
    (hn : ∀ place, n.headsAt place = tag.startsAt place + Node.headsAtAll place children)
    (hone : ∀ place, n.headsAt place ≤ 1) {d : Definition} (hd : Orderly d)
    (hparts : ∀ p ∈ d.parts, Orderly p ∧ p.parts = []) (owner : Bytes) {st st' : State} (h : st.Matches st')
    (hst : st.canceled = false)
    (hdrops : Drops env.unit.path drop [n] st (contained env (requests embed env d owner children) tag d owner st)) :
    if drop tag.span.start then (contained env (requests embed env d owner children) tag d owner st).Matches st'
    else (contained env (requests embed env d owner children) tag d owner st).Matches
      (contained (env.using used) (requests embed (env.using used) d owner (Node.withoutAll drop children)) tag d owner
        st') := by
  have hbelow (place : Position) : Node.headsAtAll place children ≤ 1 := by
    have := hone place
    have := hn place
    omega
  have hask : Prunes env.unit.path drop (children.filter (selects .regular)) (children.filter Node.isPart)
      (requests embed env d owner children)
      (requests embed (env.using used) d owner (Node.withoutAll drop children)) :=
    prunes_requests hregistry hembed hmatches hparts owner ih hbelow
  have hgrow := kept_extends.requests vetted_anything (uses_anything env) hextends (d := d) trivial owner children
  refine prunes_contained hask hd h hst hown hgrow (fun place => ?_) hone hdrops
  rw [hn, Nat.add_assoc, headsAtAll_regular_parts]

theorem prunes_directive {tag : Tag} {children : List Node} (ih : ∀ c ∈ children, NodePrunes embed env used drop c)
    (hone : ∀ place, (Node.directive tag children).headsAt place ≤ 1) {st st' : State} (h : st.Matches st')
    (hst : st.canceled = false)
    (hdrops : Drops env.unit.path drop [.directive tag children] st (compileNode embed env (.directive tag children) st)) :
    (compileNode embed env (.directive tag children) st).Matches
      (compileLeft embed (env.using used) drop (.directive tag children) st') := by
  have hn := fun place => Markup.headsAt_directive place tag children
  have hhead : 0 < (Node.directive tag children).headsAt tag.span.start := by
    rw [hn, Tag.startsAt, if_pos rfl]
    omega
  have hrejected (kind : DiagnosticKind) (message : Bytes)
      (hnode : compileNode embed env (.directive tag children) st = st.reject env tag kind message) :
      (compileNode embed env (.directive tag children) st).Matches
        (compileLeft embed (env.using used) drop (.directive tag children) st') := by
    rw [hnode] at hdrops ⊢
    obtain ⟨hdrop, hrejected⟩ := prunes_reject hown h hhead hdrops
    simpa only [compileLeft, Node.without, hdrop, if_true, List.foldl_nil] using hrejected
  cases hproblem : tag.problem with
  | unknown => exact hrejected _ _ (by rw [compileNode, hproblem])
  | misplaced => exact hrejected _ _ (by rw [compileNode, hproblem])
  | strayTerminator => exact hrejected _ _ (by rw [compileNode, hproblem])
  | none =>
    cases hlookup : env.registry.lookup tag.name with
    | none => exact hrejected _ _ (by simp only [compileNode, hproblem, hlookup]; rfl)
    | some d =>
      obtain ⟨horderly, hparts⟩ := orderly_of_mem_all (mem_all_of_lookup (hregistry ▸ hlookup)).1
      have hlookup' : (env.using used).registry.lookup tag.name = some d := hlookup
      have hstart : State.Matches { st with data := [] } { st' with data := [] } :=
        ⟨h.pre, h.body, h.post, h.loader, h.labels, h.memory, rfl, h.canceled⟩
      simp only [compileNode, hproblem, hlookup] at hdrops ⊢
      have huse := prunes_use hregistry hembed hown hmatches hextends ih hn hone horderly hparts tag.name hstart hst hdrops
      cases hdrop : drop tag.span.start with
      | true =>
        rw [if_pos hdrop] at huse
        simp only [compileLeft, Node.without, hdrop, if_true, List.foldl_nil]
        exact ⟨huse.pre, huse.body, huse.post, huse.loader, huse.labels, huse.memory, h.data, huse.canceled⟩
      | false =>
        rw [if_neg (by simp [hdrop])] at huse
        simp only [compileLeft, Node.without, hdrop, Bool.false_eq_true, if_false, List.foldl_cons, List.foldl_nil,
          compileNode, hproblem, hlookup']
        exact ⟨huse.pre, huse.body, huse.post, huse.loader, huse.labels, huse.memory, h.data, huse.canceled⟩

theorem prunes_part {owner : Bytes} {tag : Tag} {children : List Node}
    (ih : ∀ c ∈ children, NodePrunes embed env used drop c)
    (hone : ∀ place, (Node.part owner tag children).headsAt place ≤ 1) {d : Definition}
    (hd : ∀ p ∈ d.parts, Orderly p ∧ p.parts = []) {chain : Bytes} {st st' : State} (h : st.Matches st')
    (hst : st.canceled = false)
    (hdrops : Drops env.unit.path drop [.part owner tag children] st
      (compilePart embed env d chain (.part owner tag children) st)) :
    (compilePart embed env d chain (.part owner tag children) st).Matches
      (compilePartLeft embed (env.using used) d chain drop (.part owner tag children) st') := by
  have hn := fun place => Markup.headsAt_part place owner tag children
  have hhead : 0 < (Node.part owner tag children).headsAt tag.span.start := by
    rw [hn, Tag.startsAt, if_pos rfl]
    omega
  cases hpart : d.part? tag.name with
  | none =>
    simp only [compilePart, hpart] at hdrops ⊢
    obtain ⟨hdrop, hrejected⟩ := prunes_reject hown h hhead hdrops
    simpa only [compilePartLeft, Node.without, hdrop, if_true, List.foldl_nil] using hrejected
  | some p =>
    obtain ⟨horderly, hflat⟩ := hd p (List.mem_of_find?_eq_some hpart)
    have hnone : ∀ q ∈ p.parts, Orderly q ∧ q.parts = [] := by simp [hflat]
    simp only [compilePart, hpart] at hdrops ⊢
    have huse := prunes_use hregistry hembed hown hmatches hextends ih hn hone horderly hnone chain h hst hdrops
    cases hdrop : drop tag.span.start with
    | true =>
      rw [if_pos hdrop] at huse
      simp only [compilePartLeft, Node.without, hdrop, if_true, List.foldl_nil]
      exact huse
    | false =>
      rw [if_neg (by simp [hdrop])] at huse
      simp only [compilePartLeft, Node.without, hdrop, Bool.false_eq_true, if_false, List.foldl_cons, List.foldl_nil,
        compilePart, hpart]
      exact huse

theorem nodePrunes (n : Node) : NodePrunes embed env used drop n := by
  induction n using Node.byChildren with
  | h n ih =>
    intro hone
    cases n with
    | text value span => exact ⟨fun st st' h _ _ => h.add env.part value, fun _ _ _ _ _ h _ _ => h⟩
    | interpolation expr escaped span =>
      refine ⟨fun st st' h _ _ => ?_, fun _ _ _ _ _ h _ _ => h⟩
      simp only [compileNode, compileLeft, Node.without, List.foldl_cons, List.foldl_nil, h.loader]
      split
      · exact h.emit env.part _
      · exact h.add env.part expr
    | directive tag children =>
      refine ⟨fun st st' h hst hdrops => ?_, fun d owner st st' _ h _ _ => ?_⟩
      · exact prunes_directive hregistry hembed hown hmatches hextends ih hone h hst hdrops
      · simp only [compilePart, compilePartLeft, Node.without]
        split <;> exact h
    | part parent tag children =>
      have hhead : 0 < (Node.part parent tag children).headsAt tag.span.start := by
        rw [Markup.headsAt_part, Tag.startsAt, if_pos rfl]
        omega
      refine ⟨fun st st' h hst hdrops => ?_, fun d owner st st' hd h hst hdrops => ?_⟩
      · obtain ⟨hdrop, hrejected⟩ := prunes_reject hown h hhead hdrops
        simp only [compileLeft, Node.without, hdrop, if_true, List.foldl_nil]
        exact hrejected
      · exact prunes_part hregistry hembed hown hmatches hextends ih hone hd h hst hdrops

end Nodes

end Compile

end Stencil
