import Stencil.Proofs.Blocks.Code
import Stencil.Proofs.Compile.Reuse

/-! # The code of whole templates

A template of control directives and blocks compiles to the code of its statements, with its includes filled in, or
records an error (`instrs_of_blocks`). The induction is on the includes that may still follow, and on the tree. -/

namespace Stencil.Blocks

open Stencil.Compile
open Stencil.Control (Writing Ready Grows Wrote Failed Lowers NodeLowers BodiesLower answers rawArg nameArg labels labelsAll
  wrote_emit rawArg_eq nameArg_eq lowers_compileNodes lowers_compileParts_nil lowers_children lowers_directive
  ends_control lowers_text lowers_interpolation mem_tags_of_mem)
open Stencil.Directive
open Stencil.Directive.Standard
open Stencil.Markup (Node Tag)
open Statement (codeAll)

/-! ### Blocks with an instruction at either end -/

theorem grows_emit {env : Env} (hpart : env.part = .body) {st st₁ : State} {code : List Instr} {count : Nat}
    (h : Grows st st₁ (Wrote st st₁ code count)) (more : List Instr) :
    Grows st (st₁.emit env.part more) (Wrote st (st₁.emit env.part more) (code ++ more) count) := by
  have hwrote := wrote_emit hpart st₁ more
  have hmore : Grows st₁ (st₁.emit env.part more) (Wrote st₁ (st₁.emit env.part more) more 0) :=
    .of_eq (hwrote.ready h.ready) rfl hwrote
  exact (h.trans hmore).mono fun ⟨hbefore, hafter⟩ => hbefore.trans hafter

section Scopes
variable {w : Writing} {env : Env} {ask : Requests} {tag : Tag} {owner : Bytes} {children : List Node} {st : State}
variable (hpart : env.part = .body) (hst : Ready st)
include hpart hst

/-- The life of a block writes its children between the instructions of its hooks. -/
theorem ends_scope {d : Definition} (opening closing : Instr) (hinit : d.onInit = none)
    (hchildren : ∀ call, Lowers (lifeOfChildren env ask d call) (fun k => w.code k children) (w.count children))
    (hparams : ∀ call, Ends (runHook env ask call d.onParams st) (fun _ st' => st' = st.emit env.part [opening]) (st = ·))
    (hend : ∀ args, Argument.read tag.expr d.params = .ok args → ∀ st',
      Ends (runHook env ask ⟨tag, args, owner, env.unit⟩ d.onEnd st') (fun _ st'' => st'' = st'.emit env.part [closing])
        (st' = ·)) :
    Ends (lifecycle env ask tag d owner st)
      (fun _ st' => Grows st st' (Wrote st st' (opening :: (w.code st.labels children ++ [closing])) (w.count children)))
      (Failed st) := by
  refine ends_lifecycle (A := (st = ·)) (B := fun st₁ => Grows st st₁ (Wrote st st₁ [opening] 0 ∧ True))
    (C := fun st₂ => Grows st st₂ (Wrote st st₂ (opening :: w.code st.labels children) (w.count children)))
    (.refl hst) fun args hargs => ⟨?_, ?_, ?_, ?_⟩
  · rw [hinit]
    exact rfl
  · rintro _ rfl
    refine ((hparams _).mono_failed ?_).mono ?_
    · rintro _ rfl
      exact .refl hst
    · rintro _ _ rfl
      have hwrote := wrote_emit hpart st [opening]
      exact .of_eq (hwrote.ready hst) rfl ⟨hwrote, trivial⟩
  · intro st₁ h₁
    refine ((hchildren _).ends h₁).mono fun _ st₂ h₂ => h₂.mono ?_
    rintro ⟨hwrote, -⟩
    simpa using hwrote
  · intro st₂ h₂
    refine ((hend args hargs st₂).mono_failed ?_).mono ?_
    · rintro _ rfl
      exact ⟨h₂.ready.running, h₂.errors⟩
    · rintro _ _ rfl
      exact grows_emit hpart h₂ [closing]

theorem ends_capture {d : Definition} (mode : ScopeMode) (hinit : d.onInit = none) (hnone : d.onChildren = none)
    (hbody : Lowers (ask.compile .regular) (fun k => w.code k children) (w.count children))
    (hchain : Lowers ask.chain (fun _ => []) 0)
    (hparams : ∀ call, Ends (runHook env ask call d.onParams st) (fun _ st' => st' = st.emit env.part [.enter]) (st = ·))
    (hend : d.onEnd = some fun call => do Script.emits [.exit mode (← Script.ofRead (call.args.string "name"))]) :
    Ends (lifecycle env ask tag d owner st)
      (fun _ st' => Grows st st' (Wrote st st'
        (.enter :: (w.code st.labels children ++ [.exit mode (nameArg d tag "name")])) (w.count children))) (Failed st) := by
  refine ends_scope hpart hst .enter (.exit mode (nameArg d tag "name")) hinit (lowers_children hbody hnone hchain) hparams
    fun args hargs st' => ?_
  simp only [hend, runHook, runScript_bind, runScript_ofRead, runScript_emits]
  refine (Ends.of_arguments rfl).andThen ?_
  rintro name _ ⟨hname, rfl⟩
  rw [nameArg_eq hargs hname]
  exact rfl

end Scopes

/-- The children of a component are written as they are; only the count of open components changes around them. -/
theorem lowers_component {w : Writing} {env : Env} {ask : Requests} {children : List Node}
    (hbody : Lowers (ask.compile .regular) (fun k => w.code k children) (w.count children)) (call : Call) :
    Lowers (lifeOfChildren env ask componentDirective call) (fun k => w.code k children) (w.count children) := by
  intro st hst
  obtain ⟨st₁, hrun, hdata, hgrows⟩ := hbody
    { st with memory := Assoc.insert componentDepthKey (.int (st.componentDepth + 1)) st.memory } ⟨hst.running, hst.loader⟩
  refine ⟨{ st₁ with memory := Assoc.insert componentDepthKey (.int st.componentDepth) st₁.memory }, ?_, hdata, ?_⟩
  · simp only [lifeOfChildren, componentDirective, runScript_bind, runScript_componentDepth, runScript_remember, andThen,
      runScript, hrun, runScript_ofExcept]
  · refine ⟨⟨hgrows.ready.running, hgrows.ready.loader⟩, hgrows.errors, fun he => ?_⟩
    have hwrote := hgrows.holds he
    exact ⟨⟨hwrote.pre, hwrote.body, hwrote.post, hwrote.loader, hwrote.labels, hwrote.running⟩, hwrote.count⟩

section Blocks
variable {included : Tag → List Node} {embed : Embedder} {env : Env} {tag : Tag} {children : List Node} {st : State}
variable (hpart : env.part = .body) (hst : Ready st)
variable (hbody : Lowers (compileNodes embed env .regular children) (fun k => (writing included).code k children)
  ((writing included).count children))
include hpart hst hbody

theorem ends_block {d : Definition} (hd : d ∈ [sectionDirective, pushDirective, slotDirective, componentDirective])
    (hname : d.name = tag.name) :
    Ends (lifecycle env (answers embed env d tag.name children) tag d tag.name st)
      (fun _ st' => Grows st st' (Wrote st st' (codeAll (statements st.labels (.directive tag (fillAll included children))))
        (labels (.directive tag (fillAll included children))))) (Failed st) := by
  have hcode : (writing included).code st.labels children = codeAll (statementsAll st.labels (fillAll included children)) :=
    code_writing _ _
  have hcount : (writing included).count children = labelsAll (fillAll included children) := count_writing _
  have hlabels (h : tag.name ∈ ([("include" : Bytes), "section", "push", "slot", "component"] : List Bytes)) :=
    labels_block (fillAll included children) h
  have hchain (d : Definition) (hparts : d.parts = []) :
      Lowers (compileParts embed env d tag.name children) (fun _ => []) 0 :=
    lowers_compileParts_nil hpart hparts tag.name children
  simp only [List.mem_cons, List.not_mem_nil, or_false] at hd
  rcases hd with rfl | rfl | rfl | rfl
  · rw [statements_section _ _ hname.symm, hlabels (by rw [← hname]; decide), ← hcount]
    simp only [Statement.code, Statement.codeAll_cons, Statement.codeAll_nil, List.append_nil, ← hcode]
    exact ends_capture hpart hst .define rfl rfl hbody (hchain _ rfl) (fun _ => rfl) rfl
  · rw [statements_push _ _ hname.symm, hlabels (by rw [← hname]; decide), ← hcount]
    simp only [Statement.code, Statement.codeAll_cons, Statement.codeAll_nil, List.append_nil, ← hcode]
    exact ends_capture hpart hst .push rfl rfl hbody (hchain _ rfl) (fun _ => rfl) rfl
  · rw [statements_slot _ _ hname.symm, hlabels (by rw [← hname]; decide), ← hcount]
    simp only [Statement.code, Statement.codeAll_cons, Statement.codeAll_nil, List.append_nil, ← hcode]
    refine ends_capture hpart hst .slot rfl rfl hbody (hchain _ rfl) (fun call => ?_) rfl
    simp only [slotDirective, runHook, runScript_bind, runScript_componentDepth, andThen]
    split <;> rfl
  · rw [statements_component _ _ hname.symm, hlabels (by rw [← hname]; decide), ← hcount]
    simp only [Statement.code, Statement.codeAll_cons, Statement.codeAll_nil, List.append_nil, ← hcode]
    refine ends_scope hpart hst .enterComponent _ rfl (lowers_component hbody) (fun call => ?_) fun args hargs st' => ?_
    · simp only [componentDirective, runHook, runScript_bind, runScript_ofRead, runScript_emits]
      refine (Ends.of_arguments rfl).andThen ?_
      rintro path _ ⟨-, rfl⟩
      exact rfl
    · simp only [nameArg, rawArg, hargs]
      exact rfl

end Blocks

/-! ### Includes -/

/-- What the nodes of a template, or of a source that it includes, are compiled with. -/
structure Fits (options : Options) (env : Env) : Prop where
  part : env.part = .body
  registry : env.registry = registry
  reading : env.options = options.parse
  finds : ∀ st path, st.canceled = false → env.resolve st path = source options path

theorem Fits.inside {options : Options} {env : Env} (h : Fits options env) (path : Bytes) :
    Fits options (env.inside path) :=
  ⟨h.part, h.registry, h.reading, h.finds⟩

theorem fits_env (options : Options) (path : Bytes) (nodes : List Node) :
    Fits options (options.env registry path nodes) := by
  refine ⟨rfl, rfl, rfl, fun st path hst => ?_⟩
  unfold Env.resolve source Options.env
  cases options.resolver with
  | none => rfl
  | some resolver =>
    dsimp only
    split
    · exact (get?_prefetch resolver _ path _ ‹_›).symm
    · rw [hst, if_neg Bool.false_ne_true]

/-- All directives of the nodes are control directives or blocks. -/
def AreBlocks (nodes : List Node) : Prop := ∀ t ∈ Node.tagsList nodes, t.name ∈ names

instance (nodes : List Node) : Decidable (AreBlocks nodes) :=
  inferInstanceAs (Decidable (∀ t ∈ Node.tagsList nodes, t.name ∈ names))

/-- Included sources are written in a scope of their own, with their own includes filled in; those that cannot be read
are refused. -/
structure Inlines (options : Options) (inner : List Node → List Node) (embed : Embedder) : Prop where
  written : ∀ env, Fits options env → ∀ path src nodes, Markup.parse registry options.parse path src = .ok nodes →
    AreBlocks (inner nodes) → ∀ bindings st, Ready st → Ends (embed env path src bindings st)
      (fun _ st' => Grows st st' (Wrote st st' (.enter :: ((if bindings = [] then [] else [.bind bindings]) ++
        (codeAll (statementsAll st.labels (inner nodes)) ++ [.exit .merge []]))) (labelsAll (inner nodes)))) (Failed st)
  refused : ∀ env, Fits options env → ∀ path src d, Markup.parse registry options.parse path src = .error d →
    ∀ bindings st, ∃ e, embed env path src bindings st = (.error e, st)

@[simp] theorem labelsAll_regular (ns : List Node) : labelsAll (ns.filter (!·.isPart)) = labelsAll ns := by
  induction ns with
  | nil => rfl
  | cons n ns ih => cases hn : n.isPart <;> simp [labelsAll, hn, ih]

@[simp] theorem statementsAll_regular (ns : List Node) (n : Nat) :
    statementsAll n (ns.filter (!·.isPart)) = statementsAll n ns := by
  induction ns generalizing n with
  | nil => rfl
  | cons c ns ih => cases hc : c.isPart <;> simp [statementsAll, hc, ih]

theorem lower_text (n : Nat) (value : Bytes) (span : Markup.Span) :
    Control.lower n (.text value span) = codeAll (statements n (.text value span)) := by
  rw [Control.lower, statements]
  split <;> rfl

section Includes
variable {options : Options} {inner : List Node → List Node} {embed : Embedder} {env : Env} {tag : Tag} {st : State}
variable (hfits : Fits options env) (hembed : Inlines options inner embed) (hst : Ready st)
include hfits hembed hst

theorem ends_includeParams {ask : Requests} (hask : ask.embed = embed env) (hname : tag.name = "include")
    (hblocks : AreBlocks (included options inner tag)) {args : Argument.Arguments}
    (hargs : Argument.read tag.expr includeDirective.params = .ok args) (owner : Bytes) :
    Ends (runHook env ask ⟨tag, args, owner, env.unit⟩ includeDirective.onParams st)
      (fun _ st' => Grows st st' (Wrote st st' (codeAll (statementsAll st.labels (included options inner tag)))
        (labelsAll (included options inner tag)))) (Failed st) := by
  simp only [includeDirective, runHook, runScript_bind, runScript_ofRead]
  refine (Ends.of_arguments (.refl hst)).andThen ?_
  rintro path _ ⟨hpath, rfl⟩
  refine (Ends.of_arguments (.refl hst)).andThen ?_
  rintro fallback _ ⟨hfallback, rfl⟩
  have hpath : nameArg includeDirective tag "path" = path := nameArg_eq hargs hpath
  have hfallback : fallsBack tag = fallback := by simp [fallsBack, hargs, hfallback, Except.toOption]
  rw [runScript, hfits.finds st path hst.running]
  unfold included at hblocks ⊢
  rw [hpath] at hblocks ⊢
  cases hsource : source options path with
  | error e =>
    simp only [hsource, hfallback] at hblocks ⊢
    cases fallback with
    | false => exact Failed.refl hst
    | true =>
      have htext : Lowers (fun st => (.ok (), compileNode embed env (.text path tag.span) st))
          (fun k => Control.lower k (.text path tag.span)) 0 := lowers_text hfits.part path tag.span
      obtain ⟨_, hrun, -, hgrows⟩ := htext st hst
      simp only [← (Prod.mk.inj hrun).2, lower_text] at hgrows
      simp only [if_true, runScript_text, statementsAll, labelsAll, labels, Node.isPart, Bool.false_eq_true, if_false,
        List.append_nil]
      exact hgrows
  | ok src =>
    simp only [hsource] at hblocks ⊢
    simp only [runScript, runScript_ofExcept, hask]
    cases hnodes : Markup.parse registry options.parse path src with
    | error d =>
      obtain ⟨e, hrefused⟩ := hembed.refused env hfits path src d hnodes (args.rawD "with") st
      rw [hrefused]
      exact Failed.refl hst
    | ok nodes =>
      simp only [hnodes] at hblocks ⊢
      have hinner : AreBlocks (inner nodes) := fun t ht => hblocks t (by simp [Node.tagsList, Node.tags, ht])
      have hlabels := labels_block (inner nodes) (show tag.name ∈ _ from hname ▸ List.mem_cons_self)
      simpa [statementsAll, labelsAll, Node.isPart, statements_include _ _ hname, hlabels, rawArg_eq hargs, Statement.code,
        apply_ite codeAll] using hembed.written env hfits path src nodes hnodes hinner (args.rawD "with") st hst

/-- The life of an include writes what it stands for, and then its children. -/
theorem ends_include (hname : tag.name = "include") {children : List Node}
    (hblocks : AreBlocks (included options inner tag))
    (hbody : Lowers (compileNodes embed env .regular children) (fun k => (writing (included options inner)).code k children)
      ((writing (included options inner)).count children)) :
    Ends (lifecycle env (answers embed env includeDirective tag.name children) tag includeDirective tag.name st)
      (fun _ st' => Grows st st' (Wrote st st'
        (codeAll (statementsAll st.labels (fill (included options inner) (.directive tag children))))
        (labelsAll (fill (included options inner) (.directive tag children))))) (Failed st) := by
  have hchain : Lowers (compileParts embed env includeDirective tag.name children) (fun _ => []) 0 :=
    lowers_compileParts_nil hfits.part rfl tag.name children
  simp only [fill, if_pos hname, statementsAll_append, labelsAll_append, Statement.codeAll_append, statementsAll_regular,
    labelsAll_regular, ← code_writing, ← count_writing]
  refine ends_lifecycle (A := (st = ·)) (B := fun st₁ => Grows st st₁ (Wrote st st₁
      (codeAll (statementsAll st.labels (included options inner tag))) (labelsAll (included options inner tag)) ∧ True))
    (C := fun st' => Grows st st' (Wrote st st' _ _)) (.refl hst) fun args hargs => ⟨rfl, ?_, ?_, fun _ h => h⟩
  · rintro _ rfl
    refine (ends_includeParams hfits hembed hst rfl hname hblocks hargs tag.name).mono fun _ st₁ h₁ => h₁.mono ?_
    exact fun hwrote => ⟨hwrote, trivial⟩
  · intro st₁ h₁
    exact ((lowers_children hbody rfl hchain _).ends h₁).mono fun _ st₂ h₂ => h₂.mono And.left

end Includes

/-! ### Trees -/

section Trees
variable {options : Options} {inner : List Node → List Node}

theorem isPart_of_mem_included {tag : Tag} {c : Node} (hc : c ∈ included options inner tag) : c.isPart = false := by
  unfold included at hc
  dsimp only at hc
  split at hc
  · split at hc
    · rw [List.mem_singleton.mp hc]
      rfl
    · cases hc
  · split at hc
    · cases hc
    · rw [List.mem_singleton.mp hc]
      rfl

theorem mem_fillAll {included : Tag → List Node} {d : Node} (ns : List Node) :
    d ∈ fillAll included ns ↔ ∃ n ∈ ns, d ∈ fill included n := by
  induction ns with
  | nil => simp [fillAll]
  | cons n ns ih => simp [fillAll, ih]

theorem AreBlocks.fill {included : Tag → List Node} {ns : List Node} (h : AreBlocks (fillAll included ns)) {n : Node}
    (hn : n ∈ ns) : AreBlocks (fill included n) := by
  intro t ht
  obtain ⟨d, hd, ht⟩ := Node.mem_tagsList.mp ht
  exact h t (Node.mem_tagsList.mpr ⟨d, (mem_fillAll ns).mpr ⟨n, hn, hd⟩, ht⟩)

/-- The children of a node stand for blocks when the node does, parts of an include apart. -/
theorem AreBlocks.child {n c : Node} (h : AreBlocks (Blocks.fill (included options inner) n)) (hc : c ∈ n.children)
    (hregular : c.isPart = false) : AreBlocks (Blocks.fill (included options inner) c) := by
  cases n with
  | text | interpolation => cases hc
  | part owner tag children =>
    have hchildren : AreBlocks (fillAll (included options inner) children) :=
      fun t ht => h t (by simp [Blocks.fill, Node.tagsList, Node.tags, ht])
    exact hchildren.fill hc
  | directive tag children =>
    rw [Blocks.fill] at h
    split at h
    · intro t ht
      obtain ⟨d, hd, ht⟩ := Node.mem_tagsList.mp ht
      have hkept : d.isPart = false := isPart_of_mem_fill (fun _ _ => isPart_of_mem_included) hregular hd
      refine h t (Node.mem_tagsList.mpr ⟨d, List.mem_append_right _ (List.mem_filter.mpr ⟨?_, by simp [hkept]⟩), ht⟩)
      exact (mem_fillAll _).mpr ⟨c, hc, hd⟩
    · have hchildren : AreBlocks (fillAll (included options inner) children) :=
        fun t ht => h t (by simp [Node.tagsList, Node.tags, ht])
      exact hchildren.fill hc

theorem cases_of_name {d : Definition} (hd : d ∈ all) (hname : d.name ∈ names) :
    d = includeDirective ∨ d.name ≠ "include" ∧ (d ∈ [ifDirective, switchDirective, eachDirective, setDirective] ∨
      d ∈ [sectionDirective, pushDirective, slotDirective, componentDirective]) := by
  simp only [all, List.mem_cons, List.not_mem_nil, or_false] at hd
  rcases hd with rfl | rfl | rfl | rfl | rfl | rfl | rfl | rfl | rfl | rfl | rfl | rfl | rfl | rfl
  · exact .inr ⟨by decide, .inl (by simp)⟩
  · exact .inr ⟨by decide, .inl (by simp)⟩
  · exact .inr ⟨by decide, .inl (by simp)⟩
  · exact .inr ⟨by decide, .inl (by simp)⟩
  · exact .inl rfl
  · exact absurd hname (by decide)
  · exact .inr ⟨by decide, .inr (by simp)⟩
  · exact absurd hname (by decide)
  · exact .inr ⟨by decide, .inr (by simp)⟩
  · exact absurd hname (by decide)
  · exact .inr ⟨by decide, .inr (by simp)⟩
  · exact .inr ⟨by decide, .inr (by simp)⟩
  · exact absurd hname (by decide)
  · exact absurd hname (by decide)

variable {embed : Embedder} {env : Env} (hfits : Fits options env) (hembed : Inlines options inner embed)
include hfits hembed

/-- A node is written as the statements of what stands for it, and so are its children. -/
theorem nodeLowers (n : Node) (hn : AreBlocks (fill (included options inner) n)) :
    (n.isPart = false → NodeLowers (writing (included options inner)) embed env n) ∧
      Lowers (compileNodes embed env .regular n.children) (fun k => (writing (included options inner)).code k n.children)
        ((writing (included options inner)).count n.children) := by
  induction n using Node.byChildren with
  | h n ih =>
    have hbody := lowers_compileNodes hfits.part .regular n.children fun c hc hregular =>
      (ih c hc (hn.child hc hregular)).1 hregular
    refine ⟨fun hregular => ?_, hbody⟩
    cases n with
    | part owner tag children => cases hregular
    | text value span =>
      have htext : Lowers (fun st => (.ok (), compileNode embed env (.text value span) st))
        (fun k => Control.lower k (.text value span)) 0 := lowers_text hfits.part value span
      simp only [lower_text] at htext
      simpa [NodeLowers, writing, fill, statementsAll, labelsAll, labels, Node.isPart] using htext
    | interpolation expr escaped span => exact lowers_interpolation hfits.part expr escaped span
    | directive tag children =>
      refine lowers_directive hfits.part fun d hd st hst hdata => ?_
      obtain ⟨hd, hdname⟩ := mem_all_of_lookup (hfits.registry ▸ hd)
      have htag : tag.name ∈ names := by
        by_cases hname : tag.name = "include"
        · rw [hname]
          exact List.mem_cons_self
        · exact hn tag (by simp [fill, hname, Node.tagsList, Node.tags])
      rcases cases_of_name hd (hdname ▸ htag) with rfl | ⟨hother, hd⟩
      · have hincluded : AreBlocks (included options inner tag) := by
          intro t ht
          obtain ⟨c, hc, ht⟩ := Node.mem_tagsList.mp ht
          refine hn t (Node.mem_tagsList.mpr ⟨c, ?_, ht⟩)
          rw [fill, if_pos (show tag.name = "include" from hdname.symm)]
          exact List.mem_append_left _ hc
        exact ends_include hfits hembed hst hdname.symm hincluded hbody
      · have hfill : fill (included options inner) (.directive tag children) =
            [.directive tag (fillAll (included options inner) children)] := by rw [fill, if_neg (hdname ▸ hother)]
        have hchildren : AreBlocks (fillAll (included options inner) children) :=
          fun t ht => hn t (by simp [hfill, Node.tagsList, Node.tags, ht])
        simp only [writing, hfill, statementsAll, labelsAll, Node.isPart, Bool.false_eq_true, if_false, List.append_nil,
          Nat.add_zero]
        rcases hd with hcontrol | hblock
        · have hbodies : BodiesLower (writing (included options inner)) embed env children :=
            fun c hc => (ih c hc (hchildren.fill hc)).2
          have hends := ends_control hfits.part hcontrol hdname hbody hbodies hst hdata
          rwa [control_writing (fun _ _ => isPart_of_mem_included) hcontrol hdname,
            controlCount_writing fun _ _ => isPart_of_mem_included] at hends
        · exact ends_block hfits.part hst hbody hblock hdname

end Trees

/-! ### Templates -/

section Templates
variable (options : Options)

/-- What the nodes of included sources become, when so many more includes may follow. -/
def inside : (depth : Nat) → List Node → List Node
  | 0 => fun _ => []
  | depth + 1 => inlineAll options depth

theorem inlineAll_eq (depth : Nat) : inlineAll options depth = fillAll (included options (inside options depth)) := by
  cases depth <;> rfl

theorem lowers_inlineAll {depth : Nat} {embed : Embedder} (hembed : Inlines options (inside options depth) embed) {env : Env}
    (hfits : Fits options env) {nodes : List Node} (hblocks : AreBlocks (inlineAll options depth nodes)) :
    Lowers (compileNodes embed env .all nodes) (fun k => codeAll (statementsAll k (inlineAll options depth nodes)))
      (labelsAll (inlineAll options depth nodes)) := by
  rw [inlineAll_eq] at hblocks ⊢
  simp only [← code_writing, ← count_writing]
  exact lowers_compileNodes hfits.part .all nodes fun n hn => (nodeLowers hfits hembed n (hblocks.fill hn)).1

omit options in
theorem grows_including {st : State} (hst : Ready st) (path src bindings : Bytes) :
    Grows st (st.including .body path src bindings) (Wrote st (st.including .body path src bindings)
      (.enter :: if bindings = [] then [] else [.bind bindings]) 0 ∧ True) := by
  unfold State.including
  dsimp only
  split <;> exact .of_eq ⟨hst.running, hst.loader⟩ rfl
    ⟨⟨⟨rfl, by simp [State.emit, Output.append], rfl, rfl, Nat.le_refl _, rfl⟩, rfl⟩, trivial⟩

theorem inlines_embedAt : ∀ depth, Inlines options (inside options depth) (embedAt depth)
  | 0 => ⟨fun env hfits path src nodes hnodes hblocks bindings st hst => Failed.refl hst,
      fun env hfits path src d hd bindings st => ⟨_, rfl⟩⟩
  | depth + 1 => by
    constructor
    · intro env hfits path src nodes hnodes hblocks bindings st hst
      rcases embedAt_cases depth env path src with ⟨nodes', haccepts⟩ | ⟨e, hrefused⟩
      · -- what is accepted was read with the same directives, and gives the same nodes
        obtain rfl : nodes' = nodes := by
          have hreads := haccepts.reads
          rw [hfits.registry, hfits.reading, hnodes] at hreads
          exact (Except.ok.inj hreads).symm
        have hwritten := lowers_inlineAll options (inlines_embedAt depth) (hfits.inside path) hblocks
        rw [embedAt_of_accepts haccepts, hfits.part]
        refine (hwritten.ends (grows_including hst path src bindings)).andThen fun _ st₁ h₁ => ?_
        have hclosed := grows_emit hfits.part (h₁.mono And.left) [.exit .merge []]
        simp only [hfits.part, List.cons_append, List.append_assoc, Nat.zero_add, Nat.add_zero] at hclosed
        exact hclosed
      · rw [hrefused]
        exact Failed.refl hst
    · intro env hfits path src d hd bindings st
      rcases embedAt_cases depth env path src with ⟨nodes, haccepts⟩ | ⟨e, hrefused⟩
      · have hreads := haccepts.reads
        rw [hfits.registry, hfits.reading, hd] at hreads
        cases hreads
      · exact ⟨e, hrefused bindings st⟩

end Templates

/-- A template whose includes are filled in with control directives and blocks has the code of its statements, when it
compiles without errors. -/
theorem instrs_of_blocks {options : Options} {path : Bytes} {nodes : List Node} (hnodes : AreBlocks nodes)
    (hinlined : AreBlocks (inlined options nodes)) {t : Template}
    (ht : (generate registry options path false nodes).result = .ok t) (herrors : t.errors = []) :
    t.instrs = codeAll (statementsAll 0 (inlined options nodes)) := by
  have hunhooked : Control.Unhooked (options.env registry path nodes) :=
    Control.unhooked_of (Control.mem_names_of_used hnodes) (by decide)
  have hwritten := lowers_inlineAll options (inlines_embedAt options maxIncludes) (fits_env options path nodes) hinlined
  exact Control.instrs_of_lowers hunhooked hwritten ht herrors

end Stencil.Blocks
