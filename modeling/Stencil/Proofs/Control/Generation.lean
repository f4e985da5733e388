import Stencil.Proofs.Control.Chains

/-! # The code of whole control templates

A tree of control directives compiles to its code or records an error (`nodeLowers`), and the hooks of
the file add nothing to it (`instrs_of_control`). -/

namespace Stencil.Control

open Stencil.Compile
open Stencil.Directive
open Stencil.Directive.Standard
open Stencil.Markup (Node Tag)

/-! ### Nodes of all kinds -/

section Nodes
variable {w : Writing} {embed : Embedder} {env : Env} (hpart : env.part = .body)
include hpart

/-- A directive is written as its life writes it, or is turned away. -/
theorem lowers_directive {tag : Tag} {children : List Node} {code : Nat → List Instr} {count : Nat}
    (h : ∀ d, env.registry.lookup tag.name = some d → ∀ st, Ready st → st.data = [] →
      Ends (lifecycle env (answers embed env d tag.name children) tag d tag.name st)
        (fun _ st' => Grows st st' (Wrote st st' (code st.labels) count)) (Failed st)) :
    Lowers (fun st => (.ok (), compileNode embed env (.directive tag children) st)) code count := by
  intro st hst
  have hready : Ready { st with data := [] } := ⟨hst.running, hst.loader⟩
  refine ⟨_, rfl, ?_⟩
  rw [compileNode]
  split
  · exact ⟨rfl, grows_reject hpart hst tag _ _⟩
  · exact ⟨rfl, grows_reject hpart hst tag _ _⟩
  · exact ⟨rfl, grows_reject hpart hst tag _ _⟩
  · split
    · exact ⟨rfl, grows_reject hpart hst tag _ _⟩
    · rename_i d hd
      exact ⟨rfl, (grows_contained hpart hready (h d hd _ hready rfl)).data⟩

/-- The life of a control directive writes its code. -/
theorem ends_control {d : Definition} (hd : d ∈ [ifDirective, switchDirective, eachDirective, setDirective]) {tag : Tag}
    (hname : d.name = tag.name) {children : List Node}
    (hbody : Lowers (compileNodes embed env .regular children) (fun k => w.code k children) (w.count children))
    (hbodies : BodiesLower w embed env children) {st : State} (hst : Ready st) (hdata : st.data = []) :
    Ends (lifecycle env (answers embed env d tag.name children) tag d tag.name st)
      (fun _ st' => Grows st st' (Wrote st st' (w.control st.labels tag children) (w.controlCount tag children)))
      (Failed st) := by
  simp only [List.mem_cons, List.not_mem_nil, or_false] at hd
  rcases hd with rfl | rfl | rfl | rfl
  · exact ends_if hpart hst hname.symm hbody hbodies
  · exact ends_switch hpart hst hdata hname.symm hbodies
  · exact ends_each hpart hst hname.symm hbody hbodies
  · exact ends_set hbody hpart hst hname.symm (lowers_compileParts_nil hpart rfl tag.name children)

/-- The code of a text. -/
theorem lowers_text (value : Bytes) (span : Markup.Span) :
    Lowers (fun st => (.ok (), compileNode embed env (.text value span) st)) (fun k => lower k (.text value span)) 0 := by
  intro st hst
  have hadd : compileNode embed env (.text value span) st = st.emit env.part (lower st.labels (.text value span)) := by
    by_cases hvalue : value = []
    · cases hp : env.part <;> simp [compileNode, State.add, Output.add, lower, State.emit, Output.append, hvalue]
    · simp [compileNode, State.add, Output.add, lower, State.emit, hvalue, hst.loader]
  have hwrote := wrote_emit hpart st (lower st.labels (.text value span))
  exact ⟨_, congrArg (Prod.mk _) hadd, rfl, .of_eq (hwrote.ready hst) rfl hwrote⟩

theorem lowers_interpolation (expr : Bytes) (escaped : Bool) (span : Markup.Span) :
    Lowers (fun st => (.ok (), compileNode embed env (.interpolation expr escaped span) st))
      (fun _ => [.emit expr escaped]) 0 := by
  intro st hst
  have hwrote := wrote_emit hpart st [.emit expr escaped]
  simp only [compileNode, hst.loader, if_true]
  exact ⟨_, rfl, rfl, .of_eq (hwrote.ready hst) rfl hwrote⟩

end Nodes

/-! ### Trees of control directives -/

/-- Control templates are written as their code. -/
def lowered : Writing := ⟨lower, labels⟩

theorem count_lowered (ns : List Node) : lowered.count ns = labelsAll ns := by
  induction ns with
  | nil => rfl
  | cons n ns ih =>
    rw [Writing.count, labelsAll, ih]
    rfl

theorem countOfParts_lowered (numbered : Bytes) : ∀ ns : List Node,
    lowered.countOfParts numbered ns = labelsOfParts numbered ns
  | [] => rfl
  | .part _ _ children :: ns => by
    simp only [Writing.countOfParts, labelsOfParts, countOfParts_lowered numbered ns, count_lowered]
  | .text _ _ :: ns | .interpolation _ _ _ :: ns | .directive _ _ :: ns => countOfParts_lowered numbered ns

theorem code_lowered : ∀ (ns : List Node) (n : Nat), lowered.code n ns = lowerAll n ns
  | [], _ => rfl
  | c :: ns, n => by
    rw [Writing.code, lowerAll, code_lowered ns, code_lowered ns]
    rfl

theorem alternatives_lowered (stop : Int) : ∀ (ns : List Node) (next : Int) (n : Nat),
    lowered.alternatives stop next n ns = lowerElse stop next n ns
  | [], _, _ => rfl
  | .part _ _ children :: ns, next, n => by
    simp only [Writing.alternatives, lowerElse, alternatives_lowered stop ns, code_lowered, count_lowered]
  | .text _ _ :: ns, next, n | .interpolation _ _ _ :: ns, next, n | .directive _ _ :: ns, next, n =>
    alternatives_lowered stop ns next n

theorem choices_lowered (subject : Bytes) (stop : Int) : ∀ (ns : List Node) (n : Nat),
    lowered.choices subject stop n ns = lowerCases subject stop n ns
  | [], _ => rfl
  | .part _ _ children :: ns, n => by
    simp only [Writing.choices, lowerCases, choices_lowered subject stop ns, code_lowered, count_lowered]
  | .text _ _ :: ns, n | .interpolation _ _ _ :: ns, n | .directive _ _ :: ns, n =>
    choices_lowered subject stop ns n

theorem parts_lowered : ∀ (ns : List Node) (n : Nat), lowered.parts n ns = lowerParts n ns
  | [], _ => rfl
  | .part _ _ children :: ns, n => by
    simp only [Writing.parts, lowerParts, parts_lowered ns, code_lowered, count_lowered]
  | .text _ _ :: ns, n | .interpolation _ _ _ :: ns, n | .directive _ _ :: ns, n => parts_lowered ns n

theorem controlCount_lowered (tag : Tag) (children : List Node) :
    lowered.controlCount tag children = labels (.directive tag children) := by
  simp only [Writing.controlCount, labels, count_lowered, countOfParts_lowered]

theorem control_lowered {d : Definition} (hd : d ∈ [ifDirective, switchDirective, eachDirective, setDirective]) {tag : Tag}
    (hname : d.name = tag.name) (n : Nat) (children : List Node) :
    lowered.control n tag children = lower n (.directive tag children) := by
  simp only [Writing.control, lower, code_lowered, count_lowered, alternatives_lowered, choices_lowered, parts_lowered]
  simp only [List.mem_cons, List.not_mem_nil, or_false] at hd
  rcases hd with rfl | rfl | rfl | rfl <;> simp only [← hname] <;> rfl

section Trees
variable {embed : Embedder} {env : Env} (hpart : env.part = .body)
include hpart

variable (hregistry : env.registry = registry)
include hregistry

theorem nodeLowers_directive {tag : Tag} {children : List Node} (hname : tag.name ∈ names)
    (hbody : Lowers (compileNodes embed env .regular children) (fun k => lowered.code k children) (lowered.count children))
    (hbodies : BodiesLower lowered embed env children) : NodeLowers lowered embed env (.directive tag children) := by
  refine lowers_directive hpart fun d hd st hst hdata => ?_
  obtain ⟨hd, hdname⟩ := mem_all_of_lookup (hregistry ▸ hd)
  have hcontrol : d ∈ [ifDirective, switchDirective, eachDirective, setDirective] := by
    rw [← hdname] at hname
    simp only [all, List.mem_cons, List.not_mem_nil, or_false] at hd ⊢
    rcases hd with rfl | rfl | rfl | rfl | hd
    · exact .inl rfl
    · exact .inr (.inl rfl)
    · exact .inr (.inr (.inl rfl))
    · exact .inr (.inr (.inr rfl))
    · -- the other directives have other names
      rcases hd with rfl | rfl | rfl | rfl | rfl | rfl | rfl | rfl | rfl | rfl <;> exact absurd hname (by decide)
  have hends := ends_control hpart hcontrol hdname hbody hbodies hst hdata
  rwa [control_lowered hcontrol hdname, controlCount_lowered] at hends

omit hpart hregistry in
theorem mem_tags_of_mem {n : Node} {t : Tag} (ht : t ∈ n.tags) : ∀ ns : List Node, n ∈ ns → t ∈ Node.tagsList ns
  | m :: ns, hn => by
    rw [Node.tagsList, List.mem_append]
    rcases List.mem_cons.mp hn with rfl | hn
    · exact Or.inl ht
    · exact Or.inr (mem_tags_of_mem ht ns hn)

/-- Every node of control directives is written as its code, and so are its children. -/
theorem nodeLowers (n : Node) (hn : ∀ t ∈ n.tags, t.name ∈ names) :
    (n.isPart = false → NodeLowers lowered embed env n) ∧ Lowers (compileNodes embed env .regular n.children)
      (fun k => lowered.code k n.children) (lowered.count n.children) := by
  induction n using Node.byChildren with
  | h n ih =>
    have hchild : ∀ c ∈ n.children, ∀ t ∈ c.tags, t.name ∈ names := by
      intro c hc t ht
      cases n with
      | text | interpolation => cases hc
      | directive tag children | part owner tag children =>
        exact hn t (List.mem_cons_of_mem _ (mem_tags_of_mem ht children hc))
    have hbody := lowers_compileNodes hpart .regular n.children fun c hc => (ih c hc (hchild c hc)).1
    refine ⟨fun hregular => ?_, hbody⟩
    cases n with
    | text value span => exact lowers_text hpart value span
    | interpolation expr escaped span => exact lowers_interpolation hpart expr escaped span
    | directive tag children =>
      exact nodeLowers_directive hpart hregistry (hn tag List.mem_cons_self) hbody
        fun c hc => (ih c hc (hchild c hc)).2
    | part owner tag children => cases hregular

end Trees

/-! ### Templates -/

section Templates
variable {env : Env}

theorem uses_eq_false {allowed : List Bytes} (hallowed : ∀ name ∈ env.unit.used, name ∈ allowed) {name : Bytes}
    (hname : name ∉ allowed) : env.unit.uses name = false := by
  have hcount : env.unit.used.count name = 0 := List.count_eq_zero.mpr fun h => hname (hallowed name h)
  simp [UnitInfo.uses, UnitInfo.count, hcount]

/-- No directive is used whose hooks write at the start or the end of a template. -/
structure Unhooked (env : Env) : Prop where
  layout : env.unit.uses "extends" = false
  yields : env.unit.uses "yield" = false
  stack : env.unit.uses "stack" = false

theorem unhooked_of {allowed : List Bytes} (hallowed : ∀ name ∈ env.unit.used, name ∈ allowed)
    (hnone : ∀ name ∈ ([("extends" : Bytes), "yield", "stack"] : List Bytes), name ∉ allowed) : Unhooked env :=
  ⟨uses_eq_false hallowed (hnone _ (by simp)), uses_eq_false hallowed (hnone _ (by simp)),
    uses_eq_false hallowed (hnone _ (by simp))⟩

variable (hunhooked : Unhooked env) (hregistry : env.registry = registry)
include hunhooked hregistry

/-- The hooks at the start of such a template write nothing. -/
theorem start_eq : env.start = { memory := Assoc.insert stackNamesKey (.record []) [] } := by
  have hnone : runFileHook { env with part := .pre } extendsDirective extendsDirective.onInitFile {} = {} := by
    simp only [runFileHook, extendsDirective, hunhooked.layout]
    rfl
  rw [Env.start, show env.registry.definitions = all by rw [hregistry]; rfl]
  change runFileHook { env with part := .pre } stackDirective stackDirective.onInitFile
    (runFileHook { env with part := .pre } extendsDirective extendsDirective.onInitFile {}) = _
  rw [hnone]
  rfl

/-- The hooks at its end do nothing. -/
theorem finish_eq (st : State) : env.finish st = st := by
  rw [Env.finish, show env.registry.definitions = all by rw [hregistry]; rfl]
  change runFileHook { env with part := .post } stackDirective stackDirective.onEndFile
    (runFileHook { env with part := .post } yieldDirective yieldDirective.onEndFile
      (runFileHook { env with part := .post } extendsDirective extendsDirective.onEndFile st)) = st
  have h₁ : runFileHook { env with part := .post } extendsDirective extendsDirective.onEndFile st = st := by
    simp only [runFileHook, extendsDirective, hunhooked.layout]
    rfl
  have h₂ : runFileHook { env with part := .post } yieldDirective yieldDirective.onEndFile st = st := by
    simp only [runFileHook, yieldDirective, hunhooked.yields]
    rfl
  have h₃ : runFileHook { env with part := .post } stackDirective stackDirective.onEndFile st = st := by
    simp only [runFileHook, stackDirective, hunhooked.stack]
    rfl
  rw [h₁, h₂, h₃]

end Templates

/-- A template without such hooks has the code that its nodes write, when it compiles without errors. -/
theorem instrs_of_lowers {options : Options} {path : Bytes} {nodes : List Node}
    (hunhooked : Unhooked (options.env registry path nodes)) {code : Nat → List Instr} {count : Nat}
    (hnodes : Lowers (compileNodes embedder (options.env registry path nodes) .all nodes) code count)
    {t : Template} (ht : (generate registry options path false nodes).result = .ok t) (herrors : t.errors = []) :
    t.instrs = code 0 := by
  have hresult := generate_result registry options path nodes
  rw [start_eq hunhooked rfl] at hresult
  obtain ⟨st, hrun, -, hgrows⟩ := hnodes { memory := Assoc.insert stackNamesKey (.record []) [] } ⟨rfl, rfl⟩
  simp only [hrun, andThen, finish_eq hunhooked rfl, ht, Except.ok.injEq] at hresult
  have hwrote := hgrows.holds (by rw [hresult] at herrors; simp [show st.errors = [] from herrors])
  rw [hresult]
  simp [Template.instrs, State.template, hwrote.pre, hwrote.body, hwrote.post]

/-- The directives that a template uses have names of its tags. -/
theorem mem_names_of_used {options : Options} {path : Bytes} {nodes : List Node} {allowed : List Bytes}
    (htags : ∀ t ∈ Node.tagsList nodes, t.name ∈ allowed) :
    ∀ name ∈ (options.env registry path nodes).unit.used, name ∈ allowed := by
  intro name hname
  obtain ⟨tag, htag, rfl⟩ := List.mem_map.mp hname
  exact htags tag (List.mem_filter.mp htag).1

/-- A template of control directives that compiles without errors has the code of its tree. -/
theorem instrs_of_control (options : Options) (path : Bytes) {nodes : List Node} (hcontrol : IsControl nodes)
    {t : Template} (ht : (generate registry options path false nodes).result = .ok t) (herrors : t.errors = []) :
    t.instrs = lowerAll 0 nodes := by
  have hunhooked : Unhooked (options.env registry path nodes) := unhooked_of (mem_names_of_used hcontrol) (by decide)
  have hnodes : ∀ n ∈ nodes, n.isPart = false → NodeLowers lowered embedder (options.env registry path nodes) n :=
    fun n hn => (nodeLowers rfl rfl n fun tag htag => hcontrol tag (mem_tags_of_mem htag nodes hn)).1
  rw [← code_lowered]
  exact instrs_of_lowers hunhooked (lowers_compileNodes rfl .all nodes hnodes) ht herrors

end Stencil.Control
