import Mathlib.Data.List.Basic
import Stencil.Compile.Resolver
import Stencil.Proofs.Compile.Rollback
import Stencil.Proofs.Compile.Trees
import Stencil.Proofs.Directive.Requests

/-! # Compiling again with other templates

Two compilations of one source with different templates around it go through the same states as long as
the first records no error and both find the same for each template that the first includes. Only an
include that falls back to its path looks at a template without recording it. -/

namespace Stencil.Compile

open Stencil.Directive
open Stencil.Directive.Standard
open Stencil.Markup (Node Tag)

/-! ### Two runs side by side -/

section Tracks
variable {α β : Type} (I : Assoc Bytes Bytes → Prop) (good : State → Prop)

/-- A run keeps `I` of the dependencies, and another one does the same if the first ends in a good state. -/
def Tracks (st : State) (o o' : Outcome α) : Prop := I st.deps → I o.2.deps ∧ (good o.2 → o' = o)

/-- As `Tracks`, but nothing is said of the other run when the first one fails. -/
def TracksOk (st : State) (o o' : Outcome α) : Prop :=
  I st.deps → I o.2.deps ∧ ∀ a, o.1 = .ok a → good o.2 → o' = o

/-- As `Tracks`, for steps that cannot fail. -/
def TracksState (st s s' : State) : Prop := I st.deps → I s.deps ∧ (good s → s' = s)

/-- The answers to requests track one another. -/
structure TracksRequests (ask ask' : Requests) : Prop where
  growing : ask.Keeps State.Extends
  compile : ∀ which st, Tracks I good st (ask.compile which st) (ask'.compile which st)
  chain : ∀ st, Tracks I good st (ask.chain st) (ask'.chain st)
  literalText : ask'.literalText = ask.literalText

/-- What is good stays good when it is looked at earlier. -/
def Backward : Prop := ∀ st st' : State, st.Extends st' → good st' → good st

variable {I good} {env env' : Env} {ask ask' : Requests} {st : State} {o o' : Outcome α}

theorem Tracks.ok (h : Tracks I good st o o') : TracksOk I good st o o' := fun hI =>
  ⟨(h hI).1, fun _ _ => (h hI).2⟩

/-- A run that fails keeps `I`, and that is all. -/
theorem tracksOk_failed {e : Failure} {st' : State} (h : I st.deps → I st'.deps) :
    TracksOk I good st ((.error e, st') : Outcome α) o' := fun hI => ⟨h hI, by simp⟩

theorem Tracks.mono {good' : State → Prop} (h : Tracks I good st o o') (hgood : ∀ s, good' s → good s) :
    Tracks I good' st o o' := fun hI => ⟨(h hI).1, fun hg => (h hI).2 (hgood _ hg)⟩

theorem TracksState.mono {good' : State → Prop} {s s' : State} (h : TracksState I good st s s')
    (hgood : ∀ s, good' s → good s) : TracksState I good' st s s' := fun hI =>
  ⟨(h hI).1, fun hg => (h hI).2 (hgood _ hg)⟩

/-- What the chain at hand remembers is not looked at. -/
theorem TracksState.data (hdata : ∀ s data, good { s with data } ↔ good s) {s s' : State} {before after : Bindings}
    (h : TracksState I good { st with data := before } s s') :
    TracksState I good st { s with data := after } { s' with data := after } := fun hI =>
  ⟨(h hI).1, fun hg => by rw [(h hI).2 ((hdata s after).mp hg)]⟩

/-- A step that cannot fail, and what comes after it. -/
theorem TracksState.andThen (hgood : Backward good) {s s' : State} {f f' : State → Outcome α}
    (h : TracksState I good st s s') (hf : ∀ st, Tracks I good st (f st) (f' st))
    (hextends : ∀ st : State, st.Extends (f st).2) : Tracks I good st (f s) (f' s') := by
  intro hI
  obtain ⟨hI₁, heq⟩ := h hI
  obtain ⟨hI₂, heq₂⟩ := hf s hI₁
  refine ⟨hI₂, fun hg => ?_⟩
  rw [heq (hgood _ _ (hextends s) hg)]
  exact heq₂ hg

theorem TracksOk.andThen (hgood : Backward good) {f f' : α → State → Outcome β} (h : TracksOk I good st o o')
    (hf : ∀ a st₁, TracksOk I good st₁ (f a st₁) (f' a st₁)) (hextends : ∀ a (st₁ : State), st₁.Extends (f a st₁).2) :
    TracksOk I good st (andThen o f) (andThen o' f') := by
  intro hI
  obtain ⟨hI₁, heq⟩ := h hI
  obtain ⟨r, st₁⟩ := o
  cases r with
  | error e => exact ⟨hI₁, fun a ha => nomatch ha⟩
  | ok a =>
    obtain ⟨hI₂, heq₂⟩ := hf a st₁ hI₁
    refine ⟨hI₂, fun b hb hg => ?_⟩
    rw [heq a rfl (hgood _ _ (hextends a st₁) hg)]
    exact heq₂ b hb hg

/-- Scripts that ask for no other template track themselves. -/
theorem tracks_runScript (hgood : Backward good) (hpart : env'.part = env.part) (hask : TracksRequests I good ask ask')
    {allowed : Instr → Prop} {P : α → Prop} {s : Script α} (hs : s.Local allowed P) (st : State) :
    Tracks I good st (runScript env ask s st) (runScript env' ask' s st) := by
  have hplace : ∀ place, env'.place place = env.place place := by rintro (_ | _ | _) <;> simp [Env.place, hpart]
  induction s generalizing st with
  | done a | fail e | abort text => exact fun hI => ⟨hI, fun _ => rfl⟩
  | emit place instrs next ih =>
    simp only [runScript, hplace]
    exact ih hs.2 (st.emit _ instrs)
  | add text next ih =>
    simp only [runScript, hpart]
    exact ih hs (st.add _ text)
  | newLabel next ih => exact ih _ (hs _) { st with labels := st.labels + 1 }
  | loader next ih => exact ih _ (hs _) st
  | useLoader name next ih => exact ih hs { st with out := { st.out with loader := name } }
  | literalText which next ih =>
    simp only [runScript, hask.literalText]
    exact ih _ (hs _) st
  | getState key next ih => exact ih _ (hs _) st
  | setState key value next ih => exact ih hs { st with memory := Assoc.insert key value st.memory }
  | getData key next ih => exact ih _ (hs _) st
  | setData key value next ih => exact ih hs { st with data := Assoc.insert key value st.data }
  | log line next ih => exact ih hs { st with log := st.log ++ [line] }
  | cancel next ih => exact ih hs { st with canceled := true }
  | resolve path next ih => exact hs.elim
  | embed path src bindings next ih => exact hs.elim
  | compile which next ih =>
    intro hI
    obtain ⟨hI₁, heq⟩ := hask.compile which st hI
    obtain ⟨hI₂, heq₂⟩ := ih _ (hs _) _ hI₁
    refine ⟨hI₂, fun hg => ?_⟩
    simp only [runScript, heq (hgood _ _ (kept_extends.runScript hask.growing (Script.only_true _) _) hg)]
    exact heq₂ hg
  | chain next ih =>
    intro hI
    obtain ⟨hI₁, heq⟩ := hask.chain st hI
    obtain ⟨hI₂, heq₂⟩ := ih _ (hs _) _ hI₁
    refine ⟨hI₂, fun hg => ?_⟩
    simp only [runScript, heq (hgood _ _ (kept_extends.runScript hask.growing (Script.only_true _) _) hg)]
    exact heq₂ hg

theorem tracksOk_runHook (hgood : Backward good) (hpart : env'.part = env.part) (hask : TracksRequests I good ask ask')
    {allowed : Instr → Prop} {hook : Option (Call → Script Unit)}
    (hhook : ∀ f ∈ hook, ∀ call, (f call).Local allowed fun _ => True) (call : Call) (st : State) :
    TracksOk I good st (runHook env ask call hook st) (runHook env' ask' call hook st) := by
  cases hook with
  | none => exact fun hI => ⟨hI, fun _ _ _ => rfl⟩
  | some f => exact (tracks_runScript hgood hpart hask (hhook f rfl call) st).ok

/-- The life of a directive tracks itself when its hook for the arguments does and its other hooks ask for
no other template. -/
theorem tracksOk_lifecycle (hgood : Backward good) (hpart : env'.part = env.part) (hunit : env'.unit = env.unit)
    (hask : TracksRequests I good ask ask') (allowed : Instr → Prop) {d : Definition} {tag : Tag} {owner : Bytes}
    (hinit : ∀ f ∈ d.onInit, ∀ call, (f call).Local allowed fun _ => True)
    (hparams : ∀ args, Argument.read tag.expr d.params = .ok args → ∀ st, TracksOk I good st
      (runHook env ask ⟨tag, args, owner, env.unit⟩ d.onParams st)
      (runHook env' ask' ⟨tag, args, owner, env.unit⟩ d.onParams st))
    (hchildren : ∀ f ∈ d.onChildren, ∀ call, (f call).Local allowed fun _ => True)
    (hend : ∀ f ∈ d.onEnd, ∀ call, (f call).Local allowed fun _ => True) (st : State) :
    TracksOk I good st (lifecycle env ask tag d owner st) (lifecycle env' ask' tag d owner st) := by
  unfold lifecycle
  rw [hunit]
  split
  · exact fun hI => ⟨hI, fun _ _ _ => rfl⟩
  · rename_i args hargs
    have hgrow := hask.growing
    refine (tracksOk_runHook hgood hpart hask hinit _ st).andThen hgood (fun _ st₁ => ?_) fun _ st₁ => ?_
    · refine (hparams args hargs st₁).andThen hgood (fun _ st₂ => ?_) fun _ st₂ =>
        kept_extends.ending hgrow d.only_true _ st₂
      refine TracksOk.andThen hgood ?_ (fun _ st₃ => tracksOk_runHook hgood hpart hask hend _ st₃)
        fun _ st₃ => kept_extends.runHook hgrow d.only_true.onEnd _ st₃
      split
      · rename_i f hf
        exact (tracks_runScript hgood hpart hask (hchildren f hf _) st₂).ok
      · exact (hask.compile .regular st₂).ok.andThen hgood (fun _ st₃ => (hask.chain st₃).ok)
          fun _ st₃ => hgrow.chain st₃
    · exact kept_extends.andThen (kept_extends.runHook hgrow d.only_true.onParams _ st₁) fun _ st₂ =>
        kept_extends.ending hgrow d.only_true _ st₂

/-- A use of a directive that fails records an error, so a good end means that it did not. -/
theorem tracks_contained (hclean : ∀ s, good s → s.errors = []) {tag : Tag} {d : Definition} {owner : Bytes}
    (h : TracksOk I good st (lifecycle env ask tag d owner st) (lifecycle env' ask' tag d owner st)) :
    TracksState I good st (contained env ask tag d owner st) (contained env' ask' tag d owner st) := by
  intro hI
  obtain ⟨hI', heq⟩ := h hI
  unfold contained
  rcases hlife : lifecycle env ask tag d owner st with ⟨e | u, after⟩ <;> rw [hlife] at hI' heq
  · exact ⟨hI', fun hg => by simpa [State.rollback, State.report] using hclean _ hg⟩
  · exact ⟨hI', fun hg => by rw [heq u rfl hg]⟩

end Tracks

/-! ### What is found -/

/-- The path that an include writes as text when no template is there. -/
def fallbackPath? (tag : Tag) : Option Bytes :=
  match Argument.read tag.expr includeDirective.params with
  | .error _ => none
  | .ok args =>
    match args.string "path", args.bool "fallback" with
    | .ok path, .ok true => some path
    | _, _ => none

/-- Where an include fell back to its path it still does. -/
def StaysMissing (old new : Resolver) (tags : List Tag) : Prop :=
  ∀ tag ∈ tags, tag.name = "include" → ∀ path, fallbackPath? tag = some path →
    ∀ e, old path = .error e → ∃ e', new path = .error e'

/-- The digests are those of the templates that are found. -/
def Recorded (old : Resolver) (deps : Assoc Bytes Bytes) : Prop :=
  ∀ path digest, Assoc.get? path deps = some digest → ∃ src, old path = .ok src ∧ digest = Text.Digest.sha256 src

/-- Nothing went wrong so far, and both find the same for each template that was included, in which includes
that fell back still do. -/
structure Settled (old new : Resolver) (options : Markup.ParseOptions) (st : State) : Prop where
  errors : st.errors = []
  running : st.canceled = false
  found : ∀ path, Assoc.has path st.deps = true → new path = old path
  missing : ∀ path src nodes, Assoc.has path st.deps = true → old path = .ok src →
    Markup.parse registry options path src = .ok nodes → StaysMissing old new (Node.tagsList nodes)

/-- Settled, with some includes at hand. -/
def SettledWith (old new : Resolver) (options : Markup.ParseOptions) (tags : List Tag) (st : State) : Prop :=
  StaysMissing old new tags ∧ Settled old new options st

/-- Fewer includes at hand. -/
theorem SettledWith.subset {old new : Resolver} {options : Markup.ParseOptions} {tags tags' : List Tag}
    (hsub : ∀ t ∈ tags, t ∈ tags') (st : State) (h : SettledWith old new options tags' st) :
    SettledWith old new options tags st :=
  ⟨fun tag htag => h.1 tag (hsub tag htag), h.2⟩

theorem backward_settled (old new : Resolver) (options : Markup.ParseOptions) (tags : List Tag) :
    Backward (SettledWith old new options tags) := by
  rintro st st' hst ⟨htags, h⟩
  obtain ⟨more, hmore, -⟩ := hst.errors
  refine ⟨htags, ?_, ?_, fun path hpath => h.found path (hst.deps path hpath),
    fun path src nodes hpath => h.missing path src nodes (hst.deps path hpath)⟩
  · exact (List.append_eq_nil_iff.mp (hmore.symm.trans h.errors)).1
  · cases hcanceled : st.canceled with
    | false => rfl
    | true => exact absurd (hst.canceled hcanceled) (by simp [h.running])

/-- What is looked up is found with a resolver, or was found with it ahead. -/
structure Env.Finds (env : Env) (r : Resolver) : Prop where
  running : ∀ st path, st.canceled = false → env.resolve st path = r path
  found : ∀ st path src, env.resolve st path = .ok src → r path = .ok src

/-- The same with other templates around. -/
def Env.among (env : Env) (r : Resolver) (ahead : Assoc Bytes Bytes) : Env :=
  { env with resolver := some r, prefetched := ahead }

theorem registry_among (env : Env) (r : Resolver) (ahead : Assoc Bytes Bytes) :
    (env.among r ahead).registry = env.registry := rfl

theorem get?_prefetch (r : Resolver) (paths : List Bytes) :
    ∀ path src, Assoc.get? path (prefetch r paths) = some src → r path = .ok src := by
  refine List.foldlRecOn (motive := fun found => ∀ path src, Assoc.get? path found = some src → r path = .ok src)
    paths _ nofun fun found hfound p _ path src h => ?_
  split at h
  · rename_i text htext
    by_cases hpath : path = p
    · subst hpath
      rw [Assoc.get?_insert_self] at h
      exact Option.some.inj h ▸ htext
    · exact hfound path src (Assoc.get?_insert_ne hpath text found ▸ h)
  · exact hfound path src h

/-- A table of what the resolver finds does not change what is found. -/
theorem finds_of_found (env : Env) {r : Resolver} {ahead : Assoc Bytes Bytes}
    (hahead : ∀ path src, Assoc.get? path ahead = some src → r path = .ok src) : (env.among r ahead).Finds r := by
  constructor
  · intro st path hst
    simp only [Env.resolve, Env.among, hst, Bool.false_eq_true, if_false]
    split
    · exact (hahead path _ ‹_›).symm
    · rfl
  · intro st path src h
    simp only [Env.resolve, Env.among] at h
    split at h
    · exact Except.ok.inj h ▸ hahead path _ ‹_›
    · split at h
      · cases h
      · exact h

theorem finds_among (env : Env) (r : Resolver) (paths : List Bytes) : (env.among r (prefetch r paths)).Finds r :=
  finds_of_found env (get?_prefetch r paths)

/-! ### Includes -/

section Includes
variable {old new : Resolver} {options : Markup.ParseOptions} {env : Env} {ahead : Assoc Bytes Bytes}

/-- Included sources track themselves, and are recorded. -/
def TracksEmbed (old new : Resolver) (ahead : Assoc Bytes Bytes) (embed : Embedder) : Prop :=
  ∀ env : Env, env.registry = registry → env.Finds old → (env.among new ahead).Finds new →
    ∀ path src bindings st, old path = .ok src →
      TracksOk (Recorded old) (Settled old new env.options) st (embed env path src bindings st)
        (embed (env.among new ahead) path src bindings st) ∧
      ∀ u, (embed env path src bindings st).1 = .ok u → Assoc.has path (embed env path src bindings st).2.deps = true

/-- An include is recorded when it succeeds. One that falls back is not, and must still do so. -/
theorem tracksOk_include {ask ask' : Requests} (hfinds : env.Finds old) (hfinds' : (env.among new ahead).Finds new)
    (hgrow : ask.Keeps State.Extends)
    (hembed : ∀ path src bindings st, old path = .ok src →
      TracksOk (Recorded old) (Settled old new options) st (ask.embed path src bindings st)
        (ask'.embed path src bindings st) ∧
      ∀ u, (ask.embed path src bindings st).1 = .ok u → Assoc.has path (ask.embed path src bindings st).2.deps = true)
    {tags : List Tag} {tag : Tag} (htag : tag ∈ tags) (hname : tag.name = "include") {args : Argument.Arguments}
    (hargs : Argument.read tag.expr includeDirective.params = .ok args) (owner : Bytes) (st : State) :
    TracksOk (Recorded old) (SettledWith old new options tags) st
      (runHook env ask ⟨tag, args, owner, env.unit⟩ includeDirective.onParams st)
      (runHook (env.among new ahead) ask' ⟨tag, args, owner, env.unit⟩ includeDirective.onParams st) := by
  simp only [includeDirective, runHook, runScript_bind]
  cases hpath : args.string "path" with
  | error e => exact tracksOk_failed id
  | ok path =>
    cases hfallback : args.bool "fallback" with
    | error e => exact tracksOk_failed id
    | ok fallback =>
      simp only [runScript_ofRead_ok, andThen, runScript]
      cases hfound : env.resolve st path with
      | ok src =>
        simp only [runScript, runScript_ofExcept]
        intro hI
        obtain ⟨htracks, hdep⟩ := hembed path src (args.rawD "with") st (hfinds.found st path src hfound)
        obtain ⟨hI', heq⟩ := htracks hI
        refine ⟨hI', fun u hu hg => ?_⟩
        have hst := backward_settled old new options tags _ _ (hgrow.embed path src (args.rawD "with") st) hg
        -- a success is recorded, so both find the same text
        have hfound' : (env.among new ahead).resolve st path = .ok src := by
          rw [hfinds'.running st path hst.2.running, hg.2.found path (hdep u hu)]
          exact hfinds.found st path src hfound
        simp only [hfound', runScript, runScript_ofExcept]
        exact heq u hu hg.2
      | error e =>
        cases fallback with
        | false => exact tracksOk_failed id
        | true =>
          refine fun hI => ⟨hI, fun u _ hg => ?_⟩
          have hst := backward_settled old new options tags _ _ (State.Extends.add st env.part path) hg
          have hmissing : fallbackPath? tag = some path := by simp [fallbackPath?, hargs, hpath, hfallback]
          obtain ⟨e', he'⟩ := hg.1 tag htag hname path hmissing e (hfinds.running st path hst.2.running ▸ hfound)
          rw [← hfinds'.running st path hst.2.running] at he'
          simp only [he', if_true]
          rfl

end Includes

/-! ### Nodes -/

section Nodes
variable {old new : Resolver} {ahead : Assoc Bytes Bytes} {embed : Embedder} {env : Env}

/-- Compiling the node, as a node or as a part of a flat chain, tracks itself. -/
def NodeTracks (old new : Resolver) (ahead : Assoc Bytes Bytes) (embed : Embedder) (env : Env) (n : Node) : Prop :=
  (∀ st, TracksState (Recorded old) (SettledWith old new env.options n.tags) st (compileNode embed env n st)
    (compileNode embed (env.among new ahead) n st)) ∧
  ∀ d owner, (∀ p ∈ d.parts, p.Local Defers ∧ p.parts = []) → ∀ st,
    TracksState (Recorded old) (SettledWith old new env.options n.tags) st (compilePart embed env d owner n st)
      (compilePart embed (env.among new ahead) d owner n st)

/-- A step that records an error is not followed. -/
theorem tracks_reject (tags : List Tag) (options : Markup.ParseOptions) (st : State) (tag : Tag) (kind : DiagnosticKind)
    (message : Bytes) (s' : State) :
    TracksState (Recorded old) (SettledWith old new options tags) st (st.reject env tag kind message) s' :=
  fun hI => ⟨hI, fun hg => by simpa [State.reject, State.report] using hg.2.errors⟩

variable (hextends : embed.Keeps anything State.Extends)
include hextends

theorem tracks_compileNodes (which : Selection) : ∀ ns : List Node, (∀ n ∈ ns, NodeTracks old new ahead embed env n) →
    ∀ st, Tracks (Recorded old) (SettledWith old new env.options (Node.tagsList ns)) st
      (compileNodes embed env which ns st) (compileNodes embed (env.among new ahead) which ns st)
  | [], _, _ => fun hI => ⟨hI, fun _ => rfl⟩
  | n :: ns, h, st => by
    have hrest := fun st => (tracks_compileNodes which ns (fun m hm => h m (List.mem_cons_of_mem n hm)) st).mono
      (SettledWith.subset fun _ => List.mem_append_right n.tags)
    simp only [compileNodes]
    split
    · split
      · exact fun hI => ⟨hI, fun _ => rfl⟩
      · exact (((h n List.mem_cons_self).1 st).mono (SettledWith.subset fun _ => List.mem_append_left _)).andThen
          (backward_settled _ _ _ _) hrest (kept_extends.compileNodes vetted_anything (uses_anything env) hextends which ns)
    · exact hrest st

theorem tracks_compileParts {d : Definition} (owner : Bytes)
    (hparts : ∀ p ∈ d.parts, p.Local Defers ∧ p.parts = []) :
    ∀ ns : List Node, (∀ n ∈ ns, NodeTracks old new ahead embed env n) →
    ∀ st, Tracks (Recorded old) (SettledWith old new env.options (Node.tagsList ns)) st
      (compileParts embed env d owner ns st) (compileParts embed (env.among new ahead) d owner ns st)
  | [], _, _ => fun hI => ⟨hI, fun _ => rfl⟩
  | n :: ns, h, st => by
    have hrest := fun st => (tracks_compileParts owner hparts ns (fun m hm => h m (List.mem_cons_of_mem n hm)) st).mono
      (SettledWith.subset fun _ => List.mem_append_right n.tags)
    simp only [compileParts]
    split
    · split
      · exact fun hI => ⟨hI, fun _ => rfl⟩
      · exact (((h n List.mem_cons_self).2 d owner hparts st).mono
          (SettledWith.subset fun _ => List.mem_append_left _)).andThen
          (backward_settled _ _ _ _) hrest (kept_extends.compileParts vetted_anything (uses_anything env) hextends (D := anything) trivial owner ns)
    · exact hrest st

section Flat
variable {tags : List Tag} {children : List Node} (hsub : ∀ t ∈ Node.tagsList children, t ∈ tags)
  (hchildren : ∀ n ∈ children, NodeTracks old new ahead embed env n)
include hsub hchildren

theorem tracksRequests {d : Definition} (owner : Bytes)
    (hparts : ∀ p ∈ d.parts, p.Local Defers ∧ p.parts = []) :
    TracksRequests (Recorded old) (SettledWith old new env.options tags)
      (requests embed env d owner children) (requests embed (env.among new ahead) d owner children) where
  growing := kept_extends.requests vetted_anything (uses_anything env) hextends trivial owner children
  compile which st := (tracks_compileNodes hextends which children hchildren st).mono (SettledWith.subset hsub)
  chain st := (tracks_compileParts hextends owner hparts children hchildren st).mono (SettledWith.subset hsub)
  literalText := rfl

/-- A directive whose hooks ask for no other template tracks itself when its children do. -/
theorem tracks_local {d : Definition} (hd : d.Local Defers)
    (hparts : ∀ p ∈ d.parts, p.Local Defers ∧ p.parts = []) (tag : Tag) (owner : Bytes) (st : State) :
    TracksState (Recorded old) (SettledWith old new env.options tags) st
      (contained env (requests embed env d owner children) tag d owner st)
      (contained (env.among new ahead) (requests embed (env.among new ahead) d owner children) tag d owner st) := by
  have hask := tracksRequests hextends hsub hchildren owner hparts
  have hgood := backward_settled old new env.options tags
  have hpart : (env.among new ahead).part = env.part := rfl
  have hunit : (env.among new ahead).unit = env.unit := rfl
  refine tracks_contained (fun s hs => hs.2.errors) ?_
  exact tracksOk_lifecycle hgood hpart hunit hask _ hd.onInit
    (fun args _ st => tracksOk_runHook hgood hpart hask hd.onParams _ st) hd.onChildren hd.onEnd st

/-- An include tracks itself when what it includes does. -/
theorem tracks_include (hregistry : env.registry = registry) (hfinds : env.Finds old)
    (hfinds' : (env.among new ahead).Finds new) (hembed : TracksEmbed old new ahead embed) {tag : Tag}
    (htag : tag ∈ tags) (hname : tag.name = "include") (owner : Bytes) (st : State) :
    TracksState (Recorded old) (SettledWith old new env.options tags) st
      (contained env (requests embed env includeDirective owner children) tag includeDirective owner st)
      (contained (env.among new ahead) (requests embed (env.among new ahead) includeDirective owner children) tag
        includeDirective owner st) := by
  have hask := tracksRequests hextends hsub hchildren (d := includeDirective) owner nofun
  have hpart : (env.among new ahead).part = env.part := rfl
  have hunit : (env.among new ahead).unit = env.unit := rfl
  refine tracks_contained (fun s hs => hs.2.errors) ?_
  have hothers : ({ includeDirective with onParams := none } : Definition).Local Defers :=
    local_of_none rfl rfl rfl rfl
  exact tracksOk_lifecycle (backward_settled old new env.options tags) hpart hunit hask _ (d := includeDirective)
    hothers.onInit
    (fun args hargs st =>
      tracksOk_include hfinds hfinds' hask.growing (hembed env hregistry hfinds hfinds') htag hname hargs owner st)
    hothers.onChildren hothers.onEnd st

end Flat

/-- Every node tracks itself. -/
theorem nodeTracks (hregistry : env.registry = registry) (hfinds : env.Finds old)
    (hfinds' : (env.among new ahead).Finds new) (hembed : TracksEmbed old new ahead embed) (n : Node) :
    NodeTracks old new ahead embed env n := by
  induction n using Node.byChildren with
  | h n ih =>
    cases n with
    | text value span => exact ⟨fun st hI => ⟨hI, fun _ => rfl⟩, fun _ _ _ st hI => ⟨hI, fun _ => rfl⟩⟩
    | interpolation expr escaped span =>
      refine ⟨fun st hI => ?_, fun _ _ _ st hI => ⟨hI, fun _ => rfl⟩⟩
      simp only [compileNode]
      split
      · exact ⟨hI, fun _ => rfl⟩
      · exact ⟨hI, fun _ => rfl⟩
    | directive tag children =>
      refine ⟨fun st => ?_, fun _ _ _ st hI => ⟨hI, fun _ => rfl⟩⟩
      have hsub : ∀ t ∈ Node.tagsList children, t ∈ (Node.directive tag children).tags :=
        fun t => List.mem_cons_of_mem tag
      simp only [compileNode]
      split
      · exact tracks_reject _ _ _ _ _ _ _
      · exact tracks_reject _ _ _ _ _ _ _
      · exact tracks_reject _ _ _ _ _ _ _
      · rw [registry_among]
        split
        · exact tracks_reject _ _ _ _ _ _ _
        · rename_i d hd
          obtain ⟨hmem, hname⟩ := mem_all_of_lookup (hregistry ▸ hd)
          have htracks : TracksState (Recorded old) (SettledWith old new env.options (Node.directive tag children).tags)
              { st with data := [] }
              (contained env (requests embed env d tag.name children) tag d tag.name { st with data := [] })
              (contained (env.among new ahead) (requests embed (env.among new ahead) d tag.name children) tag d tag.name
                { st with data := [] }) := by
            by_cases hinclude : d = includeDirective
            · subst hinclude
              exact tracks_include hextends hsub ih hregistry hfinds hfinds' hembed List.mem_cons_self hname.symm _ _
            · obtain ⟨hlocal, hparts⟩ := local_of_mem_all hmem hinclude
              exact tracks_local hextends hsub ih hlocal hparts tag tag.name _
          exact htracks.data fun s data => ⟨fun h => ⟨h.1, h.2.errors, h.2.running, h.2.found, h.2.missing⟩,
            fun h => ⟨h.1, h.2.errors, h.2.running, h.2.found, h.2.missing⟩⟩
    | part parent tag children =>
      refine ⟨fun st => tracks_reject _ _ _ _ _ _ _, fun d owner hparts st => ?_⟩
      simp only [compilePart]
      split
      · exact tracks_reject _ _ _ _ _ _ _
      · rename_i p hp
        obtain ⟨hlocal, hflat⟩ := hparts p (List.mem_of_find?_eq_some hp)
        exact tracks_local hextends (fun t => List.mem_cons_of_mem tag) ih hlocal (by simp [hflat]) tag owner st

end Nodes

theorem Recorded.nil (old : Resolver) : Recorded old [] := by simp [Recorded, Assoc.get?]

theorem Recorded.insert {old : Resolver} {deps : Assoc Bytes Bytes} {path src : Bytes} (h : Recorded old deps)
    (hsrc : old path = .ok src) : Recorded old (Assoc.insert path (Text.Digest.sha256 src) deps) := by
  intro p digest hp
  by_cases hpath : p = path
  · subst hpath
    rw [Assoc.get?_insert_self] at hp
    exact ⟨src, hsrc, (Option.some.inj hp).symm⟩
  · exact h p digest (Assoc.get?_insert_ne hpath _ _ ▸ hp)

/-- Included sources track themselves. The induction is on the includes that may still follow. -/
theorem tracksEmbed_embedAt (old new : Resolver) (ahead : Assoc Bytes Bytes) :
    ∀ depth, TracksEmbed old new ahead (embedAt depth)
  | 0, _, _, _, _, _, _, _, _, _ => ⟨tracksOk_failed id, by simp [embedAt]⟩
  | depth + 1, env, hregistry, hfinds, hfinds', path, src, bindings, st, hsrc => by
    rcases embedAt_cases depth env path src with ⟨nodes, haccepts⟩ | ⟨e, hrefused⟩
    · have haccepts' : (env.among new ahead).Accepts path src nodes := ⟨haccepts.1, haccepts.2, haccepts.3⟩
      have hextends := extends_embedAt depth
      have hregistry' : (env.inside path).registry = registry := hregistry
      have hnodes (n : Node) := nodeTracks hextends hregistry' ⟨hfinds.running, hfinds.found⟩
        ⟨hfinds'.running, hfinds'.found⟩ (tracksEmbed_embedAt old new ahead depth) n
      have htracks := tracks_compileNodes hextends .all nodes (fun n _ => hnodes n)
        (st.including env.part path src bindings)
      have hgrow := kept_extends.compileNodes vetted_anything (uses_anything (env.inside path)) hextends .all nodes
        (st.including env.part path src bindings)
      rw [embedAt_of_accepts haccepts, embedAt_of_accepts haccepts']
      rcases hrun : compileNodes (embedAt depth) (env.inside path) .all nodes (st.including env.part path src bindings)
        with ⟨e | u, after⟩ <;> rw [hrun] at htracks hgrow
      · exact ⟨tracksOk_failed fun hI => (htracks (deps_including st _ _ _ _ ▸ hI.insert hsrc)).1, by simp [andThen]⟩
      · have hdep : Assoc.has path after.deps = true :=
          hgrow.deps path (by simp [deps_including, Assoc.has_insert])
        refine ⟨fun hI => ?_, fun _ _ => hdep⟩
        obtain ⟨hI', heq⟩ := htracks (deps_including st _ _ _ _ ▸ hI.insert hsrc)
        refine ⟨hI', fun _ _ hg => ?_⟩
        -- the includes in the source fall back as they did, since it is recorded
        have hmissing := hg.missing path src nodes hdep hsrc (hregistry ▸ haccepts.reads)
        have hafter := heq ⟨hmissing, hg.errors, hg.running, hg.found, hg.missing⟩
        exact congrArg (andThen · fun _ st => (.ok (), st.emit env.part [.exit .merge []])) hafter
    · rw [hrefused]
      exact ⟨tracksOk_failed id, by simp⟩

/-! ### Templates -/

section Templates
variable (env : Env)

/-- Hooks for a whole template that ask for no other template do the same among other templates. -/
theorem runFileHook_among (r : Resolver) (ahead : Assoc Bytes Bytes) (d : Definition)
    {hook : Option (UnitInfo → Script Unit)} (hhook : ∀ f ∈ hook, ∀ u, (f u).Local (fun _ => True) fun _ => True)
    (st : State) : runFileHook (env.among r ahead) d hook st = runFileHook env d hook st := by
  cases hook with
  | none => rfl
  | some f =>
    have hask : TracksRequests (fun _ => True) (fun _ => True) (fileRequests env) (fileRequests (env.among r ahead)) :=
      ⟨⟨fun _ st => .refl st, .refl, extends_embedAt maxIncludes env (uses_anything env)⟩, fun _ _ _ => ⟨trivial, fun _ => rfl⟩,
        fun _ _ => ⟨trivial, fun _ => rfl⟩, rfl⟩
    have hpart : (env.among r ahead).part = env.part := rfl
    have heq := (tracks_runScript (fun _ _ _ _ => trivial) hpart hask (hhook f rfl env.unit) st trivial).2 trivial
    have hunit : (env.among r ahead).unit = env.unit := rfl
    simp only [runFileHook, hunit, heq]

theorem start_among (hregistry : env.registry = registry) (r : Resolver) (ahead : Assoc Bytes Bytes) :
    (env.among r ahead).start = env.start := by
  refine List.foldl_ext _ _ _ fun st d hd => ?_
  change d ∈ env.registry.definitions at hd
  rw [hregistry] at hd
  exact runFileHook_among { env with part := .pre } r ahead d (local_fileHooks hd).1 st

theorem finish_among (hregistry : env.registry = registry) (r : Resolver) (ahead : Assoc Bytes Bytes) (st : State) :
    (env.among r ahead).finish st = env.finish st := by
  refine List.foldl_ext _ _ _ fun st d hd => ?_
  change d ∈ env.registry.definitions at hd
  rw [hregistry] at hd
  exact runFileHook_among { env with part := .post } r ahead d (local_fileHooks hd).2 st

end Templates

/-- The sources that went into a template: its own, and those that it included. -/
def WentInto (old : Resolver) (deps : Assoc Bytes Bytes) (path src p text : Bytes) : Prop :=
  (p = path ∧ text = src) ∨ (Assoc.has p deps = true ∧ old p = .ok text)

/-- Where digests were recorded the same is found, unless two texts share a digest. -/
theorem Recorded.found {old new : Resolver} {deps : Assoc Bytes Bytes} (h : Recorded old deps)
    (hdeps : ∀ p digest, Assoc.get? p deps = some digest → ∃ text, new p = .ok text ∧ Text.Digest.sha256 text = digest)
    (hdigests : ∀ p a b, old p = .ok a → new p = .ok b → Text.Digest.sha256 a = Text.Digest.sha256 b → a = b)
    {p : Bytes} (hp : Assoc.has p deps = true) : new p = old p := by
  obtain ⟨digest, hdigest⟩ := Option.isSome_iff_exists.mp hp
  obtain ⟨src, hsrc, heq⟩ := h p digest hdigest
  obtain ⟨text, htext, heq'⟩ := hdeps p digest hdigest
  rw [hsrc, htext, hdigests p src text hsrc htext (heq.symm.trans heq'.symm)]

/-- The paths that are loaded ahead do not depend on the templates around. -/
theorem Options.env_among (options : Options) (r : Registry) (path : Bytes) (nodes : List Node) :
    ∃ (base : Env) (paths : List Bytes), base.registry = r ∧ base.part = .body ∧ base.options = options.parse ∧
      ∀ resolver, { options with resolver := some resolver }.env r path nodes =
        base.among resolver (prefetch resolver paths) :=
  ⟨options.env r path nodes,
    if 1 < options.concurrency ∧ true then (directiveTagsList nodes).filterMap (prefetchPath r) else [],
    rfl, rfl, rfl, fun _ => rfl⟩

/-- What the nodes of a template are compiled to, with the standard directives: the template records all that
its nodes record, and it is the same among other templates when these are settled with it. -/
theorem compileNodes_among {env : Env} {old new : Resolver} {ahead : Assoc Bytes Bytes}
    (hregistry : env.registry = registry) (hpart : env.part = .body) (hfinds : env.Finds old)
    (hfinds' : (env.among new ahead).Finds new) (path : Bytes) (nodes : List Node) :
    ∃ st, compileNodes embedder env .all nodes env.start = (.ok (), st) ∧ st.canceled = false ∧
      ((env.finish st).template path).errors = st.errors ∧ ((env.finish st).template path).deps = st.deps ∧
      Recorded old st.deps ∧
      (SettledWith old new env.options (Node.tagsList nodes) st →
        compileNodes embedder (env.among new ahead) .all nodes env.start = (.ok (), st)) := by
  have hdefs : env.registry.definitions = all := hregistry ▸ rfl
  have hinit : Around {} env.start (if env.unit.uses "extends" then [.enter] else []) [] := by
    rw [Env.start, hdefs]
    exact around_initFile rfl {}
  obtain ⟨st, ss, hrun, hss, -⟩ := steady_compileNodes .all nodes
    (fun n _ => (nodeEmits hpart hregistry (embeds_embedAt maxIncludes) n).1) env.start hinit.running
  obtain ⟨code, -, hend⟩ : ∃ code, Ending (env.finish st) code ∧ Around st (env.finish st) []
      ((if env.unit.uses "extends" then [.exit .discard []] else []) ++ code) := by
    rw [Env.finish, hdefs]
    exact around_endFile rfl st
  have hnodes (n : Node) := nodeTracks (extends_embedAt maxIncludes) hregistry hfinds hfinds'
    (tracksEmbed_embedAt old new ahead maxIncludes) n
  obtain ⟨hrecorded, heq⟩ := tracks_compileNodes (extends_embedAt maxIncludes) .all nodes (fun n _ => hnodes n) env.start
    (hinit.deps ▸ .nil old)
  rw [hrun] at hrecorded heq
  exact ⟨st, hrun, hss.running.trans hinit.running, hend.errors, hend.deps, hrecorded, heq⟩

/-- A template that compiles, with what has to be settled for it to compile to the same among other templates. -/
theorem exists_settling (options : Options) (path src : Bytes) (old new : Resolver) (t : Template)
    (hold : (compileSource registry { options with resolver := some old } path false src).result = .ok t) :
    ∃ nodes st, Markup.parse registry options.parse path src = .ok nodes ∧ t.errors = st.errors ∧ t.deps = st.deps ∧
      st.canceled = false ∧ Recorded old st.deps ∧
      (SettledWith old new options.parse (Node.tagsList nodes) st →
        (compileSource registry { options with resolver := some new } path false src).result = .ok t) := by
  unfold compileSource at hold ⊢
  cases hnodes : Markup.parse registry options.parse path src with
  | error d => simp [hnodes] at hold
  | ok nodes =>
    simp only [hnodes] at hold ⊢
    rw [generate_result] at hold ⊢
    obtain ⟨base, paths, hregistry, hpart, hparse, henv⟩ := options.env_among registry path nodes
    obtain ⟨env, henvOld⟩ : ∃ env, env = base.among old (prefetch old paths) := ⟨_, rfl⟩
    have henvNew : base.among new (prefetch new paths) = env.among new (prefetch new paths) := henvOld ▸ rfl
    have hregistry : env.registry = registry := henvOld ▸ hregistry
    rw [henv, ← henvOld] at hold
    rw [henv, henvNew, start_among env hregistry]
    obtain ⟨st, hrun, hrunning, herrors, hdeps, hrecorded, heq⟩ := compileNodes_among hregistry (henvOld ▸ hpart)
      (henvOld ▸ finds_among base old paths) (finds_among env new paths) path nodes
    rw [hrun] at hold
    obtain rfl : (env.finish st).template path = t := Except.ok.inj hold
    have hparse : env.options = options.parse := henvOld ▸ hparse
    refine ⟨nodes, st, rfl, herrors, hdeps, hrunning, hrecorded, fun hsettled => ?_⟩
    rw [heq (hparse.symm ▸ hsettled)]
    simp only [andThen, finish_among env hregistry]

/-- A template holds the digests of those that it includes. -/
theorem recorded_of_compileSource {options : Options} {path src : Bytes} {resolver : Resolver} {t : Template}
    (h : (compileSource registry { options with resolver := some resolver } path false src).result = .ok t) :
    Recorded resolver t.deps := by
  obtain ⟨nodes, st, -, -, hdeps, -, hrecorded, -⟩ := exists_settling options path src resolver resolver t h
  exact hdeps ▸ hrecorded

/-- A template that compiled without errors compiles to the same among other templates, if they hold the same
where it recorded a template, and includes that fell back to their paths still do. -/
theorem compileSource_among (options : Options) (path src : Bytes) (old new : Resolver) (t : Template)
    (hold : (compileSource registry { options with resolver := some old } path false src).result = .ok t)
    (herrors : t.errors = [])
    (hdeps : ∀ p digest, Assoc.get? p t.deps = some digest → ∃ text, new p = .ok text ∧ Text.Digest.sha256 text = digest)
    (hdigests : ∀ p a b, old p = .ok a → new p = .ok b → Text.Digest.sha256 a = Text.Digest.sha256 b → a = b)
    (hmissing : ∀ p text nodes, WentInto old t.deps path src p text →
      Markup.parse registry options.parse p text = .ok nodes → StaysMissing old new (Node.tagsList nodes)) :
    (compileSource registry { options with resolver := some new } path false src).result = .ok t := by
  obtain ⟨nodes, st, hnodes, herrors', hdeps', hrunning, hrecorded, heq⟩ :=
    exists_settling options path src old new t hold
  rw [herrors'] at herrors
  rw [hdeps'] at hdeps hmissing
  refine heq ⟨hmissing path src nodes (.inl ⟨rfl, rfl⟩) hnodes, herrors, hrunning, ?_, ?_⟩
  · exact fun p hp => hrecorded.found hdeps hdigests hp
  · exact fun p text nodes hp htext hread => hmissing p text nodes (.inr ⟨hp, htext⟩) hread

/-- A template that was missing leaves no record: once it is there, the include that fell back no longer does. -/
theorem not_compileSource_among_created : ¬ ∀ (options : Options) (path src : Bytes) (old new : Resolver) (t : Template),
    (compileSource registry { options with resolver := some old } path false src).result = .ok t → t.errors = [] →
    (∀ p digest, Assoc.get? p t.deps = some digest → ∃ text, new p = .ok text ∧ Text.Digest.sha256 text = digest) →
    (∀ p a b, old p = .ok a → new p = .ok b → Text.Digest.sha256 a = Text.Digest.sha256 b → a = b) →
    (compileSource registry { options with resolver := some new } path false src).result = .ok t := by
  intro h
  let src : Bytes := "@include('nav', {}, true)"
  have hold : (match (compileSource registry { resolver := some (Resolver.ofTable []) } "page" false src).result with
      | .ok t => t.errors.isEmpty && t.deps.isEmpty && t.body.length == 1
      | .error _ => false) = true := by decide +kernel
  have hnew : (match (compileSource registry { resolver := some (Resolver.ofTable [("nav", "<nav>")]) } "page" false
      src).result with
      | .ok t => t.body.length == 4
      | .error _ => false) = true := by decide +kernel
  split at hold
  · rename_i t ht
    simp only [Bool.and_eq_true, List.isEmpty_iff, beq_iff_eq] at hold
    obtain ⟨⟨herrors, hdeps⟩, hbody⟩ := hold
    have hsame := h {} "page" src (Resolver.ofTable []) (Resolver.ofTable [("nav", "<nav>")]) t ht herrors
      (by simp [hdeps, Assoc.get?]) (fun p a b ha _ _ => nomatch ha)
    rw [hsame] at hnew
    simp [hbody] at hnew
  · cases hold

end Stencil.Compile
