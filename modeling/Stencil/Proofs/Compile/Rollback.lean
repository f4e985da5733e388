import Stencil.Directive.Action
import Stencil.Proofs.Compile.Changes
import Stencil.Proofs.Maps

/-! # Failing nodes are rolled back

A mark records lengths only, so giving back what a node produced is right as long as nothing below its
mark has changed. Whatever hooks ask for, output only grows: what nested nodes give back reaches down
to marks of their own, and these lie above (`State.Extends`). Cutting off the output of a failed node
at its mark then leaves what was there before it (`Output.Extends.backTo`). -/

namespace Stencil

namespace Compile

open Stencil.Directive
open Stencil.Markup (Node Tag)

/-! ### Output -/

namespace Output

/-- All that was produced is still there, at the same place. -/
structure Extends (o o' : Output) : Prop where
  pre : o.pre <+: o'.pre
  body : o.body <+: o'.body
  post : o.post <+: o'.post
  channels : ∀ name text, Assoc.get? name o.channels = some text →
    ∃ text', Assoc.get? name o'.channels = some text' ∧ text <+: text'

/-- The same was produced, for the same loaders, and the same loader is selected. -/
structure Same (o o' : Output) : Prop where
  pre : o'.pre = o.pre
  body : o'.body = o.body
  post : o'.post = o.post
  channels : ∀ name, Assoc.get? name o'.channels = Assoc.get? name o.channels
  loader : o'.loader = o.loader

namespace Extends
variable {o o₁ o₂ : Output}

theorem refl (o : Output) : o.Extends o :=
  ⟨List.prefix_rfl, List.prefix_rfl, List.prefix_rfl, fun _ text h => ⟨text, h, List.prefix_rfl⟩⟩

theorem trans (h : o.Extends o₁) (h' : o₁.Extends o₂) : o.Extends o₂ where
  pre := h.pre.trans h'.pre
  body := h.body.trans h'.body
  post := h.post.trans h'.post
  channels name text htext := by
    obtain ⟨text₁, h₁, hprefix₁⟩ := h.channels name text htext
    obtain ⟨text₂, h₂, hprefix₂⟩ := h'.channels name text₁ h₁
    exact ⟨text₂, h₂, hprefix₁.trans hprefix₂⟩

theorem append (o : Output) (part : Section) (code : List Instr) : o.Extends (o.append part code) := by
  cases part
  · exact ⟨List.prefix_append _ _, List.prefix_rfl, List.prefix_rfl, (refl o).channels⟩
  · exact ⟨List.prefix_rfl, List.prefix_append _ _, List.prefix_rfl, (refl o).channels⟩
  · exact ⟨List.prefix_rfl, List.prefix_rfl, List.prefix_append _ _, (refl o).channels⟩

theorem add (o : Output) (part : Section) (text : Bytes) : o.Extends (o.add part text) := by
  unfold Output.add
  split
  · exact refl o
  · split
    · exact append o part _
    · refine ⟨List.prefix_rfl, List.prefix_rfl, List.prefix_rfl, fun name before hbefore => ?_⟩
      by_cases hname : name = o.loader
      · subst hname
        exact ⟨_, Assoc.get?_insert_self _ _ _, by simp [hbefore]⟩
      · exact ⟨before, by rw [Assoc.get?_insert_ne hname, hbefore], List.prefix_rfl⟩

/-- Cutting off at a mark gives back what was there. -/
theorem backTo (h : o.Extends o₁) : o.Same (o₁.backTo o.mark) where
  pre := (List.prefix_iff_eq_take.mp h.pre).symm
  body := (List.prefix_iff_eq_take.mp h.body).symm
  post := (List.prefix_iff_eq_take.mp h.post).symm
  channels name := by
    have hcut := Assoc.get?_filterMap (fun key => Assoc.get? key o.mark.channels) (fun n text => text.take n) name
      o₁.channels
    refine hcut.trans ?_
    simp only [Output.mark, Assoc.get?_map]
    cases hbefore : Assoc.get? name o.channels with
    | none => rfl
    | some text =>
      obtain ⟨text', htext', hprefix⟩ := h.channels name text hbefore
      simp [htext', ← List.prefix_iff_eq_take.mp hprefix]
  loader := rfl

end Extends

theorem Same.extends {o o' : Output} (h : o.Same o') : o.Extends o' where
  pre := h.pre ▸ List.prefix_rfl
  body := h.body ▸ List.prefix_rfl
  post := h.post ▸ List.prefix_rfl
  channels name text htext := ⟨text, (h.channels name).trans htext, List.prefix_rfl⟩

theorem Same.append {o o' : Output} (h : o.Same o') (part : Section) (code : List Instr) :
    (o.append part code).Same (o'.append part code) := by
  obtain ⟨hpre, hbody, hpost, hchannels, hloader⟩ := h
  cases part
  · exact ⟨congrArg (· ++ code) hpre, hbody, hpost, hchannels, hloader⟩
  · exact ⟨hpre, congrArg (· ++ code) hbody, hpost, hchannels, hloader⟩
  · exact ⟨hpre, hbody, congrArg (· ++ code) hpost, hchannels, hloader⟩

end Output

/-! ### States -/

/-- What compiling nodes never takes back: output, errors, dependencies and a cancellation. Every new error has a
place. -/
structure State.Extends (st st' : State) : Prop where
  out : st.out.Extends st'.out
  errors : ∃ new, st'.errors = st.errors ++ new ∧ ∀ d ∈ new, d.at?.isSome
  deps : ∀ path, Assoc.has path st.deps = true → Assoc.has path st'.deps = true
  canceled : st.canceled = true → st'.canceled = true

namespace State.Extends
variable {st st₁ st₂ : State}

theorem refl (st : State) : st.Extends st :=
  ⟨.refl _, ⟨[], (List.append_nil _).symm, nofun⟩, fun _ h => h, id⟩

theorem trans (h : st.Extends st₁) (h' : st₁.Extends st₂) : st.Extends st₂ where
  out := h.out.trans h'.out
  errors := by
    obtain ⟨new, hnew, hplace⟩ := h.errors
    obtain ⟨new', hnew', hplace'⟩ := h'.errors
    refine ⟨new ++ new', by rw [hnew', hnew, List.append_assoc], fun d hd => ?_⟩
    exact (List.mem_append.mp hd).elim (hplace d) (hplace' d)
  deps path hpath := h'.deps path (h.deps path hpath)
  canceled hst := h'.canceled (h.canceled hst)

theorem of_out (h : st.out.Extends st₁.out) (herrors : st₁.errors = st.errors) (hdeps : st₁.deps = st.deps)
    (hcanceled : st.canceled = true → st₁.canceled = true) : st.Extends st₁ :=
  ⟨h, herrors ▸ (refl st).errors, hdeps ▸ (refl st).deps, hcanceled⟩

theorem emit (st : State) (part : Section) (code : List Instr) : st.Extends (st.emit part code) :=
  of_out (.append _ _ _) rfl rfl id

theorem add (st : State) (part : Section) (text : Bytes) : st.Extends (st.add part text) :=
  of_out (.add _ _ _) rfl rfl id

/-- A failing node gives back no more than it produced. -/
theorem backTo (h : st.Extends st₁) : st.Extends (st₁.backTo st.out.mark) :=
  ⟨h.out.backTo.extends, h.errors, h.deps, h.canceled⟩

end State.Extends

/-- Whatever is compiled takes nothing back. -/
theorem kept_extends : Kept (fun _ => True) State.Extends where
  plain _ _ _ := trivial
  refl := .refl
  trans := .trans
  emit st part code _ := .emit st part code
  add := .add
  select st name :=
    .of_out ⟨List.prefix_rfl, List.prefix_rfl, List.prefix_rfl, (Output.Extends.refl st.out).channels⟩ rfl rfl id
  silent hout herrors hdeps hcanceled := .of_out (hout ▸ .refl _) herrors hdeps hcanceled
  record st path digest :=
    ⟨.refl _, (State.Extends.refl st).errors, fun p hp => by simp [Assoc.has_insert, hp], id⟩
  report st d hd :=
    ⟨.refl _, ⟨[d], rfl, fun _ hd' => List.mem_singleton.mp hd' ▸ hd⟩, fun _ h => h, id⟩
  backTo := .backTo

/-- All directives. -/
def anything (_ : Definition) : Prop := True

theorem vetted_anything : Vetted (fun _ => True) anything := ⟨fun d _ => d.only_true, fun _ _ _ _ => trivial⟩

theorem uses_anything (env : Env) : env.Uses anything := fun _ _ _ => trivial

/-- No include takes anything back. -/
theorem extends_embedAt (depth : Nat) : (embedAt depth).Keeps anything State.Extends :=
  kept_extends.embedAt vetted_anything depth

/-! ### Failures -/

/-- The error that is recorded for a failing node. -/
def hookError (env : Env) (tag : Tag) (cause : Failure) : Diagnostic where
  kind := .hook
  message := "@" ++ tag.name ++ ": " ++ cause.message
  name := tag.name
  path := env.currentPath
  at? := some tag.span.start

/-- The error that is recorded for a failing hook at the start or end of a template. -/
def fileHookError (env : Env) (d : Definition) (cause : Failure) : Diagnostic where
  kind := .hook
  message := "@" ++ d.name ++ " file hook: " ++ cause.message
  name := d.name
  path := env.unit.path

/-- What a failure leaves: the output `kept`, and one error after those of the nodes inside. `st` is the
state before and `after` the one in which the failure was met. -/
structure RolledBack (kept : Output) (error : Diagnostic) (st after st' : State) : Prop where
  out : kept.Same st'.out
  errors : ∃ nested, after.errors = st.errors ++ nested ∧ (∀ d ∈ nested, d.at?.isSome) ∧
    st'.errors = st.errors ++ nested ++ [error]

/-- From the mark on, all that a failure adds is its error. -/
theorem rolledBack_report {st after : State} {kept : Output} (error : Diagnostic) (h : st.Extends after)
    (hkept : kept.Same after.out) : RolledBack kept error st after (after.report error) := by
  obtain ⟨nested, hnested, hplace⟩ := h.errors
  exact ⟨hkept, nested, hnested, hplace, by rw [State.report, hnested]⟩

theorem rolledBack_contained {env : Env} {ask : Requests} (hask : ask.Keeps State.Extends) {tag : Tag} {d : Definition}
    {owner : Bytes} {st after : State} {e : Failure} (h : lifecycle env ask tag d owner st = (.error e, after)) :
    RolledBack (st.out.append env.part [.comment ("error in @" ++ tag.name)]) (hookError env tag e) st after
      (contained env ask tag d owner st) := by
  have hlife : st.Extends after := by
    have hend : st.Extends (lifecycle env ask tag d owner st).2 := kept_extends.lifecycle hask tag d.only_true owner st
    rwa [h] at hend
  -- the lengths of the mark still cut where the old output ends, since all that came later extends it
  have hreport := rolledBack_report (hookError env tag e) (hlife.backTo.trans (.emit _ env.part _))
    (hlife.out.backTo.append env.part [.comment ("error in @" ++ tag.name)])
  rw [contained, h]
  exact ⟨hreport.out, hreport.errors⟩

/-- A failing node leaves nothing of what it produced but a comment in the section at hand, whatever its
hooks did and whatever failed inside it: the instructions before, inside and after the body, the text for
each other loader and the selected loader are what they were. Its error comes after those of the nodes
inside it. A hook for the whole template leaves no comment. The section at hand and the open includes
are in `env`, which nodes only read. -/
theorem rolledBack_of_failure (depth : Nat) (env : Env) (d : Definition) (tag : Tag) (st after : State) (e : Failure) :
    (∀ children, tag.problem = .none → env.registry.lookup tag.name = some d →
      lifecycle env (requests (embedAt depth) env d tag.name children) tag d tag.name { st with data := [] } =
        (.error e, after) →
      RolledBack (st.out.append env.part [.comment ("error in @" ++ tag.name)]) (hookError env tag e) st after
        (compileNode (embedAt depth) env (.directive tag children) st)) ∧
    (∀ link owner parent children, link.part? tag.name = some d →
      lifecycle env (requests (embedAt depth) env d owner children) tag d owner st = (.error e, after) →
      RolledBack (st.out.append env.part [.comment ("error in @" ++ tag.name)]) (hookError env tag e) st after
        (compilePart (embedAt depth) env link owner (.part parent tag children) st)) ∧
    ∀ hook, runScript env (fileRequests env) (hook env.unit) st = (.error e, after) →
      RolledBack st.out (fileHookError env d e) st after (runFileHook env d (some hook) st) := by
  have hask (owner : Bytes) (children : List Node) : (requests (embedAt depth) env d owner children).Keeps State.Extends :=
    kept_extends.requests vetted_anything (uses_anything env) (extends_embedAt depth) (d := d) trivial owner children
  refine ⟨fun children hproblem hd hlife => ?_, fun link owner parent children hd hlife => ?_, fun hook hrun => ?_⟩
  · have hcontained := rolledBack_contained (hask tag.name children) hlife
    simp only [compileNode, hproblem, hd]
    exact ⟨hcontained.out, hcontained.errors⟩
  · simp only [compilePart, hd]
    exact rolledBack_contained (hask owner children) hlife
  · have hfile : (fileRequests env).Keeps State.Extends :=
      ⟨fun _ st => .refl st, .refl, extends_embedAt maxIncludes env (uses_anything env)⟩
    have hscript : st.Extends after := by
      have hend : st.Extends (runScript env (fileRequests env) (hook env.unit) st).2 :=
        kept_extends.runScript hfile (Script.only_true _) st
      rwa [hrun] at hend
    have hreport := rolledBack_report (fileHookError env d e) hscript.backTo hscript.out.backTo
    simp only [runFileHook, hrun]
    exact ⟨hreport.out, hreport.errors⟩

/-- A block that writes to every section and for another loader, compiles its children and then gives up;
and a directive that stops abruptly while it writes for yet another loader. -/
def failingRegistry : Registry where
  entries :=
    [{ definition := { name := "box", block := true, onChildren := some (Action.hook
        [.emit .before [.comment "open"], .use "client", .add "2", .compile .regular, .emit .after [.enter],
          .fail "full"]) } },
     { definition := { name := "halt", onParams := some (Action.hook
        [.emit .before [.comment "halting"], .add "3", .use "style", .add "4", .panic "stop"]) } }]

/-- The body of a template with those directives. -/
def failingEnv : Env where
  registry := failingRegistry
  options := {}
  resolver := none
  unit := { path := "page", used := ["box", "halt"] }
  prefetched := []
  part := .body
  embeds := []

/-- One failure inside another: by then there was one nested error, a loader selected and output everywhere. -/
theorem rolledBack_of_failure_nested :
    let tag : Tag := { name := "box", args := none, span := default }
    let children : List Node := [.directive { name := "halt", args := none, span := default } []]
    let st : State := { out := { body := [.literal "text"], channels := [("client", "1")] } }
    ∃ d after e, failingRegistry.lookup tag.name = some d ∧
      lifecycle failingEnv (requests (embedAt 1) failingEnv d tag.name children) tag d tag.name st = (.error e, after) ∧
      after.errors.length = 1 ∧ after.out.loader = "client" ∧ after.out.pre.length = 1 ∧ after.out.post.length = 1 ∧
      Assoc.get? ("client" : Bytes) after.out.channels = some "12" ∧
      RolledBack (st.out.append .body [.comment ("error in @" ++ tag.name)]) (hookError failingEnv tag e) st after
        (compileNode (embedAt 1) failingEnv (.directive tag children) st) :=
  ⟨_, _, _, rfl, rfl, rfl, rfl, rfl, rfl, rfl, (rolledBack_of_failure 1 failingEnv _ _ _ _ _).1 _ rfl rfl rfl⟩

end Compile

end Stencil
