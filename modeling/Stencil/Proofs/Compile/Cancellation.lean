import Stencil.Proofs.Compile.Life
import Stencil.Proofs.Compile.Trees

/-! # What becomes of a cancellation

Before each node and each part of a chain it is checked whether the activity was cancelled, at every depth:
in blocks, chains and includes. A check that sees a cancellation fails, and the failure goes up through the
directives around it, each of which contains it as it contains any failure. It comes out again at the next
node of the template itself, if there is one: a compilation is cancelled if and only if a check before the
nodes of the template sees the cancellation (`generate_canceled`). What only checks inside the last node see
is recorded as an error of that node, and the compilation has a result. -/

namespace Stencil.Compile

open Stencil.Directive
open Stencil.Markup (Node Tag)

/-! ### Checks that see a cancellation -/

/-- Whether a check sees a cancellation while a request is answered. -/
structure Watch where
  compile : Selection → State → Bool
  chain : State → Bool
  embed : (path src bindings : Bytes) → State → Bool

/-- A check sees a cancellation while a script runs. -/
def scriptObserves {α : Type} (env : Env) (ask : Requests) (watch : Watch) : Script α → State → Bool
  | .done _, _ => false
  | .fail _, _ => false
  | .abort _, _ => false
  | .emit place instrs next, st => scriptObserves env ask watch next (st.emit (env.place place) instrs)
  | .newLabel next, st => scriptObserves env ask watch (next (st.labels + 1)) { st with labels := st.labels + 1 }
  | .add text next, st => scriptObserves env ask watch next (st.add env.part text)
  | .loader next, st => scriptObserves env ask watch (next st.out.loader) st
  | .useLoader name next, st =>
    scriptObserves env ask watch next { st with out := { st.out with loader := name } }
  | .compile which next, st =>
    watch.compile which st || scriptObserves env ask watch (next (ask.compile which st).1) (ask.compile which st).2
  | .chain next, st => watch.chain st || scriptObserves env ask watch (next (ask.chain st).1) (ask.chain st).2
  | .literalText which next, st => scriptObserves env ask watch (next (ask.literalText which)) st
  | .resolve path next, st => scriptObserves env ask watch (next (env.resolve st path)) st
  | .embed path src bindings next, st =>
    watch.embed path src bindings st ||
      scriptObserves env ask watch (next (ask.embed path src bindings st).1) (ask.embed path src bindings st).2
  | .getState key next, st => scriptObserves env ask watch (next (Assoc.get? key st.memory)) st
  | .setState key value next, st =>
    scriptObserves env ask watch next { st with memory := Assoc.insert key value st.memory }
  | .getData key next, st => scriptObserves env ask watch (next (Assoc.get? key st.data)) st
  | .setData key value next, st => scriptObserves env ask watch next { st with data := Assoc.insert key value st.data }
  | .log line next, st => scriptObserves env ask watch next { st with log := st.log ++ [line] }
  | .cancel next, st => scriptObserves env ask watch next { st with canceled := true }

mutual

/-- A check sees a cancellation before one of the nodes or inside one. `inside` tells it of includes. -/
def nodesObserve (inside : Env → (path src bindings : Bytes) → State → Bool) (embed : Embedder) (env : Env)
    (which : Selection) : List Node → State → Bool
  | [], _ => false
  | n :: ns, st =>
    if selects which n then
      st.canceled || nodeObserves inside embed env n st ||
        nodesObserve inside embed env which ns (compileNode embed env n st)
    else nodesObserve inside embed env which ns st

def nodeObserves (inside : Env → (path src bindings : Bytes) → State → Bool) (embed : Embedder) (env : Env) :
    Node → State → Bool
  | .text _ _, _ => false
  | .interpolation _ _ _, _ => false
  | .part _ _ _, _ => false
  | .directive tag children, st =>
    match tag.problem, env.registry.lookup tag.name with
    | .none, some d =>
      scriptObserves env (requests embed env d tag.name children)
        { compile := fun which st => nodesObserve inside embed env which children st
          chain := fun st => partsObserve inside embed env d tag.name children st
          embed := inside env }
        (lifeScript d tag tag.name env.unit) { st with data := [] }
    | _, _ => false

/-- A check sees a cancellation before one of the parts or inside one. -/
def partsObserve (inside : Env → (path src bindings : Bytes) → State → Bool) (embed : Embedder) (env : Env)
    (d : Definition) (owner : Bytes) : List Node → State → Bool
  | [], _ => false
  | n :: ns, st =>
    if n.isPart then
      st.canceled || partObserves inside embed env d owner n st ||
        partsObserve inside embed env d owner ns (compilePart embed env d owner n st)
    else partsObserve inside embed env d owner ns st

def partObserves (inside : Env → (path src bindings : Bytes) → State → Bool) (embed : Embedder) (env : Env)
    (d : Definition) (owner : Bytes) : Node → State → Bool
  | .part _ tag children, st =>
    match d.part? tag.name with
    | none => false
    | some p =>
      scriptObserves env (requests embed env p owner children)
        { compile := fun which st => nodesObserve inside embed env which children st
          chain := fun st => partsObserve inside embed env p owner children st
          embed := inside env }
        (lifeScript p tag owner env.unit) st
  | .text _ _, _ => false
  | .interpolation _ _ _, _ => false
  | .directive _ _, _ => false

end

/-- A check sees a cancellation inside an included source; `depth` more includes may follow inside. -/
def embedObserves : (depth : Nat) → Env → (path src bindings : Bytes) → State → Bool
  | 0, _, _, _, _, _ => false
  | depth + 1, env, path, src, bindings, st =>
    if (cycleFrom path env.embeds).isSome ∨ path = env.unit.path then false
    else match Markup.parse env.registry env.options path src with
      | .error _ => false
      | .ok nodes =>
        nodesObserve (embedObserves depth) (embedAt depth) (env.inside path) .all nodes
          (st.including env.part path src bindings)

/-! ### What was seen stays -/

/-- What is seen while a request is answered is still so afterwards. -/
structure Watch.Lasts (watch : Watch) (ask : Requests) : Prop where
  compile : ∀ which st, watch.compile which st = true → (ask.compile which st).2.canceled = true
  chain : ∀ st, watch.chain st = true → (ask.chain st).2.canceled = true
  embed : ∀ path src bindings st, watch.embed path src bindings st = true →
    (ask.embed path src bindings st).2.canceled = true

theorem canceled_of_scriptObserves {α : Type} {env : Env} {ask : Requests} {watch : Watch}
    (hgrow : ask.Keeps State.Extends) (hlasts : watch.Lasts ask) (s : Script α) {st : State}
    (h : scriptObserves env ask watch s st = true) : (runScript env ask s st).2.canceled = true := by
  have hstays (s : Script α) {st : State} (hst : st.canceled = true) : (runScript env ask s st).2.canceled = true :=
    (kept_extends.runScript hgrow s.only_true st).canceled hst
  induction s generalizing st with
  | done a | fail e | abort text => cases h
  | emit place instrs next ih | add text next ih | useLoader name next ih | setState key value next ih
  | setData key value next ih | log line next ih | cancel next ih => exact ih h
  | newLabel next ih | loader next ih | literalText which next ih | resolve path next ih | getState key next ih
  | getData key next ih => exact ih _ h
  | compile which next ih =>
    rw [scriptObserves, Bool.or_eq_true] at h
    exact h.elim (fun h => hstays (next _) (hlasts.compile which st h)) (ih _)
  | chain next ih =>
    rw [scriptObserves, Bool.or_eq_true] at h
    exact h.elim (fun h => hstays (next _) (hlasts.chain st h)) (ih _)
  | embed path src bindings next ih =>
    rw [scriptObserves, Bool.or_eq_true] at h
    exact h.elim (fun h => hstays (next _) (hlasts.embed path src bindings st h)) (ih _)

/-- The life of a directive and what contains it. -/
theorem canceled_contained {env : Env} {ask : Requests} {tag : Tag} {d : Definition} {owner : Bytes} {st : State}
    (h : (runScript env ask (lifeScript d tag owner env.unit) st).2.canceled = true) :
    (contained env ask tag d owner st).canceled = true := by
  rw [← lifecycle_eq] at h
  rcases hlife : lifecycle env ask tag d owner st with ⟨e | u, after⟩ <;> rw [hlife] at h
  · simp only [contained, hlife]
    exact h
  · simp only [contained, hlife]
    exact h

section Nodes
variable {inside : Env → (path src bindings : Bytes) → State → Bool} {embed : Embedder} {env : Env}

/-- What is seen inside a node is still so after it. -/
def NodeLasts (inside : Env → (path src bindings : Bytes) → State → Bool) (embed : Embedder) (env : Env) (n : Node) :
    Prop :=
  (∀ st, nodeObserves inside embed env n st = true → (compileNode embed env n st).canceled = true) ∧
    ∀ d owner st, partObserves inside embed env d owner n st = true →
      (compilePart embed env d owner n st).canceled = true

variable (hextends : embed.Keeps anything State.Extends)
include hextends

theorem canceled_of_nodesObserve (which : Selection) : ∀ ns : List Node, (∀ n ∈ ns, NodeLasts inside embed env n) →
    ∀ st, nodesObserve inside embed env which ns st = true → (compileNodes embed env which ns st).2.canceled = true
  | [], _, st => fun h => by cases h
  | n :: ns, hns, st => by
    have ih := canceled_of_nodesObserve which ns fun m hm => hns m (List.mem_cons_of_mem n hm)
    have hrest (st₁ : State) (h : st₁.canceled = true) : (compileNodes embed env which ns st₁).2.canceled = true :=
      (kept_extends.compileNodes vetted_anything (uses_anything env) hextends which ns st₁).canceled h
    intro h
    by_cases hselects : selects which n = true
    · simp only [nodesObserve, compileNodes, hselects, if_true, Bool.or_eq_true] at h ⊢
      cases hst : st.canceled with
      | true => exact hst
      | false =>
        simp only [hst, Bool.false_eq_true, false_or, if_false] at h ⊢
        exact h.elim (fun h => hrest _ ((hns n List.mem_cons_self).1 st h)) (ih _)
    · simp only [nodesObserve, compileNodes, hselects, Bool.false_eq_true, if_false] at h ⊢
      exact ih st h

theorem canceled_of_partsObserve (d : Definition) (owner : Bytes) : ∀ ns : List Node,
    (∀ n ∈ ns, NodeLasts inside embed env n) → ∀ st, partsObserve inside embed env d owner ns st = true →
      (compileParts embed env d owner ns st).2.canceled = true
  | [], _, st => fun h => by cases h
  | n :: ns, hns, st => by
    have ih := canceled_of_partsObserve d owner ns fun m hm => hns m (List.mem_cons_of_mem n hm)
    have hrest (st₁ : State) (h : st₁.canceled = true) : (compileParts embed env d owner ns st₁).2.canceled = true :=
      (kept_extends.compileParts vetted_anything (uses_anything env) hextends (d := d) trivial owner ns st₁).canceled h
    intro h
    by_cases hpart : n.isPart = true
    · simp only [partsObserve, compileParts, hpart, if_true, Bool.or_eq_true] at h ⊢
      cases hst : st.canceled with
      | true => exact hst
      | false =>
        simp only [hst, Bool.false_eq_true, false_or, if_false] at h ⊢
        exact h.elim (fun h => hrest _ ((hns n List.mem_cons_self).2 d owner st h)) (ih _)
    · simp only [partsObserve, compileParts, hpart, Bool.false_eq_true, if_false] at h ⊢
      exact ih st h

theorem nodeLasts (hinside : ∀ path src bindings st, inside env path src bindings st = true →
    (embed env path src bindings st).2.canceled = true) (n : Node) : NodeLasts inside embed env n := by
  induction n using Node.byChildren with
  | h n ih =>
    have hgrow (d : Definition) (owner : Bytes) : (requests embed env d owner n.children).Keeps State.Extends :=
      kept_extends.requests vetted_anything (uses_anything env) hextends (d := d) trivial owner n.children
    have hlasts (d : Definition) (owner : Bytes) : Watch.Lasts
        { compile := fun which st => nodesObserve inside embed env which n.children st
          chain := fun st => partsObserve inside embed env d owner n.children st
          embed := inside env } (requests embed env d owner n.children) :=
      ⟨fun which st => canceled_of_nodesObserve hextends which n.children ih st,
        fun st => canceled_of_partsObserve hextends d owner n.children ih st, hinside⟩
    cases n with
    | text value span => refine ⟨fun st h => ?_, fun d owner st h => ?_⟩ <;> cases h
    | interpolation expr escaped span => refine ⟨fun st h => ?_, fun d owner st h => ?_⟩ <;> cases h
    | directive tag children =>
      refine ⟨fun st h => ?_, fun d owner st h => ?_⟩
      · rw [nodeObserves] at h
        split at h
        · rename_i d hproblem hlookup
          simp only [compileNode, hproblem, hlookup]
          exact canceled_contained (canceled_of_scriptObserves (hgrow d tag.name) (hlasts d tag.name) _ h)
        · cases h
      · cases h
    | part parent tag children =>
      refine ⟨fun st h => ?_, fun d owner st h => ?_⟩
      · cases h
      · rw [partObserves] at h
        split at h
        · cases h
        · rename_i p hpart
          simp only [compilePart, hpart]
          exact canceled_contained (canceled_of_scriptObserves (hgrow p owner) (hlasts p owner) _ h)

end Nodes

/-- The induction is on the includes that may still follow. -/
theorem canceled_of_embedObserves : ∀ depth env path src bindings st,
    embedObserves depth env path src bindings st = true → (embedAt depth env path src bindings st).2.canceled = true
  | 0, env, path, src, bindings, st, h => by cases h
  | depth + 1, env, path, src, bindings, st, h => by
    rw [embedObserves] at h
    split at h
    · cases h
    rename_i hopen
    split at h
    · cases h
    rename_i nodes hparse
    obtain ⟨hcycle, hself⟩ := not_or.mp hopen
    have haccepts : env.Accepts path src nodes := ⟨by simpa using hcycle, hself, hparse⟩
    have hextends := extends_embedAt depth
    have hinside : (compileNodes (embedAt depth) (env.inside path) .all nodes
        (st.including env.part path src bindings)).2.canceled = true :=
      canceled_of_nodesObserve hextends .all nodes
        (fun n _ => nodeLasts hextends (canceled_of_embedObserves depth (env.inside path)) n) _ h
    rw [embedAt_of_accepts haccepts]
    rcases hrun : compileNodes (embedAt depth) (env.inside path) .all nodes (st.including env.part path src bindings)
      with ⟨e | u, after⟩ <;> rw [hrun] at hinside
    · exact hinside
    · exact hinside

/-! ### Templates -/

/-- A check sees a cancellation while these nodes of a template are compiled. -/
def Env.observes (env : Env) (nodes : List Node) : Bool :=
  nodesObserve (embedObserves maxIncludes) embedder env .all nodes env.start

/-- The state in which a template is when these nodes of it are compiled. -/
def Env.reached (env : Env) (nodes : List Node) : State := (compileNodes embedder env .all nodes env.start).2

theorem canceled_of_observes {env : Env} {nodes : List Node} (h : env.observes nodes = true) :
    (env.reached nodes).canceled = true := by
  have hextends := extends_embedAt maxIncludes
  exact canceled_of_nodesObserve hextends .all nodes
    (fun n _ => nodeLasts hextends (canceled_of_embedObserves maxIncludes env) n) env.start h

/-- Nodes fail only with the cancellation that the check before one of them sees: if nothing was cancelled when
the last one is reached, they succeed, whatever happens in it. -/
theorem compileNodes_all_append (embed : Embedder) (env : Env) (last : Node) (before : List Node) (st : State) :
    compileNodes embed env .all (before ++ [last]) st =
      if (compileNodes embed env .all before st).2.canceled then
        (.error .canceled, (compileNodes embed env .all before st).2)
      else (.ok (), compileNode embed env last (compileNodes embed env .all before st).2) := by
  induction before generalizing st with
  | nil => cases hst : st.canceled <;> simp [compileNodes, selects, hst]
  | cons n ns ih =>
    cases hst : st.canceled with
    | true => simp [compileNodes, selects, hst]
    | false => simp [compileNodes, selects, hst, ih]

/-- A template without nodes is never cancelled. -/
theorem generate_nil (r : Registry) (options : Options) (path : Bytes) :
    ∃ t, (generate r options path false []).result = .ok t := by
  rw [generate_eq_outcome]
  exact ⟨_, rfl⟩

/-- **Where a cancellation ends a compilation.** A compilation fails if and only if something cancelled it before
its last node is reached, and then with the cancellation. So it does whenever a check at any depth of blocks,
chains and includes sees a cancellation in one of the nodes before; what is seen only inside the last node
leaves a result. -/
theorem generate_canceled (r : Registry) (options : Options) (path : Bytes) (before : List Node) (last : Node) :
    let env := options.env r path (before ++ [last])
    ((generate r options path false (before ++ [last])).result = .error .canceled ↔
      (env.reached before).canceled = true) ∧
    ((env.reached before).canceled = false → ∃ t, (generate r options path false (before ++ [last])).result = .ok t) ∧
    (env.observes before = true → (generate r options path false (before ++ [last])).result = .error .canceled) := by
  intro env
  have houtcome := generate_eq_outcome r options path (before ++ [last])
  rw [compileNodes_all_append] at houtcome
  have hreached : (compileNodes embedder env .all before env.start).2 = env.reached before := rfl
  change _ = Env.outcome env path (if _ then _ else _) at houtcome
  rw [hreached] at houtcome
  cases hcanceled : (env.reached before).canceled with
  | true =>
    rw [hcanceled, if_pos rfl] at houtcome
    have hresult : (generate r options path false (before ++ [last])).result = .error .canceled := by rw [houtcome]; rfl
    exact ⟨⟨fun _ => rfl, fun _ => hresult⟩, nofun, fun _ => hresult⟩
  | false =>
    rw [hcanceled, if_neg Bool.false_ne_true] at houtcome
    have hresult : ∃ t, (generate r options path false (before ++ [last])).result = .ok t := by
      rw [houtcome]
      exact ⟨_, rfl⟩
    obtain ⟨t, ht⟩ := hresult
    refine ⟨⟨fun h => ?_, nofun⟩, fun _ => ⟨t, ht⟩, fun h => ?_⟩
    · rw [ht] at h
      cases h
    · exact absurd (canceled_of_observes h) (by simp [hcanceled])

/-- A block, and a directive that cancels the activity. -/
def stopRegistry : Registry where
  entries :=
    [{ definition := { name := "box", block := true } },
     { definition := { name := "stop", onParams := some (Action.hook [.cancel]) } }]

/-- The use of a directive with some children. -/
def plainUse (name : Bytes) (children : List Node) : Node :=
  .directive { name, args := some [], span := default } children

/-- A block whose first child cancels the activity, so that the check before the second one sees it, with text
after the block. -/
theorem generate_canceled_before :
    let box := plainUse "box" [plainUse "stop" [], .text "x" default]
    ((({} : Options).env stopRegistry "t" ([box] ++ [.text "y" default])).observes [box]) = true ∧
      (generate stopRegistry {} "t" false ([box] ++ [.text "y" default])).result = .error .canceled := by
  intro box
  have hsees : (({} : Options).env stopRegistry "t" ([plainUse "box" [plainUse "stop" [], .text "x" default]] ++
      [.text "y" default])).observes [plainUse "box" [plainUse "stop" [], .text "x" default]] = true := by
    decide +kernel
  exact ⟨hsees, (generate_canceled stopRegistry {} "t" [box] (.text "y" default)).2.2 hsees⟩

/-- Without text after the block the cancellation becomes an error of the block, and there is a template. -/
theorem not_generate_canceled : ¬ ∀ (r : Registry) (options : Options) (path src : Bytes) (nodes : List Node),
    Markup.parse r options.parse path src = .ok nodes → (options.env r path nodes).observes nodes = true →
      (compileSource r options path false src).result = .error .canceled := by
  intro h
  have hsees : (Markup.parse stopRegistry {} "t" "@box()@stop()x@end()").toOption.map (fun nodes =>
      (({} : Options).env stopRegistry "t" nodes).observes nodes) = some true := by decide +kernel
  have hbody : (compileSource stopRegistry {} "t" false "@box()@stop()x@end()").result.toOption.map Template.body =
      some [.comment "error in @box"] := by decide +kernel
  cases hnodes : Markup.parse stopRegistry {} "t" "@box()@stop()x@end()" with
  | error e =>
    rw [hnodes] at hsees
    cases hsees
  | ok nodes =>
    rw [hnodes] at hsees
    have hresult := h stopRegistry {} "t" "@box()@stop()x@end()" nodes hnodes (Option.some.inj hsees)
    rw [hresult] at hbody
    cases hbody

end Stencil.Compile
