import Mathlib.Logic.Relation
import Stencil.Proofs.Compile.Life
import Stencil.Proofs.Compile.Reuse

/-! # Loading sources ahead

The sources that a template names are asked for side by side, a few at a time, and come in any order or not
at all. When all requests are answered the table holds what the resolver finds for the paths, whatever the
order was (`get?_of_loads`). A compilation that looks there first then goes through the same states as one
that asks the resolver each time, as long as nothing cancels it (`generate_ahead`). -/

namespace Stencil.Compile

open Stencil.Directive
open Stencil.Markup (Node Tag)
open Stencil.Directive.Standard (registry)
open Relation (ReflTransGen)

/-! ### Requests side by side -/

/-- Sources that are being loaded: paths that are not asked for yet, requests that wait for an answer, and what
was found. -/
structure Loading where
  waiting : List Bytes
  flight : List Bytes := []
  found : Assoc Bytes Bytes := []

namespace Loading

variable {resolver : Resolver} {limit : Nat} {paths : List Bytes}

/-- One step: the next path is asked for when there is room, or some request is answered. -/
inductive Step (resolver : Resolver) (limit : Nat) : Loading → Loading → Prop
  | ask {path : Bytes} {waiting flight : List Bytes} {found : Assoc Bytes Bytes} (room : flight.length < limit) :
      Step resolver limit ⟨path :: waiting, flight, found⟩ ⟨waiting, flight ++ [path], found⟩
  | find (before : List Bytes) {waiting after : List Bytes} {found : Assoc Bytes Bytes} {path src : Bytes}
      (answer : resolver path = .ok src) :
      Step resolver limit ⟨waiting, before ++ path :: after, found⟩
        ⟨waiting, before ++ after, Assoc.insert path src found⟩
  | miss (before : List Bytes) {waiting after : List Bytes} {found : Assoc Bytes Bytes} {path : Bytes} {e : Failure}
      (answer : resolver path = .error e) :
      Step resolver limit ⟨waiting, before ++ path :: after, found⟩ ⟨waiting, before ++ after, found⟩

/-- What is found is what the resolver finds, and a path that is neither waiting nor in flight is settled. -/
structure Sound (resolver : Resolver) (paths : List Bytes) (l : Loading) : Prop where
  asked : ∀ path, path ∈ l.waiting ∨ path ∈ l.flight → path ∈ paths
  found : ∀ path src, Assoc.get? path l.found = some src → path ∈ paths ∧ resolver path = .ok src
  settled : ∀ path ∈ paths, path ∈ l.waiting ∨ path ∈ l.flight ∨
    ∀ src, resolver path = .ok src → Assoc.get? path l.found = some src

theorem sound_start (resolver : Resolver) (paths : List Bytes) : Sound resolver paths { waiting := paths } where
  asked path h := h.elim id fun h => nomatch h
  found path src h := by simp [Assoc.get?] at h
  settled path h := .inl h

/-- An answer settles its path and leaves what else was found. -/
theorem Sound.answered {waiting before after : List Bytes} {path : Bytes} {found found' : Assoc Bytes Bytes}
    (h : Sound resolver paths ⟨waiting, before ++ path :: after, found⟩)
    (hself : ∀ src, Assoc.get? path found' = some src ↔ resolver path = .ok src)
    (hother : ∀ p, p ≠ path → Assoc.get? p found' = Assoc.get? p found) :
    Sound resolver paths ⟨waiting, before ++ after, found'⟩ := by
  refine ⟨fun p hp => h.asked p ?_, fun p src hp => ?_, fun p hp => ?_⟩
  · simp only [List.mem_append, List.mem_cons] at hp ⊢
    exact hp.imp_right fun hp => hp.imp_right .inr
  · by_cases same : p = path
    · subst same
      exact ⟨h.asked p (.inr (by simp)), (hself src).mp hp⟩
    · exact h.found p src (hother p same ▸ hp)
  · by_cases same : p = path
    · subst same
      exact .inr (.inr fun src hsrc => (hself src).mpr hsrc)
    · have settled := h.settled p hp
      simp only [List.mem_append, List.mem_cons, same, false_or, hother p same] at settled ⊢
      exact settled

theorem Sound.step {l l' : Loading} (h : Sound resolver paths l) (hstep : Step resolver limit l l') :
    Sound resolver paths l' := by
  cases hstep with
  | @ask path waiting flight found room =>
    refine ⟨fun p hp => h.asked p ?_, h.found, fun p hp => ?_⟩
    · simp only [List.mem_cons, List.mem_append, List.not_mem_nil, or_false] at hp ⊢
      rcases hp with hp | hp | hp
      · exact .inl (.inr hp)
      · exact .inr hp
      · exact .inl (.inl hp)
    · have settled := h.settled p hp
      simp only [List.mem_cons, List.mem_append, List.not_mem_nil, or_false] at settled ⊢
      rcases settled with (hp | hp) | hp | hp
      · exact .inr (.inl (.inr hp))
      · exact .inl hp
      · exact .inr (.inl (.inl hp))
      · exact .inr (.inr hp)
  | @find before waiting after found path src answer =>
    refine h.answered (fun text => ?_) fun p hne => Assoc.get?_insert_ne hne src found
    rw [Assoc.get?_insert_self, answer, Option.some.injEq, Except.ok.injEq]
  | @miss before waiting after found path e answer =>
    refine h.answered (fun text => ⟨fun hget => (h.found path text hget).2, fun htext => ?_⟩) fun _ _ => rfl
    rw [answer] at htext
    cases htext

theorem Sound.run {l l' : Loading} (h : Sound resolver paths l) (hrun : ReflTransGen (Step resolver limit) l l') :
    Sound resolver paths l' := by
  induction hrun with
  | refl => exact h
  | tail _ hstep ih => exact ih.step hstep

end Loading

/-- All paths were asked for and all requests answered, in some order, with this table. -/
def Loads (resolver : Resolver) (limit : Nat) (paths : List Bytes) (found : Assoc Bytes Bytes) : Prop :=
  ReflTransGen (Loading.Step resolver limit) { waiting := paths } { waiting := [], found }

section Loads
variable {resolver : Resolver} {limit : Nat} {paths : List Bytes} {found : Assoc Bytes Bytes}

/-- What is loaded in the end does not depend on the order of the answers. -/
theorem get?_of_loads (h : Loads resolver limit paths found) (path : Bytes) :
    Assoc.get? path found = if path ∈ paths then (resolver path).toOption else none := by
  have sound := (Loading.sound_start resolver paths).run h
  split
  · rename_i hpath
    obtain hp | hp | settled := sound.settled path hpath
    · cases hp
    · cases hp
    · cases answer : resolver path with
      | ok src => exact settled src answer
      | error e =>
        cases hfound : Assoc.get? path found with
        | none => rfl
        | some src => exact nomatch (sound.found path src hfound).2.symm.trans answer
  · rename_i hpath
    cases hfound : Assoc.get? path found with
    | none => rfl
    | some src => exact absurd (sound.found path src hfound).1 hpath

/-- Loading never gets stuck: whatever was done so far, the rest can be asked for and answered. -/
theorem exists_loaded (resolver : Resolver) (hlimit : 0 < limit) :
    ∀ l : Loading, ∃ found, ReflTransGen (Loading.Step resolver limit) l { waiting := [], found }
  | ⟨[], [], found⟩ => ⟨found, .refl⟩
  | ⟨path :: waiting, [], found⟩ => by
    obtain ⟨table, hrest⟩ := exists_loaded resolver hlimit ⟨waiting, [path], found⟩
    exact ⟨table, .head (.ask hlimit) hrest⟩
  | ⟨waiting, path :: flight, found⟩ => by
    cases answer : resolver path with
    | ok src =>
      obtain ⟨table, hrest⟩ := exists_loaded resolver hlimit ⟨waiting, flight, Assoc.insert path src found⟩
      exact ⟨table, .head (.find [] answer) hrest⟩
    | error e =>
      obtain ⟨table, hrest⟩ := exists_loaded resolver hlimit ⟨waiting, flight, found⟩
      exact ⟨table, .head (.miss [] answer) hrest⟩
termination_by l => 2 * l.waiting.length + l.flight.length

/-- Answering each request before the next is made is one of the orders. -/
theorem loads_prefetch (resolver : Resolver) (hlimit : 0 < limit) (paths : List Bytes) :
    Loads resolver limit paths (prefetch resolver paths) := by
  unfold Loads prefetch
  generalize ([] : Assoc Bytes Bytes) = found
  induction paths generalizing found with
  | nil => exact .refl
  | cons path paths ih =>
    refine .head (.ask hlimit) ?_
    rw [List.foldl_cons]
    cases answer : resolver path with
    | ok src => exact .head (.find [] answer) (ih _)
    | error e => exact .head (.miss [] answer) (ih _)

end Loads

/-! ### Compiling with what was loaded -/

section Agreement
variable {α : Type} {r : Resolver} {ahead : Assoc Bytes Bytes} {env : Env} {ask ask' : Requests}

/-- The second run comes to the same as the first, unless that was cancelled. -/
def Agrees (o o' : Outcome α) : Prop := o.2.canceled = false → o' = o

/-- As `Agrees`, for steps that cannot fail. -/
def AgreesState (st st' : State) : Prop := st.canceled = false → st' = st

structure AgreesRequests (ask ask' : Requests) : Prop where
  growing : ask.Keeps State.Extends
  compile : ∀ which st, Agrees (ask.compile which st) (ask'.compile which st)
  chain : ∀ st, Agrees (ask.chain st) (ask'.chain st)
  literalText : ask'.literalText = ask.literalText
  embed : ∀ path src bindings st, Agrees (ask.embed path src bindings st) (ask'.embed path src bindings st)

/-- A script gets the same answers as long as it runs. -/
theorem agrees_runScript (hfinds : env.Finds r) (hfinds' : (env.among r ahead).Finds r)
    (hask : AgreesRequests ask ask') (s : Script α) (st : State) :
    Agrees (runScript env ask s st) (runScript (env.among r ahead) ask' s st) := by
  -- what is not cancelled in the end was not before
  have hrunning (s : Script α) {st : State} (h : (runScript env ask s st).2.canceled = false) : st.canceled = false :=
    (kept_extends.runScript hask.growing s.only_true st).running h
  induction s generalizing st with
  | done a | fail e | abort text => exact fun _ => rfl
  | emit place instrs next ih => exact ih (st.emit _ instrs)
  | add text next ih => exact ih (st.add _ text)
  | newLabel next ih => exact ih _ { st with labels := st.labels + 1 }
  | loader next ih => exact ih _ st
  | useLoader name next ih => exact ih { st with out := { st.out with loader := name } }
  | literalText which next ih =>
    simp only [runScript, hask.literalText]
    exact ih _ st
  | getState key next ih => exact ih _ st
  | setState key value next ih => exact ih { st with memory := Assoc.insert key value st.memory }
  | getData key next ih => exact ih _ st
  | setData key value next ih => exact ih { st with data := Assoc.insert key value st.data }
  | log line next ih => exact ih { st with log := st.log ++ [line] }
  | cancel next ih => exact ih { st with canceled := true }
  | resolve path next ih =>
    intro h
    have hfound : (env.among r ahead).resolve st path = env.resolve st path := by
      rw [hfinds.running st path (hrunning _ h), hfinds'.running st path (hrunning _ h)]
    simp only [runScript, hfound]
    exact ih _ st h
  | compile which next ih =>
    intro h
    simp only [runScript, hask.compile which st (hrunning _ h)]
    exact ih _ _ h
  | chain next ih =>
    intro h
    simp only [runScript, hask.chain st (hrunning _ h)]
    exact ih _ _ h
  | embed path src bindings next ih =>
    intro h
    simp only [runScript, hask.embed path src bindings st (hrunning _ h)]
    exact ih _ _ h

/-- A use of a directive comes to the same. -/
theorem agrees_contained (hfinds : env.Finds r) (hfinds' : (env.among r ahead).Finds r) (hask : AgreesRequests ask ask')
    (tag : Tag) (d : Definition) (owner : Bytes) (st : State) :
    AgreesState (contained env ask tag d owner st) (contained (env.among r ahead) ask' tag d owner st) := by
  have hlife : Agrees (lifecycle env ask tag d owner st) (lifecycle (env.among r ahead) ask' tag d owner st) := by
    rw [lifecycle_eq, lifecycle_eq]
    exact agrees_runScript hfinds hfinds' hask _ st
  intro h
  unfold contained at h ⊢
  rcases hrun : lifecycle env ask tag d owner st with ⟨e | u, after⟩ <;> rw [hrun] at hlife h
  · rw [hlife h]
    rfl
  · rw [hlife h]

end Agreement

/-- Included sources compile to the same. -/
def EmbedAgrees (r : Resolver) (ahead : Assoc Bytes Bytes) (embed : Embedder) : Prop :=
  ∀ env : Env, env.Finds r → (env.among r ahead).Finds r → ∀ path src bindings st,
    Agrees (embed env path src bindings st) (embed (env.among r ahead) path src bindings st)

section Nodes
variable {r : Resolver} {ahead : Assoc Bytes Bytes} {env : Env} {embed : Embedder}

/-- A node compiles to the same, as a node of its own and as a part of a chain. -/
def NodeAgrees (r : Resolver) (ahead : Assoc Bytes Bytes) (embed : Embedder) (env : Env) (n : Node) : Prop :=
  (∀ st, AgreesState (compileNode embed env n st) (compileNode embed (env.among r ahead) n st)) ∧
    ∀ d owner st, AgreesState (compilePart embed env d owner n st) (compilePart embed (env.among r ahead) d owner n st)

variable (hextends : embed.Keeps anything State.Extends)
include hextends

theorem agrees_compileNodes (which : Selection) : ∀ ns : List Node, (∀ n ∈ ns, NodeAgrees r ahead embed env n) → ∀ st,
    Agrees (compileNodes embed env which ns st) (compileNodes embed (env.among r ahead) which ns st)
  | [], _, st => fun _ => rfl
  | n :: ns, h, st => by
    obtain ⟨hn, hns⟩ := List.forall_mem_cons.mp h
    have ih := agrees_compileNodes which ns hns
    have hrest (st₁ : State) : st₁.Extends (compileNodes embed env which ns st₁).2 :=
      kept_extends.compileNodes vetted_anything (uses_anything env) hextends which ns st₁
    intro hrun
    by_cases hselects : selects which n = true
    · cases hst : st.canceled with
      | true => simp only [compileNodes, hselects, hst, if_true]
      | false =>
        simp only [compileNodes, hselects, hst, if_true, Bool.false_eq_true, if_false] at hrun ⊢
        rw [hn.1 st ((hrest _).running hrun)]
        exact ih _ hrun
    · simp only [compileNodes, hselects, Bool.false_eq_true, if_false] at hrun ⊢
      exact ih st hrun

theorem agrees_compileParts (d : Definition) (owner : Bytes) : ∀ ns : List Node,
    (∀ n ∈ ns, NodeAgrees r ahead embed env n) → ∀ st,
    Agrees (compileParts embed env d owner ns st) (compileParts embed (env.among r ahead) d owner ns st)
  | [], _, st => fun _ => rfl
  | n :: ns, h, st => by
    obtain ⟨hn, hns⟩ := List.forall_mem_cons.mp h
    have ih := agrees_compileParts d owner ns hns
    have hrest (st₁ : State) : st₁.Extends (compileParts embed env d owner ns st₁).2 :=
      kept_extends.compileParts vetted_anything (uses_anything env) hextends (d := d) trivial owner ns st₁
    intro hrun
    by_cases hpart : n.isPart = true
    · cases hst : st.canceled with
      | true => simp only [compileParts, hpart, hst, if_true]
      | false =>
        simp only [compileParts, hpart, hst, if_true, Bool.false_eq_true, if_false] at hrun ⊢
        rw [hn.2 d owner st ((hrest _).running hrun)]
        exact ih _ hrun
    · simp only [compileParts, hpart, Bool.false_eq_true, if_false] at hrun ⊢
      exact ih st hrun

theorem nodeAgrees (env : Env) (hfinds : env.Finds r) (hfinds' : (env.among r ahead).Finds r)
    (hembed : EmbedAgrees r ahead embed) (n : Node) : NodeAgrees r ahead embed env n := by
  induction n using Node.byChildren with
  | h n ih =>
    -- what hooks ask for comes back to the children
    have hask (d : Definition) (owner : Bytes) :
        AgreesRequests (requests embed env d owner n.children)
          (requests embed (env.among r ahead) d owner n.children) :=
      ⟨kept_extends.requests vetted_anything (uses_anything env) hextends (d := d) trivial owner n.children,
        fun which st => agrees_compileNodes hextends which n.children ih st,
        fun st => agrees_compileParts hextends d owner n.children ih st, rfl, hembed env hfinds hfinds'⟩
    have hlife (d : Definition) (tag : Tag) (owner : Bytes) (st : State) :=
      agrees_contained hfinds hfinds' (hask d owner) tag d owner st
    cases n with
    | text value span => exact ⟨fun st _ => rfl, fun d owner st _ => rfl⟩
    | interpolation expr escaped span => exact ⟨fun st _ => rfl, fun d owner st _ => rfl⟩
    | directive tag children =>
      refine ⟨fun st hrun => ?_, fun d owner st _ => rfl⟩
      simp only [compileNode, registry_among] at hrun ⊢
      split at hrun
      · rfl
      · rfl
      · rfl
      · split at hrun
        · rfl
        · rename_i d _
          have hd := hlife d tag tag.name { st with data := [] } hrun
          simp only [requests] at hd
          exact congrArg (fun after : State => { after with data := st.data }) hd
    | part parent tag children =>
      refine ⟨fun st _ => rfl, fun d owner st hrun => ?_⟩
      simp only [compilePart] at hrun ⊢
      split at hrun
      · rfl
      · exact hlife _ tag owner st hrun

end Nodes

/-- The induction is on the includes that may still follow. -/
theorem embedAgrees_embedAt (r : Resolver) (ahead : Assoc Bytes Bytes) : ∀ depth, EmbedAgrees r ahead (embedAt depth)
  | 0, _, _, _, _, _, _, _ => fun _ => rfl
  | depth + 1, env, hfinds, hfinds', path, src, bindings, st => by
    by_cases haccepts : ∃ nodes, env.Accepts path src nodes
    · obtain ⟨nodes, haccepts⟩ := haccepts
      have haccepts' : (env.among r ahead).Accepts path src nodes := ⟨haccepts.1, haccepts.2, haccepts.3⟩
      have hextends := extends_embedAt depth
      have hnode (n : Node) : NodeAgrees r ahead (embedAt depth) (env.inside path) n :=
        nodeAgrees hextends (env.inside path) ⟨hfinds.running, hfinds.found⟩ ⟨hfinds'.running, hfinds'.found⟩
          (embedAgrees_embedAt r ahead depth) n
      have hnodes := agrees_compileNodes hextends .all nodes (fun n _ => hnode n)
        (st.including env.part path src bindings)
      rw [embedAt_of_accepts haccepts, embedAt_of_accepts haccepts']
      intro hrun
      refine congrArg (andThen · fun _ st => (.ok (), st.emit env.part [.exit .merge []])) (hnodes ?_)
      rcases h : compileNodes (embedAt depth) (env.inside path) .all nodes (st.including env.part path src bindings)
        with ⟨e | u, after⟩ <;> rw [h] at hrun <;> exact hrun
    · intro _
      exact embedAt_congr_of_refused (env.among r ahead) haccepts rfl rfl rfl rfl bindings st

/-! ### Templates -/

section Templates
variable {r : Resolver} {ahead : Assoc Bytes Bytes} {env : Env}

theorem agrees_runFileHook (hfinds : env.Finds r) (hfinds' : (env.among r ahead).Finds r) (d : Definition)
    (hook : Option (UnitInfo → Script Unit)) (st : State) :
    AgreesState (runFileHook env d hook st) (runFileHook (env.among r ahead) d hook st) := by
  cases hook with
  | none => exact fun _ => rfl
  | some f =>
    have hask : AgreesRequests (fileRequests env) (fileRequests (env.among r ahead)) :=
      ⟨extends_fileRequests env, fun _ _ _ => rfl, fun _ _ => rfl, rfl,
        embedAgrees_embedAt r ahead maxIncludes env hfinds hfinds'⟩
    have hrun := agrees_runScript hfinds hfinds' hask (f env.unit) st
    have hunit : (env.among r ahead).unit = env.unit := rfl
    intro h
    simp only [runFileHook, hunit] at h ⊢
    rcases hscript : runScript env (fileRequests env) (f env.unit) st with ⟨e | u, after⟩ <;> rw [hscript] at hrun h
    · rw [hrun h]
    · rw [hrun h]

theorem canceled_fileHooks (env : Env) (hook : Definition → Option (UnitInfo → Script Unit)) (ds : List Definition)
    {st : State} (h : st.canceled = true) :
    (ds.foldl (fun st d => runFileHook env d (hook d) st) st).canceled = true := by
  induction ds generalizing st with
  | nil => exact h
  | cons d ds ih => exact ih (canceled_runFileHook env d (hook d) h)

theorem agrees_fileHooks (env : Env) (hfinds : env.Finds r) (hfinds' : (env.among r ahead).Finds r)
    (hook : Definition → Option (UnitInfo → Script Unit)) (ds : List Definition) (st : State) :
    AgreesState (ds.foldl (fun st d => runFileHook env d (hook d) st) st)
      (ds.foldl (fun st d => runFileHook (env.among r ahead) d (hook d) st) st) := by
  induction ds generalizing st with
  | nil => exact fun _ => rfl
  | cons d ds ih =>
    intro h
    rw [List.foldl_cons] at h ⊢
    rw [List.foldl_cons]
    have hfirst : (runFileHook env d (hook d) st).canceled = false := by
      cases hst : (runFileHook env d (hook d) st).canceled with
      | false => rfl
      | true => exact absurd (canceled_fileHooks env hook ds hst) (by simp [h])
    rw [agrees_runFileHook hfinds hfinds' d (hook d) st hfirst]
    exact ih _ h

/-- A whole template comes to the same. -/
theorem agrees_outcome (hfinds : env.Finds r) (hfinds' : (env.among r ahead).Finds r) (path : Bytes) (nodes : List Node)
    (hrunning : (env.outcome path (compileNodes embedder env .all nodes env.start)).canceled = false) :
    (env.among r ahead).outcome path
        (compileNodes embedder (env.among r ahead) .all nodes (env.among r ahead).start) =
      env.outcome path (compileNodes embedder env .all nodes env.start) := by
  have hextends := extends_embedAt maxIncludes
  have hnodes := agrees_compileNodes hextends .all nodes
    (fun n _ => nodeAgrees hextends env hfinds hfinds' (embedAgrees_embedAt r ahead maxIncludes) n) env.start
  have hgrow := kept_extends.compileNodes vetted_anything (uses_anything env) hextends .all nodes env.start
  have hstart : AgreesState env.start (env.among r ahead).start :=
    agrees_fileHooks { env with part := .pre } ⟨hfinds.running, hfinds.found⟩ ⟨hfinds'.running, hfinds'.found⟩
      (·.onInitFile) env.registry.definitions {}
  have hfinish (st : State) : AgreesState (env.finish st) ((env.among r ahead).finish st) :=
    agrees_fileHooks { env with part := .post } ⟨hfinds.running, hfinds.found⟩ ⟨hfinds'.running, hfinds'.found⟩
      (·.onEndFile) env.registry.definitions st
  rw [embedder] at hrunning ⊢
  rcases hrun : compileNodes (embedAt maxIncludes) env .all nodes env.start with ⟨e | u, st⟩ <;>
    rw [hrun] at hnodes hgrow hrunning
  · have hst : st.canceled = false := hrunning
    rw [hstart (hgrow.running hst), hnodes hst]
    rfl
  · have hend : (env.finish st).canceled = false := hrunning
    have hst : st.canceled = false := by
      cases hst : st.canceled with
      | false => rfl
      | true =>
        have hcanceled : (env.finish st).canceled = true :=
          canceled_fileHooks { env with part := .post } (·.onEndFile) env.registry.definitions hst
        exact absurd hcanceled (by simp [hend])
    rw [hstart (hgrow.running hst), hnodes hst]
    simp only [Env.outcome, hfinish st hend]

end Templates

/-- The paths that are asked for ahead, each once. -/
def pathsAhead (r : Registry) (nodes : List Node) : List Bytes :=
  ((directiveTagsList nodes).filterMap (prefetchPath r)).eraseDups

/-- Compiling a tree once these sources were loaded ahead. -/
def generateWith (r : Registry) (options : Options) (path : Bytes) (nodes : List Node) (found : Assoc Bytes Bytes) :
    Compilation :=
  let env := { options.env r path nodes with prefetched := found }
  env.outcome path (compileNodes embedder env .all nodes env.start)

theorem generate_eq_generateWith (r : Registry) (options : Options) (path : Bytes) (nodes : List Node) :
    generate r options path false nodes =
      generateWith r options path nodes (options.env r path nodes).prefetched :=
  generate_eq_outcome r options path nodes

/-- What was loaded ahead makes no difference, as long as nothing is cancelled: it is what the resolver gives. -/
theorem generateWith_congr (r : Registry) (options : Options) {resolver : Resolver}
    (hresolver : options.resolver = some resolver) (path : Bytes) (nodes : List Node) {found found' : Assoc Bytes Bytes}
    (hfound : ∀ p src, Assoc.get? p found = some src → resolver p = .ok src)
    (hfound' : ∀ p src, Assoc.get? p found' = some src → resolver p = .ok src)
    (hrunning : (generateWith r options path nodes found).canceled = false) :
    generateWith r options path nodes found' = generateWith r options path nodes found := by
  obtain ⟨_, parse, concurrency⟩ := options
  obtain rfl : _ = some resolver := hresolver
  let env := Options.env ⟨some resolver, parse, concurrency⟩ r path nodes
  exact agrees_outcome (finds_of_found env hfound) (finds_of_found env hfound') path nodes hrunning

/-- **Loading ahead never changes the result.** Whatever the order in which the requests for the sources are
answered, and whichever of them are not found, a tree compiles to what it compiles to when nothing is loaded
ahead, as long as nothing cancels it: the same template, with the same code, text for other loaders,
dependencies and errors, and the same log. -/
theorem generate_ahead (r : Registry) (options : Options) (resolver : Resolver) (path : Bytes) (nodes : List Node)
    (one : Int) (found : Assoc Bytes Bytes) (hresolver : options.resolver = some resolver) (hone : one ≤ 1)
    (hloads : Loads resolver options.concurrency.toNat (pathsAhead r nodes) found)
    (hrunning : (generate r { options with concurrency := one } path false nodes).canceled = false) :
    generateWith r options path nodes found = generate r { options with concurrency := one } path false nodes ∧
      generate r options path false nodes = generate r { options with concurrency := one } path false nodes := by
  have hnone : (Options.env { options with concurrency := one } r path nodes).prefetched = [] := by
    simp only [Options.env, hresolver]
    simp [Int.not_lt.mpr hone, prefetch]
  have hwithout : generate r { options with concurrency := one } path false nodes =
      generateWith r options path nodes [] := by
    rw [generate_eq_generateWith, hnone]
    rfl
  rw [hwithout] at hrunning ⊢
  refine ⟨generateWith_congr r options hresolver path nodes nofun (fun p src hp => ?_) hrunning, ?_⟩
  · rw [get?_of_loads hloads] at hp
    split at hp
    · cases answer : resolver p with
      | ok text => rw [answer] at hp; exact congrArg Except.ok (Option.some.inj hp)
      | error e => rw [answer] at hp; cases hp
    · cases hp
  · rw [generate_eq_generateWith]
    refine generateWith_congr r options hresolver path nodes nofun ?_ hrunning
    simp only [Options.env, hresolver]
    exact get?_prefetch resolver _

/-- Includes of a template that is there, one that is missing, another one, and the first again. -/
def includesTree : List Node :=
  ["'nav'", "'gone'", "'side'", "'nav'"].map fun args : String =>
    .directive { name := "include", args := some args, span := default } []

def twoFiles : Resolver := Resolver.ofTable [("nav", "<nav>"), ("side", "<aside>")]

/-- The last answer comes first, and one path is not found. -/
theorem generate_ahead_includes :
    let options : Options := { resolver := some twoFiles, concurrency := 2 }
    let found : Assoc Bytes Bytes := [("side", "<aside>"), ("nav", "<nav>")]
    Loads twoFiles 2 (pathsAhead registry includesTree) found ∧
      (generate registry { options with concurrency := 1 } "page" false includesTree).canceled = false ∧
      generateWith registry options "page" includesTree found =
        generate registry { options with concurrency := 1 } "page" false includesTree ∧
      generate registry options "page" false includesTree =
        generate registry { options with concurrency := 1 } "page" false includesTree := by
  intro options found
  have hpaths : pathsAhead registry includesTree = [("nav" : Bytes), ("gone" : Bytes), ("side" : Bytes)] := by
    decide +kernel
  have hloads : Loads twoFiles 2 (pathsAhead registry includesTree) found := by
    have nav : twoFiles "nav" = .ok "<nav>" := rfl
    have gone : twoFiles "gone" = .error (.notFound "gone") := rfl
    have side : twoFiles "side" = .ok "<aside>" := rfl
    rw [hpaths]
    refine .head (.ask (by decide)) (.head (.ask (by decide)) ?_)
    refine .head (.miss ["nav"] gone) ?_
    refine .head (.ask (by decide)) ?_
    refine .head (.find ["nav"] side) ?_
    exact .head (.find [] nav) .refl
  have hrunning : (generate registry { resolver := some twoFiles, concurrency := 1 } "page" false
      includesTree).canceled = false := by
    decide +kernel
  exact ⟨hloads, hrunning, generate_ahead registry options twoFiles "page" includesTree 1 found rfl (by decide) hloads
    hrunning⟩

end Stencil.Compile
