import Stencil.Proofs.Compile.Trees
import Stencil.Proofs.Control.Meaning

/-! # The code of control templates

`lower` writes out the code of a template of control directives. Compiling such a template either
records an error or gives exactly this code: `Lowers` says so of one step, and lists of nodes and chains
of parts do it when each of their nodes does (`lowers_compileNodes`, `grows_compileParts`). -/

namespace Stencil.Control

open Stencil.Compile
open Stencil.Directive
open Stencil.Directive.Standard
open Stencil.Markup (Node Tag)

mutual

/-- The code of a node, when `n` numbers are taken. -/
def lower (n : Nat) : Node → List Instr
  | .text value _ => if value = [] then [] else [.literal value]
  | .interpolation expr escaped _ => [.emit expr escaped]
  | .directive tag children =>
    if tag.name = "if" then
      .jumpIfNot (rawArg ifDirective tag "condition") (n + 2 : Nat) :: (lowerAll (n + 2) children
        ++ lowerElse (n + 1 : Nat) (n + 2 : Nat) (n + 2 + labelsAll children) children)
    else if tag.name = "switch" then
      .set (subjectName (n + 1)) (rawArg switchDirective tag "subject")
        :: lowerCases (subjectName (n + 1)) (n + 2 : Nat) (n + 2) children
    else if tag.name = "each" then
      .enter :: Statement.rangeInstr (rawArg eachDirective tag "items") (nameArg eachDirective tag "as")
        (nameArg eachDirective tag "key") (n + 2 : Nat) :: .mark (n + 1 : Nat) :: (lowerAll (n + 3) children
        ++ (Statement.nextInstr (n + 1 : Nat) :: .jump (n + 3 : Nat) :: .mark (n + 2 : Nat)
          :: (lowerParts (n + 3 + labelsAll children) children ++ [.mark (n + 3 : Nat), .exit .merge []])))
    else if tag.name = "set" then
      .set (nameArg setDirective tag "name") (rawArg setDirective tag "value") :: lowerAll n children
    else []
  | .part _ _ _ => []

/-- The code of the children that are no parts. -/
def lowerAll (n : Nat) : List Node → List Instr
  | [] => []
  | c :: cs => if c.isPart then lowerAll n cs else lower n c ++ lowerAll (n + labels c) cs

/-- The code of the alternatives of a condition, up to its end. The branch before them goes on at
`next` when its condition fails. -/
def lowerElse (stop next : Int) (n : Nat) : List Node → List Instr
  | [] => [.mark next, .mark stop]
  | .part _ tag children :: cs =>
    if tag.name = "elseif" then
      .jump stop :: .mark next :: .jumpIfNot (rawArg elseifPart tag "condition") (n + 1 : Nat)
        :: (lowerAll (n + 1) children ++ lowerElse stop (n + 1 : Nat) (n + 1 + labelsAll children) cs)
    else .jump stop :: .mark next :: (lowerAll n children ++ [.mark stop])
  | _ :: cs => lowerElse stop next n cs

/-- The code of the cases of a choice, up to its end. -/
def lowerCases (subject : Bytes) (stop : Int) (n : Nat) : List Node → List Instr
  | [] => [.mark stop]
  | .part _ tag children :: cs =>
    if tag.name = "case" then
      .jumpIfNot (subject ++ " == (" ++ rawArg casePart tag "value" ++ ")") (n + 1 : Nat)
        :: (lowerAll (n + 1) children
          ++ (.jump stop :: .mark (n + 1 : Nat) :: lowerCases subject stop (n + 1 + labelsAll children) cs))
    else lowerAll n children ++ [.mark stop]
  | _ :: cs => lowerCases subject stop n cs

/-- The code of what stands for a loop over nothing. -/
def lowerParts (n : Nat) : List Node → List Instr
  | [] => []
  | .part _ _ children :: cs => lowerAll n children ++ lowerParts (n + labelsAll children) cs
  | _ :: cs => lowerParts n cs

end

/-! ### Code around nodes -/

/-- How nodes are written: their code, when some numbers are taken, and how many numbers they take. -/
structure Writing where
  node : Nat → Node → List Instr
  labels : Node → Nat

namespace Writing
variable (w : Writing)

/-- The numbers of the children that are no parts. -/
def count : List Node → Nat
  | [] => 0
  | c :: cs => (if c.isPart then 0 else w.labels c) + count cs

/-- The numbers of the parts; those with the name `numbered` take one for themselves. -/
def countOfParts (numbered : Bytes) : List Node → Nat
  | [] => 0
  | .part _ tag children :: cs =>
    (if tag.name = numbered then 1 else 0) + w.count children + countOfParts numbered cs
  | _ :: cs => countOfParts numbered cs

/-- The code of the children that are no parts. -/
def code (n : Nat) : List Node → List Instr
  | [] => []
  | c :: cs => if c.isPart then code n cs else w.node n c ++ code (n + w.labels c) cs

/-- The code of the alternatives of a condition, up to its end. The branch before them goes on at
`next` when its condition fails. -/
def alternatives (stop next : Int) (n : Nat) : List Node → List Instr
  | [] => [.mark next, .mark stop]
  | .part _ tag children :: cs =>
    if tag.name = "elseif" then
      .jump stop :: .mark next :: .jumpIfNot (rawArg elseifPart tag "condition") (n + 1 : Nat)
        :: (w.code (n + 1) children ++ alternatives stop (n + 1 : Nat) (n + 1 + w.count children) cs)
    else .jump stop :: .mark next :: (w.code n children ++ [.mark stop])
  | _ :: cs => alternatives stop next n cs

/-- The code of the cases of a choice, up to its end. -/
def choices (subject : Bytes) (stop : Int) (n : Nat) : List Node → List Instr
  | [] => [.mark stop]
  | .part _ tag children :: cs =>
    if tag.name = "case" then
      .jumpIfNot (subject ++ " == (" ++ rawArg casePart tag "value" ++ ")") (n + 1 : Nat)
        :: (w.code (n + 1) children
          ++ (.jump stop :: .mark (n + 1 : Nat) :: choices subject stop (n + 1 + w.count children) cs))
    else w.code n children ++ [.mark stop]
  | _ :: cs => choices subject stop n cs

/-- The code of what stands for a loop over nothing. -/
def parts (n : Nat) : List Node → List Instr
  | [] => []
  | .part _ _ children :: cs => w.code n children ++ parts (n + w.count children) cs
  | _ :: cs => parts n cs

/-- The code of a control directive. -/
def control (n : Nat) (tag : Tag) (children : List Node) : List Instr :=
  if tag.name = "if" then
    .jumpIfNot (rawArg ifDirective tag "condition") (n + 2 : Nat) :: (w.code (n + 2) children
      ++ w.alternatives (n + 1 : Nat) (n + 2 : Nat) (n + 2 + w.count children) children)
  else if tag.name = "switch" then
    .set (subjectName (n + 1)) (rawArg switchDirective tag "subject")
      :: w.choices (subjectName (n + 1)) (n + 2 : Nat) (n + 2) children
  else if tag.name = "each" then
    .enter :: Statement.rangeInstr (rawArg eachDirective tag "items") (nameArg eachDirective tag "as")
      (nameArg eachDirective tag "key") (n + 2 : Nat) :: .mark (n + 1 : Nat) :: (w.code (n + 3) children
      ++ (Statement.nextInstr (n + 1 : Nat) :: .jump (n + 3 : Nat) :: .mark (n + 2 : Nat)
        :: (w.parts (n + 3 + w.count children) children ++ [.mark (n + 3 : Nat), .exit .merge []])))
  else
    .set (nameArg setDirective tag "name") (rawArg setDirective tag "value") :: w.code n children

/-- The numbers of a control directive. -/
def controlCount (tag : Tag) (children : List Node) : Nat :=
  if tag.name = "if" then 2 + w.count children + w.countOfParts "elseif" children
  else if tag.name = "switch" then 2 + w.countOfParts "case" children
  else if tag.name = "each" then 3 + w.count children + w.countOfParts [] children
  else w.count children

end Writing

/-! ### Growth of errors -/

/-- Nothing is cancelled, and text goes to the program. -/
structure Ready (st : State) : Prop where
  running : st.canceled = false
  loader : st.out.loader = primaryLoader

/-- Errors are never taken back; without new ones `P` holds. -/
structure Grows (st st' : State) (P : Prop) : Prop where
  ready : Ready st'
  errors : st.errors.length ≤ st'.errors.length
  holds : st'.errors.length = st.errors.length → P

namespace Grows
variable {st st₁ st₂ : State} {P Q : Prop}

theorem mono (h : Grows st st₁ P) (hPQ : P → Q) : Grows st st₁ Q :=
  ⟨h.ready, h.errors, fun he => hPQ (h.holds he)⟩

theorem trans (h : Grows st st₁ P) (h' : Grows st₁ st₂ Q) : Grows st st₂ (P ∧ Q) where
  ready := h'.ready
  errors := Nat.le_trans h.errors h'.errors
  holds he := by
    have := h.errors
    have := h'.errors
    exact ⟨h.holds (by omega), h'.holds (by omega)⟩

theorem of_eq (hready : Ready st₁) (herrors : st₁.errors = st.errors) (hP : P) : Grows st st₁ P :=
  ⟨hready, Nat.le_of_eq (congrArg _ herrors.symm), fun _ => hP⟩

/-- A new error leaves nothing to show. -/
theorem of_error (hready : Ready st₁) (herrors : st.errors.length < st₁.errors.length) : Grows st st₁ P :=
  ⟨hready, Nat.le_of_lt herrors, fun he => absurd he (Nat.ne_of_gt herrors)⟩

end Grows

/-- The body has grown by `code`, and `count` numbers were taken. -/
structure Wrote (st st' : State) (code : List Instr) (count : Nat) : Prop extends Adds st st' code where
  count : st'.labels = st.labels + count

theorem Wrote.refl (st : State) : Wrote st st [] 0 := ⟨.refl st, rfl⟩

theorem Wrote.trans {st st₁ st₂ : State} {a b : List Instr} {k l : Nat} (h : Wrote st st₁ a k) (h' : Wrote st₁ st₂ b l) :
    Wrote st st₂ (a ++ b) (k + l) :=
  ⟨h.toAdds.trans h'.toAdds, by rw [h'.count, h.count, Nat.add_assoc]⟩

theorem Wrote.ready {st st' : State} {code : List Instr} {count : Nat} (h : Wrote st st' code count) (hst : Ready st) :
    Ready st' :=
  ⟨h.running.trans hst.running, h.loader.trans hst.loader⟩

/-- What the chain at hand keeps is not looked at. -/
theorem Grows.data {st st₁ : State} {data data' : Bindings} {code : List Instr} {count : Nat}
    (h : Grows { st with data } st₁ (Wrote { st with data } st₁ code count)) :
    Grows st { st₁ with data := data' } (Wrote st { st₁ with data := data' } code count) where
  ready := ⟨h.ready.running, h.ready.loader⟩
  errors := h.errors
  holds he :=
    have hwrote := h.holds he
    ⟨⟨hwrote.pre, hwrote.body, hwrote.post, hwrote.loader, hwrote.labels, hwrote.running⟩, hwrote.count⟩

/-- Compiling always succeeds, writes the code that `code` gives for the numbers taken before, unless
it records an error, and keeps what the chain at hand remembers. -/
def Lowers (f : State → Outcome Unit) (code : Nat → List Instr) (count : Nat) : Prop :=
  ∀ st, Ready st → ∃ st', f st = (.ok (), st') ∧ st'.data = st.data ∧ Grows st st' (Wrote st st' (code st.labels) count)

/-- What a failure leaves. -/
structure Failed (st st' : State) : Prop where
  running : st'.canceled = false
  errors : st.errors.length ≤ st'.errors.length

theorem Failed.refl {st : State} (hst : Ready st) : Failed st st := ⟨hst.running, Nat.le_refl _⟩

section Contained
variable {env : Env} {st : State}

theorem grows_reject (hpart : env.part = .body) (hst : Ready st) (tag : Tag) (kind : DiagnosticKind) (message : Bytes)
    {P : Prop} : Grows st (st.reject env tag kind message) P := by
  refine .of_error ⟨hst.running, ?_⟩ (by simp [State.reject, State.report, State.emit])
  exact (emits_reject hpart st tag kind message).loader.trans hst.loader

/-- One use of a directive grows as its life does; a failure records an error. -/
theorem grows_contained (hpart : env.part = .body) (hst : Ready st) {ask : Requests} {tag : Tag} {d : Definition}
    {owner : Bytes} {P : State → Prop}
    (h : Ends (lifecycle env ask tag d owner st) (fun _ st' => Grows st st' (P st')) (Failed st)) :
    Grows st (contained env ask tag d owner st) (P (contained env ask tag d owner st)) := by
  rcases contained_cases h with h | ⟨after, e, hafter, heq⟩
  · exact h
  · rw [heq]
    refine .of_error ⟨hafter.running, ?_⟩ ?_
    · simp [State.rollback, State.backTo, Output.backTo, Output.mark, State.report, State.emit, Output.append, hpart,
        hst.loader]
    · have := hafter.errors
      simp only [State.rollback, State.backTo, State.report, State.emit, List.length_append, List.length_singleton]
      omega

end Contained

/-! ### Lists of nodes -/

namespace Lowers
variable {f g : State → Outcome Unit} {a b : Nat → List Instr} {k l : Nat}

theorem congr (h : Lowers f a k) (hg : ∀ st, Ready st → g st = f st) : Lowers g a k := by
  intro st hst
  rw [hg st hst]
  exact h st hst

theorem andThen (hf : Lowers f a k) (hg : Lowers g b l) :
    Lowers (fun st => andThen (f st) fun _ st => g st) (fun n => a n ++ b (n + k)) (k + l) := by
  intro st hst
  obtain ⟨st₁, h₁, hdata₁, hgrows₁⟩ := hf st hst
  obtain ⟨st₂, h₂, hdata₂, hgrows₂⟩ := hg st₁ hgrows₁.ready
  refine ⟨st₂, by simp only [Compile.andThen, h₁, h₂], hdata₂.trans hdata₁, (hgrows₁.trans hgrows₂).mono ?_⟩
  rintro ⟨hwrote₁, hwrote₂⟩
  rw [hwrote₁.count] at hwrote₂
  exact hwrote₁.trans hwrote₂

/-- Goes on after code that was written already. -/
theorem ends (hf : Lowers f a k) {st st₁ : State} {code : List Instr} {P : Prop}
    (h₁ : Grows st st₁ (Wrote st st₁ code l ∧ P)) {failed : State → Prop} :
    Ends (f st₁) (fun _ st₂ => Grows st st₂ (Wrote st st₂ (code ++ a (st.labels + l)) (l + k) ∧ st₂.data = st₁.data ∧ P))
      failed := by
  obtain ⟨st₂, hrun, hdata, h₂⟩ := hf st₁ h₁.ready
  rw [hrun]
  refine (h₁.trans h₂).mono ?_
  rintro ⟨⟨hwrote₁, hP⟩, hwrote₂⟩
  rw [hwrote₁.count] at hwrote₂
  exact ⟨hwrote₁.trans hwrote₂, hdata, hP⟩

theorem skip : Lowers (fun st => (.ok (), st)) (fun _ => []) 0 :=
  fun st hst => ⟨st, rfl, rfl, .of_eq hst rfl (.refl st)⟩

/-- What always records an error lowers to anything. -/
theorem of_error {f : State → State} (h : ∀ st, Ready st → (f st).data = st.data ∧ Grows st (f st) False) :
    Lowers (fun st => (.ok (), f st)) a k :=
  fun st hst => ⟨f st, rfl, (h st hst).1, (h st hst).2.mono False.elim⟩

end Lowers

section Nodes
variable {w : Writing} {embed : Embedder} {env : Env}

/-- Compiling a node writes its code. -/
def NodeLowers (w : Writing) (embed : Embedder) (env : Env) (n : Node) : Prop :=
  Lowers (fun st => (.ok (), compileNode embed env n st)) (fun k => w.node k n) (w.labels n)

variable (hpart : env.part = .body)
include hpart

theorem lowers_compileNodes (which : Selection) : ∀ ns : List Node,
    (∀ n ∈ ns, n.isPart = false → NodeLowers w embed env n) →
      Lowers (compileNodes embed env which ns) (fun k => w.code k ns) (w.count ns)
  | [], _ => Lowers.skip
  | n :: ns, h => by
    have ih := lowers_compileNodes which ns fun m hm => h m (List.mem_cons_of_mem n hm)
    cases hn : n.isPart with
    | false =>
      have hnode := h n List.mem_cons_self hn
      simp only [Writing.code, Writing.count, hn, Bool.false_eq_true, if_false]
      refine (hnode.andThen ih).congr fun st hst => ?_
      cases which <;> simp [compileNodes, selects, hn, hst.running, andThen]
    | true =>
      simp only [Writing.code, Writing.count, hn, if_true, Nat.zero_add]
      cases which with
      | regular => exact ih.congr fun st hst => by simp [compileNodes, selects, hn]
      | all =>
        -- a part that stands by itself is turned away
        have hreject : Lowers (fun st => (.ok (), compileNode embed env n st)) (fun _ => []) 0 := by
          cases n with
          | part owner tag children => exact .of_error fun st hst => ⟨rfl, grows_reject hpart hst tag _ _⟩
          | _ => cases hn
        have hboth := hreject.andThen ih
        simp only [List.nil_append, Nat.add_zero, Nat.zero_add] at hboth
        exact hboth.congr fun st hst => by simp [compileNodes, selects, hst.running, andThen]

/-- Without parts of its own a link turns away all that follow. -/
theorem lowers_compileParts_nil {d : Definition} (hd : d.parts = []) (owner : Bytes) (ns : List Node) :
    Lowers (compileParts embed env d owner ns) (fun _ => []) 0 := by
  induction ns with
  | nil => exact Lowers.skip
  | cons n ns ih =>
    cases n with
    | part name tag children =>
      have hreject : Lowers (fun st => (.ok (), compilePart embed env d owner (.part name tag children) st))
          (fun _ => []) 0 := by
        refine .of_error fun st hst => ?_
        simp only [compilePart, Definition.part?, hd, List.find?_nil]
        exact ⟨rfl, grows_reject hpart hst tag _ _⟩
      exact (hreject.andThen ih).congr fun st hst => by simp [compileParts, Node.isPart, hst.running, andThen]
    | _ => exact ih.congr fun st hst => by simp [compileParts, Node.isPart]

end Nodes

/-! ### Directives -/

theorem rawArg_eq {d : Definition} {tag : Tag} {args : Argument.Arguments} (h : Argument.read tag.expr d.params = .ok args)
    (name : Bytes) : rawArg d tag name = args.rawD name := by
  simp only [rawArg, h]

theorem nameArg_eq {d : Definition} {tag : Tag} {args : Argument.Arguments} (h : Argument.read tag.expr d.params = .ok args)
    {name value : Bytes} (hvalue : args.string name = .ok value) : nameArg d tag name = value := by
  simp only [nameArg, h, hvalue, Except.toOption, Option.getD]

/-- Instructions of a hook. -/
theorem wrote_emit {env : Env} (hpart : env.part = .body) (st : State) (code : List Instr) :
    Wrote st (st.emit env.part code) code 0 :=
  ⟨adds_emit hpart st code, rfl⟩

theorem Wrote.of_start {st st₁ st₂ : State} {code : List Instr} {k l : Nat} (h : Wrote st₁ st₂ code k)
    (hout : st₁.out = st.out) (hlabels : st₁.labels = st.labels + l) (hrun : st₁.canceled = st.canceled) :
    Wrote st st₂ code (l + k) :=
  ⟨h.toAdds.of_start hout (by omega) hrun, by rw [h.count, hlabels, Nat.add_assoc]⟩

section Directives
variable {w : Writing} {env : Env} {ask : Requests} {tag : Tag} {owner : Bytes} {children : List Node} {st : State}
variable (hbody : Lowers (ask.compile .regular) (fun k => w.code k children) (w.count children))
include hbody

/-- Children of a link without parts of its own. -/
theorem lowers_children {d : Definition} (hd : d.onChildren = none) (hchain : Lowers ask.chain (fun _ => []) 0)
    (call : Call) : Lowers (lifeOfChildren env ask d call) (fun k => w.code k children) (w.count children) := by
  have h := hbody.andThen hchain
  simp only [List.append_nil, Nat.add_zero] at h
  exact h.congr fun st hst => by rw [lifeOfChildren, hd]

variable (hpart : env.part = .body) (hst : Ready st)
include hpart hst

theorem ends_set (hname : tag.name = "set") (hchain : Lowers ask.chain (fun _ => []) 0) :
    Ends (lifecycle env ask tag setDirective owner st)
      (fun _ st' => Grows st st' (Wrote st st' (w.control st.labels tag children)
        (w.controlCount tag children))) (Failed st) := by
  have hlower : w.control st.labels tag children =
      [.set (nameArg setDirective tag "name") (rawArg setDirective tag "value")] ++ w.code st.labels children := by
    simp only [Writing.control, hname]
    rfl
  have hlabels : w.controlCount tag children = 0 + w.count children := by
    simp only [Writing.controlCount, hname, Nat.zero_add]
    rfl
  rw [hlower, hlabels]
  refine ends_lifecycle (A := (st = ·))
    (B := fun st₁ => Grows st st₁ (Wrote st st₁
      [.set (nameArg setDirective tag "name") (rawArg setDirective tag "value")] 0 ∧ True))
    (C := fun st' => Grows st st' (Wrote st st' _ _)) (.refl hst) fun args hargs => ⟨rfl, ?_, ?_, fun _ h => h⟩
  · rintro _ rfl
    refine ((ends_setParams env ask _ st).mono_failed ?_).mono ?_
    · rintro _ rfl
      exact .refl hst
    · rintro _ _ ⟨name, hname, rfl⟩
      have hwrote := wrote_emit hpart st [.set name (args.rawD "value")]
      rw [rawArg_eq hargs, nameArg_eq hargs hname]
      exact .of_eq (hwrote.ready hst) rfl ⟨hwrote, trivial⟩
  · intro st₁ h₁
    exact ((lowers_children hbody rfl hchain _).ends h₁).mono fun _ st₂ h₂ => h₂.mono And.left

end Directives

/-! ### Chains -/

/-- The answers that a link gets about its children. -/
abbrev answers (embed : Embedder) (env : Env) (d : Definition) (owner : Bytes) (children : List Node) : Requests where
  compile which st := compileNodes embed env which children st
  chain st := compileParts embed env d owner children st
  literalText which := literalText which children
  embed := embed env

/-- The children of the nodes are written as their code. -/
def BodiesLower (w : Writing) (embed : Embedder) (env : Env) (ns : List Node) : Prop :=
  ∀ n ∈ ns, Lowers (compileNodes embed env .regular n.children) (fun k => w.code k n.children) (w.count n.children)

section Chains
variable {w : Writing} {embed : Embedder} {env : Env} {owner : Bytes}

theorem grows_compilePart (hpart : env.part = .body) {d : Definition} {st : State} (hst : Ready st) {name : Bytes} {tag : Tag}
    {body : List Node} {P : State → Prop}
    (h : ∀ p, d.part? tag.name = some p →
      Ends (lifecycle env (answers embed env p owner body) tag p owner st) (fun _ st' => Grows st st' (P st'))
        (Failed st)) :
    Grows st (compilePart embed env d owner (.part name tag body) st)
      (P (compilePart embed env d owner (.part name tag body) st)) := by
  rw [compilePart]
  split
  · exact grows_reject hpart hst tag _ _
  · rename_i p hp
    exact grows_contained hpart hst (h p hp)

/-- A chain comes to what its parts come to, one after the other. -/
theorem grows_compileParts {d : Definition} {P : Tag → List Node → State → State → Prop}
    {R : List Node → State → State → Prop} (hnil : ∀ st, R [] st st)
    (hskip : ∀ c cs st st', c.isPart = false → R cs st st' → R (c :: cs) st st')
    (hnext : ∀ name tag body cs st st₁ st', P tag body st st₁ → R cs st₁ st' →
      R (.part name tag body :: cs) st st') (ns : List Node)
    (h : ∀ name tag body, .part name tag body ∈ ns → ∀ st, Ready st →
      Grows st (compilePart embed env d owner (.part name tag body) st)
        (P tag body st (compilePart embed env d owner (.part name tag body) st))) :
    ∀ st, Ready st → ∃ st', compileParts embed env d owner ns st = (.ok (), st') ∧ Grows st st' (R ns st st') := by
  induction ns with
  | nil =>
    intro st hst
    exact ⟨st, rfl, .of_eq hst rfl (hnil st)⟩
  | cons c cs ih =>
    intro st hst
    replace ih := ih fun name tag body hmem => h name tag body (List.mem_cons_of_mem c hmem)
    cases hc : c.isPart with
    | false =>
      obtain ⟨st', hrun, hgrows⟩ := ih st hst
      refine ⟨st', ?_, hgrows.mono (hskip c cs st st' hc)⟩
      simp only [compileParts, hc, Bool.false_eq_true, if_false, hrun]
    | true =>
      cases c with
      | part name tag body =>
        have hfirst := h name tag body List.mem_cons_self st hst
        obtain ⟨st', hrun, hgrows⟩ := ih _ hfirst.ready
        refine ⟨st', ?_, (hfirst.trans hgrows).mono fun hboth => hnext name tag body cs st _ st' hboth.1 hboth.2⟩
        simp only [compileParts, Node.isPart, hst.running, Bool.false_eq_true, if_false, if_true, hrun]
      | _ => cases hc

theorem countOfParts_eq_zero (numbered : Bytes) : ∀ ns : List Node, (∀ c ∈ ns, c.isPart = false) →
    w.countOfParts numbered ns = 0
  | [], _ => rfl
  | c :: cs, h => by
    have ih := countOfParts_eq_zero numbered cs fun d hd => h d (List.mem_cons_of_mem c hd)
    cases c with
    | part name tag body => exact absurd (h _ List.mem_cons_self) (by simp [Node.isPart])
    | _ => exact ih

theorem countOfParts_skip (numbered : Bytes) {c : Node} (hc : c.isPart = false) (cs : List Node) :
    w.countOfParts numbered (c :: cs) = w.countOfParts numbered cs := by
  cases c with
  | part name tag body => cases hc
  | _ => rfl

/-- The children of a link without parts and hooks for them. -/
theorem lowers_body (hpart : env.part = .body) {p : Definition} (hchildren : p.onChildren = none) (hparts : p.parts = [])
    {body : List Node}
    (hbody : Lowers (compileNodes embed env .regular body) (fun k => w.code k body) (w.count body)) (call : Call) :
    Lowers (lifeOfChildren env (answers embed env p owner body) p call) (fun k => w.code k body) (w.count body) :=
  lowers_children hbody hchildren (lowers_compileParts_nil hpart hparts owner body) call

end Chains

end Stencil.Control
