import Stencil.Proofs.Blocks.Meaning
import Stencil.Proofs.Control.Generation

/-! # The statements of templates

The code of a template as statements, which are well formed (`allWellFormed_statementsAll`). For a tree whose includes
are filled in, it is written as the control directives write their code, whatever stands in them (`control_writing`). -/

namespace Stencil.Blocks

open Stencil.Control (Writing rawArg nameArg labels labelsAll labelsOfParts subjectName)
open Stencil.Directive
open Stencil.Directive.Standard
open Stencil.Markup (Node Tag)
open Statement (codeAll AllWellFormed WellFormed)

/-- A branch leaves for the end when other branches follow it. -/
def leaving (stop : Int) (ns : List Node) : Option Int := if ns.any Node.isPart then some stop else none

/-- The end of a component. -/
def renderInstr (path props : Bytes) : Instr := { op := .exitScope, mode := .component, name := path, expr := props }

mutual

/-- The statements of a node, when `n` numbers are taken. -/
def statements (n : Nat) : Node → List Statement
  | .text value _ => if value = [] then [] else [.plain (.literal value)]
  | .interpolation expr escaped _ => [.plain (.emit expr escaped)]
  | .directive tag children =>
    if tag.name = "if" then
      [.region (n + 1 : Nat) (.branch (rawArg ifDirective tag "condition") (n + 2 : Nat)
        (leaving (n + 1 : Nat) children) (statementsAll (n + 2) children)
        :: alternatives (n + 1 : Nat) (n + 2 + labelsAll children) children)]
    else if tag.name = "switch" then
      [.plain (.set (subjectName (n + 1)) (rawArg switchDirective tag "subject")),
        .region (n + 2 : Nat) (choices (subjectName (n + 1)) (n + 2 : Nat) (n + 2) children)]
    else if tag.name = "each" then
      [.scope .enter [.loop (rawArg eachDirective tag "items") (nameArg eachDirective tag "as")
        (nameArg eachDirective tag "key") (n + 1 : Nat) (n + 2 : Nat) (n + 3 : Nat) (statementsAll (n + 3) children)
        (parts (n + 3 + labelsAll children) children)] (.exit .merge [])]
    else if tag.name = "set" then
      .plain (.set (nameArg setDirective tag "name") (rawArg setDirective tag "value")) :: statementsAll n children
    else if tag.name = "include" then
      [.scope .enter ((if rawArg includeDirective tag "with" = [] then []
        else [.plain (.bind (rawArg includeDirective tag "with"))]) ++ statementsAll n children) (.exit .merge [])]
    else if tag.name = "section" then
      [.scope .enter (statementsAll n children) (.exit .define (nameArg sectionDirective tag "name"))]
    else if tag.name = "push" then
      [.scope .enter (statementsAll n children) (.exit .push (nameArg pushDirective tag "name"))]
    else if tag.name = "slot" then
      [.scope .enter (statementsAll n children) (.exit .slot (nameArg slotDirective tag "name"))]
    else if tag.name = "component" then
      [.scope .enterComponent (statementsAll n children)
        (renderInstr (nameArg componentDirective tag "path") (rawArg componentDirective tag "props"))]
    else []
  | .part _ _ _ => []

/-- The statements of the children that are no parts. -/
def statementsAll (n : Nat) : List Node → List Statement
  | [] => []
  | c :: cs => if c.isPart then statementsAll n cs else statements n c ++ statementsAll (n + labels c) cs

/-- The branches of a condition after the first. -/
def alternatives (stop : Int) (n : Nat) : List Node → List Statement
  | [] => []
  | .part _ tag children :: cs =>
    if tag.name = "elseif" then
      .branch (rawArg elseifPart tag "condition") (n + 1 : Nat) (leaving stop cs) (statementsAll (n + 1) children)
        :: alternatives stop (n + 1 + labelsAll children) cs
    else statementsAll n children
  | _ :: cs => alternatives stop n cs

/-- The cases of a choice. -/
def choices (subject : Bytes) (stop : Int) (n : Nat) : List Node → List Statement
  | [] => []
  | .part _ tag children :: cs =>
    if tag.name = "case" then
      .branch (subject ++ " == (" ++ rawArg casePart tag "value" ++ ")") (n + 1 : Nat) (some stop)
        (statementsAll (n + 1) children) :: choices subject stop (n + 1 + labelsAll children) cs
    else statementsAll n children
  | _ :: cs => choices subject stop n cs

/-- What stands for a loop over nothing. -/
def parts (n : Nat) : List Node → List Statement
  | [] => []
  | .part _ _ children :: cs => statementsAll n children ++ parts (n + labelsAll children) cs
  | _ :: cs => parts n cs

end

/-! ### By name -/

section Named
variable {tag : Tag} (n : Nat) (children : List Node)

theorem statements_if (h : tag.name = "if") : statements n (.directive tag children) =
    [.region (n + 1 : Nat) (.branch (rawArg ifDirective tag "condition") (n + 2 : Nat)
      (leaving (n + 1 : Nat) children) (statementsAll (n + 2) children)
      :: alternatives (n + 1 : Nat) (n + 2 + labelsAll children) children)] := by
  rw [statements, if_pos h]

theorem statements_switch (h : tag.name = "switch") : statements n (.directive tag children) =
    [.plain (.set (subjectName (n + 1)) (rawArg switchDirective tag "subject")),
      .region (n + 2 : Nat) (choices (subjectName (n + 1)) (n + 2 : Nat) (n + 2) children)] := by
  simp only [statements, h]
  rfl

theorem statements_each (h : tag.name = "each") : statements n (.directive tag children) =
    [.scope .enter [.loop (rawArg eachDirective tag "items") (nameArg eachDirective tag "as")
      (nameArg eachDirective tag "key") (n + 1 : Nat) (n + 2 : Nat) (n + 3 : Nat) (statementsAll (n + 3) children)
      (parts (n + 3 + labelsAll children) children)] (.exit .merge [])] := by
  simp only [statements, h]
  rfl

theorem statements_set (h : tag.name = "set") : statements n (.directive tag children) =
    .plain (.set (nameArg setDirective tag "name") (rawArg setDirective tag "value")) :: statementsAll n children := by
  simp only [statements, h]
  rfl

theorem statements_include (h : tag.name = "include") : statements n (.directive tag children) =
    [.scope .enter ((if rawArg includeDirective tag "with" = [] then []
      else [.plain (.bind (rawArg includeDirective tag "with"))]) ++ statementsAll n children) (.exit .merge [])] := by
  simp only [statements, h]
  rfl

theorem statements_section (h : tag.name = "section") : statements n (.directive tag children) =
    [.scope .enter (statementsAll n children) (.exit .define (nameArg sectionDirective tag "name"))] := by
  simp only [statements, h]
  rfl

theorem statements_push (h : tag.name = "push") : statements n (.directive tag children) =
    [.scope .enter (statementsAll n children) (.exit .push (nameArg pushDirective tag "name"))] := by
  simp only [statements, h]
  rfl

theorem statements_slot (h : tag.name = "slot") : statements n (.directive tag children) =
    [.scope .enter (statementsAll n children) (.exit .slot (nameArg slotDirective tag "name"))] := by
  simp only [statements, h]
  rfl

theorem statements_component (h : tag.name = "component") : statements n (.directive tag children) =
    [.scope .enterComponent (statementsAll n children)
      (renderInstr (nameArg componentDirective tag "path") (rawArg componentDirective tag "props"))] := by
  simp only [statements, h]
  rfl

theorem labels_block (h : tag.name ∈ ([("include" : Bytes), "section", "push", "slot", "component"] : List Bytes)) :
    labels (.directive tag children) = labelsAll children := by
  simp only [List.mem_cons, List.not_mem_nil, or_false] at h
  rcases h with h | h | h | h | h <;> simp only [labels, h] <;> rfl

end Named

/-! ### Form -/

/-- The statements of a node and of its children are well formed. -/
def NodeForm (c : Node) : Prop :=
  (∀ n, AllWellFormed none (statements n c)) ∧ ∀ n, AllWellFormed none (statementsAll n c.children)

theorem leaving_cases (stop : Int) (ns : List Node) : leaving stop ns = none ∨ leaving stop ns = some stop := by
  unfold leaving
  split
  · exact .inr rfl
  · exact .inl rfl

theorem allWellFormed_statementsAll_of : ∀ (ns : List Node) (n : Nat), (∀ c ∈ ns, NodeForm c) →
    AllWellFormed none (statementsAll n ns)
  | [], _, _ => trivial
  | c :: cs, n, h => by
    have ih (k : Nat) := allWellFormed_statementsAll_of cs k fun d hd => h d (List.mem_cons_of_mem c hd)
    rw [statementsAll]
    split
    · exact ih n
    · exact (Statement.allWellFormed_append _ _).mpr ⟨(h c List.mem_cons_self).1 n, ih _⟩

section
variable {ns : List Node} (h : ∀ c ∈ ns, NodeForm c)
include h

theorem allWellFormed_alternatives (stop : Int) (n : Nat) : AllWellFormed (some stop) (alternatives stop n ns) := by
  induction ns generalizing n with
  | nil => trivial
  | cons c cs ih =>
    obtain ⟨hc, hcs⟩ := List.forall_mem_cons.mp h
    cases c with
    | part owner tag children =>
      rw [alternatives]
      split
      · exact ⟨⟨leaving_cases stop cs, hc.2 _⟩, ih hcs _⟩
      · exact (hc.2 n).within _
    | text | interpolation | directive => exact ih hcs n

theorem allWellFormed_choices (subject : Bytes) (stop : Int) (n : Nat) :
    AllWellFormed (some stop) (choices subject stop n ns) := by
  induction ns generalizing n with
  | nil => trivial
  | cons c cs ih =>
    obtain ⟨hc, hcs⟩ := List.forall_mem_cons.mp h
    cases c with
    | part owner tag children =>
      rw [choices]
      split
      · exact ⟨⟨.inr rfl, hc.2 _⟩, ih hcs _⟩
      · exact (hc.2 n).within _
    | text | interpolation | directive => exact ih hcs n

theorem allWellFormed_parts (n : Nat) : AllWellFormed none (parts n ns) := by
  induction ns generalizing n with
  | nil => trivial
  | cons c cs ih =>
    obtain ⟨hc, hcs⟩ := List.forall_mem_cons.mp h
    cases c with
    | part owner tag children => exact (Statement.allWellFormed_append _ _).mpr ⟨hc.2 n, ih hcs _⟩
    | text | interpolation | directive => exact ih hcs n

omit h in
theorem allWellFormed_scope {opening closing : Instr} {body : List Statement} (hopen : opening.op = .enterScope)
    (hclose : closing.op = .exitScope) (hknown : closing.mode.isKnown = true) (hbody : AllWellFormed none body) :
    AllWellFormed none [.scope opening body closing] :=
  ⟨⟨hopen, hclose, hknown, hbody⟩, trivial⟩

theorem allWellFormed_directive (tag : Tag) (n : Nat) : AllWellFormed none (statements n (.directive tag ns)) := by
  have hbody (k : Nat) : AllWellFormed none (statementsAll k ns) := allWellFormed_statementsAll_of ns k h
  rw [statements]
  by_cases hif : tag.name = "if"
  · rw [if_pos hif]
    refine ⟨?_, trivial⟩
    simp only [WellFormed]
    exact ⟨⟨leaving_cases _ ns, hbody _⟩, allWellFormed_alternatives h _ _⟩
  rw [if_neg hif]
  by_cases hswitch : tag.name = "switch"
  · rw [if_pos hswitch]
    refine ⟨rfl, ?_, trivial⟩
    simp only [WellFormed]
    exact allWellFormed_choices h _ _ _
  rw [if_neg hswitch]
  by_cases heach : tag.name = "each"
  · rw [if_pos heach]
    exact allWellFormed_scope rfl rfl rfl ⟨⟨hbody _, allWellFormed_parts h _⟩, trivial⟩
  rw [if_neg heach]
  by_cases hset : tag.name = "set"
  · rw [if_pos hset]
    exact ⟨rfl, hbody n⟩
  rw [if_neg hset]
  by_cases hinclude : tag.name = "include"
  · rw [if_pos hinclude]
    refine allWellFormed_scope rfl rfl rfl ((Statement.allWellFormed_append _ _).mpr ⟨?_, hbody n⟩)
    split
    · trivial
    · exact ⟨rfl, trivial⟩
  rw [if_neg hinclude]
  -- the other blocks differ in their closing instruction only
  repeat' split
  · exact allWellFormed_scope rfl rfl rfl (hbody n)
  · exact allWellFormed_scope rfl rfl rfl (hbody n)
  · exact allWellFormed_scope rfl rfl rfl (hbody n)
  · exact allWellFormed_scope rfl rfl rfl (hbody n)
  · trivial

end

theorem nodeForm (c : Node) : NodeForm c := by
  induction c using Node.byChildren with
  | h c ih =>
    refine ⟨fun n => ?_, fun n => allWellFormed_statementsAll_of c.children n ih⟩
    cases c with
    | text value span =>
      rw [statements]
      split
      · trivial
      · exact ⟨rfl, trivial⟩
    | interpolation expr escaped span => exact ⟨rfl, trivial⟩
    | part owner tag children => trivial
    | directive tag children => exact allWellFormed_directive ih tag n

theorem allWellFormed_statementsAll (ns : List Node) (n : Nat) : AllWellFormed none (statementsAll n ns) :=
  allWellFormed_statementsAll_of ns n fun c _ => nodeForm c

/-! ### Written code -/

/-- How nodes are written once their includes are filled in. -/
def writing (included : Tag → List Node) : Writing where
  node n c := codeAll (statementsAll n (fill included c))
  labels c := labelsAll (fill included c)

@[simp] theorem labelsAll_append (a b : List Node) : labelsAll (a ++ b) = labelsAll a + labelsAll b := by
  induction a with
  | nil => simp [labelsAll]
  | cons c a ih => simp [labelsAll, ih, Nat.add_assoc]

@[simp] theorem statementsAll_append (a b : List Node) (n : Nat) :
    statementsAll n (a ++ b) = statementsAll n a ++ statementsAll (n + labelsAll a) b := by
  induction a generalizing n with
  | nil => simp [statementsAll, labelsAll]
  | cons c a ih =>
    rw [List.cons_append, statementsAll, statementsAll, labelsAll]
    split
    · simp [ih]
    · simp [ih, Nat.add_assoc]

/-- What only looks at parts passes over the other nodes. -/
theorem skip_append {β : Type} {g : List Node → β} (hg : ∀ c cs, c.isPart = false → g (c :: cs) = g cs) {a : List Node}
    (ha : ∀ c ∈ a, c.isPart = false) (b : List Node) : g (a ++ b) = g b := by
  induction a with
  | nil => rfl
  | cons c a ih =>
    obtain ⟨hc, ha⟩ := List.forall_mem_cons.mp ha
    rw [List.cons_append, hg c _ hc, ih ha]

section Filled
variable {included : Tag → List Node}

theorem count_writing (ns : List Node) : (writing included).count ns = labelsAll (fillAll included ns) := by
  induction ns with
  | nil => rfl
  | cons c cs ih =>
    rw [Writing.count, fillAll, labelsAll_append, ih]
    cases c with
    | part owner tag children => rfl
    | text | interpolation | directive => rfl

theorem code_writing (n : Nat) (ns : List Node) :
    (writing included).code n ns = codeAll (statementsAll n (fillAll included ns)) := by
  induction ns generalizing n with
  | nil => rfl
  | cons c cs ih =>
    rw [Writing.code, fillAll, statementsAll_append, Statement.codeAll_append, ih, ih]
    cases c with
    | part owner tag children => simp [fill, statementsAll, labelsAll, Node.isPart]
    | text | interpolation | directive => rfl

variable (hincluded : ∀ tag, ∀ c ∈ included tag, c.isPart = false)
include hincluded

theorem isPart_of_mem_fill {c d : Node} (hc : c.isPart = false) (hd : d ∈ fill included c) : d.isPart = false := by
  cases c with
  | part owner tag children => cases hc
  | text | interpolation =>
    rw [List.mem_singleton.mp hd]
    rfl
  | directive tag children =>
    rw [fill] at hd
    split at hd
    · rcases List.mem_append.mp hd with hd | hd
      · exact hincluded tag d hd
      · simpa using (List.mem_filter.mp hd).2
    · rw [List.mem_singleton.mp hd]
      rfl

/-- Nodes one by one, beside what they are once their includes are filled in. -/
theorem fillAll_induction {P : List Node → List Node → Prop} (nil : P [] [])
    (skip : ∀ c cs a, c.isPart = false → (∀ d ∈ a, d.isPart = false) → P cs (fillAll included cs) →
      P (c :: cs) (a ++ fillAll included cs))
    (part : ∀ owner tag children cs, P cs (fillAll included cs) →
      P (.part owner tag children :: cs) (.part owner tag (fillAll included children) :: fillAll included cs)) :
    ∀ ns, P ns (fillAll included ns) := by
  intro ns
  induction ns with
  | nil => exact nil
  | cons c cs ih =>
    cases hc : c.isPart with
    | false => exact skip c cs _ hc (fun d hd => isPart_of_mem_fill hincluded hc hd) ih
    | true =>
      cases c with
      | part owner tag children => exact part owner tag children cs ih
      | text | interpolation | directive => cases hc

theorem countOfParts_writing (numbered : Bytes) (ns : List Node) :
    (writing included).countOfParts numbered ns = labelsOfParts numbered (fillAll included ns) := by
  refine fillAll_induction (P := fun ns ms => (writing included).countOfParts numbered ns = labelsOfParts numbered ms)
    hincluded rfl ?_ ?_ ns
  · intro c cs a hc ha ih
    rw [Control.countOfParts_skip numbered hc, ih]
    refine (skip_append (fun c cs hc => ?_) ha _).symm
    cases c with
    | part => cases hc
    | text | interpolation | directive => rfl
  · intro owner tag children cs ih
    rw [Writing.countOfParts, ih, count_writing]
    rfl

theorem alternatives_writing (stop : Int) (ns : List Node) : ∀ (next : Int) (n : Nat),
    (writing included).alternatives stop next n ns =
      (leaving stop (fillAll included ns)).toList.map .jump ++
        (.mark next :: (codeAll (alternatives stop n (fillAll included ns)) ++ [.mark stop])) := by
  refine fillAll_induction (P := fun ns ms => ∀ next n, (writing included).alternatives stop next n ns =
    (leaving stop ms).toList.map .jump ++ (.mark next :: (codeAll (alternatives stop n ms) ++ [.mark stop])))
    hincluded (fun _ _ => rfl) ?_ ?_ ns
  · intro c cs a hc ha ih next n
    have hleaving : leaving stop (a ++ fillAll included cs) = leaving stop (fillAll included cs) :=
      skip_append (fun c cs hc => by simp [leaving, hc]) ha _
    have halternatives : alternatives stop n (a ++ fillAll included cs) = alternatives stop n (fillAll included cs) :=
      skip_append (fun c cs hc => by cases c <;> first | rfl | cases hc) ha _
    rw [hleaving, halternatives, ← ih next n]
    cases c with
    | part => cases hc
    | text | interpolation | directive => rfl
  · intro owner tag children cs ih next n
    rw [Writing.alternatives, alternatives]
    split
    · simp [leaving, Node.isPart, Statement.code, ih, code_writing, count_writing]
    · simp [leaving, Node.isPart, code_writing]

theorem choices_writing (subject : Bytes) (stop : Int) (ns : List Node) : ∀ n : Nat,
    (writing included).choices subject stop n ns =
      codeAll (choices subject stop n (fillAll included ns)) ++ [.mark stop] := by
  refine fillAll_induction (P := fun ns ms => ∀ n, (writing included).choices subject stop n ns =
    codeAll (choices subject stop n ms) ++ [.mark stop]) hincluded (fun _ => rfl) ?_ ?_ ns
  · intro c cs a hc ha ih n
    have hchoices : choices subject stop n (a ++ fillAll included cs) = choices subject stop n (fillAll included cs) :=
      skip_append (fun c cs hc => by cases c <;> first | rfl | cases hc) ha _
    rw [hchoices, ← ih n]
    cases c with
    | part => cases hc
    | text | interpolation | directive => rfl
  · intro owner tag children cs ih n
    rw [Writing.choices, choices]
    split
    · simp [Statement.code, ih, code_writing, count_writing]
    · rw [code_writing]

theorem parts_writing (ns : List Node) : ∀ n : Nat,
    (writing included).parts n ns = codeAll (parts n (fillAll included ns)) := by
  refine fillAll_induction (P := fun ns ms => ∀ n, (writing included).parts n ns = codeAll (parts n ms)) hincluded
    (fun _ => rfl) ?_ ?_ ns
  · intro c cs a hc ha ih n
    have hparts : parts n (a ++ fillAll included cs) = parts n (fillAll included cs) :=
      skip_append (fun c cs hc => by cases c <;> first | rfl | cases hc) ha _
    rw [hparts, ← ih n]
    cases c with
    | part => cases hc
    | text | interpolation | directive => rfl
  · intro owner tag children cs ih n
    simp [Writing.parts, parts, ih, code_writing, count_writing]

theorem controlCount_writing (tag : Tag) (children : List Node) :
    (writing included).controlCount tag children = labels (.directive tag (fillAll included children)) := by
  simp only [Writing.controlCount, labels, count_writing, countOfParts_writing hincluded]

theorem control_writing {d : Definition} (hd : d ∈ [ifDirective, switchDirective, eachDirective, setDirective]) {tag : Tag}
    (hname : d.name = tag.name) (n : Nat) (children : List Node) :
    (writing included).control n tag children = codeAll (statements n (.directive tag (fillAll included children))) := by
  simp only [List.mem_cons, List.not_mem_nil, or_false] at hd
  rcases hd with rfl | rfl | rfl | rfl
  · have hif : tag.name = "if" := hname.symm
    rw [statements_if _ _ hif, Writing.control, if_pos hif, alternatives_writing hincluded, code_writing, count_writing]
    simp [Statement.code]
  · have hcontrol : (writing included).control n tag children =
        .set (subjectName (n + 1)) (rawArg switchDirective tag "subject")
          :: (writing included).choices (subjectName (n + 1)) (n + 2 : Nat) (n + 2) children := by
      simp only [Writing.control, ← hname]
      rfl
    rw [hcontrol, statements_switch _ _ hname.symm, choices_writing hincluded]
    simp [Statement.code]
  · have hcontrol : (writing included).control n tag children =
        .enter :: Statement.rangeInstr (rawArg eachDirective tag "items") (nameArg eachDirective tag "as")
          (nameArg eachDirective tag "key") (n + 2 : Nat) :: .mark (n + 1 : Nat)
          :: ((writing included).code (n + 3) children ++ (Statement.nextInstr (n + 1 : Nat) :: .jump (n + 3 : Nat)
            :: .mark (n + 2 : Nat) :: ((writing included).parts (n + 3 + (writing included).count children) children
              ++ [.mark (n + 3 : Nat), .exit .merge []]))) := by
      simp only [Writing.control, ← hname]
      rfl
    rw [hcontrol, statements_each _ _ hname.symm, parts_writing hincluded, code_writing, count_writing]
    simp [Statement.code]
  · have hcontrol : (writing included).control n tag children =
        .set (nameArg setDirective tag "name") (rawArg setDirective tag "value") :: (writing included).code n children := by
      simp only [Writing.control, ← hname]
      rfl
    rw [hcontrol, statements_set _ _ hname.symm, code_writing]
    rfl

end Filled

end Stencil.Blocks
