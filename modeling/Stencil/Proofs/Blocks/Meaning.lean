import Stencil.Compile.Template
import Stencil.Proofs.Control.Meaning

/-! # What includes, sections, stacks, components and slots mean

Templates of control directives and of blocks with scopes of their own, interpreted by recursion on the tree. The
tree has the sources of includes filled in (`inlineAll`). Each block and each loop runs in a new scope: it sees the
bindings around it, and its own are gone when it ends. What becomes of its output depends on the block. -/

namespace Stencil.Blocks

open Stencil.Directive
open Stencil.Directive.Standard
open Stencil.Control (Evaluation lookup rawArg nameArg labels labelsAll labelsOfParts turn subjectName)
open Stencil.Markup (Node Tag)

/-- The control directives, and those that capture, include or render. -/
def names : List Bytes := "include" :: "section" :: "push" :: "component" :: "slot" :: Control.names

/-! ### Includes -/

section Includes
variable (included : Tag → List Node)

mutual

/-- A node with what its includes stand for. An include has no block; children that a tree gives it follow it. -/
def fill : Node → List Node
  | .directive tag children =>
    if tag.name = "include" then included tag ++ (fillAll children).filter (!·.isPart)
    else [.directive tag (fillAll children)]
  | .part owner tag children => [.part owner tag (fillAll children)]
  | n => [n]

def fillAll : List Node → List Node
  | [] => []
  | n :: ns => fill n ++ fillAll ns

end

end Includes

/-- The source of a template for includes. -/
def source (options : Compile.Options) (path : Bytes) : Except Failure Bytes :=
  match options.resolver with
  | none => .error (.noResolver path)
  | some resolver => resolver path

/-- The path of an include is shown when there is no source. -/
def fallsBack (tag : Tag) : Bool :=
  match Argument.read tag.expr includeDirective.params with
  | .ok args => (args.bool "fallback").toOption.getD false
  | .error _ => false

/-- What an include stands for: itself around the nodes of the source at its path, or the path as text. `inner` fills
in the includes of the source. -/
def included (options : Compile.Options) (inner : List Node → List Node) (tag : Tag) : List Node :=
  let path := nameArg includeDirective tag "path"
  match source options path with
  | .error _ => if fallsBack tag then [.text path tag.span] else []
  | .ok src =>
    match Markup.parse registry options.parse path src with
    | .error _ => []
    | .ok nodes => [.directive tag (inner nodes)]

/-- Nodes with their includes filled in, up to a depth. -/
def inlineAll (options : Compile.Options) : (depth : Nat) → List Node → List Node
  | 0 => fillAll (included options fun _ => [])
  | depth + 1 => fillAll (included options (inlineAll options depth))

/-- The tree of a template, with its includes filled in. -/
def inlined (options : Compile.Options) (nodes : List Node) : List Node := inlineAll options Compile.maxIncludes nodes

/-! ### Interpretation -/

/-- The bindings of the innermost scope, the slots of the component body around, and what the render keeps. -/
structure World where
  vars : Bindings
  slots : Assoc Bytes Bytes := []
  sections : Assoc Bytes Bytes := []
  pushed : Assoc Bytes (List Bytes) := []

namespace World

def define (w : World) (name out : Bytes) : World := { w with sections := Assoc.insert name out w.sections }

def push (w : World) (name out : Bytes) : World :=
  { w with pushed := Assoc.insert name ((Assoc.get? name w.pushed).getD [] ++ [out]) w.pushed }

def setSlot (w : World) (name out : Bytes) : World := { w with slots := Assoc.insert name out w.slots }

end World

/-- The world afterwards and the output; or the first failure. -/
abbrev Result := Except Failure (World × Bytes)

/-- One thing after another: the output of the second follows that of the first. -/
def Result.append (r : Result) (next : World → Result) : Result :=
  match r with
  | .error e => .error e
  | .ok (w, out) => (next w).map fun (w', out') => (w', out ++ out')

/-- Runs in a new scope with some bindings. The bindings around it are as before when it ends. -/
def inScope (outer : List Bindings) (vars : Bindings) (body : List Bindings → World → Result) (w : World) : Result :=
  (body (w.vars :: outer) { w with vars }).map fun (w', out) => ({ w' with vars := w.vars }, out)

/-- Runs in a new scope and keeps the output away from what is around. -/
def capture (outer : List Bindings) (body : List Bindings → World → Result) (keep : World → Bytes → World) (w : World) :
    Result :=
  (inScope outer [] body w).map fun (w', out) => (keep w' out, [])

/-- The turns of a loop from `index` on, all in one scope. -/
def turns (body : World → Result) (item key : Bytes) (length : Nat) : (index : Nat) → List Value.Entry → World → Result
  | _, [], w => .ok (w, [])
  | index, e :: rest, w =>
    (body { w with vars := Assoc.insertAll w.vars (turn item key index length e) }).append
      (turns body item key length (index + 1) rest)

/-- What the template of a component does, in a scope inside the given ones that has the bindings of the world. -/
abbrev Component := (path : Bytes) → (outer : List Bindings) → World → Result

section
variable (evaluate : Evaluation)

/-- Goes on with the value of an expression. -/
def withValue (outer : List Bindings) (expr : Bytes) (w : World) (use : Value → Result) : Result :=
  match evaluate expr (lookup (w.vars :: outer)) with
  | .error e => .error e
  | .ok v => use v

/-- Goes on with the bindings that an expression gives. -/
def withBindings (outer : List Bindings) (expr : Bytes) (w : World) (use : Bindings → Result) : Result :=
  withValue evaluate outer expr w fun v =>
    match v.bindings? with
    | none => .error (.notBindings v.typeName)
    | some bindings => use bindings

/-- Goes on with the bindings of an argument, with none when it is not given. -/
def withArgument (outer : List Bindings) (expr : Bytes) (w : World) (use : Bindings → Result) : Result :=
  if expr = [] then use [] else withBindings evaluate outer expr w use

/-- What the template of a component is given: its properties, the output of the body and the slots. -/
def given (props : Bindings) (out : Bytes) (slots : Assoc Bytes Bytes) : Bindings :=
  Assoc.insert "slots" (.record (slots.map fun s => (s.1, .text s.2))) (Assoc.insert "slot" (.text out) props)

variable (component : Component)

/-- A component: the body runs in a scope with slots of its own, the properties are evaluated there, and then the
template runs in a scope inside the one around. -/
def interpretComponent (path props : Bytes) (outer : List Bindings) (body : List Bindings → World → Result) (w : World) :
    Result :=
  match body (w.vars :: outer) { w with vars := [], slots := [] } with
  | .error e => .error e
  | .ok (after, out) =>
    withArgument evaluate (w.vars :: outer) props after fun bindings =>
      inScope outer (given bindings out after.slots) (component path) { after with vars := w.vars, slots := w.slots }

mutual

/-- Interprets a node, when `n` numbers are taken. `outer` are the scopes around the innermost one. -/
def interpret (outer : List Bindings) (n : Nat) : Node → World → Result
  | .text value _, w => .ok (w, value)
  | .interpolation expr escaped _, w =>
    withValue evaluate outer expr w fun v => .ok (w, if escaped then Text.escapeHtml v.rendered else v.rendered)
  | .directive tag children, w =>
    if tag.name = "if" then
      withValue evaluate outer (rawArg ifDirective tag "condition") w fun v =>
        if v.truthy then interpretAll outer (n + 2) children w
        else interpretElse outer (n + 2 + labelsAll children) children w
    else if tag.name = "switch" then
      withValue evaluate outer (rawArg switchDirective tag "subject") w fun v =>
        interpretCases outer (subjectName (n + 1)) (n + 2) children
          { w with vars := Assoc.insert (subjectName (n + 1)) v w.vars }
    else if tag.name = "each" then
      inScope outer [] (fun outer w =>
        withValue evaluate outer (rawArg eachDirective tag "items") w fun v =>
          match v.entries? with
          | none => .error (Render.loopFailure v)
          | some [] => interpretParts outer (n + 3 + labelsAll children) children w
          | some (e :: es) =>
            turns (interpretAll outer (n + 3) children) (nameArg eachDirective tag "as")
              (nameArg eachDirective tag "key") (es.length + 1) 0 (e :: es) w) w
    else if tag.name = "set" then
      withValue evaluate outer (rawArg setDirective tag "value") w fun v =>
        interpretAll outer n children { w with vars := Assoc.insert (nameArg setDirective tag "name") v w.vars }
    else if tag.name = "include" then
      inScope outer [] (fun outer w =>
        withArgument evaluate outer (rawArg includeDirective tag "with") w fun bindings =>
          interpretAll outer n children { w with vars := Assoc.insertAll w.vars bindings }) w
    else if tag.name = "section" then
      capture outer (fun outer => interpretAll outer n children)
        (fun w => w.define (nameArg sectionDirective tag "name")) w
    else if tag.name = "push" then
      capture outer (fun outer => interpretAll outer n children) (fun w => w.push (nameArg pushDirective tag "name")) w
    else if tag.name = "slot" then
      capture outer (fun outer => interpretAll outer n children) (fun w => w.setSlot (nameArg slotDirective tag "name")) w
    else if tag.name = "component" then
      interpretComponent evaluate component (nameArg componentDirective tag "path") (rawArg componentDirective tag "props")
        outer (fun outer => interpretAll outer n children) w
    else .ok (w, [])
  | .part _ _ _, w => .ok (w, [])

/-- Interprets the children that are no parts. -/
def interpretAll (outer : List Bindings) (n : Nat) : List Node → World → Result
  | [], w => .ok (w, [])
  | c :: cs, w =>
    if c.isPart then interpretAll outer n cs w
    else (interpret outer n c w).append (interpretAll outer (n + labels c) cs)

/-- The alternatives of a condition: the first whose own condition holds, or the last one. -/
def interpretElse (outer : List Bindings) (n : Nat) : List Node → World → Result
  | [], w => .ok (w, [])
  | .part _ tag children :: cs, w =>
    if tag.name = "elseif" then
      withValue evaluate outer (rawArg elseifPart tag "condition") w fun v =>
        if v.truthy then interpretAll outer (n + 1) children w
        else interpretElse outer (n + 1 + labelsAll children) cs w
    else interpretAll outer n children w
  | _ :: cs, w => interpretElse outer n cs w

/-- The cases of a choice: the first whose value equals the subject, or the default. -/
def interpretCases (outer : List Bindings) (subject : Bytes) (n : Nat) : List Node → World → Result
  | [], w => .ok (w, [])
  | .part _ tag children :: cs, w =>
    if tag.name = "case" then
      withValue evaluate outer (subject ++ " == (" ++ rawArg casePart tag "value" ++ ")") w fun v =>
        if v.truthy then interpretAll outer (n + 1) children w
        else interpretCases outer subject (n + 1 + labelsAll children) cs w
    else interpretAll outer n children w
  | _ :: cs, w => interpretCases outer subject n cs w

/-- What stands for a loop over nothing. -/
def interpretParts (outer : List Bindings) (n : Nat) : List Node → World → Result
  | [], w => .ok (w, [])
  | .part _ _ children :: cs, w =>
    (interpretAll outer n children w).append (interpretParts outer (n + labelsAll children) cs)
  | _ :: cs, w => interpretParts outer n cs w

end

end

/-! ### Components -/

/-- The trees of templates by path, or why there is none. -/
abbrev Library := Bytes → Except Failure (List Node)

/-- What components do, when so many more templates may be rendered inside one another. -/
def components (evaluate : Evaluation) (library : Library) (maxDepth : Int) : (left : Nat) → Component
  | 0, path, _, _ => .error (.renderTooDeep path maxDepth)
  | left + 1, path, outer, w =>
    match library path with
    | .error e => .error (.within ("failed to load " ++ path) e)
    | .ok nodes => interpretAll evaluate (components evaluate library maxDepth left) outer 0 nodes w

end Stencil.Blocks
