import Stencil.Directive.Standard
import Stencil.Render.Machine

/-! # What conditions, choices, loops and variables mean

Templates of text, interpolations and the control directives, interpreted by recursion on the tree.
Bindings go to the innermost scope; only a loop opens one. The subject of a choice is bound under a
name with a number of its own: every control directive takes some numbers (`labels`), in document
order, whether it is rendered or not. -/

namespace Stencil.Control

open Stencil.Directive
open Stencil.Directive.Standard
open Stencil.Markup (Node Tag)

/-- The control directives and their parts. -/
def names : List Bytes := ["if", "elseif", "else", "switch", "case", "default", "each", "empty", "set"]

/-- Only control directives stand in a template. -/
def IsControl (nodes : List Node) : Prop := ∀ t ∈ Node.tagsList nodes, t.name ∈ names

/-- The text of an argument. -/
def rawArg (d : Definition) (tag : Tag) (name : Bytes) : Bytes :=
  match Argument.read tag.expr d.params with
  | .ok args => args.rawD name
  | .error _ => []

/-- An argument that is a name. -/
def nameArg (d : Definition) (tag : Tag) (name : Bytes) : Bytes :=
  match Argument.read tag.expr d.params with
  | .ok args => (args.string name).toOption.getD []
  | .error _ => []

/-! ### Numbers -/

mutual

/-- How many numbers a node takes. -/
def labels : Node → Nat
  | .text _ _ => 0
  | .interpolation _ _ _ => 0
  | .directive tag children =>
    if tag.name = "if" then 2 + labelsAll children + labelsOfParts "elseif" children
    else if tag.name = "switch" then 2 + labelsOfParts "case" children
    else if tag.name = "each" then 3 + labelsAll children + labelsOfParts [] children
    else labelsAll children
  | .part _ _ children => labelsAll children

/-- The numbers of the children that are no parts. -/
def labelsAll : List Node → Nat
  | [] => 0
  | n :: ns => (if n.isPart then 0 else labels n) + labelsAll ns

/-- The numbers of the parts; those with the name `numbered` take one for themselves. -/
def labelsOfParts (numbered : Bytes) : List Node → Nat
  | [] => 0
  | .part _ tag children :: ns =>
    (if tag.name = numbered then 1 else 0) + labelsAll children + labelsOfParts numbered ns
  | _ :: ns => labelsOfParts numbered ns

end

/-! ### Interpretation -/

/-- The value of an expression, given the values of names. -/
abbrev Evaluation := Bytes → Expression.Lookup → Except Failure Value

/-- The value of a name in the innermost scope that binds it. -/
def lookup : List Bindings → Expression.Lookup
  | [], _ => none
  | s :: rest, name =>
    match Assoc.get? name s with
    | some v => some v
    | none => lookup rest name

/-- The bindings of the innermost scope and the output; or the first failure. -/
abbrev Result := Except Failure (Bindings × Bytes)

/-- One thing after another: the output of the second follows that of the first. -/
def Result.append (r : Result) (next : Bindings → Result) : Result :=
  match r with
  | .error e => .error e
  | .ok (vars, out) =>
    match next vars with
    | .error e => .error e
    | .ok (vars', out') => .ok (vars', out ++ out')

/-- Goes on with the value of an expression. -/
def withValue (evaluate : Evaluation) (scopes : List Bindings) (expr : Bytes) (use : Value → Result) : Result :=
  match evaluate expr (lookup scopes) with
  | .error e => .error e
  | .ok v => use v

/-- The bindings of one turn of a loop. -/
def turn (item key : Bytes) (index length : Nat) (e : Value.Entry) : Bindings :=
  ({ rest := [], index, length, level := none, item, key } : Render.Loop).bindings e

/-- The turns of a loop from `index` on, all in one scope. -/
def turns (body : Bindings → Result) (item key : Bytes) (length : Nat) : (index : Nat) → List Value.Entry →
    Bindings → Result
  | _, [], vars => .ok (vars, [])
  | index, e :: rest, vars =>
    (body (Assoc.insertAll vars (turn item key index length e))).append
      (turns body item key length (index + 1) rest)

/-- The output of what ran in a scope of its own; the bindings around it stay. -/
def Result.scoped (r : Result) (vars : Bindings) : Result := r.map fun (_, out) => (vars, out)

/-- The name that the subject of a choice is bound under. -/
def subjectName (number : Nat) : Bytes := "_switch" ++ Bytes.ofNat number

section
variable (evaluate : Evaluation)

mutual

/-- Interprets a node, when `n` numbers are taken. `outer` are the scopes around the innermost one. -/
def interpret (outer : List Bindings) (n : Nat) : Node → Bindings → Result
  | .text value _, vars => .ok (vars, value)
  | .interpolation expr escaped _, vars =>
    withValue evaluate (vars :: outer) expr fun v =>
      .ok (vars, if escaped then Text.escapeHtml v.rendered else v.rendered)
  | .directive tag children, vars =>
    if tag.name = "if" then
      withValue evaluate (vars :: outer) (rawArg ifDirective tag "condition") fun v =>
        if v.truthy then interpretAll outer (n + 2) children vars
        else interpretElse outer (n + 2 + labelsAll children) children vars
    else if tag.name = "switch" then
      withValue evaluate (vars :: outer) (rawArg switchDirective tag "subject") fun v =>
        interpretCases outer (subjectName (n + 1)) (n + 2) children (Assoc.insert (subjectName (n + 1)) v vars)
    else if tag.name = "each" then
      withValue evaluate (vars :: outer) (rawArg eachDirective tag "items") fun v =>
        match v.entries? with
        | none => .error (Render.loopFailure v)
        | some [] => (interpretParts (vars :: outer) (n + 3 + labelsAll children) children []).scoped vars
        | some (e :: es) =>
          (turns (interpretAll (vars :: outer) (n + 3) children) (nameArg eachDirective tag "as")
            (nameArg eachDirective tag "key") (es.length + 1) 0 (e :: es) []).scoped vars
    else if tag.name = "set" then
      withValue evaluate (vars :: outer) (rawArg setDirective tag "value") fun v =>
        interpretAll outer n children (Assoc.insert (nameArg setDirective tag "name") v vars)
    else .ok (vars, [])
  | .part _ _ _, vars => .ok (vars, [])

/-- Interprets the children that are no parts. -/
def interpretAll (outer : List Bindings) (n : Nat) : List Node → Bindings → Result
  | [], vars => .ok (vars, [])
  | c :: cs, vars =>
    if c.isPart then interpretAll outer n cs vars
    else (interpret outer n c vars).append (interpretAll outer (n + labels c) cs)

/-- The alternatives of a condition: the first whose own condition holds, or the last one. -/
def interpretElse (outer : List Bindings) (n : Nat) : List Node → Bindings → Result
  | [], vars => .ok (vars, [])
  | .part _ tag children :: cs, vars =>
    if tag.name = "elseif" then
      withValue evaluate (vars :: outer) (rawArg elseifPart tag "condition") fun v =>
        if v.truthy then interpretAll outer (n + 1) children vars
        else interpretElse outer (n + 1 + labelsAll children) cs vars
    else interpretAll outer n children vars
  | _ :: cs, vars => interpretElse outer n cs vars

/-- The cases of a choice: the first whose value equals the subject, or the default. -/
def interpretCases (outer : List Bindings) (subject : Bytes) (n : Nat) : List Node → Bindings → Result
  | [], vars => .ok (vars, [])
  | .part _ tag children :: cs, vars =>
    if tag.name = "case" then
      withValue evaluate (vars :: outer) (subject ++ " == (" ++ rawArg casePart tag "value" ++ ")") fun v =>
        if v.truthy then interpretAll outer (n + 1) children vars
        else interpretCases outer subject (n + 1 + labelsAll children) cs vars
    else interpretAll outer n children vars
  | _ :: cs, vars => interpretCases outer subject n cs vars

/-- What stands for a loop over nothing. -/
def interpretParts (outer : List Bindings) (n : Nat) : List Node → Bindings → Result
  | [], vars => .ok (vars, [])
  | .part _ _ children :: cs, vars =>
    (interpretAll outer n children vars).append (interpretParts outer (n + labelsAll children) cs)
  | _ :: cs, vars => interpretParts outer n cs vars

end

end

end Stencil.Control
