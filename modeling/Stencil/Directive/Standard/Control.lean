import Stencil.Directive.Definition

/-!
# Conditions, choices, loops and variables

The control directives compile to labels and jumps. Links of a chain share their labels through
the data of the chain.
-/
namespace Stencil.Directive.Standard

open Script

/-- A required parameter that holds an expression. -/
def condition (name description : Bytes) : Argument.Schema :=
  [{ name, kind := .code, required := true, description }]

/-- The label that the chain keeps under a key; zero when it keeps none. -/
def keptLabel (key : Bytes) : Script Int := do
  match ← data? key with
  | some (.int n) => return n
  | _ => return 0

def isIdentifier : Bytes → Bool
  | [] => false
  | c :: cs => (isAsciiLetter c || c == ascii '_') && cs.all fun d => isAsciiLetter d || isDigit d || d == ascii '_'

/-- Refuses what is not an identifier. -/
def checkIdentifier (what name : Bytes) : Script Unit :=
  if isIdentifier name then pure () else .fail (.notIdentifier what name)

def elseifPart : Definition where
  name := "elseif"
  description := "Alternative branch tested when earlier branches did not match."
  params := condition "condition" "expression tested for truthiness"
  block := true
  onParams := some fun call => do
    let next ← keptLabel "next"
    if next = 0 then refuse "@elseif after @else"
    else do
      emits [.jump (← keptLabel "end"), .mark next]
      let next ← label
      keep "next" (.int next)
      emits [.jumpIfNot (call.args.rawD "condition") next]

def elsePart : Definition where
  name := "else"
  description := "Branch rendered when no other branch matched."
  block := true
  onInit := some fun _ => do
    let next ← keptLabel "next"
    if next = 0 then refuse "duplicate @else"
    else do
      emits [.jump (← keptLabel "end"), .mark next]
      keep "next" (.int 0)

def ifDirective : Definition where
  name := "if"
  description := "Renders its block when the condition is truthy."
  usage := "@if(user.admin) Admin @elseif(user) Member @else Guest @end"
  params := condition "condition" "expression tested for truthiness"
  block := true
  onParams := some fun call => do
    let stop ← label
    let next ← label
    keep "end" (.int stop)
    keep "next" (.int next)
    emits [.jumpIfNot (call.args.rawD "condition") next]
  onEnd := some fun _ => do
    let next ← keptLabel "next"
    if next ≠ 0 then emits [.mark next]
    emits [.mark (← keptLabel "end")]
  parts := [elseifPart, elsePart]

def casePart : Definition where
  name := "case"
  description := "Branch rendered when the subject equals the value."
  params := condition "value" "value compared with the subject"
  block := true
  onParams := some fun call => do
    if (← data? "default").isSome then refuse "@case after @default"
    else do
      let next ← label
      keep "case" (.int next)
      let subject := ((← data? "subject").getD .null).display
      emits [.jumpIfNot (subject ++ " == (" ++ call.args.rawD "value" ++ ")") next]
  onEnd := some fun _ => do
    emits [.jump (← keptLabel "end"), .mark (← keptLabel "case")]

def defaultPart : Definition where
  name := "default"
  description := "Branch rendered when no case matched."
  block := true
  onInit := some fun _ => do
    if (← data? "default").isSome then refuse "duplicate @default"
    else keep "default" (.bool true)

def switchDirective : Definition where
  name := "switch"
  description := "Renders the first case whose value equals the subject."
  usage := "@switch(status) @case('open') Open @case('closed') Closed @default Unknown @end"
  params := condition "subject" "value compared against each case"
  block := true
  onParams := some fun call => do
    let subject : Bytes := "_switch" ++ Bytes.ofNat (← label)
    keep "subject" (.text subject)
    keep "end" (.int (← label))
    emits [.set subject (call.args.rawD "subject")]
  -- text before the first case is not rendered
  onChildren := some fun _ => chained
  onEnd := some fun _ => do emits [.mark (← keptLabel "end")]
  parts := [casePart, defaultPart]

def emptyPart : Definition where
  name := "empty"
  description := "Rendered when there is nothing to iterate."
  block := true

def eachDirective : Definition where
  name := "each"
  description :=
    "Renders its block once per item. The loop variable exposes index, first, last and length."
  usage := "@each(posts, 'post') \x7b\x7b loop.index \x7d\x7d: \x7b\x7b post.title \x7d\x7d @empty No posts @end"
  params :=
    [{ name := "items", kind := .code, required := true,
       description := "list, map or count to iterate" },
     { name := "as", kind := .string, fallback := .text "item",
       description := "item variable name" },
     { name := "key", kind := .string, fallback := .text "key",
       description := "index or key variable name" }]
  block := true
  onParams := some fun call => do
    let item ← ofRead (call.args.string "as")
    let key ← ofRead (call.args.string "key")
    checkIdentifier "loop variable" item
    checkIdentifier "key variable" key
    let body ← label
    let empty ← label
    let stop ← label
    keep "body" (.int body)
    keep "empty" (.int empty)
    keep "end" (.int stop)
    emits [.enter,
      { op := .range, expr := call.args.rawD "items", name := item, key := key, label := empty },
      .mark body]
  onChildren := some fun _ => do
    compiled .regular
    emits [{ op := .next, label := ← keptLabel "body" }, .jump (← keptLabel "end"),
      .mark (← keptLabel "empty")]
    chained
    emits [.mark (← keptLabel "end"), .exit .merge []]
  parts := [emptyPart]

def setDirective : Definition where
  name := "set"
  description := "Binds a variable in the current scope."
  usage := "@set('total', price * qty)"
  params :=
    [{ name := "name", kind := .string, required := true },
     { name := "value", kind := .code, required := true }]
  onParams := some fun call => do
    let name ← ofRead (call.args.string "name")
    checkIdentifier "variable" name
    emits [.set name (call.args.rawD "value")]

end Stencil.Directive.Standard
