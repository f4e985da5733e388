import Stencil.Directive.Standard.Layout

/-!
# Components

A component renders another template with properties; its block becomes the default slot, and the
slots inside the block become named slots.
-/
namespace Stencil.Directive.Standard

open Script

/-- The key under which a compilation remembers how many component blocks are open. -/
def componentDepthKey : Bytes := "component.depth"

def componentDepth : Script Int := do
  match ← state? componentDepthKey with
  | some (.int n) => return n
  | _ => return 0

def componentDirective : Definition where
  name := "component"
  description := "Renders a component template with props; the block is available as slot and named slots as slots.<name>."
  usage := "@component('card', \x7btitle: post.title\x7d) \x7b\x7b post.body \x7d\x7d @slot('footer') Read more @end @end"
  params :=
    [{ name := "path", kind := .string, required := true,
       description := "component template path" },
     { name := "props", kind := .code, description := "map of props bound in the component" }]
  block := true
  content := "markup"
  onParams := some fun call => do
    let _ ← ofRead (call.args.string "path")
    emits [.enterComponent]
  onChildren := some fun _ => do
    let depth ← componentDepth
    remember componentDepthKey (.int (depth + 1))
    .compile .regular fun outcome => do
      remember componentDepthKey (.int depth)
      ofExcept outcome
  onEnd := some fun call => do
    let path := (call.args.string "path").toOption.getD []
    emits [{ op := .exitScope, mode := .component, name := path, expr := call.args.rawD "props" }]

def slotDirective : Definition where
  name := "slot"
  description := "Captures its block as a named slot of the enclosing component."
  usage := "@slot('header') <h1>Title</h1> @end"
  params := nameParam "slot name"
  block := true
  onParams := some fun _ => do
    if (← componentDepth) = 0 then refuse "@slot must be inside @component" else emits [.enter]
  onEnd := some fun call => do emits [.exit .slot (← ofRead (call.args.string "name"))]

end Stencil.Directive.Standard
