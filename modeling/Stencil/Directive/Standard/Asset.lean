import Stencil.Directive.Definition

/-!
# Scripts and styles

Blocks that go to an output of their own instead of the rendered text.
-/
namespace Stencil.Directive.Standard

open Script

/-- The output for client scripts. -/
def clientChannel : Bytes := "client"

/-- The output for style sheets. -/
def styleChannel : Bytes := "style"

/-- Adds a text, ended by a line break, to an output of its own. -/
def addAsset (channel text : Bytes) : Script Unit :=
  addTo channel (if Bytes.endsWith "\n" text then text else text ++ "\n")

def clientDirective : Definition where
  name := "client"
  description := "Moves its block to the client script artifact instead of the rendered output."
  usage := "@client(\x7bwrap: true\x7d) document.title = 'ready' @end"
  params :=
    [{ name := "options", kind := .object,
       description := "wrap: run the script in its own function scope" }]
  block := true
  content := "script"
  onChildren := some fun call => do
    let options ← ofRead (call.args.object "options")
    let body := Text.trim (← literal .regular)
    let body : Bytes :=
      match Assoc.get? ("wrap" : Bytes) (options.getD []) with
      | some (.bool true) => "(function () \x7b\n" ++ body ++ "\n\x7d)();"
      | _ => body
    addAsset clientChannel body

def styleDirective : Definition where
  name := "style"
  description := "Moves its block to the stylesheet artifact, optionally inside a media query."
  usage := "@style('(max-width: 600px)') nav \x7b display: none \x7d @end"
  params :=
    [{ name := "media", kind := .string, description := "media query wrapping the rules" }]
  block := true
  content := "style"
  onChildren := some fun call => do
    let media ← ofRead (call.args.string "media")
    let body := Text.trim (← literal .regular)
    let body : Bytes :=
      if media = [] then body else "@media " ++ media ++ " \x7b\n" ++ body ++ "\n\x7d"
    addAsset styleChannel body

end Stencil.Directive.Standard
