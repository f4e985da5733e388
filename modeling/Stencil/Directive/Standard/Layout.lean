import Stencil.Directive.Definition

/-!
# Includes, layouts, sections and stacks

An include is compiled in place. A template that extends a layout is captured in a scope that is
dropped, after which the layout is rendered; sections and stacks reach it through placeholders,
which are filled in at the end.
-/
namespace Stencil.Directive.Standard

open Script

/-- A required parameter that holds a name. -/
def nameParam (description : Bytes) : Argument.Schema :=
  [{ name := "name", kind := .string, required := true, description }]

/-- The key under which a compilation remembers that it fills in placeholders. -/
def resolvedKey : Bytes := "sigil.resolve"

/-- The key under which a compilation remembers its layout. -/
def extendsKey : Bytes := "extends.path"

/-- The key under which a compilation remembers the stacks it has rendered. -/
def stackNamesKey : Bytes := "stack.names"

/-- Fills in placeholders once in a template. -/
def ensureResolve : Script Unit := do
  if (← state? resolvedKey).isSome then pure ()
  else do
    remember resolvedKey (.bool true)
    emits [{ op := .resolve }]

def includeDirective : Definition where
  name := "include"
  description := "Compiles another template inline. With fallback set, an unresolvable path is written as literal text."
  usage := "@include('partials/nav', \x7bactive: 'home'\x7d)"
  params :=
    [{ name := "path", kind := .string, required := true, description := "template path" },
     { name := "with", kind := .code, description := "map of extra bindings" },
     { name := "fallback", kind := .boolean, fallback := .bool false,
       description := "render the path as text when it cannot be resolved" }]
  prefetch := "path"
  onParams := some fun call => do
    let path ← ofRead (call.args.string "path")
    let fallback ← ofRead (call.args.bool "fallback")
    .resolve path fun
      | .ok src => .embed path src (call.args.rawD "with") ofExcept
      | .error e => if fallback then text path else .fail (.within ("failed to include " ++ path) e)

def extendsDirective : Definition where
  name := "extends"
  description := "Renders the template inside a layout. Sections defined in the template fill the layout's yields."
  usage := "@extends('layouts/main')"
  params :=
    [{ name := "path", kind := .string, required := true, description := "layout template path" }]
  onInitFile := some fun u => if u.uses "extends" then emits [.enter] else pure ()
  onParams := some fun call => do
    let path ← ofRead (call.args.string "path")
    match ← state? extendsKey with
    | some previous => refuse ("template already extends " ++ previous.display)
    | none => remember extendsKey (.text path)
  onEndFile := some fun u => do
    if u.uses "extends" then
      emits [.exit .discard []]
      match ← state? extendsKey with
      | none => pure ()
      | some path =>
        emits [{ op := .render, name := path.display }]
        remember resolvedKey (.bool true)
        emits [{ op := .resolve }]

def sectionDirective : Definition where
  name := "section"
  description := "Captures its block as a named section for a layout yield."
  usage := "@section('title') Home @end"
  params := nameParam "section name"
  block := true
  onParams := some fun _ => emits [.enter]
  onEnd := some fun call => do emits [.exit .define (← ofRead (call.args.string "name"))]

def yieldDirective : Definition where
  name := "yield"
  description := "Marks where a section is rendered, with optional default content."
  usage := "<title>@yield('title', 'My Site')</title>"
  params :=
    [{ name := "name", kind := .string, required := true, description := "section name" },
     { name := "default", kind := .string,
       description := "content used when the section is not defined" }]
  onParams := some fun call => do
    let name ← ofRead (call.args.string "name")
    let fallback ← ofRead (call.args.string "default")
    emits [{ op := .placeholder, key := "section", name, text := fallback }]
  onEndFile := some fun u => if u.uses "yield" then ensureResolve else pure ()

def pushDirective : Definition where
  name := "push"
  description := "Appends its block to a named stack."
  usage := "@push('scripts') <script src=\"/app.js\"></script> @end"
  params := nameParam "stack name"
  block := true
  onParams := some fun _ => emits [.enter]
  onEnd := some fun call => do emits [.exit .push (← ofRead (call.args.string "name"))]

/-- The stacks rendered so far; anything else in their place stops the hook. -/
def stackNames : Script Bindings := do
  match ← state? stackNamesKey with
  | some (.record names) => return names
  | some .null | none => .abort "interface conversion: interface \x7b\x7d is nil, not map[string]bool"
  | some v =>
    .abort ("interface conversion: interface \x7b\x7d is " ++ v.typeName ++ ", not map[string]bool")

def stackDirective : Definition where
  name := "stack"
  description := "Renders every entry pushed to a named stack. Each stack may be rendered once per template."
  usage := "@stack('scripts')"
  params := nameParam "stack name"
  onInitFile := some fun _ => remember stackNamesKey (.record [])
  onParams := some fun call => do
    let name ← ofRead (call.args.string "name")
    let names ← stackNames
    if Assoc.has name names then refuse ("stack " ++ Text.quoted name ++ " is already rendered")
    else do
      remember stackNamesKey (.record (Assoc.insert name (.bool true) names))
      emits [{ op := .placeholder, key := "stack", name }]
  onEndFile := some fun u => if u.uses "stack" then ensureResolve else pure ()

end Stencil.Directive.Standard
