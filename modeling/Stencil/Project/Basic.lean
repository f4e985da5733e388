import Stencil.Directive.Standard
import Stencil.Engine
import Stencil.Project.Settings
import Stencil.Text.LetterCase

/-!
# Projects

A project is a directory with settings and templates. Templates whose name, or one of whose
directories, starts with a dot or an underscore are not pages of their own; they can be included.
-/
namespace Stencil

/-- A project with its settings. -/
structure Project where
  root : Bytes
  settings : Settings

namespace Project

/-- Reads the settings of the project in a directory. -/
def load (files : FileTree) (root : Bytes) : Except Failure Project :=
  match Settings.load files root with
  | .error f => .error (.within "failed to load config" f)
  | .ok settings => .ok { root, settings }

def templateDir (p : Project) : Bytes := p.settings.templateDir p.root

/-- The templates of the project by path. -/
def resolver (p : Project) (files : FileTree) : Compile.Resolver :=
  .ofDirectory files p.templateDir p.settings.templates.extensions

/-- How templates of the project are read. -/
def parseOptions (p : Project) : Markup.ParseOptions :=
  { unknownAsText := p.settings.templates.unknownAsText }

/-- How templates of the project are compiled. -/
def compileOptions (p : Project) (files : FileTree) : Compile.Options where
  resolver := some (p.resolver files)
  parse := p.parseOptions
  concurrency := p.settings.build.concurrency

/-- An engine for the project. -/
def engine (p : Project) (files : FileTree) : Engine where
  registry := Directive.Standard.registry
  resolver := p.resolver files
  options := p.compileOptions files
  maxDepth := if 0 < p.settings.render.maxDepth then p.settings.render.maxDepth else 32
  loader := { policy := p.settings.policy }

/-- A name that keeps a file or directory out of the pages. -/
def isHidden (name : Bytes) : Bool := Bytes.startsWith "." name || Bytes.startsWith "_" name

/-- The name has one of the extensions of templates, in any letter case. -/
def isTemplate (p : Project) (name : Bytes) : Bool :=
  (p.settings.templates.extensions.map Text.lower).contains (Text.lower (Path.extension name))

/-- The path of the page at some names below the directory of templates, if it is one. -/
def page? (p : Project) (names : List Bytes) : Option Bytes :=
  match names.getLast? with
  | none => if p.isTemplate (Path.base p.templateDir) then some Path.here else none
  | some name =>
    if names.any isHidden ∨ !p.isTemplate name then none else some (Bytes.join [Path.slash] names)

/-- The pages of the project in order. -/
def pages (p : Project) (files : FileTree) : Except Failure (List Bytes) :=
  let unlisted (problem : FileProblem) : Failure :=
    .within "failed to list templates" (.file ⟨"lstat", p.templateDir, problem⟩)
  match files.locate p.templateDir with
  | .error problem => .error (unlisted problem)
  | .ok place =>
    match files.node? place with
    | none => .error (unlisted .missing)
    | some _ =>
      .ok (Bytes.sort ((files.filesBelow place).filterMap fun e => p.page? e.1))

/-- The text of a template by its file. -/
def read (p : Project) (files : FileTree) (path : Bytes) : Except Failure Bytes :=
  match files.read (Path.join [p.templateDir, path]) with
  | .ok src => .ok src
  | .error e => .error (.within ("failed to read " ++ path) (.file e))

end Project

end Stencil
