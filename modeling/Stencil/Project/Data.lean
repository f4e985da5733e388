import Stencil.Failure
import Stencil.Yaml.Decode

/-!
# Template data

The values that a template is rendered with: those of a data file, and single ones given by name
that go over them.
-/
namespace Stencil.TemplateData

/-- Reads a data file. -/
def ofFile (files : FileTree) (path : Bytes) : Except Failure Bindings :=
  match files.read path with
  | .error e => .error (.within "failed to read data" (.file e))
  | .ok content =>
    match Yaml.decodeBindings content with
    | some data => .ok data
    | none => .error (.within ("failed to parse " ++ path) (.malformed "yaml"))

/-- The name and value of a single setting; a value that is no YAML is a text. -/
def setting (s : Bytes) : Except Failure (Bytes × Value) :=
  match Bytes.cut "=" s with
  | some (key, value) =>
    if key = [] then refused else .ok (key, (Yaml.decode value).getD (.text value))
  | none => refused
where
  refused : Except Failure (Bytes × Value) :=
    .error (.refused ("invalid --set " ++ Text.quoted s ++ ", want key=value"))

/-- Lays single settings over some data, the last one of a name on top. -/
def withSettings (data : Bindings) : List Bytes → Except Failure Bindings
  | [] => .ok data
  | s :: rest =>
    match setting s with
    | .error f => .error f
    | .ok (key, value) => withSettings (Assoc.insert key value data) rest

/-- The data of a file, if one is given, with single settings over it. -/
def load (files : FileTree) (file : Bytes) (settings : List Bytes) : Except Failure Bindings := do
  let data ← if file = [] then pure [] else ofFile files file
  withSettings data settings

end Stencil.TemplateData
