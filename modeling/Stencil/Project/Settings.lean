import Stencil.Build.Channel
import Stencil.Json.Fields
import Stencil.Loader
import Stencil.Wrap
import Stencil.Yaml.Write

/-!
# Project settings

What a project says about its templates, its builds and its rendering. Settings are read from the
first of three files that exists; what is left out has a default. The two formats of these files
differ in how a value may be written, which is all that `SettingsFormat` holds.
-/
namespace Stencil

/-- Where templates are and how they are read. -/
structure TemplateSettings where
  dir : Bytes := []
  /-- The extensions that a path without one may have. -/
  extensions : List Bytes := []
  unknownAsText : Bool := false
  deriving DecidableEq, Repr

/-- What builds write. -/
structure BuildSettings where
  output : Bytes := []
  manifest : Bytes := []
  concurrency : Int := 0
  channels : List Channel := []
  deriving DecidableEq, Repr

/-- How templates are rendered. -/
structure RenderSettings where
  /-- The name of the policy for compiled templates. -/
  cache : Bytes := []
  maxDepth : Int := 0
  deriving DecidableEq, Repr

/-- The settings of a project. -/
structure Settings where
  templates : TemplateSettings := {}
  build : BuildSettings := {}
  render : RenderSettings := {}
  deriving DecidableEq, Repr

/-- Template settings that are being read. -/
structure TemplateDraft where
  settings : TemplateSettings := {}
  spare : List Bytes := []

/-- Build settings that are being read. -/
structure BuildDraft where
  settings : BuildSettings := {}
  spare : List Channel := []

/-- Settings that are being read, with the items of lists that were cut short. -/
structure SettingsDraft where
  templates : TemplateDraft := {}
  build : BuildDraft := {}
  render : RenderSettings := {}

/-- How values are written in a format whose trees are of type `τ`. A reader takes the value that
holds when the tree says nothing. -/
structure SettingsFormat (τ : Type) where
  text : Bytes → τ → Option Bytes
  number : Int → τ → Option Int
  truth : Bool → τ → Option Bool
  texts : Json.Slots Bytes → τ → Option (Json.Slots Bytes)
  channels : (Channel → τ → Option Channel) → Json.Slots Channel → τ → Option (Json.Slots Channel)
  /-- The members of a record; an absent record has none to tell. -/
  members : τ → Option (Option (List (Bytes × τ)))
  sameName : Bytes → Bytes → Bool

namespace SettingsFormat

/-- A list of a JSON text, laid over an earlier one. -/
def jsonList {α : Type} (read : α → Json → Option α) (blank : α) (old : Json.Slots α) (j : Json) :
    Option (Json.Slots α) := do
  match ← Json.items? j with
  | some js => Json.Slots.laidOver read blank old js
  | none => return {}

/-- JSON takes each value as it is; an absent item of a list is an empty one. -/
def json : SettingsFormat Json where
  text := Json.readText
  number := Json.readInt
  truth := Json.readBool
  texts := jsonList Json.readText []
  channels read := jsonList read {}
  members
    | .object members => some (some members)
    | .null => some none
    | _ => none
  sameName := Json.sameField

/-- A number as a whole one, the fraction cut off; one out of bounds becomes the least. -/
def wholeOf (x : Float) : Option Int :=
  match Decimal.ofFloat x with
  | ⟨_, .notANumber⟩ => none
  | ⟨false, .infinite⟩ => none
  | ⟨true, .infinite⟩ => some (-wordLimit)
  | ⟨negative, .finite m e⟩ =>
    let n : Int := if 0 ≤ e then m * Decimal.twoTo e.toNat else m / Decimal.twoTo (-e).toNat
    let n := if negative then -n else n
    if wordLimit < n then none else if n = wordLimit ∨ n < -wordLimit then some (-wordLimit) else some n

/-- The node that a node stands for. -/
def target? : Yaml.Node → Option Yaml.Node
  | .alias _ target => some target
  | .knot _ => none
  | node => some node

/-- What a scalar is read as, with its tag and its text. -/
def scalar? (n : Yaml.Node) : Option (Bytes × Bytes × Value) :=
  match target? n with
  | some (.scalar tag s) => (Yaml.readScalar tag s).map fun r => (r.1, s, r.2)
  | _ => none

/-- An absent scalar. -/
def isAbsent (n : Yaml.Node) : Bool :=
  match scalar? n with
  | some (_, _, .null) => true
  | _ => false

/-- A scalar as the text that is written; bytes in base 64 as these bytes. -/
def yamlText (old : Bytes) (n : Yaml.Node) : Option Bytes :=
  match scalar? n with
  | some (_, _, .null) => some old
  | some (tag, s, .text data) => some (if tag = Yaml.binaryTag then data else s)
  | some (_, s, _) => some s
  | none => none

/-- A list of a YAML text, in place of any earlier one; absent items do not count. -/
def yamlList {α : Type} (read : α → Yaml.Node → Option α) (blank : α) (n : Yaml.Node) :
    Option (Json.Slots α) :=
  if isAbsent n then some {}
  else match target? n with
    | some (.sequence items) =>
      ((items.filter fun i => !isAbsent i).mapM (read blank)).map fun items => { items }
    | _ => none

/-- YAML takes any scalar for a text, and some words for truth values. -/
def yaml : SettingsFormat Yaml.Node where
  text := yamlText
  number old n :=
    match scalar? n with
    | some (_, _, .null) => some old
    | some (_, _, .int n) => some n
    | some (_, _, .float x) => wholeOf x
    | _ => none
  truth old n :=
    match scalar? n with
    | some (_, _, .null) => some old
    | some (_, _, .bool b) => some b
    | some (_, _, .text s) =>
      if s ∈ (["y", "Y", "yes", "on"] : List Bytes) then some true
      else if s ∈ (["n", "N", "no", "off"] : List Bytes) then some false
      else none
    | _ => none
  texts _ n := yamlList yamlText [] n
  channels read _ n := yamlList read {} n
  members n :=
    if isAbsent n then some none
    else match target? n with
      | some (.mapping entries) =>
        ((Yaml.members .texts entries).run {}).map fun r =>
          some (r.1.filterMap fun e => match e.1 with | .text s => some (s, e.2) | _ => none)
      | _ => none
  sameName a b := a == b

variable {τ : Type} (f : SettingsFormat τ)

/-- A record, field by field. An absent one stays as it is. -/
def record {α : Type} (setField : α → Bytes → τ → Option α) (start : α) (t : τ) : Option α :=
  match f.members t with
  | none => none
  | some none => some start
  | some (some members) => members.foldlM (fun a m => setField a m.1 m.2) start

def setChannel (c : Channel) (name : Bytes) (t : τ) : Option Channel :=
  if f.sameName name "name" then (f.text c.name t).map fun name => { c with name }
  else if f.sameName name "prefix" then (f.text c.lead t).map fun lead => { c with lead }
  else if f.sameName name "ext" then (f.text c.ext t).map fun ext => { c with ext }
  else some c

def setTemplates (d : TemplateDraft) (name : Bytes) (t : τ) : Option TemplateDraft :=
  let s := d.settings
  if f.sameName name "dir" then
    (f.text s.dir t).map fun dir => { d with settings := { s with dir } }
  else if f.sameName name "extensions" then
    (f.texts ⟨s.extensions, d.spare⟩ t).map fun l =>
      { settings := { s with extensions := l.items }, spare := l.spare }
  else if f.sameName name "unknownAsText" then
    (f.truth s.unknownAsText t).map fun unknownAsText => { d with settings := { s with unknownAsText } }
  else some d

def setBuild (d : BuildDraft) (name : Bytes) (t : τ) : Option BuildDraft :=
  let s := d.settings
  if f.sameName name "output" then
    (f.text s.output t).map fun output => { d with settings := { s with output } }
  else if f.sameName name "manifest" then
    (f.text s.manifest t).map fun manifest => { d with settings := { s with manifest } }
  else if f.sameName name "concurrency" then
    (f.number s.concurrency t).map fun concurrency => { d with settings := { s with concurrency } }
  else if f.sameName name "channels" then
    (f.channels (f.record f.setChannel) ⟨s.channels, d.spare⟩ t).map fun l =>
      { settings := { s with channels := l.items }, spare := l.spare }
  else some d

def setRender (s : RenderSettings) (name : Bytes) (t : τ) : Option RenderSettings :=
  if f.sameName name "cache" then (f.text s.cache t).map fun cache => { s with cache }
  else if f.sameName name "maxDepth" then
    (f.number s.maxDepth t).map fun maxDepth => { s with maxDepth }
  else some s

def setSection (d : SettingsDraft) (name : Bytes) (t : τ) : Option SettingsDraft :=
  if f.sameName name "templates" then
    (f.record f.setTemplates d.templates t).map fun templates => { d with templates }
  else if f.sameName name "build" then
    (f.record f.setBuild d.build t).map fun build => { d with build }
  else if f.sameName name "render" then
    (f.record f.setRender d.render t).map fun render => { d with render }
  else some d

/-- The settings that a tree holds. -/
def settings (t : τ) : Option Settings :=
  (f.record f.setSection {} t).map fun d =>
    { templates := d.templates.settings, build := d.build.settings, render := d.render }

end SettingsFormat

namespace Settings

/-- The settings of a project that says nothing. -/
def standard : Settings where
  templates := { dir := "templates", extensions := [".sg", ".html"] }
  build :=
    { output := "dist", manifest := "manifest.json", concurrency := 4, channels := Channel.standard }
  render := { cache := Policy.always.name, maxDepth := 32 }

/-- Puts the defaults where nothing is set. -/
def withDefaults (s : Settings) : Settings where
  templates :=
    { s.templates with
      dir := if s.templates.dir = [] then standard.templates.dir else s.templates.dir
      extensions :=
        if s.templates.extensions = [] then standard.templates.extensions
        else s.templates.extensions }
  build :=
    { output := if s.build.output = [] then standard.build.output else s.build.output
      manifest := if s.build.manifest = [] then standard.build.manifest else s.build.manifest
      concurrency :=
        if s.build.concurrency = 0 then standard.build.concurrency else s.build.concurrency
      channels := if s.build.channels = [] then standard.build.channels else s.build.channels }
  render :=
    { cache := if s.render.cache = [] then standard.render.cache else s.render.cache
      maxDepth := if s.render.maxDepth = 0 then standard.render.maxDepth else s.render.maxDepth }

/-- What is wrong with some channels, of which those with the names `seen` came before. -/
def channelProblem (seen : List Bytes) : List Channel → Option Failure
  | [] =>
    if seen.contains Compile.primaryLoader then none
    else some (.refused ("channels must include " ++ Text.quoted Compile.primaryLoader))
  | c :: cs =>
    if c.name = [] ∨ c.lead = [] ∨ c.ext = [] then
      some (.refused ("channel " ++ c.describe ++ " needs a name, prefix and ext"))
    else if seen.contains c.name then
      some (.refused ("duplicate channel " ++ Text.quoted c.name))
    else channelProblem (c.name :: seen) cs

/-- What is wrong with some settings. -/
def problem (s : Settings) : Option Failure :=
  match Policy.ofName s.render.cache with
  | .error f => some f
  | .ok _ =>
    if s.build.concurrency < 0 then some (.refused "build.concurrency must not be negative")
    else channelProblem [] s.build.channels

/-- The files that may hold the settings of a project, in the order in which they count. -/
def fileNames : List Bytes := ["sigil.yaml", "sigil.yml", "sigil.json"]

/-- The settings that the content of a file says. -/
def parse (name content : Bytes) : Except Failure Settings :=
  if Path.extension name = ".json" then
    match (Json.parse content).bind SettingsFormat.json.settings with
    | some s => .ok s
    | none => .error (.malformed "json")
  else
    match Yaml.parse content with
    | none => .error (.malformed "yaml")
    | some none => .ok {}
    | some (some node) =>
      match SettingsFormat.yaml.settings node with
      | some s => .ok s
      | none => .error (.malformed "yaml")

/-- The settings of a file, complete and checked. -/
def ofFile (name content : Bytes) : Except Failure Settings :=
  match parse name content with
  | .error f => .error (.within ("failed to parse " ++ name) f)
  | .ok s =>
    match s.withDefaults.problem with
    | some f => .error (.within ("invalid " ++ name) f)
    | none => .ok s.withDefaults

/-- The settings of the first file that exists. -/
def loadFrom (files : FileTree) (project : Bytes) : List Bytes → Except Failure Settings
  | [] => .ok standard
  | name :: names =>
    match files.read (Path.join [project, name]) with
    | .ok content => ofFile name content
    | .error e => if e.problem = .missing then loadFrom files project names else .error (.file e)

/-- The settings of the project in a directory. -/
def load (files : FileTree) (project : Bytes) : Except Failure Settings :=
  loadFrom files project fileNames

/-- The settings as they are written; what is empty is left out. -/
def toContent (s : Settings) : Yaml.Content :=
  let entry := Yaml.Content.member
  let text (name v : Bytes) : List (Yaml.Content × Yaml.Content) :=
    if v = [] then [] else [entry name (.text v)]
  let number (name : Bytes) (n : Int) : List (Yaml.Content × Yaml.Content) :=
    if n = 0 then [] else [entry name (.ofInt n)]
  let channel (c : Channel) : Yaml.Content :=
    .mapping [entry "name" (.text c.name), entry "prefix" (.text c.lead),
      entry "ext" (.text c.ext)]
  let list (name : Bytes) (items : List Yaml.Content) : List (Yaml.Content × Yaml.Content) :=
    if items.isEmpty then [] else [entry name (.sequence items)]
  .mapping
    [entry "templates" (.mapping (text "dir" s.templates.dir
        ++ list "extensions" (s.templates.extensions.map .text)
        ++ if s.templates.unknownAsText then [entry "unknownAsText" (.ofBool true)] else [])),
      entry "build" (.mapping (text "output" s.build.output ++ text "manifest" s.build.manifest
        ++ number "concurrency" s.build.concurrency
        ++ list "channels" (s.build.channels.map channel))),
      entry "render"
        (.mapping (text "cache" s.render.cache ++ number "maxDepth" s.render.maxDepth))]

/-- The text of settings. -/
def text (s : Settings) : Bytes := Yaml.write 4 s.toContent

/-- Writes settings to the file that counts first. -/
def save (s : Settings) (files : FileTree) (project : Bytes) : Except Failure FileTree :=
  (files.write (Path.join [project, "sigil.yaml"]) s.text).mapError Failure.file

/-- The policy for compiled templates. -/
def policy (s : Settings) : Policy := (Policy.ofName s.render.cache).toOption.getD .always

/-- The directory of the templates of a project. -/
def templateDir (s : Settings) (project : Bytes) : Bytes :=
  if Path.isRooted s.templates.dir then s.templates.dir
  else Path.join [project, s.templates.dir]

end Settings

end Stencil
