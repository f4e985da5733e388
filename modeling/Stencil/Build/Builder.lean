import Stencil.Build.Channel
import Stencil.Build.UnitRecord

/-!
# Builds

A builder collects text for each template and loader, by hand or from compiled templates, and then
writes each text that is not empty as an artifact and a manifest of them all. Compiled templates may
be kept in a store between builds.
-/
namespace Stencil

/-- A place where compiled templates are kept between builds, with `κ` for what it holds. -/
structure UnitStore (κ : Type) where
  get : (key : Bytes) → κ → Option Bytes × κ
  /-- `deps` are the templates that the unit was compiled from. -/
  put : (key data : Bytes) → (deps : List Bytes) → κ → Except Failure Unit × κ

/-- Units in memory. -/
def UnitStore.memory : UnitStore (Assoc Bytes Bytes) where
  get key held := (Assoc.get? key held, held)
  put key data _ held := (.ok (), Assoc.insert key data held)

/-- What was asked of a store. -/
inductive StoreAccess where
  | get (key : Bytes) (found : Bool)
  | put (key data : Bytes) (deps : List Bytes)
  deriving DecidableEq, Repr

/-- A store that notes what is asked of it, as far as it does it. -/
def UnitStore.noted {κ : Type} (store : UnitStore κ) : UnitStore (κ × List StoreAccess) where
  get key s :=
    let (found, k) := store.get key s.1
    (found, k, s.2 ++ [.get key found.isSome])
  put key data deps s :=
    match store.put key data deps s.1 with
    | (.ok _, k) => (.ok (), k, s.2 ++ [.put key data deps])
    | (.error f, k) => (.error f, k, s.2)

/-- One artifact of a template. -/
structure Artifact where
  loader : Bytes
  name : Bytes
  content : Bytes
  deriving DecidableEq, Repr

/-- What a build has collected. -/
structure Builder where
  registry : Directive.Registry
  options : Compile.Options := {}
  channels : List Channel := Channel.standard
  manifestName : Bytes := "manifest.json"
  /-- The text of each template and loader, templates in the order in which they were selected. -/
  buckets : Assoc Bytes (Assoc Bytes Bytes) := []
  /-- The template that text is added to. -/
  current : Bytes := []
  /-- The loader that text is added for. -/
  loader : Bytes := Compile.primaryLoader
  /-- Text was added while no template was selected. -/
  lostText : Bool := false

namespace Builder

/-- Makes a template the one that text is added to. -/
def select (b : Builder) (file : Bytes) : Builder :=
  { b with
    buckets := if Assoc.has file b.buckets then b.buckets else b.buckets ++ [(file, [])]
    current := file }

/-- Makes a loader the one that text is added for. -/
def use (b : Builder) (loader : Bytes) : Builder := { b with loader }

/-- Appends text for a loader to the selected template. -/
def addFor (b : Builder) (loader text : Bytes) : Builder :=
  if b.current = [] then { b with lostText := true }
  else
    let bucket := (Assoc.get? b.current b.buckets).getD []
    let whole := (Assoc.get? loader bucket).getD [] ++ text
    { b with buckets := Assoc.insert b.current (Assoc.insert loader whole bucket) b.buckets }

/-- Appends text for the selected loader to the selected template. -/
def add (b : Builder) (text : Bytes) : Builder := b.addFor b.loader text

/-- Adds a program and the texts for other loaders to a template. The template that was selected
before, if any, is selected again. -/
def addUnit (b : Builder) (path program : Bytes) (channels : Assoc Bytes Bytes) : Builder :=
  let added := (Assoc.sorted channels).foldl (fun b e => b.addFor e.1 e.2)
    ((b.select path).addFor Compile.primaryLoader program)
  if b.current = [] then added else { added with current := b.current }

/-- The key of a compiled template: the digest of all that its program depends on, apart from the
templates it includes. -/
def unitKey (b : Builder) (path src : Bytes) : Bytes :=
  Text.Digest.sha256
    (Bytes.join [0] ([path, src, b.options.fingerprint] ++ b.registry.definitions.map (·.name)))

/-- What came of adding a template. -/
structure Added (κ : Type) where
  builder : Builder
  store : κ
  errors : List Diagnostic := []
  failure : Option Failure := none
  log : List Bytes := []

/-- The record that is kept under a key, if it can still be used. -/
def kept? {κ : Type} (b : Builder) (store : UnitStore κ) (canceled : Bool) (key : Bytes) (k : κ) :
    Option UnitRecord × κ :=
  let (data, k) := store.get key k
  ((data.bind UnitRecord.decode).filter fun r => r.isFresh b.options.resolver canceled, k)

/-- Compiles a template and adds it; one without errors is kept in the store. -/
def compileFile {κ : Type} (b : Builder) (store : Option (UnitStore κ)) (canceled : Bool)
    (path src : Bytes) (k : κ) : Added κ :=
  let c := Compile.compileSource b.registry b.options path canceled src
  match c.result with
  | .error f => { builder := b, store := k, failure := some f, log := c.log }
  | .ok t =>
    match t.program with
    | .error e =>
      { builder := b, store := k, errors := t.errors, log := c.log
        failure := some (.within ("failed to link " ++ path) (.link e)) }
    | .ok p =>
      let b' := b.addUnit path p.encode t.channels
      match if t.errors = [] then store else none with
      | none => { builder := b', store := k, errors := t.errors, log := c.log }
      | some store =>
        let deps := path :: Bytes.sort (Assoc.keys t.deps)
        match store.put (b.unitKey path src) (UnitRecord.encode p t) deps k with
        | (.ok _, k) => { builder := b', store := k, log := c.log }
        | (.error f, k) =>
          { builder := b', store := k, log := c.log
            failure := some (.within ("failed to cache " ++ path) f) }

/-- Adds a template: from the store if it is there and still fresh, else by compiling it. Errors of
directives are reported beside; the template is added all the same. -/
def addFile {κ : Type} (b : Builder) (store : Option (UnitStore κ)) (canceled : Bool)
    (path src : Bytes) (k : κ) : Added κ :=
  match store with
  | none => b.compileFile store canceled path src k
  | some s =>
    match b.kept? s canceled (b.unitKey path src) k with
    | (some r, k) => { builder := b.addUnit path r.program r.channels, store := k }
    | (none, k) => b.compileFile store canceled path src k

/-- The loaders of a bucket: those of the channels in their order, then the others by name. -/
def loaderOrder (b : Builder) (bucket : Assoc Bytes Bytes) : List Bytes :=
  let known := b.channels.map (·.name)
  known.filter (fun name => Assoc.has name bucket)
    ++ Bytes.sort ((Assoc.keys bucket).filter fun name => !known.contains name)

/-- The artifacts of a template. Empty texts have none. -/
def artifacts (b : Builder) (file : Bytes) (bucket : Assoc Bytes Bytes) : List Artifact :=
  (b.loaderOrder bucket).filterMap fun loader =>
    let content := (Assoc.get? loader bucket).getD []
    if content = [] then none
    else some
      { loader, content
        name := (Channel.ofLoader b.channels loader).artifactName (baseName file) content }

/-- What the manifest says about some artifacts of one template. -/
def listing (as : List Artifact) : Listing where
  entry := ((as.filter fun a => a.loader == Compile.primaryLoader).getLast?.map (·.name)).getD []
  assets := some ((as.filter fun a => a.loader != Compile.primaryLoader).map (·.name))

/-- Writes artifacts up to the first that cannot be written. -/
def writeArtifacts {σ : Type} (sink : Sink σ) : List Artifact → σ → Except Failure Unit × σ
  | [], s => (.ok (), s)
  | a :: as, s =>
    match sink.write a.name a.content s with
    | (.ok _, s) => writeArtifacts sink as s
    | (.error f, s) => (.error f, s)

/-- Writes the artifacts of templates, with the manifest of those written. -/
def writeBuckets {σ : Type} (b : Builder) (sink : Sink σ) :
    Assoc Bytes (Assoc Bytes Bytes) → σ → Except Failure Manifest × σ
  | [], s => (.ok [], s)
  | (file, bucket) :: rest, s =>
    let as := b.artifacts file bucket
    match writeArtifacts sink as s with
    | (.error f, s) => (.error (.within ("failed to write artifact for " ++ file) f), s)
    | (.ok _, s) =>
      match writeBuckets b sink rest s with
      | (.error f, s) => (.error f, s)
      | (.ok m, s) => (.ok ((file, listing as) :: m), s)

/-- Writes all artifacts and then the manifest. -/
def build {σ : Type} (b : Builder) (sink : Sink σ) (s : σ) : Except Failure Manifest × σ :=
  if b.lostText then (.error .noFile, s)
  else match b.writeBuckets sink b.buckets s with
    | (.error f, s) => (.error f, s)
    | (.ok m, s) =>
      match sink.write b.manifestName (Manifest.text (some m)) s with
      | (.error f, s) => (.error (.within "failed to write manifest" f), s)
      | (.ok _, s) => (.ok m, s)

end Builder

end Stencil
